import SimpleDns.Server.View

/-!
# What a write leaves alone

`Frame F st st'` says that from `st` to `st'` the store has changed at keys of `F` only and the zone
table has kept its names. Each write of the server keeps the frame of a set that holds the keys it
writes. A serial bump adds one key, the ZONEMD of the zone.

* **`frame_srpApply`**: a registration writes the records of its host and its services under their
  names (`SrpRequest.Writes`), and one browse entry for each record of its discovery buckets.
-/

namespace SimpleDns.Server

open Wire Lib List

/-- From `st` to `st'` the store has changed at keys of `F` only. -/
structure Frame (F : Text → Prop) (st st' : State) : Prop where
  zones : zoneNames st'.zones = zoneNames st.zones
  store : ∀ k, ¬F k → st'.store k = st.store k

/-- `t_zone` is the zone named `z`. -/
def Serves (st : State) (tz : TZone) (z : Text) : Prop := ∃ e, st.zone tz = some e ∧ e.name = z

theorem getElem?_of_zoneNames {zs zs' : List ZoneEntry} (h : zoneNames zs' = zoneNames zs)
    (i : Nat) : (zs'[i]?).map (·.name) = (zs[i]?).map (·.name) := by
  have hi := congrArg (fun l => (l[i]?).map Prod.fst) h
  simpa [zoneNames, getElem?_map, Function.comp_def] using hi

/-- The ZONEMD key a bump may write. -/
def zonemdKey (S : Settings) (st : State) (tz : TZone) : Text :=
  zkey (State.zoneName S st tz) (lit "ZONEMD") (State.zoneName S st tz)

section Frame

variable {F : Text → Prop} {S : Settings} {z : Text} {st st₁ : State} {tz : TZone}

theorem Frame.refl (F : Text → Prop) (st : State) : Frame F st st := ⟨rfl, fun _ _ => rfl⟩

/-- The zone of the request keeps its name. -/
theorem Frame.serves (h : Frame F st st₁) (hs : Serves st tz z) : Serves st₁ tz z := by
  obtain ⟨e, he, rfl⟩ := hs
  obtain ⟨i, rfl, hi⟩ := Option.bind_eq_some_iff.mp he
  have hname := getElem?_of_zoneNames h.zones i
  rw [hi, Option.map_some] at hname
  exact Option.map_eq_some_iff.mp hname

theorem Serves.keyZone (h : Serves st tz z) : st.keyZone tz = z := by
  obtain ⟨e, he, rfl⟩ := h
  simp [State.keyZone, he]

theorem Serves.zoneName (h : Serves st tz z) : State.zoneName S st tz = z := by
  obtain ⟨e, he, rfl⟩ := h
  simp [State.zoneName, he]

/-- A write to one key of the frame. -/
theorem Frame.update (h : Frame F st st₁) {k : Text} (hk : F k) {st₂ : State}
    (hz : zoneNames st₂.zones = zoneNames st₁.zones)
    (hst : ∀ k', k' ≠ k → st₂.store k' = st₁.store k') : Frame F st st₂ := by
  refine ⟨hz.trans h.zones, fun k' hk' => ?_⟩
  rw [hst k', h.store k' hk']
  rintro rfl
  exact hk' hk

/-- A bump writes the ZONEMD of its zone and nothing else. -/
theorem Frame.bump (h : Frame F st st₁) (hzmd : F (zonemdKey S st₁ tz)) :
    Frame F st (Server.bump S st₁ tz).2 := by
  refine h.update hzmd ?_ fun k' hne => zonemdUpdate_of_ne hne
  simp only [Server.bump]
  cases tz with
  | none => rfl
  | some i => exact zoneNames_modify ..

theorem Frame.journaled {t : Nat × State} (h : Frame F st t.2) (zone : Text) (prev : Nat)
    (op : UInt8) (name value : Text) : Frame F st (journaled S zone prev op name value t) := by
  unfold Server.journaled
  split
  · exact h
  · exact ⟨h.zones, h.store⟩

/-- A transaction that stores one key. -/
theorem Frame.txnSet (h : Frame F st st₁) {k : Text} (hk : F k) (hzmd : F (zonemdKey S st₁ tz))
    (val : Text) (ttl : Nat) : Frame F st (txnSetAndBump S st₁ tz k val ttl).2 := by
  have hset : Frame F st { st₁ with store := vkSet st₁.store k val ttl } :=
    h.update hk rfl fun _ hne => vkSet_ne hne
  exact hset.bump hzmd

/-- A transaction that deletes keys. -/
theorem Frame.txnDel (h : Frame F st st₁) (ks : List Text) (hks : ∀ k ∈ ks, F k)
    (hzmd : F (zonemdKey S st₁ tz)) : Frame F st (txnDelAndBump S st₁ tz ks).2 := by
  have hdel : Frame F st { st₁ with store := ks.foldl vkDel st₁.store } := by
    clear hzmd
    induction ks generalizing st₁ with
    | nil => exact h
    | cons k ks ih =>
      obtain ⟨hk, hks⟩ := forall_mem_cons.mp hks
      have hone : Frame F st { st₁ with store := vkDel st₁.store k } :=
        h.update hk rfl fun _ hne => vkDel_ne hne
      exact ih hone hks
  exact hdel.bump hzmd

end Frame

/-! ## A registration -/

/-- The types of the records a host and a service own. -/
def srpHostTypes : List Text := [lit "A", lit "AAAA", lit "OWNER"]
def srpServiceTypes : List Text := [lit "SRV", lit "TXT", lit "OWNER"]

/-- The target of a browse record that is added or deleted. -/
def srpPointer (pkt : Bytes) (rr : SrpRR) : Option Text :=
  if rr.cls = RRClass.IN ∨ rr.cls = RRClass.NONE then (nameFromWire pkt rr.rdoff 256).map (·.1)
  else none

/-- The types and names a registration writes under. -/
def SrpRequest.Writes (req : SrpRequest) (pkt : Bytes) (type name : Text) : Prop :=
  (type ∈ srpHostTypes ∧ name = req.host.name) ∨
    (type ∈ srpServiceTypes ∧ ∃ svc ∈ req.services, name = svc.name) ∨
    (type = lit "PTR" ∧ ∃ d ∈ req.discovery, ∃ rr ∈ d.rrs, ∃ target,
      srpPointer pkt rr = some target ∧ name = d.name ++ [colon] ++ target)

section Srp

variable {F : Text → Prop} {S : Settings} {z : Text} {st st₁ : State} {tz : TZone}
  (hs : Serves st tz z) (hzmd : F (zkey z (lit "ZONEMD") z))

include hs

variable {type name : Text}

section

variable (h : Frame F st st₁)

include h

theorem Frame.key (hk : F (skey z type name)) : F (skey (st₁.keyZone tz) type name) := by
  rwa [(h.serves hs).keyZone]

theorem Frame.srpSetOwner (hk : F (skey z (lit "OWNER") name)) (owner : Text)
    (keyLease : Nat) : Frame F st (srpSetOwner st₁ tz name owner keyLease) :=
  h.update (h.key hs hk) rfl fun _ hne => vkSet_ne hne

theorem Frame.srpPutTxt (pkt : Bytes) (lease : Nat) {svc : SrpBucket}
    (hk : F (skey z (lit "TXT") svc.name)) :
    Frame F st (srpPutTxt st₁ tz pkt lease svc) := by
  unfold Server.srpPutTxt
  split
  · dsimp only
    split
    · exact h.update (h.key hs hk) rfl fun _ hne => vkSet_ne hne
    · exact h
  · exact h

include hzmd

theorem Frame.zonemd : F (zonemdKey S st₁ tz) := by
  rwa [zonemdKey, (h.serves hs).zoneName]

theorem Frame.srpDrop (hk : F (skey z type name)) :
    Frame F st (srpDrop S st₁ tz type name) := by
  unfold Server.srpDrop
  dsimp only
  split
  · exact (h.txnDel _ (by simpa using h.key hs hk) (h.zonemd hs hzmd)).journaled ..
  · exact h

theorem Frame.srpPut (hk : F (skey z type name)) (val : Text) (lease : Nat) :
    Frame F st (srpPut S st₁ tz type name val lease) :=
  (h.txnSet (h.key hs hk) (h.zonemd hs hzmd) val lease).journaled ..

theorem Frame.srpPutAddresses (hk : F (skey z type name)) (lease : Nat) (ips : List Text) :
    Frame F st (srpPutAddresses S st₁ tz type name lease ips) := by
  unfold Server.srpPutAddresses
  split
  · exact h
  · exact h.srpPut hs hzmd hk ..

theorem Frame.srpApplyHost (pkt : Bytes) (lease keyLease : Nat) (owner : Text) {host : SrpBucket}
    (hk : ∀ type ∈ srpHostTypes, F (skey z type host.name)) :
    Frame F st (srpApplyHost S st₁ tz pkt lease keyLease owner host) := by
  have hkA := hk (lit "A") (by decide)
  have hkAAAA := hk (lit "AAAA") (by decide)
  have hA := h.srpDrop (S := S) hs hzmd hkA
  have hAAAA := hA.srpDrop (S := S) hs hzmd hkAAAA
  have hputA := hAAAA.srpPutAddresses (S := S) hs hzmd hkA lease (srpHostA pkt host)
  have hputAAAA := hputA.srpPutAddresses (S := S) hs hzmd hkAAAA lease (srpHostAAAA pkt host)
  exact hputAAAA.srpSetOwner hs (hk _ (by decide)) owner keyLease

theorem Frame.srpApplyService (pkt : Bytes) (lease keyLease : Nat) (owner : Text)
    {svc : SrpBucket} (hk : ∀ type ∈ srpServiceTypes, F (skey z type svc.name)) :
    Frame F st (srpApplyService S tz pkt lease keyLease owner st₁ svc).2 := by
  have hkSrv := hk (lit "SRV") (by decide)
  have hkTxt := hk (lit "TXT") (by decide)
  have hkOwner := hk (lit "OWNER") (by decide)
  have hdrop := h.srpDrop (S := S) hs hzmd hkSrv
  have hclear : Frame F st (srpClearService S st₁ tz svc.name) :=
    hdrop.update (hdrop.key hs hkTxt) rfl fun _ hne => vkDel_ne hne
  unfold Server.srpApplyService
  split
  · exact hclear.update (hclear.key hs hkOwner) rfl fun _ hne => vkDel_ne hne
  · split
    · exact hclear
    · refine Frame.srpSetOwner hs ?_ hkOwner owner keyLease
      exact (hclear.srpPut hs hzmd hkSrv ..).srpPutTxt hs pkt lease hkTxt

theorem Frame.srpApplyServices (pkt : Bytes) (lease keyLease : Nat) (owner : Text)
    {svcs : List SrpBucket}
    (hk : ∀ svc ∈ svcs, ∀ type ∈ srpServiceTypes, F (skey z type svc.name)) :
    Frame F st (srpApplyServices S tz pkt lease keyLease owner svcs st₁).2 := by
  induction svcs generalizing st₁ with
  | nil => exact h
  | cons svc svcs ih =>
    obtain ⟨hsvc, hsvcs⟩ := forall_mem_cons.mp hk
    have hone := h.srpApplyService (S := S) hs hzmd pkt lease keyLease owner hsvc
    unfold Server.srpApplyServices
    dsimp only
    split
    · exact ih hone hsvcs
    · exact hone

/-- One browse record writes the entry of its target, if it adds or deletes one. -/
theorem Frame.srpApplyPtr (pkt : Bytes) (lease : Nat) {browse : Text} {rr : SrpRR}
    (hk : ∀ target ∈ srpPointer pkt rr,
      F (skey z (lit "PTR") (browse ++ [colon] ++ target))) :
    Frame F st (srpApplyPtr S tz pkt lease browse st₁ rr) := by
  unfold Server.srpApplyPtr
  cases hname : nameFromWire pkt rr.rdoff 256 with
  | none => exact h
  | some t =>
    obtain ⟨target, e⟩ := t
    have hkey : rr.cls = RRClass.IN ∨ rr.cls = RRClass.NONE →
        F (skey (st₁.keyZone tz) (lit "PTR") (browse ++ [colon] ++ target)) :=
      fun hcls => h.key hs (hk target (by simp [srpPointer, hcls, hname]))
    dsimp only
    split
    · rename_i hin
      exact (h.txnSet (hkey (.inl hin)) (h.zonemd hs hzmd) _ _).journaled ..
    · split
      · rename_i hnone
        exact (h.txnDel _ (by simpa using hkey (.inr hnone)) (h.zonemd hs hzmd)).journaled ..
      · exact h

theorem Frame.foldl_srpApplyPtr (pkt : Bytes) (lease : Nat) {browse : Text} {rrs : List SrpRR}
    (hk : ∀ rr ∈ rrs, ∀ target ∈ srpPointer pkt rr,
      F (skey z (lit "PTR") (browse ++ [colon] ++ target))) :
    Frame F st (rrs.foldl (Server.srpApplyPtr S tz pkt lease browse) st₁) := by
  induction rrs generalizing st₁ with
  | nil => exact h
  | cons rr rrs ih =>
    obtain ⟨hrr, hrrs⟩ := forall_mem_cons.mp hk
    exact ih (h.srpApplyPtr hs hzmd pkt lease hrr) hrrs

theorem Frame.srpApplyDiscovery (pkt : Bytes) (lease : Nat) {ds : List SrpBucket}
    (hk : ∀ d ∈ ds, ∀ rr ∈ d.rrs, ∀ target ∈ srpPointer pkt rr,
      F (skey z (lit "PTR") (d.name ++ [colon] ++ target))) :
    Frame F st (srpApplyDiscovery S tz pkt lease ds st₁) := by
  unfold Server.srpApplyDiscovery
  induction ds generalizing st₁ with
  | nil => exact h
  | cons d ds ih =>
    obtain ⟨hd, hds⟩ := forall_mem_cons.mp hk
    exact ih (h.foldl_srpApplyPtr hs hzmd pkt lease hd) hds

end

include hzmd

/-- **What a registration leaves alone**: every key but the ones it writes and the ZONEMD of its
zone. -/
theorem frame_srpApply (pkt : Bytes) (ul : UpdateLease) {req : SrpRequest}
    (hk : ∀ type name, req.Writes pkt type name → F (skey z type name)) :
    Frame F st (srpApply S st tz pkt ul req).2 := by
  unfold srpApply
  dsimp only
  have hhost := (Frame.refl F st).srpApplyHost (S := S) hs hzmd pkt (srpLease S ul).1
    (srpLease S ul).2 (srpOwnerWrite req.key)
    fun type ht => hk type _ (.inl ⟨ht, rfl⟩)
  have hsvcs := hhost.srpApplyServices (S := S) hs hzmd pkt (srpLease S ul).1 (srpLease S ul).2
    (srpOwnerWrite req.key)
    fun svc hsvc type ht => hk type _ (.inr (.inl ⟨ht, svc, hsvc, rfl⟩))
  split
  · exact hsvcs.srpApplyDiscovery hs hzmd pkt _ fun d hd rr hrr target ht =>
      hk _ _ (.inr (.inr ⟨rfl, d, hd, rr, hrr, target, ht, rfl⟩))
  · exact hsvcs

end Srp

end SimpleDns.Server
