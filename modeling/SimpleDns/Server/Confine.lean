import SimpleDns.Server.Frame
import SimpleDns.Server.Handle

/-!
# What an UPDATE can reach (`handle_update`, `dns_server.c:8047-8353`)

Every key is composed from the zone the request selected and an owner name of the packet, and
nothing compares that owner with the zone. `Inside` is the frame that is kept by every write of the
handler: outside the footprint of the request the store is as it was, and the zone table keeps its
names.

* **`handleUpdate_confined`**: an update changes keys of the zone its zone section names first and,
  with automatic PTRs, of the zones that hold the reverse names of addresses.
* `update_leaves_zone`: an owner outside that zone, a reverse zone, and an update without a zone.
* **`mutation_authenticated`**: with a TSIG secret configured, nothing changes without a TSIG, a
  SIG(0), or the signature of a registration under its own KEY.
-/

namespace SimpleDns.Server

open Wire Lib List Option RRType

/-! ## Footprints -/

/-- A record key of the zone `z` with an owner of `O`, or the ZONEMD of its apex. -/
def KeyOf (z : Text) (O : Text → Prop) (k : Text) : Prop :=
  (∃ ns ∈ namespaces, ∃ type owner, O owner ∧ k = recordKey ns z type owner) ∨
    k = zkey z (lit "ZONEMD") z

/-- The automatic PTR of an address, in the configured zone that holds its reverse name, or the
ZONEMD of that zone's apex. -/
def ReverseKey (S : Settings) (zones : List ZoneEntry) (k : Text) : Prop :=
  S.ddnsAutoPtr = true ∧ ∃ ip rev j e, ddnsReverseName ip = some rev ∧
    zoneForQname zones rev = some j ∧ zones[j]? = some e ∧
    (k = dkey e.name (lit "PTR") rev ∨ k = zkey e.name (lit "ZONEMD") e.name)

/-- The footprint of a request on the zone `z` with owners of `O`. -/
def Footprint (S : Settings) (zones : List ZoneEntry) (z : Text) (O : Text → Prop) (k : Text) :
    Prop :=
  KeyOf z O k ∨ ReverseKey S zones k

/-- From `st` to `st'` the store has changed in the footprint only. -/
abbrev Inside (S : Settings) (z : Text) (O : Text → Prop) (st st' : State) : Prop :=
  Frame (Footprint S st.zones z O) st st'

section Update

variable {S : Settings} {z : Text} {O : Text → Prop} {st st₁ : State} {tz : TZone}

theorem Serves.zonemdKey (h : Serves st tz z) : KeyOf z O (zonemdKey S st tz) := by
  rw [Server.zonemdKey, h.zoneName]
  exact .inr rfl

/-! ## The update loop -/

theorem exists_zone_of_zoneForQname {zs : List ZoneEntry} {q : Text} {j : Nat}
    (h : zoneForQname zs q = some j) : ∃ e, zs[j]? = some e := by
  obtain ⟨⟨j', len⟩, hloop, rfl⟩ := map_eq_some_iff.mp h
  obtain hbest | ⟨-, e, he, -⟩ := zoneLoop_matches hloop
  · cases hbest
  · exact ⟨e, he⟩

/-- The automatic PTR stays in the zone of the reverse name. -/
theorem Inside.autoPtrApply (h : Inside S z O st st₁) (fqdn ip : Text) (ttl : Nat)
    (del doBump : Bool) : Inside S z O st (autoPtrApply S st₁ fqdn ip ttl del doBump) := by
  unfold Server.autoPtrApply
  split
  · exact h
  rename_i hauto
  split
  · exact h
  rename_i rev hrev
  split
  · exact h
  rename_i j hj
  obtain ⟨e, he⟩ := exists_zone_of_zoneForQname hj
  have hserves : Serves st₁ (some j) e.name := ⟨e, he, rfl⟩
  rw [zoneForQname_congr h.zones] at hj
  -- the name of the reverse zone is the one it had before the update
  obtain ⟨e₀, he₀, hname⟩ : ∃ e₀, st.zones[j]? = some e₀ ∧ e₀.name = e.name := by
    have heq := getElem?_of_zoneNames h.zones j
    rw [he, map_some, eq_comm] at heq
    exact map_eq_some_iff.mp heq
  have hfoot : ∀ k, k = dkey e.name (lit "PTR") rev ∨ k = zkey e.name (lit "ZONEMD") e.name →
      Footprint S st.zones z O k := fun k hk =>
    .inr ⟨by simpa using hauto, ip, rev, j, e₀, hrev, hj, he₀, hname ▸ hk⟩
  have hkey : Footprint S st.zones z O (dkey e.name (lit "PTR") rev) := hfoot _ (.inl rfl)
  have hzmd : Footprint S st.zones z O (zonemdKey S st₁ (some j)) := by
    rw [Server.zonemdKey, hserves.zoneName]
    exact hfoot _ (.inr rfl)
  rw [hserves.keyZone]
  dsimp only
  split
  · exact h
  split
  · exact h.update hkey rfl fun k hne => by
      split
      · exact vkDel_ne hne
      · exact vkSet_ne hne
  · refine Frame.journaled ?_ ..
    cases del with
    | true => exact h.txnDel _ (by simpa using hkey) hzmd
    | false => exact h.txnSet hkey hzmd _ _

/-- The footprint of the zone itself. -/
theorem footprint_own {ns type owner : Text} (hns : ns ∈ namespaces) (ho : O owner) :
    Footprint S st.zones z O (recordKey ns z type owner) :=
  .inl (.inl ⟨ns, hns, type, owner, ho, rfl⟩)

section

variable (h : Inside S z O st st₁) (hs : Serves st tz z)

include h hs

theorem Inside.zonemd : Footprint S st.zones z O (zonemdKey S st₁ tz) :=
  .inl (h.serves hs).zonemdKey

theorem Inside.addAddress {name : Text} (ho : O name) (ttl : Nat) (type ip : Text) (oldSize : Nat) :
    Inside S z O st (addAddress S st₁ tz name ttl type ip oldSize) := by
  have hkey : Footprint S st.zones z O (dkey (st₁.keyZone tz) type name) := by
    rw [(h.serves hs).keyZone]
    exact footprint_own (by decide) ho
  unfold Server.addAddress
  dsimp only
  split
  · refine Inside.autoPtrApply ?_ ..
    exact h.update hkey rfl fun _ hne => vkSet_ne hne
  · refine Inside.autoPtrApply ?_ ..
    have hset := (h.txnSet hkey (h.zonemd hs) ip (ttlOr ttl)).journaled (S := S)
      (State.zoneName S st₁ tz) (st₁.serial tz) opAdd name ip
    split
    · split
      · exact hset
      · exact Inside.autoPtrApply hset ..
    · exact hset

theorem Inside.delAddress {name : Text} (ho : O name) (type : Text) (oldSize : Nat) :
    Inside S z O st (delAddress S st₁ tz name type oldSize) := by
  have hkey : Footprint S st.zones z O (dkey (st₁.keyZone tz) type name) := by
    rw [(h.serves hs).keyZone]
    exact footprint_own (by decide) ho
  unfold Server.delAddress
  dsimp only
  split
  · exact h.update hkey rfl fun _ hne => vkDel_ne hne
  · have hdel := h.txnDel [dkey (st₁.keyZone tz) type name] (by simpa using hkey)
      (h.zonemd hs)
    split
    · exact hdel
    · refine Inside.autoPtrApply ?_ ..
      exact ⟨hdel.zones, hdel.store⟩

/-- **One update record stays inside.** -/
theorem Inside.applyUpdateRR (pkt : Bytes) {r : UpdateRR} (ho : O r.name) :
    Inside S z O st (applyUpdateRR S tz pkt st₁ r) := by
  have hz : ∀ type, Footprint S st.zones z O (zkey (st₁.keyZone tz) type r.name) := by
    intro type
    rw [(h.serves hs).keyZone]
    exact footprint_own (by decide) ho
  unfold Server.applyUpdateRR
  split
  · unfold applyAdd
    split
    · exact h.addAddress hs ho ..
    · split
      · exact h.txnSet (hz _) (h.zonemd hs) _ _
      · exact h
  split
  · unfold applyDelete
    dsimp only
    have hdel : ∀ {st₂ : State} (c : Prop) [Decidable c] (type : Text) (oldSize : Nat),
        Inside S z O st st₂ →
        Inside S z O st (if c then Server.delAddress S st₂ tz r.name type oldSize else st₂) := by
      intro st₂ c _ type oldSize h₂
      split
      · exact h₂.delAddress hs ho ..
      · exact h₂
    have hboth := hdel (r.type = AAAA ∨ r.type = ANY) (lit "AAAA") 46
      (hdel (r.type = RRType.A ∨ r.type = ANY) (lit "A") 64 h)
    split
    · exact hboth
    · refine hboth.txnDel _ ?_ (hboth.zonemd hs)
      intro k hk
      obtain ⟨type, -, rfl⟩ := mem_map.mp hk
      exact hz type
  · exact h

/-- **The update loop stays inside.** -/
theorem Inside.foldl_applyUpdateRR (pkt : Bytes) {rs : List UpdateRR} (ho : ∀ r ∈ rs, O r.name) :
    Inside S z O st (rs.foldl (Server.applyUpdateRR S tz pkt) st₁) := by
  induction rs generalizing st₁ with
  | nil => exact h
  | cons r rs ih =>
    obtain ⟨hr, hrs⟩ := forall_mem_cons.mp ho
    exact ih (h.applyUpdateRR hs pkt hr) hrs

end

end Update

/-! ## A registration -/

variable {pkt : Bytes}

variable {S : Settings} {st : State} {tz : TZone}

/-- **A registration stays inside.** -/
theorem inside_srpApply {z : Text} {O : Text → Prop} (hs : Serves st tz z) (pkt : Bytes)
    (ul : UpdateLease) {req : SrpRequest} (hO : ∀ type owner, req.Writes pkt type owner → O owner) :
    Inside S z O st (srpApply S st tz pkt ul req).2 :=
  (frame_srpApply hs (.inl (.inr rfl)) pkt ul fun _ _ hw =>
    footprint_own (by decide) (hO _ _ hw))

/-! ## Confinement -/

/-- The zone section names the zone `e` first, and `e` is served under exactly that name. -/
def NamesZone (st : State) (pkt : Bytes) (tz : TZone) (e : ZoneEntry) : Prop :=
  ∃ zn za, nameFromWire pkt 12 256 = some (zn, za) ∧ tz = zoneForQname st.zones zn ∧
    st.zone tz = some e ∧ eqCI e.name zn = true

variable {n off : Nat}

/-- Behind the first name the zone section selects nothing. -/
theorem zoneSection_rest {zones : List ZoneEntry} {off' : Nat} {tz' : TZone}
    (h : zoneSection zones pkt n false off tz = .ok (tz', off')) : tz' = tz := by
  induction n generalizing off with
  | zero =>
    cases h
    rfl
  | succ n ih =>
    unfold zoneSection at h
    split at h
    · cases h
    · simp only [Bool.false_and, Bool.false_eq_true, if_false] at h
      split at h
      · cases h
      · exact ih h

theorem namesZone_of_zoneSection {off' : Nat}
    (h : zoneSection st.zones pkt (n + 1) true 12 none = .ok (tz, off')) :
    ∃ e, NamesZone st pkt tz e := by
  unfold zoneSection at h
  split at h
  · cases h
  rename_i zn za hname
  simp only [Bool.true_and, if_true] at h
  split at h
  · cases h
  rename_i hnamed
  split at h
  · cases h
  obtain rfl := zoneSection_rest h
  simp only [Bool.not_eq_true', Bool.not_eq_false, Option.any_eq_true] at hnamed
  obtain ⟨i, hi, e, he, heq⟩ := hnamed
  exact ⟨e, zn, za, hname, rfl, by rw [hi]; exact he, heq⟩

/-- The ways through the request: the zone section, and a registration, a SIG(0) or the TSIG
gate. -/
theorem updateRoute_cases {C : Crypto} {now : Nat} {route : Route}
    (h : updateRoute S C now st pkt = .ok route) :
    ∃ tz off, zoneSection st.zones pkt (qdcount pkt) true 12 none = .ok (tz, off) ∧
      ((∃ ul, route = .srp tz ul off) ∨
        (∃ off', route = .update tz off') ∧ (sig0Verify C now st tz pkt = true ∨
          S.tsigSecret = [] ∨ tsigVerify C S.tsigSecret pkt = true)) := by
  unfold updateRoute at h
  split at h
  · cases h
  split at h
  · cases h
  rename_i hgate
  split at h
  · cases h
  rename_i tz off hzone
  refine ⟨tz, off, hzone, ?_⟩
  split at h
  · split at h
    · cases h
      exact .inl ⟨_, rfl⟩
    · cases h
  split at h
  · cases h
  rename_i hsig
  split at h
  · cases h
  cases h
  refine .inr ⟨⟨_, rfl⟩, ?_⟩
  simp only [Bool.and_eq_true, Bool.not_eq_true', bne_iff_ne, not_and, Bool.not_eq_false]
    at hgate hsig
  cases hpresent : sig0Present pkt with
  | true => exact .inl (hsig hpresent)
  | false =>
    by_cases hsecret : S.tsigSecret = []
    · exact .inr (.inl hsecret)
    · exact .inr (.inr (hgate ⟨hpresent, hsecret⟩))

/-- The records of the plan have passed the name policy. -/
theorem allowed_of_mem_updatePlan {r : UpdateRR} (h : r ∈ (updatePlan S pkt n off).1) :
    ddnsNameAllowed S r.name = true := by
  induction n generalizing off with
  | zero => cases h
  | succ n ih =>
    unfold updatePlan at h
    split at h
    · cases h
    rename_i r' _
    split at h
    · rename_i hcheck
      obtain rfl | hrest := mem_cons.mp h
      · unfold checkUpdateRR at hcheck
        split at hcheck
        · cases hcheck
        · rename_i hallowed
          simpa using hallowed
      · exact ih hrest
    · cases h

/-- The state a routed update leaves, if it comes to the end of its route. -/
def Route.Leaves (S : Settings) (C : Crypto) (now : Nat) (st : State) (pkt : Bytes) :
    Route → State → Prop
  | .update tz off, st' =>
      st' = (updatePlan S pkt (nscount pkt) off).1.foldl (applyUpdateRR S tz pkt) st
  | .srp tz ul off, st' => ∃ req, srpValidate C now st tz pkt off = .ok req ∧
      st' = (srpApply S st tz pkt ul req).2

/-- An update that changes something has come to the end of a route. -/
theorem handleUpdate_cases {C : Crypto} {now : Nat} {st' : State} {rc : Rcode}
    (h : handleUpdate S C now st pkt = some (rc, st')) (hne : st' ≠ st) :
    ∃ route, updateRoute S C now st pkt = .ok route ∧ route.Leaves S C now st pkt st' := by
  unfold handleUpdate at h
  split at h
  · cases h
  split at h
  · cases h
    exact absurd rfl hne
  · rename_i tz off hroute
    rw [updateLoop_eq] at h
    cases h
    exact ⟨_, hroute, rfl⟩
  · rename_i tz ul off hroute
    unfold srpHandleUpdate at h
    split at h
    · cases h
      exact absurd rfl hne
    · rename_i req hreq
      exact ⟨_, hroute, req, hreq, (congrArg Prod.snd (some.inj h)).symm⟩

/-- The owners of the keys a routed update writes: those of its update section, which
`config:ddns_allow_suffix` admits, or the host, the services and the browse entries of a
registration. -/
def Route.Owner (S : Settings) (C : Crypto) (now : Nat) (st : State) (pkt : Bytes) :
    Route → Text → Prop
  | .update _ off, owner => ddnsNameAllowed S owner = true ∧
      ∃ r ∈ (updatePlan S pkt (nscount pkt) off).1, owner = r.name
  | .srp tz _ off, owner => ∃ req type, srpValidate C now st tz pkt off = .ok req ∧
      req.Writes pkt type owner

/-- **An update stays in its zone and in the reverse zones**: what it changes are records of the
zone its zone section names first, at owners of its update section, and automatic PTRs. Where that
name is no configured zone's, nothing changes. -/
theorem handleUpdate_confined {S : Settings} {C : Crypto} {now : Nat} {st st' : State}
    {pkt : Bytes} {rc : Rcode} (hq : 0 < qdcount pkt)
    (h : handleUpdate S C now st pkt = some (rc, st')) (hne : st' ≠ st) :
    ∃ route tz e, updateRoute S C now st pkt = .ok route ∧ NamesZone st pkt tz e ∧
      ∀ k, st'.store k ≠ st.store k →
        Footprint S st.zones e.name (route.Owner S C now st pkt) k := by
  obtain ⟨n, hn⟩ : ∃ n, qdcount pkt = n + 1 := ⟨qdcount pkt - 1, by omega⟩
  obtain ⟨route, hroute, hrun⟩ := handleUpdate_cases h hne
  obtain ⟨tz, off, hzone, hways⟩ := updateRoute_cases hroute
  rw [hn] at hzone
  obtain ⟨e, he⟩ := namesZone_of_zoneSection hzone
  have hserves : Serves st tz e.name := ⟨e, he.choose_spec.choose_spec.2.2.1, rfl⟩
  refine ⟨route, tz, e, hroute, he, fun k hk => not_not.mp fun hout => hk ?_⟩
  obtain ⟨ul, rfl⟩ | ⟨⟨off', rfl⟩, -⟩ := hways
  · obtain ⟨req, hreq, rfl⟩ := hrun
    exact (inside_srpApply hserves pkt ul fun type owner hw => ⟨req, type, hreq, hw⟩).store k hout
  · obtain rfl := hrun
    exact (Inside.foldl_applyUpdateRR (Frame.refl _ st) hserves pkt
      fun r hr => ⟨allowed_of_mem_updatePlan hr, r, hr, rfl⟩).store k hout

/-! ## Where an update goes -/

/-- A primary for `z` and a reverse zone, with automatic PTRs and no name policy. -/
def openSettings : Settings := { sampleSettings with ddnsAllowSuffix := [], ddnsAutoPtr := true }

/-- The zone `z` and the reverse zone of 192.0.2.0/24, empty. -/
def twoZones : State :=
  { sampleState with zones := [⟨lit "z", 1, true⟩, ⟨lit "2.0.192.in-addr.arpa", 1, true⟩] }

/-- An update with the zones `zs` in its zone section that adds an address to `b.y`. -/
def strayUpdate (zs : List Text) : Option Bytes := do
  let ws ← zs.mapM (nameToWire · 256)
  let zones := ws.flatMap (· ++ put16 SOA ++ put16 RRClass.IN)
  appendRRPlain (header 7 0x2800 zs.length 0 1 0 ++ zones) 512 (lit "b.y") RRType.A RRClass.IN 60
    [192, 0, 2, 1]

/-- The values of two keys after an update. -/
def valuesAfter (pkt : Option Bytes) (k k' : Text) : Option (Option Text × Option Text) :=
  (pkt.bind (handleUpdate openSettings .sample 0 twoZones)).map fun r =>
    ((r.2.store k).map (·.value), (r.2.store k').map (·.value))

/-- **An update leaves its zone**: the owner `b.y` is not below `z`, and the PTR of its address lies
in the reverse zone. A second zone in the zone section does not matter, and an update without a zone
section writes as well. -/
theorem update_leaves_zone :
    valuesAfter (strayUpdate [lit "z", lit "nowhere"]) (lit "ddns:z:A:b.y")
        (lit "ddns:2.0.192.in-addr.arpa:PTR:1.2.0.192.in-addr.arpa") =
      some (some (lit "192.0.2.1"), some (lit "b.y")) ∧
    valuesAfter (strayUpdate []) (lit "ddns::A:b.y")
        (lit "ddns:2.0.192.in-addr.arpa:PTR:1.2.0.192.in-addr.arpa") =
      some (some (lit "192.0.2.1"), some (lit "b.y")) ∧
    zoneMatches (lit "z") (lit "b.y") = false ∧ ∀ k, twoZones.store k = none := by
  refine ⟨by decide +kernel, by decide +kernel, by decide, fun k => rfl⟩

/-- What the confinement says about that update. -/
theorem stray_update_confined :
    ∃ pkt rc st', strayUpdate [lit "z"] = some pkt ∧
      handleUpdate openSettings .sample 0 twoZones pkt = some (rc, st') ∧ st' ≠ twoZones ∧
      ∃ route tz e, updateRoute openSettings .sample 0 twoZones pkt = .ok route ∧
        NamesZone twoZones pkt tz e ∧ ∀ k, st'.store k ≠ twoZones.store k →
          Footprint openSettings twoZones.zones e.name
            (route.Owner openSettings .sample 0 twoZones pkt) k := by
  obtain ⟨pkt, hpkt, hqd, ⟨rc, st'⟩, hst, hstored⟩ : ∃ pkt, strayUpdate [lit "z"] = some pkt ∧
      0 < qdcount pkt ∧ ∃ r, handleUpdate openSettings .sample 0 twoZones pkt = some r ∧
        r.2.store (lit "ddns:z:A:b.y") ≠ none := by decide +kernel
  have hne : st' ≠ twoZones := by
    rintro rfl
    exact hstored rfl
  exact ⟨pkt, rc, st', hpkt, hst, hne, handleUpdate_confined hqd hst hne⟩

/-! ## Authentication -/

/-- The registration whose update section starts at `off` is signed under a KEY it carries. -/
def SelfSigned (C : Crypto) (now : Nat) (pkt : Bytes) (off : Nat) : Prop :=
  ∃ sigOff sig bs b rr, sig0Find pkt = some (sigOff, sig) ∧
    srpParseBuckets pkt (nscount pkt) off [] = some bs ∧ b ∈ bs ∧ rr ∈ b.rrs ∧
    rr.type = KEY ∧ rr.cls = RRClass.IN ∧
    sig0VerifyWithKey C now pkt sigOff sig (srpKey pkt rr) = true

/-- The host bucket is one of the sorted buckets. -/
theorem srpSort_host {bs : List SrpBucket} {s s' : SrpSorted} {b : SrpBucket}
    (h : srpSort bs s = some s') (hb : s'.host = some b) : s.host = some b ∨ b ∈ bs := by
  induction bs generalizing s with
  | nil =>
    cases h
    exact .inl hb
  | cons c bs ih =>
    unfold srpSort at h
    split at h
    · split at h
      · cases h
      · obtain hhost | hmem := ih h
        · cases hhost
          exact .inr mem_cons_self
        · exact .inr (mem_cons_of_mem _ hmem)
    · exact (ih h).imp_right (mem_cons_of_mem _)
    · exact (ih h).imp_right (mem_cons_of_mem _)
    · cases h

/-- A validated registration is signed under its own KEY. -/
theorem selfSigned_of_srpValidate {C : Crypto} {now : Nat} {st : State} {tz : TZone} {pkt : Bytes}
    {off : Nat} {req : SrpRequest} (h : srpValidate C now st tz pkt off = .ok req) :
    SelfSigned C now pkt off := by
  have hvalid := srpValid_of_srpValidate h
  obtain ⟨sigOff, sig, hsig, hverify⟩ := hvalid.signed
  obtain ⟨bs, hbs, hsort⟩ := bind_eq_some_iff.mp hvalid.sections
  obtain ⟨hkey, hfind, hkeyEq⟩ := map_eq_some_iff.mp hvalid.key
  have hshape := find?_some hfind
  simp only [Bool.and_eq_true, beq_iff_eq] at hshape
  refine ⟨sigOff, sig, bs, req.host, hkey, hsig, hbs, ?_, mem_of_find?_eq_some hfind,
    hshape.1, hshape.2, by rwa [hkeyEq]⟩
  exact (srpSort_host hsort rfl).resolve_left (by simp)

/-- **Nothing changes without authentication**: with a TSIG secret configured, an update that
changes the server (store, serials, journals) carried a valid TSIG, or a SIG(0) of a key of the
zone, or was a registration signed under the KEY it carries. -/
theorem mutation_authenticated {S : Settings} {C : Crypto} {now : Nat} {st st' : State}
    {pkt : Bytes} {rc : Rcode} (hsecret : S.tsigSecret ≠ [])
    (h : handleUpdate S C now st pkt = some (rc, st')) (hne : st' ≠ st) :
    tsigVerify C S.tsigSecret pkt = true ∨
      (∃ tz off, updateRoute S C now st pkt = .ok (.update tz off) ∧
        sig0Verify C now st tz pkt = true) ∨
      ∃ tz ul off, updateRoute S C now st pkt = .ok (.srp tz ul off) ∧
        SelfSigned C now pkt off := by
  obtain ⟨route, hroute, hrun⟩ := handleUpdate_cases h hne
  obtain ⟨tz, off, -, ⟨ul, rfl⟩ | ⟨⟨off', rfl⟩, hsig0 | hnone | htsig⟩⟩ := updateRoute_cases hroute
  · obtain ⟨req, hreq, -⟩ := hrun
    exact .inr (.inr ⟨tz, ul, off, hroute, selfSigned_of_srpValidate hreq⟩)
  · exact .inr (.inl ⟨tz, off', hroute, hsig0⟩)
  · exact absurd hnone hsecret
  · exact .inl htsig

/-- The sample zone behind a TSIG secret. -/
def tsigSettings : Settings := { sampleSettings with tsigSecret := lit "s" }

/-- An update that adds an address to `a.dyn.z`, with a TSIG under the secret. -/
def tsigUpdate : Option Bytes := do
  let m ← messageStart 7 0x2800 0 1 0 (lit "z") SOA
  let m ← appendRRPlain m 512 (lit "a.dyn.z") RRType.A RRClass.IN 60 [192, 0, 2, 1]
  let mac := padTo 32 (lit "s" ++ m)
  appendRRPlain (slice m 0 10 ++ put16 1 ++ m.drop 12) 512 (lit "k") 250 RRClass.ANY 0
    (labelWire (lit "hmac-sha256") ++ [0] ++ replicate 8 0 ++ put16 32 ++ mac ++
      replicate 6 0)

/-- The update is applied, and it is authenticated. -/
theorem tsig_update_authenticated :
    ∃ pkt rc st', tsigUpdate = some pkt ∧
      handleUpdate tsigSettings .sample 0 sampleState pkt = some (rc, st') ∧ st' ≠ sampleState ∧
      (tsigVerify .sample tsigSettings.tsigSecret pkt = true ∨
        (∃ tz off, updateRoute tsigSettings .sample 0 sampleState pkt = .ok (.update tz off) ∧
          sig0Verify .sample 0 sampleState tz pkt = true) ∨
        ∃ tz ul off, updateRoute tsigSettings .sample 0 sampleState pkt = .ok (.srp tz ul off) ∧
          SelfSigned .sample 0 pkt off) := by
  obtain ⟨pkt, hpkt, ⟨rc, st'⟩, hst, hstored⟩ : ∃ pkt, tsigUpdate = some pkt ∧
      ∃ r, handleUpdate tsigSettings .sample 0 sampleState pkt = some r ∧
        r.2.store (lit "ddns:z:A:a.dyn.z") ≠ none := by decide +kernel
  have hne : st' ≠ sampleState := by
    rintro rfl
    exact hstored rfl
  exact ⟨pkt, rc, st', hpkt, hst, hne, mutation_authenticated (by decide) hst hne⟩

end SimpleDns.Server
