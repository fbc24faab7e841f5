import SimpleDns.Server.Frame
import SimpleDns.Server.Handle

/-!
# Whose name it is (`srp_owner_matches`, `srp_handle_update`, `dns_server.c:7615-8042`)

Registration is first come, first served: the first key to register a host or a service instance
owns the name until its owner record expires. `srp_handle_update` compares the owner of every host
and service name it writes with the key of the registration. The targets of the browse entries it
adds and deletes it compares with nothing.

* `srpRun` is a sequence of registrations from anyone, with time passing between them.
* **`srpRun_keeps_owned`**: over a run of foreign registrations none of which touches a browse entry
  of the instance, the records of an owned name and its browse entries only age.
* `browse_entry_taken`: a registration under another key deletes the browse entry of an instance.
* **`srpHandleUpdate_allOrNothing_iff`**: when a registration that fails has changed no record, no
  serial and no journal; `registration_half_applied` is one that has.
-/

namespace SimpleDns.Server

open Wire Lib List Option RRType

/-! ## Registrations and time -/

/-- A stored string `d` seconds later. -/
def Cell.age (d : Nat) (c : Cell) : Option Cell :=
  match c.ttl with
  | none => some c
  | some t => if d < t then some { c with ttl := some (t - d) } else none

/-- What happens to a server that takes registrations: one arrives for the zone `tz` with its update
section at `off`, or time passes. -/
inductive SrpEvent
  | register (now : Nat) (tz : TZone) (pkt : Bytes) (ul : UpdateLease) (off : Nat)
  | elapse (seconds : Nat)
deriving DecidableEq, Repr

/-- One event. -/
def srpStep (S : Settings) (C : Crypto) (st : State) : SrpEvent → State
  | .register now tz pkt ul off => (srpHandleUpdate S C now st tz pkt ul off).2
  | .elapse d => { st with store := fun k => (st.store k).bind (Cell.age d) }

/-- A sequence of events. -/
def srpRun (S : Settings) (C : Crypto) (st : State) (es : List SrpEvent) : State :=
  es.foldl (srpStep S C) st

/-- Time passes. -/
def SrpEvent.isElapse : SrpEvent → Bool
  | .register .. => false
  | .elapse _ => true

/-- The run without its registrations. -/
def onlyTime (es : List SrpEvent) : List SrpEvent := es.filter SrpEvent.isElapse

/-! ## Owners -/

/-- The key a registration is signed under: the KEY of its host. -/
def srpSigner (pkt : Bytes) (off : Nat) : Option KeyMaterial :=
  (srpSections pkt off).bind fun s => s.host.bind fun host =>
    (srpBucketFind host KEY RRClass.IN).map (srpKey pkt)

/-- The name is owned by the key. -/
def SrpOwned (s : Store) (z name : Text) (key : KeyMaterial) : Prop :=
  ∃ v, vkGet s (skey z (lit "OWNER") name) 512 = some v ∧ srpOwnerMatches v key = true

instance (s : Store) (z name : Text) (key : KeyMaterial) : Decidable (SrpOwned s z name key) :=
  inferInstanceAs (Decidable (∃ v ∈ vkGet s (skey z (lit "OWNER") name) 512, _))

/-- The records under a name, and the browse entries that point at it. -/
inductive SrpRecordOf (z name : Text) : Text → Prop
  | record {type : Text} (h : type ∈ srpHostTypes ++ srpServiceTypes) :
      SrpRecordOf z name (skey z type name)
  | pointer (browse : Text) : SrpRecordOf z name (skey z (lit "PTR") (browse ++ [colon] ++ name))

/-- The registration adds or deletes a browse entry whose key ends in the name. -/
def srpPointsAt (pkt : Bytes) (off : Nat) (name : Text) : Bool :=
  (srpSections pkt off).any fun s => s.discovery.any fun d => d.rrs.any fun rr =>
    (srpPointer pkt rr).any fun target => (colon :: name).isSuffixOf (d.name ++ [colon] ++ target)

/-- A stored owner record names one key. -/
theorem srpOwnerMatches_inj {v : Text} {key key' : KeyMaterial} (h : srpOwnerMatches v key = true)
    (h' : srpOwnerMatches v key' = true) : key = key' := by
  unfold srpOwnerMatches at h h'
  split at h
  · cases h
  · rename_i hfields
    rw [hfields] at h'
    simp only [Bool.and_eq_true, beq_iff_eq] at h h'
    obtain ⟨flags, proto, alg, pub⟩ := key
    obtain ⟨flags', proto', alg', pub'⟩ := key'
    simp_all

/-- A name another key owns is refused. -/
theorem srpOwnedByOther_of_owned {st : State} {tz : TZone} {name : Text} {key key' : KeyMaterial}
    (h : SrpOwned st.store (st.keyZone tz) name key) (hne : key' ≠ key) :
    srpOwnedByOther st tz name key' = true := by
  obtain ⟨v, hv, hmatch⟩ := h
  unfold srpOwnedByOther
  rw [hv]
  cases hm : srpOwnerMatches v key' with
  | false => simp [hm]
  | true => exact absurd (srpOwnerMatches_inj hm hmatch) hne

/-! ## A foreign registration -/

/-- Types are plain words. -/
theorem colon_notMem_srpTypes {type : Text}
    (h : type ∈ lit "PTR" :: (srpHostTypes ++ srpServiceTypes)) : colon ∉ type :=
  (by decide : ∀ t ∈ lit "PTR" :: (srpHostTypes ++ srpServiceTypes), colon ∉ t) type h

theorem SrpRequest.Writes.type_mem {req : SrpRequest} {pkt : Bytes} {type name : Text}
    (h : req.Writes pkt type name) : type ∈ lit "PTR" :: (srpHostTypes ++ srpServiceTypes) := by
  obtain ⟨htype, -⟩ | ⟨htype, -⟩ | ⟨rfl, -⟩ := h
  · exact mem_cons_of_mem _ (mem_append_left _ htype)
  · exact mem_cons_of_mem _ (mem_append_right _ htype)
  · exact mem_cons_self

/-- The table of zones has plain names. -/
def PlainZones (zones : List ZoneEntry) : Prop := ∀ e ∈ zones, colon ∉ e.name

instance (zones : List ZoneEntry) : Decidable (PlainZones zones) :=
  inferInstanceAs (Decidable (∀ e ∈ zones, colon ∉ e.name))

theorem plainZones_congr {zs zs' : List ZoneEntry} (h : zoneNames zs' = zoneNames zs)
    (hz : PlainZones zs) : PlainZones zs' := by
  intro e he
  have hmem : (e.name, e.active) ∈ zoneNames zs := by
    rw [← h]
    exact mem_map_of_mem he
  obtain ⟨e', he', heq⟩ := mem_map.mp hmem
  have hname : e'.name = e.name := congrArg Prod.fst heq
  rw [← hname]
  exact hz e' he'

section Foreign

variable {S : Settings} {C : Crypto} {now : Nat} {st : State} {tz : TZone} {pkt : Bytes}
  {ul : UpdateLease} {off : Nat} {z name : Text} {key : KeyMaterial}

/-- A validated foreign registration does not write under an owned name, nor a browse entry of it
unless it points at it. -/
theorem not_writes_of_owned {req : SrpRequest} (hv : SrpValid C now st tz pkt off req)
    (howned : SrpOwned st.store (st.keyZone tz) name key) (hne : req.key ≠ key)
    (hpoint : srpPointsAt pkt off name = false) {type owner : Text}
    (hw : req.Writes pkt type owner) :
    SrpRecordOf (st.keyZone tz) name (skey (st.keyZone tz) type owner) → False := by
  have hother := srpOwnedByOther_of_owned howned hne
  have hsrp : colon ∉ lit "srp" := by decide
  have htype := colon_notMem_srpTypes hw.type_mem
  intro hrec
  generalize hk : skey (st.keyZone tz) type owner = k at hrec
  cases hrec with
  | @record type' htype' =>
    obtain ⟨-, rfl, rfl⟩ := (recordKey_inj hsrp hsrp htype
      (colon_notMem_srpTypes (mem_cons_of_mem _ htype'))).mp hk
    obtain ⟨-, rfl⟩ | ⟨-, svc, hsvc, rfl⟩ | ⟨rfl, -⟩ := hw
    · rw [hv.hostOwner] at hother
      cases hother
    · rw [not_ownedByOther_of_srpCheckServices hv.services svc hsvc] at hother
      cases hother
    · exact absurd htype' (by decide)
  | pointer browse =>
    obtain ⟨-, rfl, rfl⟩ := (recordKey_inj hsrp hsrp htype (by decide)).mp hk
    obtain ⟨hmem, -⟩ | ⟨hmem, -⟩ | ⟨-, d, hd, rr, hrr, target, htarget, hname⟩ := hw
    · exact absurd hmem (by decide)
    · exact absurd hmem (by decide)
    · have hends : (colon :: name).isSuffixOf (d.name ++ [colon] ++ target) = true := by
        rw [isSuffixOf_iff_suffix, ← hname]
        exact ⟨browse, by simp⟩
      have htrue : srpPointsAt pkt off name = true := by
        simp only [srpPointsAt, hv.sections, Option.any_some, List.any_eq_true]
        exact ⟨d, hd, rr, hrr, by rw [htarget]; exact hends⟩
      rw [hpoint] at htrue
      cases htrue

/-- **A foreign registration leaves an owned name alone**, and its browse entries unless it points
at it. -/
theorem srpHandleUpdate_keeps (hzones : PlainZones st.zones) (hz : colon ∉ z)
    (howned : SrpOwned st.store z name key) (hsigner : srpSigner pkt off ≠ some key)
    (hpoint : srpPointsAt pkt off name = false) {k : Text} (hk : SrpRecordOf z name k) :
    (srpHandleUpdate S C now st tz pkt ul off).2.store k = st.store k := by
  unfold srpHandleUpdate
  split
  · rfl
  rename_i req hreq
  have hv := srpValid_of_srpValidate hreq
  have hne : req.key ≠ key := by
    rintro rfl
    exact hsigner (by simp [srpSigner, hv.sections, hv.key])
  obtain ⟨e, he⟩ := ne_none_iff_exists'.mp hv.zone
  have hserves : Serves st tz e.name := ⟨e, he, rfl⟩
  have hcolon : colon ∉ e.name := by
    obtain ⟨i, -, hi⟩ := bind_eq_some_iff.mp he
    exact hzones e (mem_of_getElem? hi)
  -- what it writes are keys of its own zone, and none of them is `k`
  have hframe : Frame (fun k' => (∃ type owner, req.Writes pkt type owner ∧
      k' = skey e.name type owner) ∨ k' = zkey e.name (lit "ZONEMD") e.name) st
        (srpApply S st tz pkt ul req).2 :=
    frame_srpApply hserves (.inr rfl) pkt ul fun type owner hw => .inl ⟨type, owner, hw, rfl⟩
  refine hframe.store k ?_
  have hrecord : ∃ type owner, k = skey z type owner := by
    cases hk with
    | record | pointer => exact ⟨_, _, rfl⟩
  rintro (⟨type, owner, hw, rfl⟩ | hzmd)
  · by_cases hzz : e.name = z
    · rw [← hserves.keyZone] at hzz hk
      subst hzz
      exact not_writes_of_owned hv howned hne hpoint hw hk
    · obtain ⟨type', owner', heq⟩ := hrecord
      exact recordKey_ne_of_zone_ne (by decide) (by decide) hcolon hz hzz heq
  · obtain ⟨type', owner', rfl⟩ := hrecord
    simp only [skey, zkey, recordKey_eq] at hzmd
    exact absurd hzmd (by simp [lit])

/-- A registration keeps the names of the zones. -/
theorem zoneNames_srpHandleUpdate :
    zoneNames (srpHandleUpdate S C now st tz pkt ul off).2.zones = zoneNames st.zones := by
  unfold srpHandleUpdate
  split
  · rfl
  rename_i req hreq
  obtain ⟨e, he⟩ := ne_none_iff_exists'.mp (srpValid_of_srpValidate hreq).zone
  exact (frame_srpApply (F := fun _ => True) ⟨e, he, rfl⟩ trivial pkt ul fun _ _ _ => trivial).zones

end Foreign

/-! ## A run -/

/-- What is owned after time has passed was owned before. -/
theorem srpOwned_of_elapse {s : Store} {d : Nat} {z name : Text} {key : KeyMaterial}
    (h : SrpOwned (fun k => (s k).bind (Cell.age d)) z name key) : SrpOwned s z name key := by
  obtain ⟨v, hv, hmatch⟩ := h
  refine ⟨v, ?_, hmatch⟩
  obtain ⟨c', hc', rfl⟩ := map_eq_some_iff.mp hv
  obtain ⟨c, hc, hage⟩ := bind_eq_some_iff.mp hc'
  have hvalue : c'.value = c.value := by
    unfold Cell.age at hage
    split at hage
    · cases hage
      rfl
    · split at hage
      · cases hage
        rfl
      · cases hage
  rw [vkGet, hc, hvalue]
  rfl

theorem srpOwned_of_onlyTime {S : Settings} {C : Crypto} {es : List SrpEvent} {st : State}
    {z name : Text} {key : KeyMaterial}
    (h : SrpOwned (srpRun S C st (onlyTime es)).store z name key) :
    SrpOwned st.store z name key := by
  induction es generalizing st with
  | nil => exact h
  | cons e es ih =>
    cases e with
    | register => exact ih h
    | elapse d => exact srpOwned_of_elapse (ih h)

/-- **First come, first served.** Over any run of registrations that are signed by other keys than
the one that owns the name, and whose browse entries do not end in the name, every record under the
name and every browse entry that points at it is what time alone would have left of it, as long as
the owner record has not expired. -/
theorem srpRun_keeps_owned {S : Settings} {C : Crypto} {st : State} {es : List SrpEvent}
    {z name : Text} {key : KeyMaterial} (hzones : PlainZones st.zones) (hz : colon ∉ z)
    (hforeign : ∀ now tz pkt ul off, SrpEvent.register now tz pkt ul off ∈ es →
      srpSigner pkt off ≠ some key ∧ srpPointsAt pkt off name = false)
    (howned : SrpOwned (srpRun S C st (onlyTime es)).store z name key) {k : Text}
    (hk : SrpRecordOf z name k) :
    (srpRun S C st es).store k = (srpRun S C st (onlyTime es)).store k := by
  -- `st'` is the server without the registrations; the two agree on what belongs to the name
  suffices h : ∀ st', (∀ k, SrpRecordOf z name k → st.store k = st'.store k) →
      SrpOwned (srpRun S C st' (onlyTime es)).store z name key →
      (srpRun S C st es).store k = (srpRun S C st' (onlyTime es)).store k from
    h st (fun _ _ => rfl) howned
  clear howned
  induction es generalizing st with
  | nil => exact fun st' hagree _ => hagree k hk
  | cons e es ih =>
    intro st' hagree howned
    have hrest := fun now tz pkt ul off h =>
      hforeign now tz pkt ul off (mem_cons_of_mem _ h)
    cases e with
    | register now tz pkt ul off =>
      obtain ⟨hsigner, hpoint⟩ := hforeign now tz pkt ul off mem_cons_self
      have hnow : SrpOwned st.store z name key := by
        obtain ⟨v, hv, hmatch⟩ := srpOwned_of_onlyTime howned
        refine ⟨v, ?_, hmatch⟩
        rwa [vkGet, hagree _ (.record (by decide))]
      refine ih (plainZones_congr zoneNames_srpHandleUpdate hzones) hrest st' (fun k' hk' => ?_)
        howned
      rw [srpHandleUpdate_keeps hzones hz hnow hsigner hpoint hk', hagree k' hk']
    | elapse d =>
      have hplain : PlainZones (srpStep S C st (.elapse d)).zones := hzones
      refine ih hplain hrest (srpStep S C st' (.elapse d)) (fun k' hk' => ?_) howned
      simp only [srpStep, hagree k' hk']

/-! ## Registrations of the sample zone -/

/-- A record of an update section: owner, type, class and rdata. -/
abbrev UpdateRecord := Text × Nat × Nat × Bytes

/-- The KEY rdata of a P-256 key whose 64 octets are all `c`. -/
def sampleKeyRdata (c : UInt8) : Bytes := [0, 0, 3, 13] ++ replicate 64 c

/-- "Delete all records of the name". -/
def deleteAll (name : Text) : UpdateRecord := (name, ANY, RRClass.ANY, [])

/-- The records of a host with the key `c` and one address. -/
def hostRecords (name : Text) (c : UInt8) : List UpdateRecord :=
  [deleteAll name, (name, KEY, RRClass.IN, sampleKeyRdata c),
    (name, RRType.A, RRClass.IN, [192, 0, 2, c])]

/-- The records of a service instance with the given SRV target. -/
def serviceRecords (name : Text) (target : Bytes) : List UpdateRecord :=
  [deleteAll name, (name, SRV, RRClass.IN, replicate 6 0 ++ target)]

/-- A browse entry for the instance `i._s.z`, added or deleted. -/
def browseRecord (cls : Nat) : UpdateRecord :=
  (lit "_s.z", PTR, cls, labelWire (lit "i") ++ labelWire (lit "_s") ++ labelWire (lit "z")
    ++ [0])

/-- The octets of a SIG(0) in front of its signature: P-256, valid up to 2000, signer the root. -/
def sampleSigPrefix (c : UInt8) : Bytes :=
  put16 0 ++ [13, 0] ++ put32 0 ++ put32 2000 ++ put32 0 ++ put16 (keytag (sampleKeyRdata c)) ++ [0]

/-- A registration in the zone `z` with these records, signed under the key `c`. -/
def registration (c : UInt8) (rrs : List UpdateRecord) : Option Bytes := do
  let m ← messageStart 7 0x2800 0 rrs.length 0 (lit "z") SOA
  let m ← rrs.foldlM (fun m r => appendRRPlain m 2048 r.1 r.2.1 r.2.2.1 0 r.2.2.2) m
  appendRRPlain (slice m 0 10 ++ put16 1 ++ m.drop 12) 2048 [] typeSIG RRClass.ANY 0
    (sampleSigPrefix c ++ padTo 64 (sampleSigPrefix c ++ m))

/-- The event that the registration arrives at time 1000, with a lease of an hour. -/
def arrives (pkt : Bytes) : SrpEvent := .register 1000 (some 0) pkt ⟨3600, none⟩ 19

/-- Key 1 registers the host `h.z` and the instance `i._s.z` with its browse entry. -/
def firstRegistration : Option Bytes :=
  registration 1 (hostRecords (lit "h.z") 1 ++
    serviceRecords (lit "i._s.z") (labelWire (lit "h") ++ labelWire (lit "z") ++ [0]) ++
    [browseRecord RRClass.IN])

/-- The server after it. -/
def firstComer : State :=
  srpRun sampleSettings .sample sampleState (firstRegistration.toList.map arrives)

/-- Key 2 registers the host `g.z`, with further records. -/
def secondRegistration (rrs : List UpdateRecord) : Option Bytes :=
  registration 2 (hostRecords (lit "g.z") 2 ++ rrs)

/-- The key of a sample registration. -/
def sampleKeyOf (c : UInt8) : KeyMaterial := ⟨0, 3, 13, replicate 64 c⟩

/-- The browse entry of the instance while key 2 registers a host of its own and half an hour
passes: it has aged by half an hour. -/
theorem browse_entry_ages :
    ∃ pkt, secondRegistration [] = some pkt ∧
      (srpRun sampleSettings .sample firstComer [arrives pkt, .elapse 1800]).store
        (skey (lit "z") (lit "PTR") (lit "_s.z" ++ [colon] ++ lit "i._s.z")) =
          some ⟨lit "1", some 1800⟩ := by
  refine ⟨_, (some_get (by decide +kernel)).symm, ?_⟩
  rw [srpRun_keeps_owned (by decide +kernel) (by decide) (fun now tz pkt ul off hmem => ?_)
    (by decide +kernel : SrpOwned _ _ _ (sampleKeyOf 1)) (.pointer (lit "_s.z"))]
  · decide +kernel
  · simp only [arrives, mem_cons, SrpEvent.register.injEq, reduceCtorEq, not_mem_nil,
      or_false] at hmem
    obtain ⟨-, -, hpkt, -, rfl⟩ := hmem
    rw [hpkt]
    decide +kernel

/-- **Another key takes the browse entry of an owned instance**: the registration of key 2 that
deletes it is applied, and the instance still belongs to key 1. -/
theorem browse_entry_taken :
    ∃ pkt, secondRegistration [browseRecord RRClass.NONE] = some pkt ∧
      srpSigner pkt 19 = some (sampleKeyOf 2) ∧
      SrpOwned firstComer.store (lit "z") (lit "i._s.z") (sampleKeyOf 1) ∧
      SrpRecordOf (lit "z") (lit "i._s.z") (lit "srp:z:PTR:_s.z:i._s.z") ∧
      firstComer.store (lit "srp:z:PTR:_s.z:i._s.z") = some ⟨lit "1", some 3600⟩ ∧
      (srpStep sampleSettings .sample firstComer (arrives pkt)).store
        (lit "srp:z:PTR:_s.z:i._s.z") = none := by
  refine ⟨_, (some_get (by decide +kernel)).symm, ?_, ?_, .pointer (lit "_s.z"), ?_, ?_⟩
  all_goals decide +kernel

/-! ## All or nothing -/

/-- No registered record, no serial and no journal entry has changed. -/
structure SrpKept (st st' : State) : Prop where
  records : ∀ k, SrpKey k → st'.store k = st.store k
  counters : st'.counter = st.counter
  zones : st'.zones = st.zones
  soaSerial : st'.soaSerial = st.soaSerial
  journals : st'.journal = st.journal

/-- **A registration that fails has changed nothing** exactly when it is quiet up to the service
whose target does not decode: its host has no address stored or sent and the owner record it would
write, and that service is its first and has nothing stored. -/
theorem srpHandleUpdate_allOrNothing_iff (S : Settings) (C : Crypto) (now : Nat) (st : State)
    (tz : TZone) (pkt : Bytes) (ul : UpdateLease) (off : Nat) :
    ((srpHandleUpdate S C now st tz pkt ul off).1 ≠ .noerror →
        SrpKept st (srpHandleUpdate S C now st tz pkt ul off).2) ↔
      RegistrationQuiet S C now st tz pkt ul off :=
  srpHandleUpdate_failed_iff S C now st tz pkt ul off ⟨fun _ _ => rfl, rfl, rfl, rfl, rfl⟩
    fun _ h => ⟨h.counters, h.records⟩

/-- **A registration that fails keeps its host**: the target of its service is a pointer past the
end of the packet, and the address of its host is stored, journaled, and has moved the serial. -/
theorem registration_half_applied :
    ∃ pkt st', registration 1 (hostRecords (lit "h.z") 1 ++
        serviceRecords (lit "i._s.z") [255, 255]) = some pkt ∧
      srpHandleUpdate sampleSettings .sample 1000 sampleState (some 0) pkt ⟨3600, none⟩ 19 =
        (.formerr, st') ∧
      sampleState.store (lit "srp:z:A:h.z") = none ∧
      st'.store (lit "srp:z:A:h.z") = some ⟨lit "3600|192.0.2.1", some 3600⟩ ∧
      st'.serial (some 0) = 2 ∧
      st'.journal (lit "ixfr:z:journal") = [lit "1|2|A|h.z|3600|192.0.2.1"] := by
  refine ⟨_, _, (some_get (by decide +kernel)).symm, Prod.fst_eq_iff.mp ?_, rfl, ?_, ?_, ?_⟩
  all_goals decide +kernel

end SimpleDns.Server
