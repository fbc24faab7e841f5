import SimpleDns.Server.Srp

/-!
# Handling an UPDATE (`handle_update`, `dns_server.c:8047-8353`)

`updateRoute` is everything `handle_update` decides before it touches the store: the role, the
authentication, the zone section, the route to SRP, the prerequisites. Behind it stand the two parts
that write, the update loop (`Update.lean`) and the registration (`Srp.lean`).

* **`handleUpdate_atomic_iff`**: exactly when an update that is answered with an error has left the
  server as it was. The update loop writes records before it has checked the ones behind them, so
  that is a condition on the records ahead of the first that fails.
* `update_half_applied`: an update that is refused at its second record and keeps the first.
-/

namespace SimpleDns.Server

open Wire Lib

/-- The zone loop: the first name selects the zone, which must be served under exactly that name. -/
def zoneSection (zones : List ZoneEntry) (pkt : Bytes) : Nat → Bool → Nat → TZone →
    Except Rcode (TZone × Nat)
  | 0, _, off, tz => .ok (tz, off)
  | n + 1, isFirst, off, tz =>
    match nameFromWire pkt off 256 with
    | none => .error .formerr
    | some (zn, za) =>
      let found := zoneForQname zones zn
      let named := found.any fun i => (zones[i]?).any fun z => eqCI z.name zn
      if isFirst && !named then .error .notzone
      else if za + 4 > pkt.length then .error .formerr
      else zoneSection zones pkt n false (za + 4) (if isFirst then found else tz)

/-- Which part of the handler writes: the update loop or the registration, with the zone and the
offset of the update section. -/
inductive Route
  | update (tz : TZone) (off : Nat)
  | srp (tz : TZone) (ul : UpdateLease) (off : Nat)
deriving DecidableEq, Repr

variable (S : Settings) (C : Crypto) (now : Nat) (st : State)

/-- The read-only part of `handle_update`. -/
def updateRoute (pkt : Bytes) : Except Rcode Route :=
  if S.secondary then .error .notauth
  else if !sig0Present pkt && S.tsigSecret != [] && !tsigVerify C S.tsigSecret pkt then
    .error .badsig
  else
    match zoneSection st.zones pkt (qdcount pkt) true 12 none with
    | .error e => .error e
    | .ok (tz, off) =>
      match ednsParse pkt with
      | some ul => if S.srpEnabled then .ok (.srp tz ul off) else .error .refused
      | none =>
        if sig0Present pkt && !sig0Verify C now st tz pkt then .error .notauth
        else
          match prereqLoop st tz pkt (ancount pkt) off with
          | .error e => .error e
          | .ok off' => .ok (.update tz off')

/-- `handle_update`: the response code and the state after it; `none` is a packet without a
header, which gets no answer. -/
def handleUpdate (pkt : Bytes) : Option (Rcode × State) :=
  if pkt.length < 12 then none
  else
    match updateRoute S C now st pkt with
    | .error e => some (e, st)
    | .ok (.update tz off) => some (updateLoop S tz pkt (nscount pkt) off st)
    | .ok (.srp tz ul off) => some (srpHandleUpdate S C now st tz pkt ul off)

/-! ## All or nothing -/

/-- Where the update section fails, the records ahead of the failing one move no serial, and the
last write of their renewals to each key is what the key holds. -/
def UpdateQuiet (tz : TZone) (pkt : Bytes) (off : Nat) : Prop :=
  let (rs, rc) := updatePlan S pkt (nscount pkt) off
  rc ≠ .noerror → NoBump S st tz pkt rs ∧
    ∀ k v, lastWrite k (rs.flatMap (renewals S st tz pkt)) = some v → st.store k = v

/-- Where a registration passes the validation and has a target that does not decode, it writes
nothing new before it gets there. -/
def RegistrationQuiet (tz : TZone) (pkt : Bytes) (ul : UpdateLease) (off : Nat) : Prop :=
  ∀ req, srpValidate C now st tz pkt off = .ok req →
    req.services.any (srpTargetFails pkt) = true → SrpQuiet S st tz pkt ul req

/-- The condition for the part of the handler an update is routed to. -/
def Route.Quiet (pkt : Bytes) : Route → Prop
  | .update tz off => UpdateQuiet S st tz pkt off
  | .srp tz ul off => RegistrationQuiet S C now st tz pkt ul off

/-- What a registration that fails is to leave, `P`, it leaves exactly where it is quiet, as long as
`P` holds of the server as it was and shows every change of a counter or a registered record. -/
theorem srpHandleUpdate_failed_iff (S : Settings) (C : Crypto) (now : Nat) (st : State)
    (tz : TZone) (pkt : Bytes) (ul : UpdateLease) (off : Nat) {P : State → Prop} (hself : P st)
    (hP : ∀ st', P st' → SrpUnchanged st st') :
    ((srpHandleUpdate S C now st tz pkt ul off).1 ≠ .noerror →
        P (srpHandleUpdate S C now st tz pkt ul off).2) ↔
      RegistrationQuiet S C now st tz pkt ul off := by
  unfold srpHandleUpdate RegistrationQuiet
  cases hv : srpValidate C now st tz pkt off with
  | error e => simp [hself]
  | ok req =>
    obtain ⟨bs, -, hsort⟩ := Option.bind_eq_some_iff.mp (srpValid_of_srpValidate hv).sections
    have hsrv := hasSrv_of_sort hsort (by simp)
    simp only [Except.ok.injEq, forall_eq']
    cases hfail : req.services.any (srpTargetFails pkt) with
    | true =>
      have hcode : (srpApply S st tz pkt ul req).1 ≠ .noerror := by
        rw [srpApply_of_fails hsrv hfail, srpApplyServices_fst hsrv, if_pos hfail]
        decide
      simp only [hcode, ne_eq, not_false_eq_true, forall_const]
      refine ⟨fun h => srpQuiet_of_unchanged hsrv hfail (hP _ h), fun h => ?_⟩
      rwa [srpApply_of_quiet hsrv hfail h]
    | false =>
      have hcode : (srpApply S st tz pkt ul req).1 = .noerror := by
        unfold srpApply
        dsimp only
        rw [if_pos]
        rw [srpApplyServices_fst hsrv, hfail]
        rfl
      simp [hcode]

theorem srpHandleUpdate_atomic_iff (S : Settings) (C : Crypto) (now : Nat) (st : State)
    (tz : TZone) (pkt : Bytes) (ul : UpdateLease) (off : Nat) :
    ((srpHandleUpdate S C now st tz pkt ul off).1 ≠ .noerror →
        (srpHandleUpdate S C now st tz pkt ul off).2 = st) ↔
      RegistrationQuiet S C now st tz pkt ul off := by
  refine srpHandleUpdate_failed_iff S C now st tz pkt ul off (P := (· = st)) rfl ?_
  rintro st' rfl
  exact ⟨rfl, fun _ _ => rfl⟩

/-- **An update that fails leaves the server as it was** (records, serials, journals, zone table)
exactly when the part of the handler it reaches is quiet. -/
theorem handleUpdate_atomic_iff (S : Settings) (C : Crypto) (now : Nat) (st : State)
    (pkt : Bytes) :
    (∀ rc st', handleUpdate S C now st pkt = some (rc, st') → rc ≠ .noerror → st' = st) ↔
      (12 ≤ pkt.length → ∀ route, updateRoute S C now st pkt = .ok route →
        route.Quiet S C now st pkt) := by
  unfold handleUpdate
  by_cases hlen : pkt.length < 12
  · simp [hlen]
  have hlen' : 12 ≤ pkt.length := by omega
  simp only [hlen, if_false, hlen', forall_const]
  have hpair : ∀ r : Rcode × State,
      (∀ rc st', some r = some (rc, st') → rc ≠ .noerror → st' = st) ↔
        (r.1 ≠ .noerror → r.2 = st) := by
    rintro ⟨rc, st'⟩
    simp
  cases hroute : updateRoute S C now st pkt with
  | error e => simp
  | ok route =>
    simp only [Except.ok.injEq, forall_eq']
    cases route with
    | update tz off =>
      rw [hpair, updateLoop_eq]
      exact imp_congr_right fun _ => foldl_applyUpdateRR_eq_self_iff ..
    | srp tz ul off =>
      rw [hpair, srpHandleUpdate_atomic_iff]
      rfl

/-! ## An update applied by half -/

/-- A primary for the zone `z` that takes dynamic names under `dyn.z` only. -/
def sampleSettings : Settings where
  zoneName := lit "z"
  secondary := false
  tsigSecret := []
  srpEnabled := false
  ddnsAllowSuffix := lit "dyn.z"
  ddnsAutoPtr := false
  srpMaxLease := 7200
  srpMaxKeyLease := 86400
  zonemd := fun _ _ _ => none

/-- The zone at serial 1, with nothing stored. -/
def sampleState : State where
  store := fun _ => none
  counter := fun _ => 1
  journal := fun _ => []
  zones := [⟨lit "z", 1, true⟩]
  soaSerial := 1

/-- An update of `z` that adds an address to `a.dyn.z` and one to `b.z`. -/
def twoNames : Option Bytes := do
  let m ← messageStart 7 0x2800 0 2 0 (lit "z") RRType.SOA
  let m ← appendRRPlain m 512 (lit "a.dyn.z") RRType.A RRClass.IN 60 [192, 0, 2, 1]
  appendRRPlain m 512 (lit "b.z") RRType.A RRClass.IN 60 [192, 0, 2, 2]

/-- **A refused update keeps its first record**: the second name is outside the allowed suffix, and
the first is stored, journaled, and has moved the serial. -/
theorem update_half_applied :
    ∃ pkt st', twoNames = some pkt ∧
      handleUpdate sampleSettings .sample 0 sampleState pkt = some (.refused, st') ∧
      sampleState.store (lit "ddns:z:A:a.dyn.z") = none ∧
      st'.store (lit "ddns:z:A:a.dyn.z") = some ⟨lit "192.0.2.1", some 60⟩ ∧
      st'.serial (some 0) = 2 ∧
      st'.journal (lit "ixfr:z:journal") = [lit "1|2|A|a.dyn.z|192.0.2.1"] := by
  obtain ⟨pkt, hpkt, ⟨rc, st'⟩, hst, hrc, hafter⟩ : ∃ pkt, twoNames = some pkt ∧
      ∃ r, handleUpdate sampleSettings .sample 0 sampleState pkt = some r ∧ r.1 = .refused ∧
        r.2.store (lit "ddns:z:A:a.dyn.z") = some ⟨lit "192.0.2.1", some 60⟩ ∧
        r.2.serial (some 0) = 2 ∧
        r.2.journal (lit "ixfr:z:journal") = [lit "1|2|A|a.dyn.z|192.0.2.1"] := by decide +kernel
  obtain rfl : rc = .refused := hrc
  exact ⟨pkt, st', hpkt, hst, rfl, hafter⟩

end SimpleDns.Server
