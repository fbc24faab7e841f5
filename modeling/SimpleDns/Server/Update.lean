import SimpleDns.Lib.Writes
import SimpleDns.Server.Static
import SimpleDns.Server.Store
import SimpleDns.Wire.Edns
import SimpleDns.Wire.TypeName

/-!
# Applying one update record (`dns_server.c:7150-7304`, `8155-8344`)

The update section of an RFC 2136 UPDATE is read and applied record by record. What a record may
fail on (its wire form, the name policy) depends on the packet and the settings only, never on the
store, so the loop is a plan (`updatePlan`: the records before the first failure, and the failure)
and the application of that plan (`updateLoop_eq`).

* `applyUpdateRR` is the body of the loop behind the checks, `autoPtrApply` is `auto_ptr_apply`.
* `Bumps` says when a record moves a serial (`bumped_applyUpdateRR`). Every other record makes
  the writes `renewals` lists, which the packet and the zone table determine
  (`applyUpdateRR_of_not_bumps`).
* **`foldl_applyUpdateRR_eq_self_iff`**: when a list of records leaves the server as it was.
-/

namespace SimpleDns.Server

open Wire Lib List RRType

/-- `DEFAULT_TTL`. -/
def defaultTtl : Nat := 60

/-- `uttl ? uttl : DEFAULT_TTL`. -/
def ttlOr (ttl : Nat) : Nat := if ttl = 0 then defaultTtl else ttl

/-- The response codes of the update path. -/
inductive Rcode
  | noerror
  | formerr
  | nxdomain
  | refused
  | yxdomain
  | yxrrset
  | nxrrset
  | notauth
  | notzone
  | badsig
deriving DecidableEq, Repr

/-! ## Reverse names and the automatic PTR -/

/-- The two nibbles of an octet, low one first. -/
def nibbles (c : UInt8) : Text :=
  [digitChar (c.toNat % 16), dot, digitChar (c.toNat / 16), dot]

/-- `ddns_reverse_name`. -/
def ddnsReverseName (ip : Text) : Option Text :=
  match inetPton4 ip with
  | some b => some (joinDots (b.reverse.map fun c => decimal c.toNat) ++ lit ".in-addr.arpa")
  | none =>
    match inetPton6 ip with
    | some b => some (b.reverse.flatMap nibbles ++ lit "ip6.arpa")
    | none => none

variable (S : Settings) (st : State)

/-- `auto_ptr_apply(fqdn, ipstr, ttl, del, bump)`. -/
def autoPtrApply (fqdn ip : Text) (ttl : Nat) (del doBump : Bool) : State :=
  if !S.ddnsAutoPtr then st
  else
    match ddnsReverseName ip with
    | none => st
    | some rev =>
      match zoneForQname st.zones rev with
      | none => st
      | some rz =>
        let zone := st.keyZone (some rz)
        let key := dkey zone (lit "PTR") rev
        if del ∧ ((vkGet st.store key 256).getD []) = [] then st
        else if !doBump then
          { st with store :=
              if del then vkDel st.store key else vkSet st.store key fqdn (ttlOr ttl) }
        else
          let prev := st.serial (some rz)
          let t := if del then txnDelAndBump S st (some rz) [key]
            else txnSetAndBump S st (some rz) key fqdn (ttlOr ttl)
          journaled S zone prev (if del then opDel else opAdd) rev fqdn t

/-! ## Name policy and prerequisites -/

/-- `ddns_name_allowed`. -/
def ddnsNameAllowed (name : Text) : Bool :=
  let suf := S.ddnsAllowSuffix.dropWhile (· = dot)
  if suf = [] then true
  else if name.length = suf.length then eqCI name suf
  else if name.length > suf.length + 1 then
    byteAt name (name.length - suf.length - 1) == dot &&
      eqCI (name.drop (name.length - suf.length)) suf
  else false

/-- The types `prereq_name_exists` probes. -/
def prereqTypes : List Text :=
  [lit "A", lit "AAAA", lit "CNAME", lit "MX", lit "TXT", lit "NS", lit "SRV", lit "CAA",
    lit "SSHFP", lit "TLSA", lit "DNAME", lit "LOC"]

/-- The name has a dynamic or a zone record of the type. -/
def hasRecord (s : Store) (zone type name : Text) : Bool :=
  (s (dkey zone type name)).isSome || (s (zkey zone type name)).isSome

/-- `prereq_name_exists`. -/
def prereqNameExists (s : Store) (zone name : Text) : Bool :=
  prereqTypes.any (hasRecord s zone · name) || staticZone.any (eqCI ·.name name)

/-- `prereq_rrset_exists`. -/
def prereqRrsetExists (s : Store) (zone name : Text) (rtype : Nat) : Bool :=
  hasRecord s zone (type2str rtype) name ||
    staticZone.any fun r => eqCI r.name name && r.type == rtype

/-! ## Update records -/

/-- A record of the prerequisite or the update section. -/
structure UpdateRR where
  name : Text
  type : Nat
  cls : Nat
  ttl : Nat
  rdoff : Nat
  rdlen : Nat
deriving DecidableEq, Repr

/-- The record at `off`; `none` goes to `formerr`. -/
def parseUpdateRR (pkt : Bytes) (off : Nat) : Option UpdateRR :=
  match nameFromWire pkt off 256 with
  | none => none
  | some (name, a) =>
    if a + 9 > pkt.length then none
    else
      let rdlen := get16 pkt (a + 8)
      if a + 10 + rdlen > pkt.length then none
      else some ⟨name, get16 pkt a, get16 pkt (a + 2), get32 pkt (a + 4), a + 10, rdlen⟩

variable (tz : TZone) (pkt : Bytes) (r : UpdateRR)

/-- The check one prerequisite makes. -/
def prereqCheck : Rcode :=
  let zone := st.keyZone tz
  if r.rdlen ≠ 0 then .noerror
  else if r.cls = RRClass.ANY ∧ r.type = ANY then
    if prereqNameExists st.store zone r.name then .noerror else .nxdomain
  else if r.cls = RRClass.ANY then
    if prereqRrsetExists st.store zone r.name r.type then .noerror else .nxrrset
  else if r.cls = RRClass.NONE ∧ r.type = ANY then
    if prereqNameExists st.store zone r.name then .yxdomain else .noerror
  else if r.cls = RRClass.NONE then
    if prereqRrsetExists st.store zone r.name r.type then .yxrrset else .noerror
  else .noerror

/-- The prerequisite loop: the offset after the section, or the code it fails with. -/
def prereqLoop (st : State) (tz : TZone) (pkt : Bytes) : Nat → Nat → Except Rcode Nat
  | 0, off => .ok off
  | n + 1, off =>
    match parseUpdateRR pkt off with
    | none => .error .formerr
    | some r =>
      match prereqCheck st tz r with
      | .noerror => prereqLoop st tz pkt n (r.rdoff + r.rdlen)
      | e => .error e

/-- The stored value `ttl|..` of an added TXT, CNAME, MX or SRV with the name of its type. `none`
for rdata that goes to `formerr`, `some none` for a type that is not stored this way. -/
def zoneValue : Option (Option (Text × Text)) :=
  let pre := fun fields : List Nat => (decimal (ttlOr r.ttl) ++ [124]) ++
    fields.flatMap fun n => decimal n ++ [124]
  if r.type = TXT then
    let sl := (byteAt pkt r.rdoff).toNat
    if sl > r.rdlen - 1 then none
    else some (some (lit "TXT", safeStrcpy (pre [] ++ cstr (slice pkt (r.rdoff + 1) sl)) 320))
  else if r.type = CNAME then
    (nameFromWire pkt r.rdoff 256).map fun t => some (lit "CNAME", safeStrcpy (pre [] ++ t.1) 320)
  else if r.type = MX ∧ r.rdlen ≥ 3 then
    (nameFromWire pkt (r.rdoff + 2) 256).map fun t =>
      some (lit "MX", safeStrcpy (pre [get16 pkt r.rdoff] ++ t.1) 384)
  else if r.type = SRV ∧ r.rdlen ≥ 7 then
    (nameFromWire pkt (r.rdoff + 6) 256).map fun t =>
      some (lit "SRV", safeStrcpy (pre [get16 pkt r.rdoff, get16 pkt (r.rdoff + 2),
        get16 pkt (r.rdoff + 4)] ++ t.1) 384)
  else some none

/-- The address an addition carries, as the name of its type, its text and the size of the buffer
the old value is read into. -/
def addedAddress : Option (Text × Text × Nat) :=
  if r.type = RRType.A ∧ r.rdlen = 4 then
    some (lit "A", inetNtop4 (slice pkt r.rdoff 4), 64)
  else if r.type = AAAA ∧ r.rdlen = 16 then
    some (lit "AAAA", inetNtop6 (slice pkt r.rdoff 16), 46)
  else none

/-- The addition of an address: stored, journaled and mirrored in the reverse zone when it changes
the stored value, else a renewal. -/
def addAddress (name : Text) (ttl : Nat) (type ip : Text) (oldSize : Nat) : State :=
  let key := dkey (st.keyZone tz) type name
  let old := vkGet st.store key oldSize
  if old = some ip then
    autoPtrApply S { st with store := vkSet st.store key ip (ttlOr ttl) } name ip ttl false false
  else
    let st1 := journaled S (State.zoneName S st tz) (st.serial tz) opAdd name ip
      (txnSetAndBump S st tz key ip (ttlOr ttl))
    let st2 := match old with
      | some o => if o = [] then st1 else autoPtrApply S st1 name o 0 true true
      | none => st1
    autoPtrApply S st2 name ip ttl false true

/-- The deletion of the stored address of one type. -/
def delAddress (name type : Text) (oldSize : Nat) : State :=
  let key := dkey (st.keyZone tz) type name
  let old := (vkGet st.store key oldSize).getD []
  if old = [] then { st with store := vkDel st.store key }
  else
    let t := txnDelAndBump S st tz [key]
    if t.1 = 0 then t.2
    else
      autoPtrApply S (ixfrJournalAppend S t.2 (State.zoneName S st tz) (st.serial tz) t.1 opDel name
        old) name old 0 true true

/-- The types a deletion removes without journaling. -/
def delOthers : List Text :=
  [(TXT, lit "TXT"), (CNAME, lit "CNAME"), (MX, lit "MX"),
    (SRV, lit "SRV")].filterMap fun p =>
      if r.type = p.1 ∨ r.type = ANY then some p.2 else none

/-- A deletion (class ANY or NONE, no rdata). -/
def applyDelete : State :=
  let st1 := if r.type = RRType.A ∨ r.type = ANY then
    delAddress S st tz r.name (lit "A") 64 else st
  let st2 := if r.type = AAAA ∨ r.type = ANY then
    delAddress S st1 tz r.name (lit "AAAA") 46 else st1
  if delOthers r = [] then st2
  else (txnDelAndBump S st2 tz ((delOthers r).map fun t => zkey (st.keyZone tz) t r.name)).2

/-- An addition (class IN with rdata); the rdata has passed `zoneValue`. -/
def applyAdd : State :=
  match addedAddress pkt r with
  | some (type, ip, size) => addAddress S st tz r.name r.ttl type ip size
  | none =>
    match zoneValue pkt r with
    | some (some (type, val)) =>
      (txnSetAndBump S st tz (zkey (st.keyZone tz) type r.name) val 0).2
    | _ => st

/-- The record is an addition. -/
def UpdateRR.isAdd : Bool := r.cls == RRClass.IN && 0 < r.rdlen

/-- The record is a deletion. -/
def UpdateRR.isDelete : Bool :=
  (r.cls == RRClass.ANY || r.cls == RRClass.NONE) && r.rdlen == 0

/-- One record of the update section, behind its checks. Anything else is ignored. -/
def applyUpdateRR (st : State) (r : UpdateRR) : State :=
  if r.isAdd then applyAdd S st tz pkt r
  else if r.isDelete then applyDelete S st tz r
  else st

/-- The checks on one record: its name, then the rdata of an addition. -/
def checkUpdateRR : Rcode :=
  if !ddnsNameAllowed S r.name then .refused
  else if r.isAdd ∧ addedAddress pkt r = none ∧ zoneValue pkt r = none then .formerr
  else .noerror

/-- The update loop. -/
def updateLoop (S : Settings) (tz : TZone) (pkt : Bytes) : Nat → Nat → State → Rcode × State
  | 0, _, st => (.noerror, st)
  | n + 1, off, st =>
    match parseUpdateRR pkt off with
    | none => (.formerr, st)
    | some r =>
      match checkUpdateRR S pkt r with
      | .noerror => updateLoop S tz pkt n (r.rdoff + r.rdlen) (applyUpdateRR S tz pkt st r)
      | e => (e, st)

/-! ## The plan of the update section -/

/-- The records of the update section up to the first that fails a check, and the code of that
check. -/
def updatePlan (S : Settings) (pkt : Bytes) : Nat → Nat → List UpdateRR × Rcode
  | 0, _ => ([], .noerror)
  | n + 1, off =>
    match parseUpdateRR pkt off with
    | none => ([], .formerr)
    | some r =>
      match checkUpdateRR S pkt r with
      | .noerror =>
        let rest := updatePlan S pkt n (r.rdoff + r.rdlen)
        (r :: rest.1, rest.2)
      | e => ([], e)

/-- **The loop applies the plan**: what fails does not depend on what is stored. -/
theorem updateLoop_eq (S : Settings) (tz : TZone) (pkt : Bytes) (n off : Nat) (st : State) :
    updateLoop S tz pkt n off st =
      ((updatePlan S pkt n off).2,
        (updatePlan S pkt n off).1.foldl (applyUpdateRR S tz pkt) st) := by
  induction n generalizing off st with
  | zero => rfl
  | succ n ih =>
    simp only [updateLoop, updatePlan]
    cases parseUpdateRR pkt off with
    | none => rfl
    | some r =>
      cases hc : checkUpdateRR S pkt r with
      | noerror => simp [hc, ih]
      | _ => simp [hc]

/-! ## Serial bumps -/

/-- The record moves a serial. -/
def Bumps : Bool :=
  let zone := st.keyZone tz
  if r.isAdd then
    match addedAddress pkt r with
    | some (type, ip, size) => vkGet st.store (dkey zone type r.name) size != some ip
    | none => ((zoneValue pkt r).getD none).isSome
  else if r.isDelete then
    delOthers r != [] ||
      (r.type == RRType.A && ((vkGet st.store (dkey zone (lit "A") r.name) 64).getD []) != []) ||
      (r.type == AAAA &&
        ((vkGet st.store (dkey zone (lit "AAAA") r.name) 46).getD []) != [])
  else false

/-- The key of the automatic PTR of an address. -/
def ptrKey (ip : Text) : Option Text :=
  if S.ddnsAutoPtr then
    (ddnsReverseName ip).bind fun rev => (zoneForQname st.zones rev).map fun rz =>
      dkey (st.keyZone (some rz)) (lit "PTR") rev
  else none

/-- The removals of the address keys that hold nothing. -/
def emptyDeletes (zone : Text) (r : UpdateRR) : List (Write Text Cell) :=
  if r.type = RRType.A then [(dkey zone (lit "A") r.name, none)]
  else if r.type = AAAA then [(dkey zone (lit "AAAA") r.name, none)]
  else []

/-- The writes of a record that moves no serial: the renewed lease of an address and of its PTR, or
the removal of an address key that holds nothing. -/
def renewals : List (Write Text Cell) :=
  let zone := st.keyZone tz
  if r.isAdd then
    match addedAddress pkt r with
    | some (type, ip, _) =>
      (dkey zone type r.name, some (leaseCell ip (ttlOr r.ttl))) ::
        (ptrKey S st ip).toList.map fun k => (k, some (leaseCell r.name (ttlOr r.ttl)))
    | none => []
  else if r.isDelete then emptyDeletes zone r
  else []

theorem grows_autoPtrApply (S : Settings) (st : State) (fqdn ip : Text) (ttl : Nat)
    (del doBump : Bool) : Grows st (autoPtrApply S st fqdn ip ttl del doBump) := by
  unfold autoPtrApply
  split
  · exact Grows.refl _
  split
  · exact Grows.refl _
  split
  · exact Grows.refl _
  dsimp only
  split
  · exact Grows.refl _
  split
  · exact Grows.of_counter_eq rfl
  · refine Grows.trans ?_ (grows_journaled ..)
    split
    · exact (bumped_txnDelAndBump ..).toGrows
    · exact (bumped_txnSetAndBump ..).toGrows

variable {S : Settings} {st : State} {tz : TZone} {name type : Text} {size : Nat}

theorem bumped_addAddress {ip : Text} {ttl : Nat}
    (h : vkGet st.store (dkey (st.keyZone tz) type name) size ≠ some ip) :
    Bumped st (addAddress S st tz name ttl type ip size) := by
  unfold addAddress
  simp only [if_neg h]
  refine Bumped.trans_grows ?_ (grows_autoPtrApply ..)
  have hset := (bumped_txnSetAndBump S st tz (dkey (st.keyZone tz) type name) ip
    (ttlOr ttl)).trans_grows (grows_journaled S (State.zoneName S st tz) (st.serial tz) opAdd name
      ip _)
  split
  · split
    · exact hset
    · exact hset.trans_grows (grows_autoPtrApply ..)
  · exact hset

theorem bumped_delAddress (h : (vkGet st.store (dkey (st.keyZone tz) type name) size).getD [] ≠ [])
    :
    Bumped st (delAddress S st tz name type size) := by
  unfold delAddress
  simp only [if_neg h]
  have hdel := bumped_txnDelAndBump S st tz [dkey (st.keyZone tz) type name]
  split
  · exact hdel
  · exact (hdel.trans_grows (grows_ixfrJournalAppend ..)).trans_grows (grows_autoPtrApply ..)

theorem delAddress_of_empty
    (h : (vkGet st.store (dkey (st.keyZone tz) type name) size).getD [] = []) :
    delAddress S st tz name type size =
      { st with store := vkDel st.store (dkey (st.keyZone tz) type name) } := by
  unfold delAddress
  simp only [if_pos h]

theorem grows_delAddress (S : Settings) (st : State) (tz : TZone) (name type : Text)
    (size : Nat) : Grows st (delAddress S st tz name type size) := by
  by_cases h : (vkGet st.store (dkey (st.keyZone tz) type name) size).getD [] = []
  · rw [delAddress_of_empty h]
    exact Grows.of_counter_eq rfl
  · exact (bumped_delAddress h).toGrows

variable {r : UpdateRR}

theorem bumped_applyDelete
    (h : delOthers r ≠ [] ∨ (r.type = RRType.A ∧ (vkGet st.store (dkey (st.keyZone tz) (lit "A")
      r.name) 64).getD [] ≠ []) ∨ (r.type = AAAA ∧ (vkGet st.store (dkey (st.keyZone tz)
      (lit "AAAA") r.name) 46).getD [] ≠ [])) : Bumped st (applyDelete S st tz r) := by
  have hA : ∀ st : State, Grows st (if r.type = RRType.A ∨ r.type = ANY then
      delAddress S st tz r.name (lit "A") 64 else st) := by
    intro st
    split
    · exact grows_delAddress ..
    · exact Grows.refl _
  have hAAAA : ∀ st : State, Grows st (if r.type = AAAA ∨ r.type = ANY then
      delAddress S st tz r.name (lit "AAAA") 46 else st) := by
    intro st
    split
    · exact grows_delAddress ..
    · exact Grows.refl _
  unfold applyDelete
  dsimp only
  split
  · rename_i hnone
    obtain ⟨hA', hv⟩ | ⟨hA', hv⟩ := h.resolve_left (not_not_intro hnone)
    · rw [if_pos (Or.inl hA')]
      exact (bumped_delAddress hv).trans_grows (hAAAA _)
    · have hne : ¬(r.type = RRType.A ∨ r.type = ANY) := by
        rw [hA']
        decide
      rw [if_neg hne, if_pos (.inl hA')]
      exact bumped_delAddress hv
  · exact ((hA st).trans (hAAAA _)).trans_bumped (bumped_txnDelAndBump ..)

variable {pkt : Bytes}

/-- A record that moves a serial moves a counter up, and no record moves one down. -/
theorem bumped_applyUpdateRR (h : Bumps st tz pkt r = true) :
    Bumped st (applyUpdateRR S tz pkt st r) := by
  unfold Bumps at h
  unfold applyUpdateRR
  split at h
  · rename_i hadd
    rw [if_pos hadd]
    unfold applyAdd
    cases ha : addedAddress pkt r with
    | some a =>
      obtain ⟨type, ip, size⟩ := a
      simp only [ha, bne_iff_ne] at h
      exact bumped_addAddress h
    | none =>
      simp only [ha] at h
      match hz : zoneValue pkt r with
      | some (some (type, val)) => exact bumped_txnSetAndBump ..
      | some none => simp [hz] at h
      | none => simp [hz] at h
  · rename_i hadd
    rw [if_neg hadd]
    split at h
    · rename_i hdel
      rw [if_pos hdel]
      refine bumped_applyDelete ?_
      simpa [or_assoc] using h
    · cases h

theorem autoPtrApply_renew (S : Settings) (st : State) (fqdn ip : Text) (ttl : Nat) :
    autoPtrApply S st fqdn ip ttl false false =
      { st with store := applyWrites st.store ((ptrKey S st ip).toList.map fun k =>
          (k, some (leaseCell fqdn (ttlOr ttl)))) } := by
  unfold autoPtrApply ptrKey
  cases S.ddnsAutoPtr with
  | false => rfl
  | true =>
    cases ddnsReverseName ip with
    | none => rfl
    | some rev =>
      simp only [Bool.not_true, Bool.false_eq_true, if_false, Option.bind_some, if_true]
      cases zoneForQname st.zones rev with
      | none => rfl
      | some rz => simp [applyWrites_cons, vkSet]

theorem applyDelete_of_not_bumps (hothers : delOthers r = [])
    (hA : r.type = RRType.A → (vkGet st.store (dkey (st.keyZone tz) (lit "A") r.name) 64).getD [] =
      [])
    (hAAAA : r.type = AAAA → (vkGet st.store (dkey (st.keyZone tz) (lit "AAAA") r.name)
      46).getD [] = []) : applyDelete S st tz r =
      { st with store := applyWrites st.store (emptyDeletes (st.keyZone tz) r) } := by
  have hany : r.type ≠ ANY := by
    intro hany
    rw [delOthers, hany] at hothers
    revert hothers
    decide
  unfold applyDelete emptyDeletes
  simp only [hothers, hany, or_false, if_true]
  by_cases h1 : r.type = RRType.A
  · have h2 : r.type ≠ AAAA := by
      rw [h1]
      decide
    rw [if_pos h1, if_neg h2, if_pos h1, delAddress_of_empty (hA h1)]
    rfl
  · rw [if_neg h1, if_neg h1]
    by_cases h2 : r.type = AAAA
    · rw [if_pos h2, if_pos h2, delAddress_of_empty (hAAAA h2)]
      rfl
    · rw [if_neg h2, if_neg h2]
      rfl

/-- **A record that moves no serial makes its renewals and nothing else.** -/
theorem applyUpdateRR_of_not_bumps (h : Bumps st tz pkt r = false) : applyUpdateRR S tz pkt st r =
      { st with store := applyWrites st.store (renewals S st tz pkt r) } := by
  unfold Bumps at h
  unfold applyUpdateRR renewals
  split at h
  · rename_i hadd
    rw [if_pos hadd, if_pos hadd]
    unfold applyAdd
    cases ha : addedAddress pkt r with
    | some a =>
      obtain ⟨type, ip, size⟩ := a
      simp only [ha, bne_eq_false_iff_eq] at h
      simp only [addAddress, h, if_true, autoPtrApply_renew, applyWrites_cons]
      rfl
    | none =>
      simp only [ha] at h
      match hz : zoneValue pkt r with
      | some (some (type, val)) => simp [hz] at h
      | some none => rfl
      | none => rfl
  · rename_i hadd
    rw [if_neg hadd, if_neg hadd]
    split at h
    · rename_i hdel
      rw [if_pos hdel, if_pos hdel]
      simp only [Bool.or_eq_false_iff, bne_eq_false_iff_eq, Bool.and_eq_false_iff,
        beq_eq_false_iff_ne] at h
      obtain ⟨⟨hothers, hA⟩, hAAAA⟩ := h
      exact applyDelete_of_not_bumps hothers (fun ht => hA.resolve_left (not_not_intro ht))
        fun ht => hAAAA.resolve_left (not_not_intro ht)
    · rename_i hdel
      rw [if_neg hdel, if_neg hdel]
      rfl

/-! ## A list of records -/

/-- None of the records moves a serial, each in the store the renewals of those before it leave. -/
def NoBump (S : Settings) (st : State) (tz : TZone) (pkt : Bytes) : List UpdateRR → Prop
  | [] => True
  | r :: rs => Bumps st tz pkt r = false ∧
      NoBump S { st with store := applyWrites st.store (renewals S st tz pkt r) } tz pkt rs

theorem grows_applyUpdateRR (S : Settings) (tz : TZone) (pkt : Bytes) (st : State)
    (r : UpdateRR) : Grows st (applyUpdateRR S tz pkt st r) := by
  cases h : Bumps st tz pkt r with
  | true => exact (bumped_applyUpdateRR h).toGrows
  | false =>
    rw [applyUpdateRR_of_not_bumps h]
    exact Grows.of_counter_eq rfl

theorem grows_foldl_applyUpdateRR (S : Settings) (tz : TZone) (pkt : Bytes)
    (rs : List UpdateRR) (st : State) : Grows st (rs.foldl (applyUpdateRR S tz pkt) st) := by
  induction rs generalizing st with
  | nil => exact Grows.refl _
  | cons r rs ih => exact (grows_applyUpdateRR S tz pkt st r).trans (ih _)

theorem foldl_applyUpdateRR_of_noBump {rs : List UpdateRR} (h : NoBump S st tz pkt rs) :
    rs.foldl (applyUpdateRR S tz pkt) st =
      { st with store := applyWrites st.store (rs.flatMap (renewals S st tz pkt)) } := by
  induction rs generalizing st with
  | nil => rfl
  | cons r rs ih =>
    rw [foldl_cons, applyUpdateRR_of_not_bumps h.1, ih h.2, flatMap_cons,
      applyWrites_append]
    rfl

theorem bumped_of_not_noBump {rs : List UpdateRR} (h : ¬NoBump S st tz pkt rs) :
    Bumped st (rs.foldl (applyUpdateRR S tz pkt) st) := by
  induction rs generalizing st with
  | nil => exact absurd trivial h
  | cons r rs ih =>
    rw [foldl_cons]
    cases hb : Bumps st tz pkt r with
    | true => exact (bumped_applyUpdateRR hb).trans_grows (grows_foldl_applyUpdateRR ..)
    | false =>
      refine (grows_applyUpdateRR S tz pkt st r).trans_bumped ?_
      rw [applyUpdateRR_of_not_bumps hb]
      exact ih fun hrest => h ⟨hb, hrest⟩

/-- **When the records of an update leave the server as it was**: none of them moves a serial, and
the last write of their renewals to each key is what the key holds. -/
theorem foldl_applyUpdateRR_eq_self_iff (S : Settings) (tz : TZone) (pkt : Bytes)
    (rs : List UpdateRR) (st : State) :
    rs.foldl (applyUpdateRR S tz pkt) st = st ↔
      NoBump S st tz pkt rs ∧
        ∀ k v, lastWrite k (rs.flatMap (renewals S st tz pkt)) = some v → st.store k = v := by
  by_cases hb : NoBump S st tz pkt rs
  · rw [foldl_applyUpdateRR_of_noBump hb, and_iff_right hb, ← applyWrites_eq_self_iff]
    exact ⟨fun h => congrArg State.store h, fun h => by rw [h]⟩
  · exact iff_of_false (bumped_of_not_noBump hb).ne fun h => hb h.1

end SimpleDns.Server
