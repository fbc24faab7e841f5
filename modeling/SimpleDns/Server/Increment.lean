import SimpleDns.Server.Handle
import SimpleDns.Server.Served

/-!
# What a secondary reads of an incremental answer (`dns_server.c:9708-9857`, `9983-10107`)

`axfr_thread` answers an IXFR request with the difference sequences of a chain of journal entries,
or with its SOA alone if the requester is up to date. `xfr_pull` does not know what it asked for: it
infers from the SOAs whether it is reading differences or a full transfer.

* `Chain` is what `ixfr_journal_fetch` returns: each entry starts where the one before it ended, and
  only the last one ends at the current serial (`fetchLoop_chain`).
* `pull_chain`: the sections of a chain are told apart, so the collected diffs are those of its
  entries, in order.
* **`xfrRead_stream_iff`**: the answer is read as what it is exactly when one entry of the chain has
  an address as its value. Entries with other values are left out of the stream, and a stream
  without any difference sequence is two SOAs with nothing between them, a full transfer of an empty
  zone.
-/

namespace SimpleDns.Server

open Wire Lib List Option

/-! ## The chain -/

/-- The entries lead from serial `fs` to `current`, which none but the last one ends at. -/
def Chain (current : Nat) : Nat → List Text → Prop
  | _, [] => False
  | fs, e :: es =>
    ∃ ts, scanSerials e = some (fs, ts) ∧
      (ts = current ∧ es = [] ∨ ts ≠ current ∧ Chain current ts es)

variable {current : Nat}

/-- A successful walk has put a chain behind what it had. -/
theorem fetchLoop_chain {start cap : Nat} {journal acc l : List Text} {want : Option Nat}
    (h : fetchLoop start current cap journal want acc = some l) :
    ∃ es, l = acc ++ es ∧ l.length ≤ cap ∧ Chain current (want.getD start) es := by
  induction journal generalizing want acc with
  | nil => simp [fetchLoop] at h
  | cons e journal ih =>
    rw [fetchLoop] at h
    cases hscan : scanSerials e with
    | none =>
      rw [hscan] at h
      exact ih h
    | some p =>
      obtain ⟨fs, ts⟩ := p
      simp only [hscan] at h
      by_cases hstart : fs = want.getD start
      · rw [if_pos hstart] at h
        by_cases hfull : acc.length ≥ cap
        · rw [if_pos hfull] at h
          cases h
        rw [if_neg hfull] at h
        by_cases hend : ts = current
        · rw [if_pos hend, some.injEq] at h
          refine ⟨[e], h.symm, ?_, ts, by rw [hscan, hstart], .inl ⟨hend, rfl⟩⟩
          rw [← h, length_append, length_singleton]
          omega
        · rw [if_neg hend] at h
          obtain ⟨es, hl, hlen, hchain⟩ := ih h
          refine ⟨e :: es, by rw [hl, append_assoc, singleton_append], hlen, ts, ?_,
            .inr ⟨hend, hchain⟩⟩
          rw [hscan, hstart]
      · rw [if_neg hstart] at h
        cases want with
        | none => exact ih h
        | some w => cases h

variable {fs : Nat}

/-- The two scans of an entry agree on its serials. -/
theorem scanEntry_of_scanSerials {e : Text} {ts : Nat} (h : scanSerials e = some (fs, ts)) :
    (scanEntry e).fromSerial = fs ∧ (scanEntry e).toSerial = ts := by
  simp only [scanSerials, bind_eq_some_iff, map_eq_some_iff, Prod.mk.injEq] at h
  obtain ⟨f, hf, r, hr, t, ht, rfl, rfl⟩ := h
  have hts : (scanBar f.2).bind scanU = some t := by rw [hr, bind_some, ht]
  unfold scanEntry
  rw [hf]
  simp only [hts]
  split
  · split
    · exact ⟨rfl, rfl⟩
    · split <;> exact ⟨rfl, rfl⟩
  · exact ⟨rfl, rfl⟩

/-! ## The records of an entry -/

/-- The entry has a difference sequence in the stream. -/
def rendered (e : Text) : Bool := (entryAddress (scanEntry e).value).isSome

/-- The record the sequence of an entry adds or deletes. -/
def entryDiffs (e : Text) : List XfrDiff :=
  let l := scanEntry e
  match entryAddress l.value with
  | none => []
  | some (family, rd) =>
    (wireOwner l.name).toList.flatMap fun n =>
      if l.op = opDel ∨ l.op = opAdd then
        [⟨l.op, n, family.rrtype, defaultTtl, family.ntop rd⟩] else []

theorem length_entryDiffs_le (e : Text) : (entryDiffs e).length ≤ 1 := by
  unfold entryDiffs
  dsimp only
  split
  · exact Nat.zero_le 1
  · cases wireOwner (scanEntry e).name with
    | none => exact Nat.zero_le 1
    | some n =>
      rw [toList_some, flatMap_singleton]
      split <;> simp

variable {family : Family} {rd : Bytes}

theorem length_of_entryAddress {v : Text} (h : entryAddress v = some (family, rd)) :
    rd.length = family.len := by
  unfold entryAddress at h
  split at h
  · rename_i b h4
    cases h
    exact (Family.pton_spec (f := .inet) h4).1
  · obtain ⟨b, h6, heq⟩ := map_eq_some_iff.mp h
    cases heq
    exact (Family.pton_spec (f := .inet6) h6).1

/-- The secondary keeps every address record, as its text. -/
theorem xfrRdataToStore_address (h : rd.length = family.len) :
    xfrRdataToStore family.rrtype rd = some (family.ntop rd) := by
  cases family with
  | inet =>
    have h4 : rd.length = 4 := h
    simp [xfrRdataToStore, Family.rrtype, RRType.A, h4, Family.ntop]
  | inet6 =>
    have h16 : rd.length = 16 := h
    simp [xfrRdataToStore, Family.rrtype, RRType.A, RRType.AAAA, h16, Family.ntop]

/-! ## The sections are told apart -/

/-- The variables of `xfr_pull` behind the diffs of `k` entries. -/
def pulled (target k : Nat) (diffs : List XfrDiff) : Pull :=
  ⟨2 * k + 1, if k = 0 then .unknown else .incremental, k != 0, false, target, diffs, []⟩

/-- The same between the two SOAs of the next entry. -/
def pulledHalf (target k : Nat) (diffs : List XfrDiff) : Pull :=
  ⟨2 * k + 2, .incremental, false, false, target, diffs, []⟩

variable {serial k : Nat} {diffs : List XfrDiff}

theorem pullStep_from {target : Nat} (h : serial ≠ target) :
    pullStep (pulled target k diffs) (.soa serial) = some (pulledHalf target k diffs) := by
  have hone : 2 * k + 1 + 1 ≠ 1 := by omega
  have hodd : ((2 * k + 1 + 1) % 2 == 1) = false := by
    rw [beq_eq_false_iff_ne]
    omega
  simp only [pullStep, pulled, pulledHalf, Bool.false_eq_true, if_false, if_neg hone, h, and_false,
    hodd]
  split <;> simp_all

theorem pullStep_to (serial target k : Nat) (diffs : List XfrDiff) :
    pullStep (pulledHalf target k diffs) (.soa serial) = some (pulled target (k + 1) diffs) := by
  have hone : 2 * k + 2 + 1 ≠ 1 := by omega
  have heven : ¬((2 * k + 2 + 1) % 2 = 0 ∧ serial = target) := by omega
  have hodd : ((2 * k + 2 + 1) % 2 == 1) = true := by
    rw [beq_iff_eq]
    omega
  simp only [pullStep, pulled, pulledHalf, Bool.false_eq_true, if_false, if_neg hone, if_neg heven,
    hodd, reduceCtorEq, Nat.add_one_ne_zero]
  rfl

/-- A record inside a difference sequence. -/
theorem pullStep_rr {p : Pull} {n : Text} {ttl : Nat} (hdone : p.done = false)
    (hmode : p.mode = .incremental) (hrd : rd.length = family.len)
    (hlen : p.diffs.length < xfrMaxDiffs) :
    pullStep p (.data n family.rrtype ttl rd) = some { p with
      diffs := p.diffs ++
        [⟨if p.inAdd then opAdd else opDel, n, family.rrtype, ttl, family.ntop rd⟩] } := by
  simp [pullStep, hdone, hmode, xfrRdataToStore_address hrd, if_neg (not_le.mpr hlen)]

/-- The sequence of one entry. -/
theorem pull_diffSequence {e : Text} {target : Nat} (hfrom : (scanEntry e).fromSerial ≠ target)
    (hlen : diffs.length < xfrMaxDiffs) : (diffSequence e).foldlM pullStep (pulled target k diffs) =
      some (pulled target (k + (rendered e).toNat) (diffs ++ entryDiffs e)) := by
  unfold diffSequence rendered entryDiffs
  dsimp only
  cases haddr : entryAddress (scanEntry e).value with
  | none => simp
  | some a =>
    obtain ⟨family, rd⟩ := a
    have hrd := length_of_entryAddress haddr
    -- the record stands in the section its operation names, or nowhere
    have hdel : ∀ n, pullStep (pulledHalf target k diffs) (.data n family.rrtype defaultTtl rd) =
        some (pulledHalf target k (diffs ++
          [⟨opDel, n, family.rrtype, defaultTtl, family.ntop rd⟩])) :=
      fun n => pullStep_rr rfl rfl hrd hlen
    have hadd : ∀ n, pullStep (pulled target (k + 1) diffs)
        (.data n family.rrtype defaultTtl rd) =
        some (pulled target (k + 1) (diffs ++
          [⟨opAdd, n, family.rrtype, defaultTtl, family.ntop rd⟩])) :=
      fun n => pullStep_rr rfl rfl hrd hlen
    have hne : opDel ≠ opAdd := by decide
    cases wireOwner (scanEntry e).name with
    | none =>
      simp [pullStep_from hfrom, pullStep_to]
    | some n =>
      by_cases hD : (scanEntry e).op = opDel
      · simp [hD, hne, pullStep_from hfrom, hdel, pullStep_to]
      · by_cases hA : (scanEntry e).op = opAdd
        · simp [hA, hne.symm, pullStep_from hfrom, pullStep_to, hadd]
        · simp [hD, hA, pullStep_from hfrom, pullStep_to]

variable {es : List Text}

/-- **The sections of a chain**, one difference sequence after the other. -/
theorem pull_chain (hchain : Chain current fs es) (hfs : fs ≠ current)
    (hlen : diffs.length + es.length ≤ xfrMaxDiffs) :
    (es.flatMap diffSequence).foldlM pullStep (pulled current k diffs) =
      some (pulled current (k + es.countP rendered) (diffs ++ es.flatMap entryDiffs)) := by
  induction es generalizing fs k diffs with
  | nil => exact hchain.elim
  | cons e es ih =>
    obtain ⟨ts, hscan, hnext⟩ := hchain
    rw [length_cons] at hlen
    have hfrom : (scanEntry e).fromSerial ≠ current :=
      (scanEntry_of_scanSerials hscan).1.trans_ne hfs
    rw [flatMap_cons, foldlM_append, pull_diffSequence hfrom (by omega),
      bind_eq_bind, bind_some, countP_cons, flatMap_cons]
    rcases hnext with ⟨-, rfl⟩ | ⟨hts, hnext⟩
    · cases rendered e <;> simp
    · have hone := length_entryDiffs_le e
      rw [ih hnext hts (by rw [length_append]; omega), append_assoc]
      congr 2
      cases rendered e with
      | false => simp
      | true =>
        simp only [Bool.toNat_true, if_true]
        omega

/-! ## What is made of a stream -/

/-- **The chain is read as its diffs**, unless none of its entries has a difference sequence. -/
theorem xfrRead_ixfrStream (hchain : Chain current fs es) (hfs : fs ≠ current)
    (hlen : es.length ≤ ixfrJournalMax) (localSerial : Nat) :
    xfrRead localSerial (ixfrStream current es) =
      if es.any rendered then .diffs (es.flatMap entryDiffs) current else .full [] current := by
  have hmax : es.length ≤ xfrMaxDiffs := hlen.trans (by decide)
  have hfirst : pullStep .initial (.soa current) = some (pulled current 0 []) := rfl
  have hmid := pull_chain (k := 0) hchain hfs (show ([] : List XfrDiff).length + _ ≤ _ by simpa)
  rw [nil_append, Nat.zero_add] at hmid
  have hlast : ∀ k ds, pullStep (pulled current k ds) (.soa current) =
      some ⟨2 * k + 2, if k = 0 then .unknown else .incremental, k != 0, true, current, ds,
        []⟩ := by
    intro k ds
    have heven : (2 * k + 1 + 1) % 2 = 0 := by omega
    simp [pullStep, pulled, heven]
  simp only [xfrRead, ixfrStream, foldlM_cons, foldlM_append, foldlM_nil, hfirst,
    Option.bind_eq_bind, Option.bind_some, hmid, hlast, Option.pure_def, if_true]
  by_cases hany : es.any rendered
  · have hpos : es.countP rendered ≠ 0 := by
      rw [← Nat.pos_iff_ne_zero, countP_pos_iff]
      exact any_eq_true.mp hany
    simp [hany, hpos]
  · have hzero : es.countP rendered = 0 := by
      rw [countP_eq_zero]
      simpa using hany
    simp [hany, hzero]

/-! ## The IXFR part of `axfr_thread` -/

/-- The two answers that are no full transfer: a chain of journal entries, or the SOA alone. -/
inductive IxfrAnswer
  | chain (entries : List Text)
  | current
deriving DecidableEq, Repr

/-- The answer to a request at `serial`; `none` goes on to the full transfer. -/
def ixfrAnswer (S : Settings) (st : State) (Z : ZoneEntry) (serial : Nat) : Option IxfrAnswer :=
  if 0 < serial ∧ serialLt serial Z.soaSerial then
    (ixfrJournalFetch S st Z.name serial Z.soaSerial).map .chain
  else if serial = Z.soaSerial then some .current
  else none

/-- The records of the answer up to where reading stops. Without an SOA rdata (`soa_len <= 0`) the
first message counts a record and holds none, and nothing is read. -/
def IxfrAnswer.stream (soa : Option Bytes) (current : Nat) (a : IxfrAnswer) : List XfrRR :=
  if soa.isNone then []
  else
    match a with
    | .chain es => ixfrStream current es
    | .current => [.soa current]

/-- The records that are added and deleted. -/
def IxfrAnswer.records : IxfrAnswer → List XfrDiff
  | .chain es => es.flatMap entryDiffs
  | .current => []

/-- Some entry of the chain has an address as its value. -/
def IxfrAnswer.Substantial : IxfrAnswer → Prop
  | .chain es => ∃ e ∈ es, (entryAddress (scanEntry e).value).isSome = true
  | .current => True

theorem substantial_chain_iff (es : List Text) :
    (IxfrAnswer.chain es).Substantial ↔ es.any rendered = true := by
  rw [List.any_eq_true]
  rfl

/-- A chain answer is one that leads from the requested serial to another one. -/
theorem chain_of_ixfrAnswer {S : Settings} {st : State} {Z : ZoneEntry}
    (h : ixfrAnswer S st Z serial = some (.chain es)) :
    Chain Z.soaSerial serial es ∧ serial ≠ Z.soaSerial ∧ es.length ≤ ixfrJournalMax := by
  unfold ixfrAnswer at h
  split at h
  · rename_i hlt
    obtain ⟨l, hfetch, heq⟩ := map_eq_some_iff.mp h
    obtain rfl := IxfrAnswer.chain.inj heq
    obtain ⟨es, rfl, hlen, hchain⟩ := fetchLoop_chain hfetch
    refine ⟨hchain, ?_, hlen⟩
    have := hlt.2
    simp only [serialLt, decide_eq_true_eq] at this
    exact this.1
  · split at h <;> cases h

theorem serial_eq_of_ixfrAnswer {S : Settings} {st : State} {Z : ZoneEntry}
    (h : ixfrAnswer S st Z serial = some .current) : serial = Z.soaSerial := by
  unfold ixfrAnswer at h
  split at h
  · obtain ⟨l, -, heq⟩ := map_eq_some_iff.mp h
    cases heq
  · split at h
    · assumption
    · cases h

/-- **The records of an incremental answer are read as one** exactly when the zone has an SOA to
send and the chain has an entry whose value is an address: then the secondary is told that it is up
to date, or gets the records that were added and deleted, in order. -/
theorem xfrRead_stream_iff {S : Settings} {st : State} {Z : ServedZone} {a : IxfrAnswer}
    (ha : ixfrAnswer S st Z.toZoneEntry serial = some a) (global : ServedZone) :
    (xfrRead serial (a.stream (buildSoaRdata Z global) Z.soaSerial) = .upToDate ∨
      xfrRead serial (a.stream (buildSoaRdata Z global) Z.soaSerial) =
        .diffs a.records Z.soaSerial) ↔
      (buildSoaRdata Z global).isSome = true ∧ a.Substantial := by
  cases hsoa : buildSoaRdata Z global with
  | none =>
    have hread : xfrRead serial (a.stream none Z.soaSerial) = .refused := rfl
    simp [hread]
  | some soa =>
    rw [isSome_some, eq_self_iff_true, true_and]
    cases a with
    | current =>
      have hserial : serial = Z.soaSerial := serial_eq_of_ixfrAnswer ha
      have hread : xfrRead serial (IxfrAnswer.stream (some soa) Z.soaSerial .current) =
          .upToDate := by
        rw [hserial]
        simp [IxfrAnswer.stream, xfrRead, pullStep, Pull.initial]
      simp [hread, IxfrAnswer.Substantial]
    | chain es =>
      obtain ⟨hchain, hne, hlen⟩ := chain_of_ixfrAnswer ha
      have hread := xfrRead_ixfrStream hchain hne hlen serial
      rw [substantial_chain_iff]
      simp only [IxfrAnswer.stream, isNone_some, Bool.false_eq_true, if_false, hread,
        IxfrAnswer.records]
      cases es.any rendered with
      | false => simp
      | true => simp

end SimpleDns.Server
