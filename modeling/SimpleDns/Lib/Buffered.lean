import Mathlib.Data.List.TakeWhile
import Mathlib.Tactic.Common

/-!
# Reading a stream through a buffer

A stream arrives in pieces, and a reader takes elements out of a buffer of fixed capacity that it
refills piece by piece. How the stream is cut does not matter: each operation gives what it gives on
the stream as a whole.

* `Buffered`: what is unread in the buffer, and the pieces to come.
* `readUntil`, `readExactly`, `await`: up to a separator, a number of elements, until a number of
  elements is in the buffer.
* `readUntil_stream`, `readExactly_stream`, `await_stream`: the same operations on the stream.
* `Reader`: the two operations a parser needs, so that one parser reads from a buffer or from the
  stream; **`simulates_ofBuffer`**: it cannot tell them apart.
-/

namespace SimpleDns.Lib

open List

/-- The unread part of the buffer, and the pieces in which the rest of the stream will arrive. -/
structure Buffered (α : Type) where
  unread : List α
  pieces : List (List α)
  arrives : ∀ p ∈ pieces, p ≠ []

namespace Buffered

variable {α : Type}

/-- What is still to be read. -/
def stream (c : Buffered α) : List α := c.unread ++ c.pieces.flatten

/-- How much of it is not in the buffer. -/
def pending (c : Buffered α) : Nat := c.pieces.flatten.length

/-- A stream of which nothing has arrived. -/
def ofPieces (pieces : List (List α)) (h : ∀ p ∈ pieces, p ≠ []) : Buffered α := ⟨[], pieces, h⟩

/-- The pieces that are left when `room` elements of the first one were taken. -/
def leave (room : Nat) (p : List α) (ps : List (List α)) : List (List α) :=
  if p.length ≤ room then ps else p.drop room :: ps

theorem leave_ne_nil {room : Nat} {p : List α} {ps : List (List α)} (h : ∀ q ∈ p :: ps, q ≠ []) :
    ∀ q ∈ leave room p ps, q ≠ [] := by
  intro q hq
  unfold leave at hq
  split at hq
  · exact h q (mem_cons_of_mem _ hq)
  · rename_i hlt
    rcases mem_cons.mp hq with rfl | hq
    · simpa using hlt
    · exact h q (mem_cons_of_mem _ hq)

theorem take_append_leave (room : Nat) (p : List α) (ps : List (List α)) :
    p.take room ++ (leave room p ps).flatten = (p :: ps).flatten := by
  unfold leave
  split
  · rename_i hle
    rw [take_of_length_le hle, flatten_cons]
  · rw [flatten_cons, flatten_cons, ← append_assoc, take_append_drop]

/-- Refill a buffer of `cap` elements with the next piece, as far as there is room; `none` where
there is no room or nothing comes any more. -/
def fill (cap : Nat) (c : Buffered α) : Option (Buffered α) :=
  match c with
  | ⟨_, [], _⟩ => none
  | ⟨unread, p :: ps, h⟩ =>
    if cap ≤ unread.length then none
    else
      let room := cap - unread.length
      some ⟨unread ++ p.take room, leave room p ps, leave_ne_nil h⟩

/-- A refill keeps the stream and brings something. -/
structure Refilled (cap : Nat) (c c' : Buffered α) : Prop where
  stream : c'.stream = c.stream
  pending : c'.pending < c.pending
  bounded : c'.unread.length ≤ cap

variable {cap : Nat} {c : Buffered α}

theorem fill_refilled {c' : Buffered α} (h : c.fill cap = some c') : Refilled cap c c' := by
  obtain ⟨unread, pieces, harr⟩ := c
  cases pieces with
  | nil => cases h
  | cons p ps =>
    simp only [fill] at h
    split at h
    · cases h
    cases h
    have hsplit := take_append_leave (cap - unread.length) p ps
    have hpos := length_pos_iff.mpr (harr p mem_cons_self)
    refine ⟨?_, ?_, ?_⟩
    · simp only [stream, append_assoc, hsplit]
    · have hlen := congrArg length hsplit
      rw [length_append, length_take] at hlen
      simp only [pending]
      omega
    · rw [length_append, length_take]
      omega

/-- Where there is no refill, the stream ends with the buffer or the buffer is full. -/
theorem fill_none (h : c.fill cap = none) : c.stream = c.unread ∨ cap ≤ c.unread.length := by
  obtain ⟨unread, pieces, harr⟩ := c
  cases pieces with
  | nil => exact .inl (append_nil _)
  | cons p ps =>
    simp only [fill] at h
    split at h
    · exact .inr ‹_›
    · cases h

/-! ## The operations -/

/-- The elements up to the separator, which is read too; refills until it is in the buffer. -/
def readUntil [DecidableEq α] (cap : Nat) (sep : α) (c : Buffered α) :
    Option (List α) × Buffered α :=
  if sep ∈ c.unread then
    (some (c.unread.takeWhile (· ≠ sep)),
      { c with unread := (c.unread.dropWhile (· ≠ sep)).tail })
  else
    match _h : c.fill cap with
    | none => (none, c)
    | some c' => readUntil cap sep c'
termination_by c.pending
decreasing_by exact (fill_refilled _h).pending

/-- The next `n` elements, taken out of the buffer as they come. -/
def readExactly (cap n : Nat) (c : Buffered α) : Option (List α) × Buffered α :=
  if n = 0 then (some [], c)
  else if _hne : c.unread = [] then
    match _h : c.fill cap with
    | none => (none, c)
    | some c' => readExactly cap n c'
  else
    let k := min n c.unread.length
    let r := readExactly cap (n - k) { c with unread := c.unread.drop k }
    (r.1.map (c.unread.take k ++ ·), r.2)
termination_by (c.pending, n)
decreasing_by
  · exact Prod.Lex.left _ _ (fill_refilled _h).pending
  · refine Prod.Lex.right _ ?_
    have hpos := length_pos_iff.mpr _hne
    omega

/-- Refills until `k` elements are in the buffer. -/
def await (cap k : Nat) (c : Buffered α) : Bool × Buffered α :=
  if k ≤ c.unread.length then (true, c)
  else
    match _h : c.fill cap with
    | none => (false, c)
    | some c' => await cap k c'
termination_by c.pending
decreasing_by exact (fill_refilled _h).pending

/-! ## The operations on the stream -/

/-- A buffer that cannot be refilled shows all of the stream that it could ever hold. -/
theorem take_of_fill_none (hc : c.unread.length ≤ cap) (h : c.fill cap = none) :
    c.stream.take cap = c.unread := by
  rcases fill_none h with hend | hfull
  · rw [hend]
    exact take_of_length_le hc
  · rw [← le_antisymm hc hfull]
    exact take_left

theorem readUntil_stream [DecidableEq α] (sep : α) (hc : c.unread.length ≤ cap) :
    (readUntil cap sep c).1 =
        (if sep ∈ c.stream.take cap then some (c.stream.takeWhile (· ≠ sep)) else none) ∧
      (readUntil cap sep c).2.stream =
        (if sep ∈ c.stream.take cap then (c.stream.dropWhile (· ≠ sep)).tail else c.stream) ∧
      (readUntil cap sep c).2.unread.length ≤ cap := by
  fun_induction readUntil cap sep c with
  | case1 c hmem =>
    have hin : sep ∈ c.stream.take cap := by
      rw [stream, take_append, take_of_length_le hc]
      exact mem_append_left _ hmem
    have hne : c.unread.dropWhile (· ≠ sep) ≠ [] := by
      intro hnil
      simpa using dropWhile_eq_nil_iff.mp hnil sep hmem
    have hlen := congrArg length
      (takeWhile_append_dropWhile (p := fun x => decide (x ≠ sep)) (l := c.unread))
    have hpos := length_pos_iff.mpr hne
    rw [length_append] at hlen
    rw [if_pos hin, if_pos hin]
    refine ⟨?_, ?_, ?_⟩
    · rw [stream, takeWhile_append, if_neg (by omega)]
    · simp only [stream]
      rw [dropWhile_append, if_neg (by rwa [List.isEmpty_iff]), tail_append_of_ne_nil hne]
    · rw [length_tail]
      omega
  | case2 c hmem h =>
    rw [take_of_fill_none hc h, if_neg hmem, if_neg hmem]
    exact ⟨rfl, rfl, hc⟩
  | case3 c hmem c' h ih =>
    have hr := fill_refilled h
    rw [hr.stream] at ih
    exact ih hr.bounded

theorem readExactly_stream {n : Nat} (hcap : 0 < cap) (hc : c.unread.length ≤ cap) :
    (readExactly cap n c).1 = (if n ≤ c.stream.length then some (c.stream.take n) else none) ∧
      (readExactly cap n c).2.stream = c.stream.drop n ∧
      (readExactly cap n c).2.unread.length ≤ cap := by
  fun_induction readExactly cap n c with
  | case1 c => exact ⟨by simp, rfl, hc⟩
  | case2 n c hn hne h =>
    have hend : c.stream = [] := by
      rcases fill_none h with hend | hfull
      · rw [hend, hne]
      · rw [hne] at hfull
        exact absurd hfull (Nat.not_le.mpr hcap)
    rw [hend]
    exact ⟨by simp [hn], by simp, hc⟩
  | case3 n c hn hne c' h ih =>
    have hr := fill_refilled h
    rw [hr.stream] at ih
    exact ih hr.bounded
  | case4 n c hn hne k r ih =>
    have hstream : stream { c with unread := c.unread.drop k } = c.stream.drop k := by
      simp only [stream]
      rw [drop_append_of_le_length (Nat.min_le_right _ _)]
    have hk : c.unread.take k = c.stream.take k := by
      rw [stream, take_append_of_le_length (Nat.min_le_right _ _)]
    have hle : k ≤ n := Nat.min_le_left _ _
    have hlen : k ≤ c.stream.length := by
      rw [stream, length_append]
      omega
    rw [hstream] at ih
    obtain ⟨hval, hrest, hbound⟩ := ih (by simp only [length_drop]; omega)
    refine ⟨?_, ?_, hbound⟩
    · simp only [r, hval, length_drop, hk]
      by_cases hn : n ≤ c.stream.length
      · rw [if_pos (by omega), if_pos hn, Option.map_some, ← take_add, Nat.add_sub_cancel' hle]
      · rw [if_neg (by omega), if_neg hn, Option.map_none]
    · simp only [r, hrest, drop_drop]
      congr 1
      omega

theorem await_stream {k : Nat} (hk : k ≤ cap) (hc : c.unread.length ≤ cap) :
    (await cap k c).1 = decide (k ≤ c.stream.length) ∧ (await cap k c).2.stream = c.stream ∧
      (await cap k c).2.unread.length ≤ cap ∧
      ((await cap k c).1 = true → k ≤ (await cap k c).2.unread.length) := by
  fun_induction await cap k c with
  | case1 c hle =>
    have hlen : k ≤ c.stream.length := by
      rw [stream, length_append]
      omega
    exact ⟨by simp [hlen], rfl, hc, fun _ => hle⟩
  | case2 c hle h =>
    rcases fill_none h with hend | hfull
    · exact ⟨by simp [hend, hle], rfl, hc, nofun⟩
    · omega
  | case3 c hle c' h ih =>
    have hr := fill_refilled h
    rw [hr.stream] at ih
    exact ih hr.bounded

end Buffered

/-! ## Readers -/

/-- What a parser reads with: a line up to a separator, and a block of known length with a trailer
behind it that is skipped. -/
structure Reader (α σ : Type) where
  line : σ → Option (List α) × σ
  block : Nat → σ → Option (List α) × σ

namespace Reader

variable {α σ τ : Type}

/-- Reading from a buffer of `cap` elements. -/
def ofBuffer [DecidableEq α] (cap : Nat) (sep : α) (trailer : Nat) : Reader α (Buffered α) where
  line := Buffered.readUntil cap sep
  block n c :=
    match Buffered.readExactly cap n c with
    | (none, c) => (none, c)
    | (some xs, c) =>
      match Buffered.await cap trailer c with
      | (false, c) => (none, c)
      | (true, c) => (some xs, { c with unread := c.unread.drop trailer })

/-- Reading from the stream as a whole; a line still has to fit into the buffer. -/
def ofStream [DecidableEq α] (cap : Nat) (sep : α) (trailer : Nat) : Reader α (List α) where
  line s :=
    if sep ∈ s.take cap then (some (s.takeWhile (· ≠ sep)), (s.dropWhile (· ≠ sep)).tail)
    else (none, s)
  block n s :=
    if n + trailer ≤ s.length then (some (s.take n), s.drop (n + trailer)) else (none, s.drop n)

/-- Two results are the same and leave related states. -/
def Same {β : Type} (rel : σ → τ → Prop) (x : β × σ) (y : β × τ) : Prop :=
  x.1 = y.1 ∧ rel x.2 y.2

theorem Same.exists_eq {β : Type} {rel : σ → τ → Prop} {x : β × σ} {y : β × τ}
    (h : Same rel x y) : ∃ v s t, x = (v, s) ∧ y = (v, t) ∧ rel s t :=
  ⟨x.1, x.2, y.2, rfl, Prod.ext h.1.symm rfl, h.2⟩

/-- `S` gives what `R` gives, on related states. -/
structure Simulates (R : Reader α σ) (S : Reader α τ) (rel : σ → τ → Prop) : Prop where
  line : ∀ {s t}, rel s t → Same rel (R.line s) (S.line t)
  block : ∀ {s t} (n : Nat), rel s t → Same rel (R.block n s) (S.block n t)

/-- A buffer within its capacity, and the stream it stands for. -/
def Holds (cap : Nat) (c : Buffered α) (s : List α) : Prop :=
  c.stream = s ∧ c.unread.length ≤ cap

/-- **How the stream is cut into pieces does not matter.** -/
theorem simulates_ofBuffer [DecidableEq α] {cap trailer : Nat} (sep : α) (hcap : 0 < cap)
    (ht : trailer ≤ cap) :
    Simulates (ofBuffer cap sep trailer) (ofStream cap sep trailer) (Holds cap) where
  line := by
    rintro c s ⟨rfl, hc⟩
    obtain ⟨hval, hrest, hbound⟩ := Buffered.readUntil_stream sep hc
    refine ⟨?_, ?_, hbound⟩
    · simp only [ofBuffer, ofStream, hval]
      split <;> rfl
    · simp only [ofBuffer, ofStream, hrest]
      split <;> rfl
  block := by
    rintro c s n ⟨rfl, hc⟩
    obtain ⟨hval, hrest, hbound⟩ := Buffered.readExactly_stream (n := n) hcap hc
    simp only [ofBuffer, ofStream]
    generalize Buffered.readExactly cap n c = r at hval hrest hbound
    obtain ⟨xs, c₁⟩ := r
    by_cases hn : n ≤ c.stream.length
    · rw [if_pos hn] at hval
      subst hval
      obtain ⟨hgot, hkeep, hbound₂, hroom⟩ := Buffered.await_stream ht hbound
      simp only
      generalize Buffered.await cap trailer c₁ = w at hgot hkeep hbound₂ hroom
      obtain ⟨ok, c₂⟩ := w
      simp only [hrest, length_drop] at hgot hkeep hbound₂ hroom
      cases ok with
      | false =>
        have hlt : c.stream.length - n < trailer := by simpa using hgot.symm
        rw [if_neg (by omega)]
        exact ⟨rfl, hkeep, hbound₂⟩
      | true =>
        have hle : trailer ≤ c.stream.length - n := by simpa using hgot.symm
        rw [if_pos (by omega)]
        refine ⟨rfl, ?_, ?_⟩
        · simp only [Buffered.stream] at hkeep ⊢
          rw [← drop_append_of_le_length (hroom rfl), hkeep, drop_drop]
        · simp only [length_drop]
          omega
    · rw [if_neg hn] at hval
      subst hval
      rw [if_neg (by omega)]
      exact ⟨rfl, hrest, hbound⟩

end Reader

end SimpleDns.Lib
