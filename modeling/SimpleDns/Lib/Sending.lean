import Mathlib.Tactic.Common

/-!
# Sending a list through a writer that takes what it likes

A loop offers what is left of a list to a writer, which takes a number of elements from the front,
and moves its position. How it moves is a parameter, so that a loop that moves wrongly is a loop of
the same kind.

* `Sending`: the position of the loop, and all that the writer has taken.
* `after_stay`: a loop that does not move does not end.
-/

namespace SimpleDns.Lib

/-- A loop that sends a list: its position, and what the writer has taken. -/
structure Sending (α : Type) where
  sent : Nat
  taken : List α
deriving DecidableEq, Repr

namespace Sending

variable {α : Type} {data : List α} {w : Nat → Nat → Nat}

/-- Nothing sent yet. -/
def start : Sending α := ⟨0, []⟩

/-- The loop has more to send. -/
def Goes (data : List α) (c : Sending α) : Prop := c.sent < data.length

instance (data : List α) (c : Sending α) : Decidable (c.Goes data) :=
  inferInstanceAs (Decidable (_ < _))

/-- The writer takes `n` elements, and the loop moves by `move`. -/
def write (data : List α) (move : Nat → Nat → Nat) (c : Sending α) (n : Nat) : Sending α :=
  ⟨move c.sent n, c.taken ++ (data.drop c.sent).take n⟩

/-- The loop after `k` writes, or where it has ended before. `w i len` is what the writer takes of
`len` elements in the write number `i`. -/
def after (data : List α) (move : Nat → Nat → Nat) (w : Nat → Nat → Nat) : Nat → Sending α
  | 0 => start
  | k + 1 =>
    let c := after data move w k
    if c.Goes data then c.write data move (w k (data.length - c.sent)) else c

theorem sent_after_stay (data : List α) (w : Nat → Nat → Nat) (k : Nat) :
    (after data (fun sent _ => sent) w k).sent = 0 := by
  induction k with
  | zero => rfl
  | succ k ih =>
    rw [after]
    split
    · exact ih
    · exact ih

/-- **A loop that does not move does not end.** -/
theorem after_stay (hne : data ≠ []) (w : Nat → Nat → Nat) (k : Nat) :
    (after data (fun sent _ => sent) w k).Goes data := by
  rw [Goes, sent_after_stay]
  exact List.length_pos_iff.mpr hne

end Sending

end SimpleDns.Lib
