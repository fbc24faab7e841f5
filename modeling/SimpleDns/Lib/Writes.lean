import Mathlib.Logic.Function.Basic

/-!
# Lists of writes to a keyed store

A store is a partial function; a write sets one key to a value or removes it. What a list of writes
leaves at a key is the last write to it, or what was there (`applyWrites_apply`), so the list leaves
a store as it was exactly when the last write to each key is what the store has there
(`applyWrites_eq_self_iff`). Of writes that may be lost, `performed` are those that happen.
-/

namespace SimpleDns.Lib

open List

variable {K V : Type*} [DecidableEq K]

/-- One write: a key and what it holds afterwards. -/
abbrev Write (K V : Type*) := K × Option V

/-- The writes in order. -/
def applyWrites (s : K → Option V) (ws : List (Write K V)) : K → Option V :=
  ws.foldl (fun s w => Function.update s w.1 w.2) s

/-- The last write to a key, `none` where there is none. -/
def lastWrite (k : K) : List (Write K V) → Option (Option V)
  | [] => none
  | w :: ws => (lastWrite k ws).or (if w.1 = k then some w.2 else none)

/-- The writes that happen, where `fails i` says that the `i`-th one is lost. -/
def performed (fails : Nat → Bool) (ws : List (Write K V)) : List (Write K V) :=
  (ws.zipIdx.filter fun w => !fails w.2).map (·.1)

@[simp] theorem applyWrites_nil (s : K → Option V) : applyWrites s [] = s := rfl

theorem applyWrites_cons (s : K → Option V) (w : Write K V) (ws : List (Write K V)) :
    applyWrites s (w :: ws) = applyWrites (Function.update s w.1 w.2) ws := rfl

theorem applyWrites_append (s : K → Option V) (ws vs : List (Write K V)) :
    applyWrites s (ws ++ vs) = applyWrites (applyWrites s ws) vs :=
  foldl_append

theorem applyWrites_apply (s : K → Option V) (ws : List (Write K V)) (k : K) :
    applyWrites s ws k = (lastWrite k ws).getD (s k) := by
  induction ws generalizing s with
  | nil => rfl
  | cons w ws ih =>
    rw [applyWrites_cons, ih, lastWrite]
    cases lastWrite k ws with
    | some v => rfl
    | none =>
      by_cases hk : w.1 = k
      · subst hk
        simp
      · simp [hk, Function.update_of_ne (Ne.symm hk)]

theorem lastWrite_append (k : K) (ws vs : List (Write K V)) :
    lastWrite k (ws ++ vs) = (lastWrite k vs).or (lastWrite k ws) := by
  induction ws with
  | nil => simp [lastWrite]
  | cons w ws ih => rw [cons_append, lastWrite, ih, lastWrite, Option.or_assoc]

theorem lastWrite_eq_none_iff {k : K} {ws : List (Write K V)} :
    lastWrite k ws = none ↔ ∀ w ∈ ws, w.1 ≠ k := by
  induction ws with
  | nil => simp [lastWrite]
  | cons w ws ih =>
    rw [lastWrite, Option.or_eq_none_iff, ih, forall_mem_cons, and_comm]
    simp

theorem mem_of_lastWrite {k : K} {ws : List (Write K V)} {v : Option V}
    (h : lastWrite k ws = some v) : (k, v) ∈ ws := by
  induction ws with
  | nil => cases h
  | cons w ws ih =>
    rw [lastWrite, Option.or_eq_some_iff] at h
    rcases h with h | ⟨-, h⟩
    · exact mem_cons_of_mem _ (ih h)
    · split at h
      · rename_i hk
        rw [← hk, ← Option.some.inj h]
        exact mem_cons_self
      · cases h

omit [DecidableEq K] in
theorem mem_performed {fails : Nat → Bool} {ws : List (Write K V)} {w : Write K V} :
    w ∈ performed fails ws ↔ ∃ i, ws[i]? = some w ∧ fails i = false := by
  simp only [performed, mem_map, mem_filter, Bool.not_eq_true']
  constructor
  · rintro ⟨⟨v, i⟩, ⟨hmem, hok⟩, rfl⟩
    exact ⟨i, mem_zipIdx_iff_getElem?.mp hmem, hok⟩
  · rintro ⟨i, hi, hok⟩
    exact ⟨(w, i), ⟨mem_zipIdx_iff_getElem?.mpr hi, hok⟩, rfl⟩

/-- **The writes leave the store as it was** iff the last write to each key changes nothing. -/
theorem applyWrites_eq_self_iff (s : K → Option V) (ws : List (Write K V)) :
    applyWrites s ws = s ↔ ∀ k v, lastWrite k ws = some v → s k = v := by
  rw [funext_iff]
  refine forall_congr' fun k => ?_
  rw [applyWrites_apply]
  cases lastWrite k ws with
  | none => simp
  | some v => simp [eq_comm]

end SimpleDns.Lib
