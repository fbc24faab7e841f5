import Mathlib.Data.List.Basic

/-!
# Histories

The runs of a labelled step relation, with all that was done in them.

* `History.inv`: what holds at first and is kept by every step that was done.
* `History.le`: a measure that no step lowers.
* **`History.since`**: what holds now and did not hold at first was brought about by one step, and
  has held in every state since.
-/

namespace SimpleDns.Lib

open List

variable {L σ : Type}

/-- A step that was done. -/
structure Did (L σ : Type) where
  label : L
  before : σ
  after : σ

/-- A run from `init`: what was done, and the state it led to. -/
inductive History (step : L → σ → σ → Prop) (init : σ) : List (Did L σ) → σ → Prop
  | nil : History step init [] init
  | snoc {evs : List (Did L σ)} {l : L} {s t : σ} (h : History step init evs s)
      (hstep : step l s t) : History step init (evs ++ [⟨l, s, t⟩]) t

namespace History

variable {step : L → σ → σ → Prop} {init s : σ} {evs : List (Did L σ)}

theorem step_of_mem (h : History step init evs s) {e : Did L σ} (he : e ∈ evs) :
    step e.label e.before e.after := by
  induction h with
  | nil => cases he
  | snoc _ hstep ih =>
    rcases mem_append.mp he with he | he
    · exact ih he
    · obtain rfl := mem_singleton.mp he
      exact hstep

section

variable {I : σ → Prop} (h : History step init evs s) (hinit : I init)
  (hkeep : ∀ e ∈ evs, step e.label e.before e.after → I e.before → I e.after)

include h hinit hkeep

/-- An invariant of the steps that were done. -/
theorem inv : I s := by
  induction h with
  | nil => exact hinit
  | snoc _ hstep ih =>
    refine hkeep _ (mem_append_right _ mem_cons_self) hstep (ih fun e he => ?_)
    exact hkeep e (mem_append_left _ he)

/-- The invariant holds before every step that was done. -/
theorem inv_before {e : Did L σ} (he : e ∈ evs) : I e.before := by
  induction h with
  | nil => cases he
  | snoc h hstep ih =>
    have hkeep' := fun e he => hkeep e (mem_append_left _ he)
    rcases mem_append.mp he with he | he
    · exact ih hkeep' he
    · obtain rfl := mem_singleton.mp he
      exact h.inv hinit hkeep'

end

/-- What was done before a step is a run up to it. -/
theorem upto {pre post : List (Did L σ)} {e : Did L σ}
    (h : History step init (pre ++ e :: post) s) : History step init pre e.before := by
  generalize hevs : pre ++ e :: post = evs at h
  induction h generalizing post with
  | nil => exact absurd hevs (by simp)
  | @snoc evs l s t h hstep ih =>
    rcases eq_nil_or_concat post with rfl | ⟨post', x, rfl⟩
    · obtain ⟨rfl, he⟩ := append_inj' hevs rfl
      obtain rfl := singleton_inj.mp he
      exact h
    · rw [concat_eq_append, ← cons_append, ← append_assoc] at hevs
      exact ih (append_inj' hevs rfl).1

/-- A measure that no step lowers is at most its last value. -/
theorem le {f : σ → Nat} (hmono : ∀ {l s t}, step l s t → f s ≤ f t) (h : History step init evs s)
    {e : Did L σ} (he : e ∈ evs) : f e.after ≤ f s := by
  induction h with
  | nil => cases he
  | snoc _ hstep ih =>
    rcases mem_append.mp he with he | he
    · exact Nat.le_trans (ih he) (hmono hstep)
    · obtain rfl := mem_singleton.mp he
      exact Nat.le_refl _

/-- **What holds now and did not hold at first was brought about by one step, and has held in every
state since.** -/
theorem since {P : σ → Prop} (h : History step init evs s) (hinit : ¬ P init) (hnow : P s) :
    ∃ pre e post, evs = pre ++ e :: post ∧ ¬ P e.before ∧ P e.after ∧
      ∀ e' ∈ post, P e'.before ∧ P e'.after := by
  induction h with
  | nil => exact absurd hnow hinit
  | @snoc evs l s t h hstep ih =>
    by_cases hs : P s
    · obtain ⟨pre, e, post, rfl, hbefore, hafter, hpost⟩ := ih hs
      refine ⟨pre, e, post ++ [⟨l, s, t⟩], by simp, hbefore, hafter, fun e' he' => ?_⟩
      rcases mem_append.mp he' with he' | he'
      · exact hpost e' he'
      · obtain rfl := mem_singleton.mp he'
        exact ⟨hs, hnow⟩
    · exact ⟨evs, ⟨l, s, t⟩, [], rfl, hs, hnow, nofun⟩

end History

end SimpleDns.Lib
