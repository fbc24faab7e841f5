import Mathlib.Data.List.Basic
import Mathlib.Tactic.Common

/-!
# Replacing a key in two stages

A key is replaced in two timed stages. In the first the next key is offered beside the current one,
which is still the one in use; in the second both are offered and the next one is in use; then the
next key becomes the current one and the old one is dropped.

* `Roll.Step h₁ h₂ t`: what may happen at time `t`. The first stage lasts at least `h₁`, the second
  at least `h₂`.
* `Timeline`: steps, the passing of time and observations, in any order. The observations are kept,
  newest first.
* **`Timeline.prepublished`**: a key that is in use was offered at every observation but those that
  are at least `h₁` old.
* **`Timeline.retained`**: a key that was in use at an observation is offered until `h₂` later.
-/

namespace SimpleDns.Lib

/-- The stage of a replacement, with the time it began and the next key. -/
inductive Stage (K : Type)
  | idle
  | first (since : Nat) (next : K)
  | second (since : Nat) (next : K)

/-- The current key and the stage. -/
structure Roll (K : Type) where
  cur : K
  stage : Stage K

variable {K : Type}

namespace Roll

/-- The next key, while there is one. -/
def next? (x : Roll K) : Option K :=
  match x.stage with
  | .idle => none
  | .first _ n => some n
  | .second _ n => some n

/-- The key in use. -/
def used (x : Roll K) : K :=
  match x.stage with
  | .second _ n => n
  | _ => x.cur

/-- The keys that are offered. -/
def Offered (x : Roll K) (k : K) : Prop := k = x.cur ∨ x.next? = some k

theorem offered_used (x : Roll K) : x.Offered x.used := by
  obtain ⟨c, _ | _ | ⟨s, n⟩⟩ := x
  · exact .inl rfl
  · exact .inl rfl
  · exact .inr rfl

/-- One step at time `t`. -/
inductive Step (h₁ h₂ : Int) (t : Nat) : Roll K → Roll K → Prop
  | stay (x : Roll K) : Step h₁ h₂ t x x
  | start (c n : K) : Step h₁ h₂ t ⟨c, .idle⟩ ⟨c, .first t n⟩
  | advance (c n : K) {s : Nat} (h : h₁ ≤ (t : Int) - s) :
      Step h₁ h₂ t ⟨c, .first s n⟩ ⟨c, .second t n⟩
  | finish (c n : K) {s : Nat} (h : h₂ ≤ (t : Int) - s) : Step h₁ h₂ t ⟨c, .second s n⟩ ⟨n, .idle⟩

/-- A step drops a next key only by making it the current one. -/
theorem Step.next_kept {h₁ h₂ : Int} {t : Nat} {x y : Roll K} (h : Step h₁ h₂ t x y) {n : K}
    (hn : x.next? = some n) : y.next? = some n ∨ y.next? = none ∧ y.cur = n := by
  cases h with
  | stay => exact .inl hn
  | start => cases hn
  | advance => exact .inl hn
  | finish => exact .inr ⟨rfl, Option.some.inj hn⟩

/-- Ending a replacement does not change the key in use. -/
theorem Step.used_kept {h₁ h₂ : Int} {t s : Nat} {n : K} {x y : Roll K} (h : Step h₁ h₂ t x y)
    (hx : x.stage = .second s n) : y.used = x.used := by
  cases h with
  | stay => rfl
  | start => cases hx
  | advance => cases hx
  | finish => rfl

end Roll

/-- Runs of a replacement: the time, the state and the observations made so far. -/
inductive Timeline (h₁ h₂ : Int) : Nat → Roll K → List (Nat × Roll K) → Prop
  | init (t : Nat) (x : Roll K) : Timeline h₁ h₂ t x []
  | step {t : Nat} {x y : Roll K} {obs : List (Nat × Roll K)} (h : Timeline h₁ h₂ t x obs)
      (h' : Roll.Step h₁ h₂ t x y) : Timeline h₁ h₂ t y obs
  | observe {t : Nat} {x : Roll K} {obs : List (Nat × Roll K)} (h : Timeline h₁ h₂ t x obs) :
      Timeline h₁ h₂ t x ((t, x) :: obs)
  | wait {t t' : Nat} {x : Roll K} {obs : List (Nat × Roll K)} (h : Timeline h₁ h₂ t x obs)
      (ht : t ≤ t') : Timeline h₁ h₂ t' x obs

namespace Timeline

variable {h₁ h₂ : Int} {t : Nat} {x : Roll K} {obs : List (Nat × Roll K)}

/-- An observation is not later than now. -/
theorem le_of_mem (h : Timeline h₁ h₂ t x obs) {o : Nat × Roll K} (ho : o ∈ obs) : o.1 ≤ t := by
  induction h with
  | init => cases ho
  | step _ _ ih => exact ih ho
  | observe _ ih =>
    rcases List.mem_cons.mp ho with rfl | ho
    · exact Nat.le_refl _
    · exact ih ho
  | wait _ ht ih => exact Nat.le_trans (ih ho) ht

/-- What holds of an observation when it is made, and is kept by steps and by waiting, holds of
every observation. -/
theorem forall_obs {P : Nat → Roll K → Nat × Roll K → Prop} (hobs : ∀ t x, P t x (t, x))
    (hstep : ∀ {t x y o}, Roll.Step h₁ h₂ t x y → o.1 ≤ t → P t x o → P t y o)
    (hwait : ∀ {t t' x o}, t ≤ t' → P t x o → P t' x o) (h : Timeline h₁ h₂ t x obs) :
    ∀ o ∈ obs, P t x o := by
  induction h with
  | init => exact nofun
  | step h h' ih => exact fun o ho => hstep h' (h.le_of_mem ho) (ih o ho)
  | observe _ ih => exact List.forall_mem_cons.mpr ⟨hobs _ _, ih⟩
  | wait _ ht ih => exact fun o ho => hwait ht (ih o ho)

/-- A relation between the present and every past observation holds between any two observations,
the newer one first. -/
theorem pairwise {R : Nat → Roll K → Nat × Roll K → Prop}
    (hR : ∀ {t x obs}, Timeline h₁ h₂ t x obs → ∀ o ∈ obs, R t x o) (h : Timeline h₁ h₂ t x obs) :
    obs.Pairwise fun o o' => R o.1 o.2 o' := by
  induction h with
  | init => exact .nil
  | step _ _ ih => exact ih
  | observe h ih => exact .cons (fun o ho => hR h o ho) ih
  | wait _ _ ih => exact ih

/-! ## Pre-publication -/

/-- What the present says about a past observation at which a key was not offered: if the key is in
use the observation is `h₁` old; if it waits in the first stage the observation is older than the
stage. -/
structure Announced (h₁ : Int) (t : Nat) (x : Roll K) (o : Nat × Roll K) : Prop where
  used : ¬ o.2.Offered x.used → (o.1 : Int) + h₁ ≤ t
  next : ∀ {s n}, x.stage = .first s n → ¬ o.2.Offered n → o.1 ≤ s

section

variable (h : Timeline h₁ h₂ t x obs)

include h

theorem announced : ∀ o ∈ obs, Announced h₁ t x o := by
  refine forall_obs (fun t x => ?_) (fun hstep hle hold => ?_) (fun ht hold => ?_) h
  · refine ⟨fun hoff => absurd x.offered_used hoff, fun {s n} hx hoff => absurd (.inr ?_) hoff⟩
    simp only [Roll.next?, hx]
  · cases hstep with
    | stay => exact hold
    | start c n =>
      refine ⟨hold.used, ?_⟩
      rintro s n ⟨⟩ -
      exact hle
    | advance c n hs =>
      refine ⟨fun hoff => ?_, nofun⟩
      have := hold.next rfl hoff
      omega
    | finish c n hs => exact ⟨hold.used, nofun⟩
  · refine ⟨fun hoff => ?_, hold.next⟩
    have := hold.used hoff
    omega

/-- **A key is used only after it has been offered for the first hold.** -/
theorem prepublished : obs.Pairwise fun o o' => ¬ o'.2.Offered o.2.used → (o'.1 : Int) + h₁ ≤ o.1 :=
  pairwise (R := fun t x o => ¬ o.2.Offered x.used → (o.1 : Int) + h₁ ≤ t)
    (fun h o ho => (announced h o ho).used) h

/-! ## Retention -/

/-- What the present says about the key that was in use at a past observation: it is offered, or the
observation is `h₂` old; and in the second stage it is the next key, or the observation is older
than the stage. -/
structure Kept (h₂ : Int) (t : Nat) (x : Roll K) (o : Nat × Roll K) : Prop where
  offered : ¬ x.Offered o.2.used → (o.1 : Int) + h₂ ≤ t
  second : ∀ {s n}, x.stage = .second s n → o.2.used ≠ n → o.1 ≤ s

theorem kept : ∀ o ∈ obs, Kept h₂ t x o := by
  refine forall_obs (fun t x => ?_) (fun hstep hle hold => ?_) (fun ht hold => ?_) h
  · refine ⟨fun hoff => absurd x.offered_used hoff, fun {s n} hx hne => absurd ?_ hne⟩
    simp only [Roll.used, hx]
  · cases hstep with
    | stay => exact hold
    | start c n =>
      refine ⟨fun hoff => hold.offered ?_, nofun⟩
      rintro (hc | hn)
      · exact hoff (.inl hc)
      · cases hn
    | advance c n hs =>
      refine ⟨fun hoff => hold.offered hoff, ?_⟩
      rintro s n ⟨⟩ -
      exact hle
    | finish c n hs =>
      refine ⟨fun hoff => ?_, nofun⟩
      have := hold.second rfl fun he => hoff (.inl he)
      omega
  · refine ⟨fun hoff => ?_, hold.second⟩
    have := hold.offered hoff
    omega

/-- **A key that was used is offered until the second hold has passed.** -/
theorem retained : obs.Pairwise fun o o' => ¬ o.2.Offered o'.2.used → (o'.1 : Int) + h₂ ≤ o.1 :=
  pairwise (R := fun t x o => ¬ x.Offered o.2.used → (o.1 : Int) + h₂ ≤ t)
    (fun h o ho => (kept h o ho).offered) h

end

end Timeline

end SimpleDns.Lib
