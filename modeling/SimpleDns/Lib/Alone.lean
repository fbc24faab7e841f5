import Mathlib.Logic.Relation
import SimpleDns.Lib.Threads

/-!
# A program that runs alone

The programs of `Lib.Threads`, run to their end with nothing in between. The programs make no calls.

* `Prog.Exec exec p s a s'`: run alone from `s`, the program can return `a` and leave `s'`.
* `Prog.wp exec p Q s`: every such run ends with `Q`. The rules `wp_bind`, `wp_seq`
  and `wp_mono` follow the program, and `Exec.post` takes them to a run.
* `Exec.run`: a system that can perform the next operation of a program can run it to its end.
* `Prog.eval`: the run in which a function chooses every result, perhaps on a state that computes
  and stands for one of the system (`exec_eval_abs`).
-/

namespace SimpleDns.Lib.Prog

variable {Op : Type} {Res : Op → Type} {Ret α β σ : Type} {exec : σ → (o : Op) → Res o → σ → Prop}

/-- Run alone from `s`, the program can return `a` and leave `s'`. -/
inductive Exec (exec : σ → (o : Op) → Res o → σ → Prop) :
    Prog Op Res Empty Ret α → σ → α → σ → Prop
  | pure (a : α) (s : σ) : Exec exec (.pure a) s a s
  | op {o : Op} {k : Res o → Prog Op Res Empty Ret α} {r : Res o} {s t u : σ} {a : α}
      (h : exec s o r t) (hk : Exec exec (k r) t a u) : Exec exec (.op o k) s a u

/-- Every run of the program alone from the state ends with the postcondition. -/
def wp (exec : σ → (o : Op) → Res o → σ → Prop) :
    Prog Op Res Empty Ret α → (α → σ → Prop) → σ → Prop
  | pure a, Q, s => Q a s
  | op o k, Q, s => ∀ r t, exec s o r t → (k r).wp exec Q t
  | call x _, _, _ => x.elim

variable {p : Prog Op Res Empty Ret α} {Q : α → σ → Prop} {s : σ} {a : α}

theorem Exec.post {s' : σ} (h : Exec exec p s a s') (hp : p.wp exec Q s) : Q a s' := by
  induction h with
  | pure => exact hp
  | op h _ ih => exact ih (hp _ _ h)

/-- A system with a thread at `p` can let it run to its end. -/
theorem Exec.run {s' : σ} (h : Exec exec p s a s') {γ : Type} {R : γ → γ → Prop}
    (put : σ → Prog Op Res Empty Ret α → γ)
    (hput : ∀ {s t : σ} {o : Op} {r : Res o} {k : Res o → Prog Op Res Empty Ret α}, exec s o r t →
      R (put s (.op o k)) (put t (k r))) :
    Relation.ReflTransGen R (put s p) (put s' (.pure a)) := by
  induction h with
  | pure => exact .refl
  | op hx _ ih => exact .head (hput hx) ih

@[simp] theorem wp_pure : (Pure.pure a : Prog Op Res Empty Ret α).wp exec Q s ↔ Q a s :=
  Iff.rfl

theorem wp_mono {P : α → σ → Prop} (hp : p.wp exec P s) (h : ∀ a t, P a t → Q a t) :
    p.wp exec Q s := by
  induction p generalizing s with
  | pure a => exact h a s hp
  | op o k ih => exact fun r t hr => ih r (hp r t hr)
  | call x => exact x.elim

/-- A sequence: the second part starts where the first one ends. -/
theorem wp_bind {f : α → Prog Op Res Empty Ret β} {Q : β → σ → Prop} :
    (p >>= f).wp exec Q s ↔ p.wp exec (fun a t => (f a).wp exec Q t) s := by
  induction p generalizing s with
  | pure a => exact Iff.rfl
  | op o k ih => exact forall_congr' fun r => forall_congr' fun t => imp_congr_right fun _ => ih r
  | call x => exact x.elim

/-- A sequence of which the first part is known by a postcondition. -/
theorem wp_seq {f : α → Prog Op Res Empty Ret β} {P : α → σ → Prop} {Q : β → σ → Prop}
    (hp : p.wp exec P s) (hf : ∀ a t, P a t → (f a).wp exec Q t) : (p >>= f).wp exec Q s :=
  wp_bind.mpr (wp_mono hp hf)

/-! ## Choosing the results -/

/-- The run in which `choose` gives the results. -/
def eval (choose : σ → (o : Op) → Res o × σ) : Prog Op Res Empty Ret α → σ → α × σ
  | pure a, s => (a, s)
  | op o k, s => (k (choose s o).1).eval choose (choose s o).2
  | call x _, _ => x.elim

/-- A state `c` stands for `abs c`, and its results are right as long as it is `good`, which it was
before if it is in the end. -/
theorem exec_eval_abs {τ : Type} (choose : τ → (o : Op) → Res o × τ) (abs : τ → σ) (good : τ → Prop)
    (hback : ∀ c o, good (choose c o).2 → good c)
    (hc : ∀ c o, good (choose c o).2 → exec (abs c) o (choose c o).1 (abs (choose c o).2))
    (p : Prog Op Res Empty Ret α) (c : τ) (hend : good (p.eval choose c).2) :
    good c ∧ Exec exec p (abs c) (p.eval choose c).1 (abs (p.eval choose c).2) := by
  induction p generalizing c with
  | pure a => exact ⟨hend, .pure a _⟩
  | op o k ih =>
    obtain ⟨hgood, hk⟩ := ih _ _ hend
    exact ⟨hback c o hgood, .op (hc c o hgood) hk⟩
  | call x => exact x.elim

theorem exec_eval {choose : σ → (o : Op) → Res o × σ}
    (hc : ∀ s o, exec s o (choose s o).1 (choose s o).2) (p : Prog Op Res Empty Ret α) (s : σ) :
    Exec exec p s (p.eval choose s).1 (p.eval choose s).2 :=
  (exec_eval_abs choose id (fun _ => True) (fun _ _ _ => trivial) (fun s o _ => hc s o) p s
    trivial).2

end SimpleDns.Lib.Prog
