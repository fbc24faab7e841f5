import SimpleDns.Lib.Calls

/-!
# What one invocation does

`Prog.Returns body p tr a`: the program `p` can do `tr` and return `a`. The trace `tr` holds the
operations of the invocation itself with their results, and its calls with what they returned; a
call returns what its body can return, whatever that does on the way.

* `returns_bind`: a trace of `p >>= f` is one of `p` followed by one of `f`.
* `Returns.skip`: an operation that `p` never performs is performed behind it.
* `script`, `outcome`: the trace and the value in a world that gives the results.
* `Within.returns`: a program that ends returns one of its values.
-/

namespace SimpleDns.Lib

open List

variable {Op : Type} {Res : Op → Type} {Arg Ret : Type}

/-- One item of a trace. -/
inductive Act (Op : Type) (Res : Op → Type) (Arg Ret : Type)
  | op (o : Op) (r : Res o)
  | call (x : Arg) (v : Ret)

namespace Prog

/-- The program can do the trace and return the value. -/
inductive Returns (body : Arg → Prog Op Res Arg Ret Ret) :
    {α : Type} → Prog Op Res Arg Ret α → List (Act Op Res Arg Ret) → α → Prop
  | pure {α : Type} (a : α) : Returns body (.pure a) [] a
  | op {α : Type} {o : Op} {r : Res o} {k : Res o → Prog Op Res Arg Ret α}
      {tr : List (Act Op Res Arg Ret)} {a : α} (h : Returns body (k r) tr a) :
      Returns body (.op o k) (.op o r :: tr) a
  | call {α : Type} {x : Arg} {v : Ret} {k : Ret → Prog Op Res Arg Ret α}
      {tr' tr : List (Act Op Res Arg Ret)} {a : α} (hx : Returns body (body x) tr' v)
      (h : Returns body (k v) tr a) : Returns body (.call x k) (.call x v :: tr) a

variable {body : Arg → Prog Op Res Arg Ret Ret} {α β : Type} {tr : List (Act Op Res Arg Ret)}

variable {a : α}

theorem returns_pure {b : α} :
    Returns body (Pure.pure a : Prog Op Res Arg Ret α) tr b ↔ tr = [] ∧ b = a := by
  constructor
  · intro h
    cases h
    exact ⟨rfl, rfl⟩
  · rintro ⟨rfl, rfl⟩
    exact .pure _

variable {p : Prog Op Res Arg Ret α} {f : α → Prog Op Res Arg Ret β} {b : β}

theorem Returns.bind {tr' : List (Act Op Res Arg Ret)} (h : Returns body p tr a)
    (h' : Returns body (f a) tr' b) : Returns body (p >>= f) (tr ++ tr') b := by
  induction h with
  | pure => exact h'
  | op _ ih => exact .op (ih h')
  | call hx _ _ ih => exact .call hx (ih h')

/-- A trace of a sequence is a trace of its parts. -/
theorem returns_bind : Returns body (p >>= f) tr b ↔
      ∃ tr₁ tr₂ a, tr = tr₁ ++ tr₂ ∧ Returns body p tr₁ a ∧ Returns body (f a) tr₂ b := by
  constructor
  · intro h
    induction p generalizing tr with
    | pure a => exact ⟨[], tr, a, rfl, .pure a, h⟩
    | op o k ih =>
      cases h with
      | op h =>
        obtain ⟨tr₁, tr₂, a, rfl, hp, hf⟩ := ih _ h
        exact ⟨_ :: tr₁, tr₂, a, rfl, .op hp, hf⟩
    | call x k ih =>
      cases h with
      | call hx h =>
        obtain ⟨tr₁, tr₂, a, rfl, hp, hf⟩ := ih _ h
        exact ⟨_ :: tr₁, tr₂, a, rfl, .call hx hp, hf⟩
  · rintro ⟨tr₁, tr₂, a, rfl, hp, hf⟩
    exact hp.bind hf

variable {o : Op}

theorem returns_perform_bind {f : Res o → Prog Op Res Arg Ret β} :
    Returns body (perform o >>= f) tr b ↔
      ∃ r tr', tr = .op o r :: tr' ∧ Returns body (f r) tr' b := by
  constructor
  · intro h
    cases h with
    | op h => exact ⟨_, _, rfl, h⟩
  · rintro ⟨r, tr', rfl, h⟩
    exact .op h

variable {r : Res o}

theorem returns_recurse_bind {x : Arg} {f : Ret → Prog Op Res Arg Ret β} :
    Returns body (recurse x >>= f) tr b ↔
      ∃ v tr' tr'', tr = .call x v :: tr'' ∧ Returns body (body x) tr' v ∧
        Returns body (f v) tr'' b := by
  constructor
  · intro h
    cases h with
    | call hx h => exact ⟨_, _, _, rfl, hx, h⟩
  · rintro ⟨v, tr', tr'', rfl, hx, h⟩
    exact .call hx h

variable {c : Prop} {q : Prog Op Res Arg Ret α}

theorem Returns.of_pos [Decidable c] (hc : c) (h : Returns body p tr a) :
    Returns body (if c then p else q) tr a := by
  rwa [if_pos hc]

theorem Returns.of_neg [Decidable c] (hc : ¬ c) (h : Returns body q tr a) :
    Returns body (if c then p else q) tr a := by
  rwa [if_neg hc]

theorem returns_ite [Decidable c] : Returns body (if c then p else q) tr a ↔
      c ∧ Returns body p tr a ∨ ¬ c ∧ Returns body q tr a := by
  by_cases hc : c
  · simp [hc]
  · simp [hc]

/-- The operations of a trace are among those the program can come to. -/
theorem Returns.always {P : Op → Prop} (h : Returns body p tr a) (hp : p.Always P fun _ _ => True) :
    ∀ {o : Op} {r : Res o}, Act.op o r ∈ tr → P o := by
  induction h with
  | pure =>
    intro o r hmem
    cases hmem
  | op _ ih =>
    intro o r hmem
    cases hmem with
    | head => exact hp.1
    | tail _ hmem => exact ih (hp.2 _ trivial) hmem
  | call _ _ _ ih =>
    intro o r hmem
    cases hmem with
    | tail _ hmem => exact ih (hp _) hmem

/-- **An operation that `p` never performs is performed behind it.** -/
theorem Returns.skip {P : Op → Prop} {front back : List (Act Op Res Arg Ret)}
    (h : Returns body (p >>= f) (front ++ .op o r :: back) b) (hp : p.Always P fun _ _ => True)
    (ho : ¬ P o) : ∃ front' a, Returns body (f a) (front' ++ .op o r :: back) b := by
  obtain ⟨tr₁, tr₂, a, heq, h₁, h₂⟩ := returns_bind.mp h
  rcases append_eq_append_iff.mp heq with ⟨c, rfl, hback⟩ | ⟨c, rfl, rfl⟩
  · cases c with
    | nil =>
      obtain rfl : Act.op o r :: back = tr₂ := hback
      exact ⟨[], a, h₂⟩
    | cons u c =>
      obtain ⟨rfl, -⟩ := cons.inj hback
      have hmem : Act.op o r ∈ front ++ Act.op o r :: c := by simp
      exact absurd (h₁.always hp hmem) ho
  · exact ⟨c, a, h₂⟩

/-! ### A world that gives the results -/

/-- What the program does in the world, up to its first call. -/
def script (world : (o : Op) → Res o) : Prog Op Res Arg Ret α → List (Act Op Res Arg Ret)
  | .pure _ => []
  | .op o k => .op o (world o) :: (k (world o)).script world
  | .call _ _ => []

/-- What it returns there; `none` if it comes to a call. -/
def outcome (world : (o : Op) → Res o) : Prog Op Res Arg Ret α → Option α
  | .pure a => some a
  | .op o k => (k (world o)).outcome world
  | .call _ _ => none

theorem returns_script {world : (o : Op) → Res o} (h : p.outcome world = some a) :
    Returns body p (p.script world) a := by
  induction p with
  | pure b =>
    obtain rfl := Option.some.inj h
    exact .pure b
  | op o k ih => exact .op (ih _ h)
  | call x k => cases h

theorem eq_of_mem_script {world : (o : Op) → Res o} (h : Act.op o r ∈ p.script world) :
    r = world o := by
  induction p with
  | pure a => cases h
  | op o' k ih =>
    cases h with
    | head => rfl
    | tail _ h => exact ih _ h
  | call x k => cases h

/-! ## Programs that end -/

/-- A program that ends returns a value it can return. -/
theorem Within.returns {A : (o : Op) → Res o → Prop} {n : Nat} {Q : α → Prop}
    (h : Within body A n p Q) : Within body A n p fun a => Q a ∧ ∃ tr, Returns body p tr a := by
  induction h with
  | pure hQ => exact .pure ⟨hQ, [], .pure _⟩
  | op _ ih =>
    refine .op fun r hr => (ih r hr).mono (Nat.le_refl _) ?_
    rintro a ⟨hQ, tr, h⟩
    exact ⟨hQ, _, .op h⟩
  | call _ _ hl ihx ihk =>
    refine .call ihx (fun v hv => (ihk v hv.1).mono (Nat.le_refl _) ?_) hl
    rintro a ⟨hQ, tr, h⟩
    obtain ⟨-, tr', hx⟩ := hv
    exact ⟨hQ, _, .call hx h⟩

end Prog

end SimpleDns.Lib
