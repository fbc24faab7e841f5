import SimpleDns.Lib.Threads

/-!
# How many calls a thread makes

The programs of `Lib.Threads` may call one recursive function. `Prog.Within body A n p Q` is a
total-correctness judgement with a cost: every run of `p` whose results satisfy `A` ends, makes at
most `n` calls (those of the called bodies counted) and returns a value that satisfies `Q`.

* The rules `Within.bind`, `within_perform_bind`, `within_recurse_bind` follow the program.
* **`Within.calls_le`**: a thread that starts with such a program makes at most `n` calls, at every
  moment of its run. **`Within.acc`**: it has no endless run.
* **`Run.callRun`**: what a thread does in an interleaving is a run of the thread alone.
  **`Run.ends`**: so it ends there as well, with a value that satisfies `Q`.
-/

namespace SimpleDns.Lib

open List

variable {Op : Type} {Res : Op → Type} {Arg Ret : Type}

/-! ## Programs -/

namespace Prog

/-- Every run of the program ends within `n` calls and returns a value that satisfies the
postcondition. -/
inductive Within (body : Arg → Prog Op Res Arg Ret Ret) (A : (o : Op) → Res o → Prop) :
    {α : Type} → Nat → Prog Op Res Arg Ret α → (α → Prop) → Prop
  | pure {α : Type} {n : Nat} {a : α} {Q : α → Prop} (h : Q a) : Within body A n (.pure a) Q
  | op {α : Type} {n : Nat} {o : Op} {k : Res o → Prog Op Res Arg Ret α} {Q : α → Prop}
      (h : ∀ r, A o r → Within body A n (k r) Q) : Within body A n (.op o k) Q
  | call {α : Type} {l m n : Nat} {x : Arg} {k : Ret → Prog Op Res Arg Ret α} {P : Ret → Prop}
      {Q : α → Prop} (hx : Within body A m (body x) P)
      (hk : ∀ v, P v → Within body A n (k v) Q) (hl : m + n + 1 ≤ l) : Within body A l (.call x k) Q

theorem bind_pure {α : Type} (p : Prog Op Res Arg Ret α) : p.bind .pure = p := by
  induction p with
  | pure a => rfl
  | op o k ih =>
    rw [bind]
    congr
    funext r
    exact ih r
  | call x k ih =>
    rw [bind]
    congr
    funext v
    exact ih v

section Rules

variable {body : Arg → Prog Op Res Arg Ret Ret} {A : (o : Op) → Res o → Prop} {α β : Type}
  {m n : Nat}

variable {p : Prog Op Res Arg Ret α} {P : α → Prop}

theorem Within.mono {Q : α → Prop} (h : Within body A m p P) (hn : m ≤ n) (hQ : ∀ a, P a → Q a) :
    Within body A n p Q := by
  induction h generalizing n with
  | pure h => exact .pure (hQ _ h)
  | op _ ih => exact .op fun r hr => ih r hr hn hQ
  | call hx _ hl _ ih =>
    exact .call hx (fun v hv => ih v hv (Nat.le_refl _) hQ) (Nat.le_trans hl hn)

variable {Q : β → Prop}

theorem Within.bind {f : α → Prog Op Res Arg Ret β} (hp : Within body A m p P)
    (hf : ∀ a, P a → Within body A n (f a) Q) : Within body A (m + n) (p >>= f) Q := by
  induction hp with
  | pure h => exact (hf _ h).mono (Nat.le_add_left _ _) fun _ => id
  | op _ ih => exact .op fun r hr => ih r hr hf
  | call hx _ hl _ ih =>
    refine .call hx (fun v hv => ih v hv hf) ?_
    omega

/-- A program without calls in front. -/
theorem Within.bind_free {f : α → Prog Op Res Arg Ret β} (hp : Within body A 0 p P)
    (hf : ∀ a, P a → Within body A n (f a) Q) : Within body A n (p >>= f) Q :=
  (hp.bind hf).mono (Nat.le_of_eq (Nat.zero_add n)) fun _ => id

theorem within_pure {a : α} {Q : α → Prop} (h : Q a) :
    Within body A n (Pure.pure a : Prog Op Res Arg Ret α) Q :=
  .pure h

theorem within_perform {o : Op} {Q : Res o → Prop} (h : ∀ r, A o r → Q r) :
    Within body A n (perform o : Prog Op Res Arg Ret (Res o)) Q :=
  .op fun r hr => .pure (h r hr)

/-- One operation, and what follows it for the results that can come. -/
theorem within_perform_bind {o : Op} {f : Res o → Prog Op Res Arg Ret β}
    (hf : ∀ r, A o r → Within body A n (f r) Q) : Within body A n (perform o >>= f) Q :=
  .op hf

/-- One call, and what follows it. -/
theorem within_recurse_bind {x : Arg} {f : Ret → Prog Op Res Arg Ret β} {P : Ret → Prop}
    (hx : Within body A m (body x) P) (hf : ∀ v, P v → Within body A n (f v) Q) :
    Within body A (m + n + 1) (recurse x >>= f) Q :=
  .call hx hf (Nat.le_refl _)

theorem within_ite {c : Prop} [Decidable c] {q : Prog Op Res Arg Ret α} {Q : α → Prop}
    (hp : c → Within body A n p Q) (hq : ¬ c → Within body A n q Q) :
    Within body A n (if c then p else q) Q := by
  split
  · exact hp ‹_›
  · exact hq ‹_›

end Rules

end Prog

/-! ## Threads -/

namespace Thread

variable (body : Arg → Prog Op Res Arg Ret Ret) (A : (o : Op) → Res o → Prop)

/-- One step of a thread alone, and the number of calls it makes. -/
inductive Step : Thread Op Res Arg Ret → Nat → Thread Op Res Arg Ret → Prop
  | op {o : Op} {k : Res o → Prog Op Res Arg Ret Ret} {r : Res o}
      {st : List (Ret → Prog Op Res Arg Ret Ret)} (h : A o r) : Step ⟨.op o k, st⟩ 0 ⟨k r, st⟩
  | call {x : Arg} {k : Ret → Prog Op Res Arg Ret Ret}
      {st : List (Ret → Prog Op Res Arg Ret Ret)} : Step ⟨.call x k, st⟩ 1 ⟨body x, k :: st⟩
  | ret {v : Ret} {k : Ret → Prog Op Res Arg Ret Ret}
      {st : List (Ret → Prog Op Res Arg Ret Ret)} : Step ⟨.pure v, k :: st⟩ 0 ⟨k v, st⟩

variable {body A} in
theorem Step.mono {A' : (o : Op) → Res o → Prop} {t t' : Thread Op Res Arg Ret} {n : Nat}
    (h : Step body A t n t') (hA : ∀ o r, A o r → A' o r) : Step body A' t n t' := by
  cases h with
  | op h => exact .op (hA _ _ h)
  | call => exact .call
  | ret => exact .ret

/-- A run of a thread alone with `n` calls. -/
inductive CallRun : Nat → Thread Op Res Arg Ret → Thread Op Res Arg Ret → Prop
  | refl (t : Thread Op Res Arg Ret) : CallRun 0 t t
  | tail {n c : Nat} {t t' t'' : Thread Op Res Arg Ret} (h : CallRun n t t')
      (h' : Step body A t' c t'') : CallRun (n + c) t t''

/-- The thread ends within `n` calls, with a value that satisfies the postcondition. -/
inductive Within (Q : Ret → Prop) : Nat → Thread Op Res Arg Ret → Prop
  | last {n : Nat} {p : Prog Op Res Arg Ret Ret} (h : Prog.Within body A n p Q) : Within Q n ⟨p, []⟩
  | frame {l m n : Nat} {p : Prog Op Res Arg Ret Ret} {k : Ret → Prog Op Res Arg Ret Ret}
      {st : List (Ret → Prog Op Res Arg Ret Ret)} {P : Ret → Prop} (h : Prog.Within body A m p P)
      (hk : ∀ v, P v → Within Q n ⟨k v, st⟩) (hl : m + n ≤ l) : Within Q l ⟨p, k :: st⟩

variable {body A}

variable {n c : Nat} {t t' : Thread Op Res Arg Ret} {Q : Ret → Prop}

/-- One step: a call is paid for. -/
theorem Step.within (h : Step body A t c t') (ht : Within body A Q n t) :
    ∃ m, Within body A Q m t' ∧ m + c ≤ n := by
  cases h with
  | op hr =>
    cases ht with
    | last hp =>
      cases hp with
      | op hk => exact ⟨n, .last (hk _ hr), Nat.le_refl _⟩
    | frame hp hk hl =>
      cases hp with
      | op hop => exact ⟨n, .frame (hop _ hr) hk hl, Nat.le_refl _⟩
  | call =>
    cases ht with
    | last hp =>
      cases hp with
      | call hx hk hl =>
        exact ⟨_, .frame hx (fun v hv => .last (hk v hv)) (Nat.le_refl _), hl⟩
    | frame hp hst hl =>
      cases hp with
      | call hx hk hl' =>
        refine ⟨_, .frame hx (fun v hv => .frame (hk v hv) hst (Nat.le_refl _)) (Nat.le_refl _), ?_⟩
        omega
  | ret =>
    cases ht with
    | frame hp hk hl =>
      cases hp with
      | pure hv => exact ⟨_, hk _ hv, by omega⟩

/-- A run: what is left is paid for. -/
theorem CallRun.within (h : CallRun body A c t t') (ht : Within body A Q n t) :
    ∃ m, Within body A Q m t' ∧ m + c ≤ n := by
  induction h with
  | refl => exact ⟨n, ht, Nat.le_refl _⟩
  | tail _ hstep ih =>
    obtain ⟨m, hm, hle⟩ := ih ht
    obtain ⟨m', hm', hle'⟩ := hstep.within hm
    exact ⟨m', hm', by omega⟩

/-- **At every moment of its run the thread has made at most `n` calls.** -/
theorem Within.calls_le (ht : Within body A Q n t) (h : CallRun body A c t t') : c ≤ n := by
  obtain ⟨m, -, hm⟩ := h.within ht
  omega

/-- A call opens one frame, so the frames are at most the calls. -/
theorem CallRun.stack_le (h : CallRun body A c t t') : t'.stack.length ≤ t.stack.length + c := by
  induction h with
  | refl => exact Nat.le_refl _
  | tail _ hstep ih =>
    cases hstep with
    | op => exact ih
    | call | ret =>
      simp only [length_cons] at ih ⊢
      omega

/-- The converse of a step. -/
abbrev Before (body : Arg → Prog Op Res Arg Ret Ret) (A : (o : Op) → Res o → Prop)
    (t' t : Thread Op Res Arg Ret) : Prop := ∃ c, Step body A t c t'

/-- A program ends in front of what ends for each of its values. -/
theorem acc_bind {α : Type} {p : Prog Op Res Arg Ret α} {P : α → Prop}
    (h : Prog.Within body A n p P) (f : α → Prog Op Res Arg Ret Ret)
    (st : List (Ret → Prog Op Res Arg Ret Ret)) (hf : ∀ a, P a → Acc (Before body A) ⟨f a, st⟩) :
    Acc (Before body A) ⟨p.bind f, st⟩ := by
  induction h generalizing st with
  | pure ha => exact hf _ ha
  | op _ ih =>
    refine Acc.intro _ ?_
    rintro t' ⟨c, hstep⟩
    cases hstep with
    | op hr => exact ih _ hr f st hf
  | @call _ _ _ _ x k P _ _ _ _ ihx ihk =>
    refine Acc.intro _ ?_
    rintro t' ⟨c, hstep⟩
    cases hstep with
    | call =>
      -- the called body returns to the rest of the program
      rw [← Prog.bind_pure (body x)]
      refine ihx .pure _ fun v hv => Acc.intro _ ?_
      rintro t'' ⟨c', hret⟩
      cases hret with
      | ret => exact ihk v hv f st hf

/-- **A thread that ends within a number of calls has no endless run.** -/
theorem Within.acc (h : Within body A Q n t) : Acc (Before body A) t := by
  induction h with
  | @last n p h =>
    rw [← Prog.bind_pure p]
    refine acc_bind h .pure [] fun v _ => Acc.intro _ ?_
    rintro t' ⟨c, hstep⟩
    cases hstep
  | @frame l m n p k st P h hk hl ih =>
    rw [← Prog.bind_pure p]
    refine acc_bind h .pure _ fun v hv => Acc.intro _ ?_
    rintro t' ⟨c, hstep⟩
    cases hstep with
    | ret => exact ih v hv

end Thread

/-! ## Threads of a machine -/

namespace Machine

variable {σ : Type} {M : Machine Op Res Arg Ret σ} {A : (o : Op) → Res o → Prop}

/-- One step of a machine is a step of a thread, or leaves it alone. -/
theorem Step.callRun {c c' : Conf Op Res Arg Ret σ} {evs : List (Event Op Res)}
    (h : M.Step c evs c') (hA : ∀ e ∈ evs, A e.1 e.2) {i : Nat} {t : Thread Op Res Arg Ret}
    (ht : c.threads[i]? = some t) :
    ∃ t', c'.threads[i]? = some t' ∧ (t' = t ∨ ∃ n, Thread.Step M.body A t n t') := by
  -- a list in which one thread is replaced
  have hswap : ∀ {pre post : List (Thread Op Res Arg Ret)} {u u' : Thread Op Res Arg Ret} {n : Nat},
      (pre ++ u :: post)[i]? = some t → Thread.Step M.body A u n u' →
      ∃ t', (pre ++ u' :: post)[i]? = some t' ∧ (t' = t ∨ ∃ n, Thread.Step M.body A t n t') := by
    intro pre post u u' n hget hstep
    rcases Nat.lt_trichotomy i pre.length with hlt | rfl | hgt
    · rw [getElem?_append_left hlt] at hget ⊢
      exact ⟨t, hget, .inl rfl⟩
    · simp only [getElem?_append_right (Nat.le_refl _), Nat.sub_self,
        getElem?_cons_zero, Option.some.injEq] at hget ⊢
      subst hget
      exact ⟨u', rfl, .inr ⟨n, hstep⟩⟩
    · obtain ⟨j, rfl⟩ : ∃ j, i = pre.length + (j + 1) := ⟨i - pre.length - 1, by omega⟩
      simp only [getElem?_append_right (Nat.le_add_right _ _), Nat.add_sub_cancel_left,
        getElem?_cons_succ] at hget ⊢
      exact ⟨t, hget, .inl rfl⟩
  cases h with
  | op hx => exact hswap ht (.op (hA ⟨_, _⟩ mem_cons_self))
  | call => exact hswap ht .call
  | ret => exact hswap ht .ret
  | start hx =>
    obtain ⟨hlt, -⟩ := List.getElem?_eq_some_iff.mp ht
    exact ⟨t, by rw [getElem?_append_left hlt]; exact ht, .inl rfl⟩

/-- **What a thread does in an interleaving is a run of the thread alone.** -/
theorem Run.callRun {c c' : Conf Op Res Arg Ret σ} {evs : List (Event Op Res)}
    (h : M.Run c evs c') (hA : ∀ e ∈ evs, A e.1 e.2) {i : Nat} {t : Thread Op Res Arg Ret}
    (ht : c.threads[i]? = some t) :
    ∃ n t', c'.threads[i]? = some t' ∧ Thread.CallRun M.body A n t t' := by
  induction h with
  | refl => exact ⟨0, t, ht, .refl t⟩
  | tail _ hstep ih =>
    obtain ⟨n, t', ht', hrun⟩ := ih fun e he => hA e (mem_append_left _ he)
    obtain ⟨t'', ht'', rfl | ⟨m, hone⟩⟩ :=
      hstep.callRun (fun e he => hA e (mem_append_right _ he)) ht'
    · exact ⟨n, t'', ht'', hrun⟩
    · exact ⟨n + m, t'', ht'', .tail hrun hone⟩

/-- **A thread ends in every interleaving**: at every later moment it has no endless run, and once
it has ended its value satisfies the postcondition. -/
theorem Run.ends {c c' : Conf Op Res Arg Ret σ} {evs : List (Event Op Res)} {i n : Nat}
    {p : Prog Op Res Arg Ret Ret} {Q : Ret → Prop} (h : M.Run c evs c') (hA : ∀ e ∈ evs, A e.1 e.2)
    (ht : c.threads[i]? = some ⟨p, []⟩) (hp : p.Within M.body A n Q) :
    ∃ t, c'.threads[i]? = some t ∧ Acc (Thread.Before M.body A) t ∧
      ∀ v, t.value = some v → Q v := by
  obtain ⟨m, t, ht', hrun⟩ := h.callRun hA ht
  obtain ⟨l, hl, -⟩ := hrun.within (Thread.Within.last hp)
  refine ⟨t, ht', hl.acc, fun v hv => ?_⟩
  rw [Thread.eq_of_value hv] at hl
  cases hl with
  | last hl =>
    cases hl with
    | pure hQ => exact hQ

end Machine

end SimpleDns.Lib
