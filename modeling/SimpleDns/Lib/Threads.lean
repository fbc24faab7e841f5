import Mathlib.Tactic.Basic

/-!
# Threads over a shared state

A thread runs a program that performs operations on a shared state, one at a time, and may call the
one recursive function of the system. Calls are explicit (`Prog.call`), so a program needs no bound
on its recursion: a thread is a program and the continuations its open calls return to.

* `Machine.Step` interleaves any number of threads; a step is one operation, one call or one
  return. `Machine.Run` is a finite sequence of steps with the operations it performed.
* `Prog.Always P A`: every operation the program can come to satisfies `P`, as long as the results
  it is given satisfy `A`.
* `Run.always`: if every program that can be started and the recursive function's body are
  `Always P A`, every operation of every interleaving whose results satisfy `A` satisfies `P`.
  `Run.guarantee`: where the shared state sees to it that they do.
-/

namespace SimpleDns.Lib

open List

/-- A program over operations `Op` with results `Res`, which may call a function `Arg → Ret`. -/
inductive Prog (Op : Type) (Res : Op → Type) (Arg Ret α : Type) : Type
  | pure (a : α)
  | op (o : Op) (k : Res o → Prog Op Res Arg Ret α)
  | call (x : Arg) (k : Ret → Prog Op Res Arg Ret α)

namespace Prog

variable {Op : Type} {Res : Op → Type} {Arg Ret α β : Type}

/-- Sequencing. -/
def bind (p : Prog Op Res Arg Ret α) (f : α → Prog Op Res Arg Ret β) : Prog Op Res Arg Ret β :=
  match p with
  | pure a => f a
  | op o k => op o fun r => (k r).bind f
  | call x k => call x fun r => (k r).bind f

instance : Monad (Prog Op Res Arg Ret) where
  pure := Prog.pure
  bind := Prog.bind

/-- One operation. -/
def perform (o : Op) : Prog Op Res Arg Ret (Res o) := op o pure

/-- One call. -/
def recurse (x : Arg) : Prog Op Res Arg Ret Ret := call x pure

/-- Every operation the program comes to satisfies `P`, given results that satisfy `A`. -/
def Always (P : Op → Prop) (A : (o : Op) → Res o → Prop) : Prog Op Res Arg Ret α → Prop
  | pure _ => True
  | op o k => P o ∧ ∀ r, A o r → (k r).Always P A
  | call _ k => ∀ r, (k r).Always P A

section Always

variable {P : Op → Prop} {A : (o : Op) → Res o → Prop}

theorem always_bind {p : Prog Op Res Arg Ret α} {f : α → Prog Op Res Arg Ret β}
    (hp : p.Always P A) (hf : ∀ a, (f a).Always P A) : (p >>= f).Always P A := by
  induction p with
  | pure a => exact hf a
  | op o k ih => exact ⟨hp.1, fun r hr => ih r (hp.2 r hr)⟩
  | call x k ih => exact fun r => ih r (hp r)

theorem always_pure (a : α) : (Pure.pure a : Prog Op Res Arg Ret α).Always P A := trivial

theorem always_perform {o : Op} (h : P o) : (perform o : Prog Op Res Arg Ret _).Always P A :=
  ⟨h, fun _ _ => trivial⟩

/-- One operation, and what follows it for the results that can come. -/
theorem always_perform_bind {o : Op} {f : Res o → Prog Op Res Arg Ret β} (h : P o)
    (hf : ∀ r, A o r → (f r).Always P A) : (perform o >>= f).Always P A :=
  ⟨h, hf⟩

theorem always_recurse (x : Arg) : (recurse x : Prog Op Res Arg Ret _).Always P A :=
  fun _ => trivial

theorem always_ite {c : Prop} [Decidable c] {p q : Prog Op Res Arg Ret α}
    (hp : c → p.Always P A) (hq : ¬ c → q.Always P A) : (if c then p else q).Always P A := by
  split
  · exact hp ‹_›
  · exact hq ‹_›

end Always

end Prog

/-- A thread: the program it is in and the continuations of its open calls. -/
structure Thread (Op : Type) (Res : Op → Type) (Arg Ret : Type) where
  top : Prog Op Res Arg Ret Ret
  stack : List (Ret → Prog Op Res Arg Ret Ret)

/-- What a thread that has ended has returned. -/
def Thread.value {Op : Type} {Res : Op → Type} {Arg Ret : Type} : Thread Op Res Arg Ret → Option Ret
  | ⟨.pure v, []⟩ => some v
  | _ => none

theorem Thread.eq_of_value {Op : Type} {Res : Op → Type} {Arg Ret : Type}
    {t : Thread Op Res Arg Ret} {v : Ret} (h : t.value = some v) : t = ⟨.pure v, []⟩ := by
  unfold Thread.value at h
  split at h
  · rw [Option.some.inj h]
  · cases h

/-- A system of threads: the body of the recursive function, what an operation with a given result
does to the shared state, and which programs may be started, with what effect. -/
structure Machine (Op : Type) (Res : Op → Type) (Arg Ret σ : Type) where
  body : Arg → Prog Op Res Arg Ret Ret
  exec : σ → (o : Op) → Res o → σ → Prop
  start : σ → Prog Op Res Arg Ret Ret → σ → Prop

namespace Machine

variable {Op : Type} {Res : Op → Type} {Arg Ret σ : Type}

/-- The shared state and the threads. -/
structure Conf (Op : Type) (Res : Op → Type) (Arg Ret σ : Type) where
  shared : σ
  threads : List (Thread Op Res Arg Ret)

/-- An operation that was performed, with its result. -/
abbrev Event (Op : Type) (Res : Op → Type) := (o : Op) × Res o

variable (M : Machine Op Res Arg Ret σ)

/-- One step of one thread, or the start of a new one. -/
inductive Step : Conf Op Res Arg Ret σ → List (Event Op Res) → Conf Op Res Arg Ret σ → Prop
  | op {s s' : σ} {o : Op} {k : Res o → Prog Op Res Arg Ret Ret} {r : Res o}
      {st : List (Ret → Prog Op Res Arg Ret Ret)} {pre post : List (Thread Op Res Arg Ret)}
      (h : M.exec s o r s') :
      Step ⟨s, pre ++ ⟨.op o k, st⟩ :: post⟩ [⟨o, r⟩] ⟨s', pre ++ ⟨k r, st⟩ :: post⟩
  | call {s : σ} {x : Arg} {k : Ret → Prog Op Res Arg Ret Ret}
      {st : List (Ret → Prog Op Res Arg Ret Ret)} {pre post : List (Thread Op Res Arg Ret)} :
      Step ⟨s, pre ++ ⟨.call x k, st⟩ :: post⟩ [] ⟨s, pre ++ ⟨M.body x, k :: st⟩ :: post⟩
  | ret {s : σ} {v : Ret} {k : Ret → Prog Op Res Arg Ret Ret}
      {st : List (Ret → Prog Op Res Arg Ret Ret)} {pre post : List (Thread Op Res Arg Ret)} :
      Step ⟨s, pre ++ ⟨.pure v, k :: st⟩ :: post⟩ [] ⟨s, pre ++ ⟨k v, st⟩ :: post⟩
  | start {s s' : σ} {p : Prog Op Res Arg Ret Ret} {ts : List (Thread Op Res Arg Ret)}
      (h : M.start s p s') : Step ⟨s, ts⟩ [] ⟨s', ts ++ [⟨p, []⟩]⟩

/-- A finite run and the operations it performed. -/
inductive Run : Conf Op Res Arg Ret σ → List (Event Op Res) → Conf Op Res Arg Ret σ → Prop
  | refl (c : Conf Op Res Arg Ret σ) : Run c [] c
  | tail {c c' c'' : Conf Op Res Arg Ret σ} {evs evs' : List (Event Op Res)} (h : Run c evs c')
      (h' : M.Step c' evs' c'') : Run c (evs ++ evs') c''

variable {M} {P : Op → Prop} {A : (o : Op) → Res o → Prop}

/-- Whatever the thread does next, its operations satisfy `P`. -/
def Good (P : Op → Prop) (A : (o : Op) → Res o → Prop) (t : Thread Op Res Arg Ret) : Prop :=
  t.top.Always P A ∧ ∀ k ∈ t.stack, ∀ v, (k v).Always P A

variable {c c' : Conf Op Res Arg Ret σ} {evs : List (Event Op Res)}

/-- The operation of a step of good threads satisfies `P`. -/
theorem Step.performs (h : M.Step c evs c') (hc : ∀ t ∈ c.threads, Good P A t) :
    ∀ e ∈ evs, P e.1 := by
  cases h with
  | op hx =>
    intro e he
    rw [mem_singleton.mp he]
    exact (hc _ (mem_append_right _ mem_cons_self)).1.1
  | _ => exact nofun

/-- Good threads stay good. -/
theorem Step.good (hbody : ∀ x, (M.body x).Always P A)
    (hstart : ∀ p, M.start c.shared p c'.shared → p.Always P A) (h : M.Step c evs c')
    (hA : ∀ e ∈ evs, A e.1 e.2) (hc : ∀ t ∈ c.threads, Good P A t) :
    ∀ t ∈ c'.threads, Good P A t := by
  -- replacing one thread of the list by a good one keeps all of them good
  have hswap : ∀ {pre post : List (Thread Op Res Arg Ret)} {t t' : Thread Op Res Arg Ret},
      (∀ u ∈ pre ++ t :: post, Good P A u) → Good P A t' → ∀ u ∈ pre ++ t' :: post, Good P A u := by
    intro pre post t t' hall ht' u hu
    simp only [mem_append, mem_cons] at hu hall
    rcases hu with hu | rfl | hu
    · exact hall u (.inl hu)
    · exact ht'
    · exact hall u (.inr (.inr hu))
  cases h with
  | @op s s' o k r st pre post hx =>
    have ht := hc ⟨.op o k, st⟩ (by simp)
    exact hswap hc ⟨ht.1.2 r (hA ⟨o, r⟩ (by simp)), ht.2⟩
  | @call s x k st pre post =>
    have ht := hc ⟨.call x k, st⟩ (by simp)
    refine hswap hc ⟨hbody x, fun k' hk' => ?_⟩
    rcases mem_cons.mp hk' with rfl | hk'
    · exact ht.1
    · exact ht.2 k' hk'
  | @ret s v k st pre post =>
    have ht := hc ⟨.pure v, k :: st⟩ (by simp)
    exact hswap hc ⟨ht.2 k mem_cons_self v, fun k' hk' => ht.2 k' (mem_cons_of_mem _ hk')⟩
  | @start s s' p ts hx =>
    intro t ht
    rcases mem_append.mp ht with ht | ht
    · exact hc t ht
    · rw [mem_singleton.mp ht]
      exact ⟨hstart p hx, by simp⟩

/-- **Rely and guarantee.** The shared state keeps `I` and answers as the programs rely on (`A`), as
long as the outside does its part (`E`) and the operations satisfy `P`, which the programs guarantee
in return. -/
theorem Run.guarantee {I : σ → Prop} {E : (o : Op) → Res o → Prop}
    (hbody : ∀ x, (M.body x).Always P A)
    (hstart : ∀ s p s', M.start s p s' → I s → p.Always P A ∧ I s')
    (hexec : ∀ s o r s', M.exec s o r s' → I s → P o → E o r → A o r ∧ I s')
    (h : M.Run c evs c') (hE : ∀ e ∈ evs, E e.1 e.2) (hc : ∀ t ∈ c.threads, Good P A t)
    (hI : I c.shared) :
    (∀ e ∈ evs, P e.1 ∧ A e.1 e.2) ∧ (∀ t ∈ c'.threads, Good P A t) ∧ I c'.shared := by
  induction h with
  | refl => exact ⟨nofun, hc, hI⟩
  | @tail c₁ c₂ evs evs' _ hstep ih =>
    obtain ⟨hall, hgood, hI⟩ := ih fun e he => hE e (mem_append_left _ he)
    have hP := hstep.performs hgood
    have hlast : (∀ e ∈ evs', A e.1 e.2) ∧ I c₂.shared := by
      cases hstep with
      | op hx =>
        have hev := hexec _ _ _ _ hx hI (hP _ mem_cons_self)
          (hE _ (mem_append_right _ mem_cons_self))
        exact ⟨fun e he => mem_singleton.mp he ▸ hev.1, hev.2⟩
      | call | ret => exact ⟨nofun, hI⟩
      | start hx => exact ⟨nofun, (hstart _ _ _ hx hI).2⟩
    refine ⟨fun e he => ?_, hstep.good hbody (fun p hx => (hstart _ _ _ hx hI).1) hlast.1 hgood,
      hlast.2⟩
    rcases mem_append.mp he with he | he
    · exact hall e he
    · exact ⟨hP e he, hlast.1 e he⟩

/-- **Every operation of every interleaving.** -/
theorem Run.always (hbody : ∀ x, (M.body x).Always P A)
    (hstart : ∀ s p s', M.start s p s' → p.Always P A) (h : M.Run c evs c')
    (hA : ∀ e ∈ evs, A e.1 e.2) (hc : ∀ t ∈ c.threads, Good P A t) :
    (∀ e ∈ evs, P e.1) ∧ ∀ t ∈ c'.threads, Good P A t := by
  obtain ⟨hall, hgood, -⟩ := h.guarantee (I := fun _ => True) (E := A) hbody
    (fun s p s' hx _ => ⟨hstart s p s' hx, trivial⟩) (fun _ _ _ _ _ _ _ hr => ⟨hr, trivial⟩) hA hc
    trivial
  exact ⟨fun e he => (hall e he).1, hgood⟩

/-- What holds of the shared state and the operations so far, if every operation and every start of
a thread keeps it. -/
theorem Run.invariant {I : σ → List (Event Op Res) → Prop}
    (hop : ∀ {s o r s' evs}, M.exec s o r s' → I s evs → I s' (evs ++ [⟨o, r⟩]))
    (hstart : ∀ {s p s' evs}, M.start s p s' → I s evs → I s' evs) (h : M.Run c evs c')
    (hI : I c.shared []) : I c'.shared evs := by
  induction h with
  | refl => exact hI
  | tail _ hstep ih =>
    cases hstep with
    | op hx => exact hop hx ih
    | call | ret => simpa using ih
    | start hx => simpa using hstart hx ih

/-! ## Driving one thread -/

theorem Run.trans {c'' : Conf Op Res Arg Ret σ} {evs' : List (Event Op Res)} (h : M.Run c evs c')
    (h' : M.Run c' evs' c'') : M.Run c (evs ++ evs') c'' := by
  induction h' with
  | refl => simpa using h
  | tail _ hstep ih =>
    rw [← append_assoc]
    exact .tail ih hstep

theorem Run.head {c'' : Conf Op Res Arg Ret σ} {evs' : List (Event Op Res)} (h : M.Step c evs c')
    (h' : M.Run c' evs' c'') : M.Run c (evs ++ evs') c'' :=
  Run.trans (Run.tail (.refl c) h) h'

/-- What driving a thread ends with. -/
structure Driven (Op : Type) (Res : Op → Type) (Arg Ret σ : Type) where
  shared : σ
  thread : Thread Op Res Arg Ret
  events : List (Event Op Res)

/-- One thread alone for up to `n` steps, with a function that chooses each result. -/
def drive (M : Machine Op Res Arg Ret σ) (choose : σ → (o : Op) → Res o × σ) :
    Nat → σ → Thread Op Res Arg Ret → Driven Op Res Arg Ret σ
  | 0, s, t => ⟨s, t, []⟩
  | n + 1, s, ⟨.op o k, st⟩ =>
    let d := drive M choose n (choose s o).2 ⟨k (choose s o).1, st⟩
    ⟨d.shared, d.thread, ⟨o, (choose s o).1⟩ :: d.events⟩
  | n + 1, s, ⟨.call x k, st⟩ => drive M choose n s ⟨M.body x, k :: st⟩
  | n + 1, s, ⟨.pure v, k :: st⟩ => drive M choose n s ⟨k v, st⟩
  | _ + 1, s, ⟨.pure v, []⟩ => ⟨s, ⟨.pure v, []⟩, []⟩

variable {choose : σ → (o : Op) → Res o × σ}

/-- Driving a thread is a run. -/
theorem run_drive (hc : ∀ s o, M.exec s o (choose s o).1 (choose s o).2)
    {pre post : List (Thread Op Res Arg Ret)} : ∀ (n : Nat) (s : σ) (t : Thread Op Res Arg Ret),
      M.Run ⟨s, pre ++ t :: post⟩ (M.drive choose n s t).events
        ⟨(M.drive choose n s t).shared, pre ++ (M.drive choose n s t).thread :: post⟩
  | 0, _, _ => .refl _
  | n + 1, s, ⟨.op o _, _⟩ => Run.head (.op (hc s o)) (run_drive hc n _ _)
  | n + 1, _, ⟨.call _ _, _⟩ => Run.head .call (run_drive hc n _ _)
  | n + 1, _, ⟨.pure _, _ :: _⟩ => Run.head .ret (run_drive hc n _ _)
  | _ + 1, _, ⟨.pure _, []⟩ => .refl _

/-- The operations of a driven thread are answered as the function answers. -/
theorem events_drive (hA : ∀ s o, A o (choose s o).1) :
    ∀ (n : Nat) (s : σ) (t : Thread Op Res Arg Ret), ∀ e ∈ (M.drive choose n s t).events, A e.1 e.2
  | 0, _, _ => nofun
  | n + 1, s, ⟨.op o _, _⟩ => forall_mem_cons.mpr ⟨hA s o, events_drive hA n _ _⟩
  | n + 1, _, ⟨.call _ _, _⟩ => events_drive hA n _ _
  | n + 1, _, ⟨.pure _, _ :: _⟩ => events_drive hA n _ _
  | _ + 1, _, ⟨.pure _, []⟩ => nofun

/-- Each operation of the driven thread changes the state as `ok` allows. -/
def passes (M : Machine Op Res Arg Ret σ) (choose : σ → (o : Op) → Res o × σ)
    (ok : σ → σ → Bool) : Nat → σ → Thread Op Res Arg Ret → Bool
  | 0, _, _ => true
  | n + 1, s, ⟨.op o k, st⟩ =>
    ok s (choose s o).2 && passes M choose ok n (choose s o).2 ⟨k (choose s o).1, st⟩
  | n + 1, s, ⟨.call x k, st⟩ => passes M choose ok n s ⟨M.body x, k :: st⟩
  | n + 1, s, ⟨.pure v, k :: st⟩ => passes M choose ok n s ⟨k v, st⟩
  | _ + 1, _, ⟨.pure _, []⟩ => true

/-- Driving a thread is a run, also of a machine that allows no other changes. -/
theorem run_drive_of_passes {ok : σ → σ → Bool}
    (hc : ∀ s o, ok s (choose s o).2 = true → M.exec s o (choose s o).1 (choose s o).2)
    (pre post : List (Thread Op Res Arg Ret)) :
    ∀ (n : Nat) (s : σ) (t : Thread Op Res Arg Ret), M.passes choose ok n s t = true →
      M.Run ⟨s, pre ++ t :: post⟩ (M.drive choose n s t).events
        ⟨(M.drive choose n s t).shared, pre ++ (M.drive choose n s t).thread :: post⟩
  | 0, _, _, _ => .refl _
  | n + 1, s, ⟨.op o _, _⟩, h =>
    have h := Bool.and_eq_true_iff.mp h
    Run.head (.op (hc s o h.1)) (run_drive_of_passes hc pre post n _ _ h.2)
  | n + 1, _, ⟨.call _ _, _⟩, h => Run.head .call (run_drive_of_passes hc pre post n _ _ h)
  | n + 1, _, ⟨.pure _, _ :: _⟩, h => Run.head .ret (run_drive_of_passes hc pre post n _ _ h)
  | _ + 1, _, ⟨.pure _, []⟩, _ => .refl _

/-- A thread that has not ended does not look at the frames below it. -/
theorem drive_append (below : List (Ret → Prog Op Res Arg Ret Ret)) :
    ∀ (n : Nat) (s : σ) (p : Prog Op Res Arg Ret Ret) (st : List (Ret → Prog Op Res Arg Ret Ret)),
      (∀ v, (M.drive choose n s ⟨p, st⟩).thread ≠ ⟨.pure v, []⟩) →
      M.drive choose n s ⟨p, st ++ below⟩ =
        ⟨(M.drive choose n s ⟨p, st⟩).shared, ⟨(M.drive choose n s ⟨p, st⟩).thread.top,
          (M.drive choose n s ⟨p, st⟩).thread.stack ++ below⟩, (M.drive choose n s ⟨p, st⟩).events⟩
  | 0, _, _, _, _ => rfl
  | n + 1, s, .op o k, st, h => by
    have ih := drive_append below n (choose s o).2 (k (choose s o).1) st h
    simp only [drive, ih]
  | n + 1, s, .call x k, st, h => drive_append below n s (M.body x) (k :: st) h
  | n + 1, s, .pure v, k :: st, h => drive_append below n s (k v) st h
  | _ + 1, _, .pure v, [], h => absurd rfl (h v)

/-- A run goes on with a new thread, driven alone. -/
theorem Run.start_drive {s s' : σ} {ts : List (Thread Op Res Arg Ret)} {p : Prog Op Res Arg Ret Ret}
    (h : M.Run c evs ⟨s, ts⟩) (hs : M.start s p s')
    (hc : ∀ s o, M.exec s o (choose s o).1 (choose s o).2) (n : Nat) :
    M.Run c (evs ++ (M.drive choose n s' ⟨p, []⟩).events)
      ⟨(M.drive choose n s' ⟨p, []⟩).shared, ts ++ [(M.drive choose n s' ⟨p, []⟩).thread]⟩ := by
  have h' : M.Run c evs ⟨s', ts ++ [⟨p, []⟩]⟩ := by
    simpa using Run.tail h (.start hs)
  exact h'.trans (run_drive hc n s' ⟨p, []⟩)

end Machine

end SimpleDns.Lib
