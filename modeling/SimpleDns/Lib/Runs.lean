import Mathlib.Data.List.Basic
import Mathlib.Data.List.Perm.Basic
import Mathlib.Order.Compare

/-!
# Sorting and leaving out repetitions

A list is sorted by a comparison that does not tell all its elements apart, and an element is then
left out if it looks like the one before it. `Sorted` says of a sort what the C standard says of
`qsort`: the elements are rearranged, none behind a greater one, and the order of elements that
compare equal is left open. `suppress` is the second pass.

* `mem_map_suppress`: every look is there once at least.
* **`nodup_suppress_iff`**: it is there once only, whatever the order of equal elements, exactly
  when an element that has a look-alike compares equal to its look-alikes alone.
-/

namespace SimpleDns.Lib

open List Option

variable {α β : Type}

/-- `arr` is `l` sorted by `cmp`. -/
structure Sorted (cmp : α → α → Ordering) (l arr : List α) : Prop where
  perm : arr.Perm l
  ordered : arr.Pairwise fun a b => (cmp a b).isLE

variable [DecidableEq β] (look : α → β)

/-- The pass behind an element that looks like `prev`. -/
def suppressFrom : Option β → List α → List α
  | _, [] => []
  | prev, a :: l =>
    if prev = some (look a) then suppressFrom (some (look a)) l
    else a :: suppressFrom (some (look a)) l

/-- The list without the elements that look like the one before them. -/
def suppress (l : List α) : List α := suppressFrom look none l

variable {look}

variable {l : List α}

theorem suppressFrom_subset {prev : Option β} {a : α} (h : a ∈ suppressFrom look prev l) :
    a ∈ l := by
  induction l generalizing prev with
  | nil => exact h
  | cons b l ih =>
    rw [suppressFrom] at h
    split at h
    · exact mem_cons_of_mem _ (ih h)
    · rcases mem_cons.mp h with rfl | h
      · exact mem_cons_self
      · exact mem_cons_of_mem _ (ih h)

theorem mem_map_suppressFrom (prev : Option β) {b : β} (h : b ∈ l.map look) :
    prev = some b ∨ b ∈ (suppressFrom look prev l).map look := by
  induction l generalizing prev with
  | nil => cases h
  | cons a l ih =>
    rw [suppressFrom]
    rcases mem_cons.mp h with rfl | h
    · split
      · exact .inl ‹_›
      · exact .inr mem_cons_self
    · rcases ih (some (look a)) h with heq | hmem
      · cases heq
        split
        · exact .inl ‹_›
        · exact .inr mem_cons_self
      · split
        · exact .inr hmem
        · exact .inr (mem_cons_of_mem _ hmem)

/-- No look is lost. -/
theorem mem_map_suppress {b : β} : b ∈ (suppress look l).map look ↔ b ∈ l.map look := by
  constructor
  · intro h
    obtain ⟨a, ha, rfl⟩ := mem_map.mp h
    exact mem_map_of_mem (suppressFrom_subset ha)
  · intro h
    exact (mem_map_suppressFrom none h).resolve_left (by simp)

/-! ## Looks that stay apart -/

section Looks

variable {cmp : α → α → Ordering}

/-- An element with a look-alike compares equal to its look-alikes alone. -/
def Uniform (cmp : α → α → Ordering) (look : α → β) (l : List α) : Prop :=
  ∀ a ∈ l, ∀ b ∈ l, cmp a b = .eq → look a ≠ look b → l.countP (look · = look a) ≤ 1

/-- The comparison does not tell look-alikes apart. -/
def LooksEqual (cmp : α → α → Ordering) (look : α → β) (l : List α) : Prop :=
  ∀ a ∈ l, ∀ b ∈ l, look a = look b → cmp a b = .eq

theorem Uniform.perm {l' : List α} (h : Uniform cmp look l) (hp : l'.Perm l) :
    Uniform cmp look l' := by
  intro a ha b hb heq hne
  rw [hp.countP_eq]
  exact h a (hp.mem_iff.mp ha) b (hp.mem_iff.mp hb) heq hne

variable {a : α}

theorem Uniform.tail (h : Uniform cmp look (a :: l)) : Uniform cmp look l := by
  intro b hb c hc heq hne
  refine Nat.le_trans ?_ (h b (mem_cons_of_mem _ hb) c (mem_cons_of_mem _ hc) heq hne)
  exact (sublist_cons_self a l).countP_le

omit [DecidableEq β] in
theorem LooksEqual.mono {l' : List α} (h : LooksEqual cmp look l) (hsub : ∀ a ∈ l', a ∈ l) :
    LooksEqual cmp look l' :=
  fun a ha b hb => h a (hsub a ha) b (hsub b hb)

variable [Std.TransCmp cmp]

/-- What is left behind an element does not look like it. -/
theorem nodup_suppressFrom {p : α} (hlook : LooksEqual cmp look (p :: l))
    (hs : (p :: l).Pairwise fun a b => (cmp a b).isLE) (hu : Uniform cmp look (p :: l)) :
    look p ∉ (suppressFrom look (some (look p)) l).map look ∧
      ((suppressFrom look (some (look p)) l).map look).Nodup := by
  induction l generalizing p with
  | nil => exact ⟨not_mem_nil, nodup_nil⟩
  | cons a l ih =>
    obtain ⟨hnot, hnodup⟩ := ih (hlook.mono fun _ => mem_cons_of_mem _) hs.tail hu.tail
    rw [suppressFrom]
    by_cases heq : look p = look a
    · rw [if_pos (congrArg some heq), heq]
      exact ⟨hnot, hnodup⟩
    · rw [if_neg fun h => heq (some.inj h), map_cons]
      refine ⟨?_, nodup_cons.mpr ⟨hnot, hnodup⟩⟩
      rw [mem_cons, not_or]
      refine ⟨heq, fun hmem => ?_⟩
      obtain ⟨x, hx, hxp⟩ := mem_map.mp hmem
      have hx := suppressFrom_subset hx
      -- an element between two look-alikes compares equal to them
      have hpa : (cmp p a).isLE := rel_of_pairwise_cons hs mem_cons_self
      have hax : (cmp a x).isLE := rel_of_pairwise_cons hs.tail hx
      have hap : (cmp a p).isLE := by
        have hxEq : cmp x p = .eq := hlook x (mem_cons_of_mem _ (mem_cons_of_mem _ hx)) p
          mem_cons_self hxp
        rwa [Std.TransCmp.congr_right hxEq] at hax
      have hpaEq : cmp p a = .eq := Std.OrientedCmp.isLE_antisymm hpa hap
      have hcount := hu p mem_cons_self a (mem_cons_of_mem _ mem_cons_self) hpaEq heq
      rw [countP_cons_of_pos (by simp), countP_cons_of_neg (by simpa using Ne.symm heq)]
        at hcount
      have hpos : 0 < l.countP (look · = look p) :=
        countP_pos_iff.mpr ⟨x, hx, by simpa using hxp⟩
      omega

theorem nodup_suppress {arr : List α} (hlook : LooksEqual cmp look l) (hs : Sorted cmp l arr)
    (hu : Uniform cmp look l) : ((suppress look arr).map look).Nodup := by
  cases arr with
  | nil => exact nodup_nil
  | cons a arr =>
    obtain ⟨hnot, hnodup⟩ := nodup_suppressFrom
      (hlook.mono fun _ hb => hs.perm.mem_iff.mp hb) hs.ordered (hu.perm hs.perm)
    exact nodup_cons.mpr ⟨hnot, hnodup⟩

theorem exists_sorted (cmp : α → α → Ordering) [Std.TransCmp cmp] (l : List α) :
    ∃ arr, Sorted cmp l arr := by
  have htotal : ∀ a b, ((cmp a b).isLE || (cmp b a).isLE) = true := by
    intro a b
    rw [(Std.OrientedCmp.eq_swap : cmp b a = (cmp a b).swap)]
    cases cmp a b <;> rfl
  exact ⟨_, mergeSort_perm l _,
    pairwise_mergeSort (fun _ _ _ => Std.TransCmp.isLE_trans) htotal l⟩

/-- The elements that compare equal to `p` may stand in any order. -/
theorem exists_sorted_of_perm {mid : List α} {p : α}
    (hmid : mid.Perm (l.filter fun a => cmp a p == .eq)) :
    ∃ pre post, (∀ a ∈ pre, cmp a p = .lt) ∧ Sorted cmp l (pre ++ (mid ++ post)) := by
  obtain ⟨pre, hpre⟩ := exists_sorted cmp (l.filter fun a => cmp a p == .lt)
  obtain ⟨post, hpost⟩ := exists_sorted cmp (l.filter fun a => cmp a p == .gt)
  have hlt : ∀ a ∈ pre, cmp a p = .lt := by
    intro a ha
    simpa using (mem_filter.mp (hpre.perm.mem_iff.mp ha)).2
  have heq : ∀ a ∈ mid, cmp a p = .eq := by
    intro a ha
    simpa using (mem_filter.mp (hmid.mem_iff.mp ha)).2
  have hgt : ∀ a ∈ post, cmp p a = .lt := by
    intro a ha
    have hgt := (mem_filter.mp (hpost.perm.mem_iff.mp ha)).2
    exact Std.OrientedCmp.gt_iff_lt.mp (by simpa using hgt)
  have hsplit : (l.filter (cmp · p == .lt) ++ (l.filter (cmp · p == .eq) ++
      l.filter (cmp · p == .gt))).Perm l := by
    clear * -
    induction l with
    | nil => exact List.Perm.nil
    | cons a l ih =>
      cases h : cmp a p with
      | lt => simpa [h] using ih
      | eq => simpa [h] using perm_middle.trans (ih.cons a)
      | gt =>
        have hlast : (l.filter (cmp · p == .eq) ++ a :: l.filter (cmp · p == .gt)).Perm
            (a :: (l.filter (cmp · p == .eq) ++ l.filter (cmp · p == .gt))) := perm_middle
        simpa [h] using (hlast.append_left _).trans (perm_middle.trans (ih.cons a))
  refine ⟨pre, post, hlt, (hpre.perm.append (hmid.append hpost.perm)).trans hsplit, ?_⟩
  rw [pairwise_append, pairwise_append]
  refine ⟨hpre.ordered, ⟨?_, hpost.ordered, ?_⟩, ?_⟩
  · refine pairwise_of_forall_mem_list fun a ha b hb => ?_
    rw [Std.TransCmp.congr_left (heq a ha), Std.OrientedCmp.eq_comm.mp (heq b hb)]
    rfl
  · intro a ha b hb
    rw [Std.TransCmp.congr_left (heq a ha), hgt b hb]
    rfl
  · intro a ha b hb
    rcases mem_append.mp hb with hb | hb
    · rw [Std.TransCmp.congr_right (heq b hb), hlt a ha]
      rfl
    · rw [Std.TransCmp.lt_trans (hlt a ha) (hgt b hb)]
      rfl

/-- A list in which a look is met again behind another one keeps it twice. -/
theorem not_nodup_suppressFrom {prev : Option β} (pre : List α) {b a' : α} {post : List α}
    (hpre : ∀ x ∈ pre, look x ≠ look a) (hprev : prev ≠ some (look a)) (hb : look b ≠ look a)
    (ha : look a' = look a) :
    ¬((suppressFrom look prev (pre ++ a :: b :: a' :: post)).map look).Nodup := by
  induction pre generalizing prev with
  | nil =>
    have hne : some (look a) ≠ some (look b) := fun h => hb (some.inj h).symm
    have hne' : some (look b) ≠ some (look a') := fun h => hb ((some.inj h).trans ha)
    rw [nil_append, suppressFrom, if_neg hprev, suppressFrom, if_neg hne, suppressFrom,
      if_neg hne']
    simp [ha]
  | cons x pre ih =>
    have hnext : some (look x) ≠ some (look a) :=
      fun h => hpre x mem_cons_self (some.inj h)
    have ih := ih (fun y hy => hpre y (mem_cons_of_mem _ hy)) hnext
    rw [cons_append, suppressFrom]
    split
    · exact ih
    · exact fun h => ih (nodup_cons.mp h).2

theorem perm_cons_of_mem (h : a ∈ l) : ∃ l', l.Perm (a :: l') := by
  obtain ⟨s, t, rfl⟩ := append_of_mem h
  exact ⟨s ++ t, perm_middle⟩

/-- **Every look is kept once**, in whatever order the sort leaves what compares equal, exactly
when an element with a look-alike compares equal to its look-alikes alone. -/
theorem nodup_suppress_iff (hlook : LooksEqual cmp look l) :
    (∀ arr, Sorted cmp l arr → ((suppress look arr).map look).Nodup) ↔ Uniform cmp look l := by
  constructor
  · intro h a ha b hb heq hne
    by_contra hcount
    -- two look-alikes and the element between them
    obtain ⟨l₁, hl₁⟩ := perm_cons_of_mem ha
    have htwice : 0 < l₁.countP (look · = look a) := by
      rw [hl₁.countP_eq, countP_cons_of_pos (by simp)] at hcount
      omega
    obtain ⟨a', ha', hsame⟩ := countP_pos_iff.mp htwice
    replace hsame : look a' = look a := by simpa using hsame
    obtain ⟨l₂, hl₂⟩ := perm_cons_of_mem ha'
    have hb₂ : b ∈ l₂ := by
      have hb₁ := (mem_cons.mp (hl₁.mem_iff.mp hb)).resolve_left fun h => hne (h ▸ rfl)
      exact (mem_cons.mp (hl₂.mem_iff.mp hb₁)).resolve_left fun h => hne (h ▸ hsame.symm)
    obtain ⟨l₃, hl₃⟩ := perm_cons_of_mem hb₂
    have hl : l.Perm (a :: b :: a' :: l₃) :=
      hl₁.trans (((hl₂.trans (hl₃.cons a')).trans (List.Perm.swap b a' l₃)).cons a)
    have ha'l : a' ∈ l := hl.mem_iff.mpr (by simp)
    have hkind : (a :: b :: a' :: l₃.filter (cmp · a == .eq)).Perm (l.filter (cmp · a == .eq)) := by
      have h₁ : cmp a a = .eq := hlook a ha a ha rfl
      have h₂ : cmp b a = .eq := Std.OrientedCmp.eq_comm.mp heq
      have h₃ : cmp a' a = .eq := hlook a' ha'l a ha hsame
      simpa [h₁, h₂, h₃] using (hl.filter (cmp · a == .eq)).symm
    obtain ⟨pre, post, hpre, hsorted⟩ := exists_sorted_of_perm hkind
    refine not_nodup_suppressFrom pre (fun x hx hxa => ?_) (some_ne_none _).symm
      (Ne.symm hne) hsame (h _ hsorted)
    have hlt := hpre x hx
    rw [hlook x (hsorted.perm.mem_iff.mp (mem_append_left _ hx)) a ha hxa] at hlt
    cases hlt
  · intro hu arr hs
    exact nodup_suppress hlook hs hu

end Looks

end SimpleDns.Lib
