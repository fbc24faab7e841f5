import SimpleDns.Wire.Compress

/-!
# The canonical order of names (`canon_name_cmp`, `dns_wire.c:938-973`)

`canonWalk` is the loop of the source: labels from the right, `memcmp` over the common length, then
the lengths, and the label counts where the labels are used up. It is the lexicographic comparison
of the label lists, which `canonNameCmp` takes (`canonWalk_eq`).

* **`canonNameCmp_order`**: on names of at most 255 characters with non-empty labels it is a total
  preorder with ties between names that differ in case only, it is the order of RFC 4034 §6.1, and
  the names at or below one form a block.
-/

namespace SimpleDns.Wire

open List

/-! ## The loop -/

/-- `memcmp` over `n` octets. -/
def memcmp : Nat → Bytes → Bytes → Ordering
  | n + 1, a :: as, b :: bs => (compare a b).then (memcmp n as bs)
  | _, _, _ => .eq

/-- The loop of `canon_name_cmp` over the labels from the last one on. -/
def canonWalk : List Text → List Text → Ordering
  | sa :: la, sb :: lb =>
    ((memcmp (min sa.length sb.length) sa sb).then (compare sa.length sb.length)).then
      (canonWalk la lb)
  | la, lb => compare la.length lb.length

theorem memcmp_then_length (a b : Bytes) :
    (memcmp (min a.length b.length) a b).then (compare a.length b.length) = compare a b := by
  induction a generalizing b with
  | nil => cases b <;> rfl
  | cons c a ih =>
    cases b with
    | nil => rfl
    | cons d b =>
      have hlen : compare (a.length + 1) (b.length + 1) = compare a.length b.length := by
        simp [Nat.compare_eq_ite_lt]
      rw [length_cons, length_cons, Nat.succ_min_succ, memcmp, Ordering.then_assoc, hlen, ih,
        List.compare_cons_cons]

theorem canonWalk_eq (la lb : List Text) : canonWalk la lb = compare la lb := by
  induction la generalizing lb with
  | nil => cases lb <;> rfl
  | cons sa la ih =>
    cases lb with
    | nil => rfl
    | cons sb lb => rw [canonWalk, memcmp_then_length, ih, List.compare_cons_cons]

/-! ## Lexicographic order -/

section Lex

variable {α : Type} [Ord α] [Std.LawfulEqOrd α]

/-- The comparison of lists is the lexicographic order of the one of their elements. -/
theorem compare_eq_lt_iff_lex {r : α → α → Prop} (hr : ∀ a b, compare a b = .lt ↔ r a b)
    {l m : List α} : compare l m = .lt ↔ Lex r l m := by
  induction l generalizing m with
  | nil => cases m <;> simp
  | cons a l ih =>
    cases m with
    | nil => simp
    | cons b m =>
      rw [List.compare_cons_cons, Ordering.then_eq_lt, hr, ih, Std.LawfulEqOrd.compare_eq_iff_eq,
        cons_lex_cons_iff]

variable [Std.TransOrd α]

/-- What lies between two lists with a common start has it too. -/
theorem prefix_of_between {p x y z : List α} (hx : p <+: x) (hz : p <+: z)
    (hxy : (compare x y).isLE) (hyz : (compare y z).isLE) : p <+: y := by
  induction p generalizing x y z with
  | nil => exact nil_prefix
  | cons a p ih =>
    obtain ⟨x, rfl, hpx⟩ := cons_prefix_iff.mp hx
    obtain ⟨z, rfl, hpz⟩ := cons_prefix_iff.mp hz
    cases y with
    | nil => cases hxy
    | cons b y =>
      rw [List.compare_cons_cons] at hxy hyz
      have hab : (compare a b).isLE := by
        revert hxy
        cases compare a b <;> simp
      have hba : (compare b a).isLE := by
        revert hyz
        cases compare b a <;> simp
      obtain rfl := Std.LawfulEqCmp.eq_of_compare (Std.OrientedCmp.isLE_antisymm hab hba)
      rw [Std.ReflOrd.compare_self] at hxy hyz
      exact cons_prefix_cons.mpr ⟨rfl, ih hpx hpz hxy hyz⟩

end Lex

/-! ## Names -/

/-- A name of at most 255 characters with non-empty labels. -/
structure LabelledName where
  labels : List Text
  proper : ∀ l ∈ labels, l ≠ [] ∧ dot ∉ l
  short : (joinDots labels).length ≤ 255

namespace LabelledName

/-- The name as text. -/
def text (n : LabelledName) : Text := joinDots n.labels

/-- The lower-cased labels from the right. -/
def fromRight (n : LabelledName) : List Text := (n.labels.map strlower).reverse

/-- The name is `z` or ends in the labels of `z`. -/
def AtOrBelow (n z : LabelledName) : Prop := z.labels.map strlower <:+ n.labels.map strlower

/-- RFC 4034 §6.1: labels from the right, as strings of unsigned lower-case octets, nothing before
something. -/
def Before (a b : LabelledName) : Prop := Lex (Lex (· < ·)) a.fromRight b.fromRight

theorem canonLabels_text (n : LabelledName) : canonLabels n.text = n.fromRight := by
  rw [text, canonLabels_eq n.short, labels_strlower, labels_joinDots n.proper, fromRight]

theorem fromRight_inj {a b : LabelledName} :
    a.fromRight = b.fromRight ↔ strlower a.text = strlower b.text := by
  rw [fromRight, fromRight, reverse_inj, text, text]
  constructor
  · intro h
    rw [strlower_joinDots, strlower_joinDots, h]
  · intro h
    have hlabels := congrArg Wire.labels h
    rwa [labels_strlower, labels_strlower, labels_joinDots a.proper, labels_joinDots b.proper]
      at hlabels

end LabelledName

/-- **The canonical name order.** -/
theorem canonNameCmp_order :
    (∀ a b, canonNameCmp a b = canonWalk (canonLabels a) (canonLabels b)) ∧
    (∀ a b : LabelledName, canonNameCmp a.text b.text = (canonNameCmp b.text a.text).swap) ∧
    (∀ a b c : LabelledName, (canonNameCmp a.text b.text).isLE →
      (canonNameCmp b.text c.text).isLE → (canonNameCmp a.text c.text).isLE) ∧
    (∀ a b : LabelledName, canonNameCmp a.text b.text = .eq ↔
      strlower a.text = strlower b.text) ∧
    (∀ a b : LabelledName, canonNameCmp a.text b.text = .lt ↔ a.Before b) ∧
    ∀ z a b c : LabelledName, a.AtOrBelow z → c.AtOrBelow z →
      (canonNameCmp a.text b.text).isLE → (canonNameCmp b.text c.text).isLE → b.AtOrBelow z := by
  refine ⟨fun a b => (canonWalk_eq _ _).symm, ?_⟩
  simp only [canonNameCmp, LabelledName.canonLabels_text]
  refine ⟨fun a b => Std.OrientedCmp.eq_swap, fun a b c => Std.TransCmp.isLE_trans,
    fun a b => ?_, fun a b => ?_, fun z a b c ha hc hab hbc => ?_⟩
  · rw [Std.LawfulEqOrd.compare_eq_iff_eq, LabelledName.fromRight_inj]
  · exact compare_eq_lt_iff_lex fun l m => compare_eq_lt_iff_lex fun c d => Std.compare_eq_lt
  · have hza := reverse_prefix.mpr ha
    have hzc := reverse_prefix.mpr hc
    exact reverse_prefix.mp (prefix_of_between hza hzc hab hbc)

/-- Between two names below `z`. -/
theorem canonNameCmp_order_sample :
    LabelledName.AtOrBelow ⟨[lit "B", lit "z"], by decide, by decide⟩
      ⟨[lit "Z"], by decide, by decide⟩ :=
  canonNameCmp_order.2.2.2.2.2 _ ⟨[lit "a", lit "z"], by decide, by decide⟩ _
    ⟨[lit "x", lit "c", lit "z"], by decide, by decide⟩ ⟨[lit "a"], rfl⟩
    ⟨[lit "x", lit "c"], rfl⟩ (by decide +kernel) (by decide +kernel)

end SimpleDns.Wire
