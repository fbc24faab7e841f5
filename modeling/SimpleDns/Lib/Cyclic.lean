import Mathlib.Data.List.Rotate
import Mathlib.Tactic.Linarith

/-!
# Cyclic spans of an ordered type

A span `(a, b)` of a cyclically ordered set holds the points strictly after `a` and strictly before
`b`, and when `b` does not come after `a` it wraps: it holds the points after `a` and the points
before `b`. `inSpan` decides this from a three-way comparison.

The gaps of a strictly increasing list are the spans between neighbours, the last of which leads
back to the first element (`gaps`). `not_mem_of_inSpan_gap`: no element of the list lies in a gap.
-/

namespace SimpleDns.Lib

open List

/-- `x` lies strictly inside the span from `a` to `b`, which wraps unless `a` is before `b`. -/
def inSpan {α : Type} (cmp : α → α → Ordering) (a b x : α) : Bool :=
  if cmp a b != .lt then cmp x a == .gt || cmp x b == .lt
  else cmp x a == .gt && cmp x b == .lt

/-- Each element of a list with its successor, the last one with the first. -/
def gaps {α : Type} (l : List α) : List (α × α) := l.zip (l.rotate 1)

/-- A gap joins a position to the next one around the list. -/
theorem mem_gaps {α : Type} {l : List α} {g : α × α} (h : g ∈ gaps l) :
    ∃ (i j : Nat) (hi : i < l.length) (hj : j < l.length),
      j = (i + 1) % l.length ∧ g = (l[i], l[j]) := by
  obtain ⟨i, hi, rfl⟩ := mem_iff_getElem.mp h
  simp only [gaps, length_zip, length_rotate, Nat.min_self] at hi
  exact ⟨i, (i + 1) % l.length, hi, Nat.mod_lt _ (by omega), rfl,
    by simp [gaps, getElem_rotate]⟩

section Gaps

variable {α : Type} [Ord α] [Std.TransOrd α]

/-- Strictly increasing. -/
def Increasing (l : List α) : Prop := l.Pairwise fun a b => compare a b = .lt

/-- The order of the elements is the order of their positions. -/
theorem Increasing.lt_iff {l : List α} (hl : Increasing l) {i j : Nat} (hi : i < l.length)
    (hj : j < l.length) : compare l[i] l[j] = .lt ↔ i < j := by
  have hmono : ∀ {i j : Nat} (hi : i < l.length) (hj : j < l.length), i < j →
      compare l[i] l[j] = .lt := fun hi hj h => pairwise_iff_getElem.mp hl _ _ hi hj h
  constructor
  · intro h
    by_contra hc
    rcases Nat.lt_or_eq_of_le (Nat.le_of_not_lt hc) with hlt | rfl
    · have := hmono hj hi hlt
      rw [Std.OrientedCmp.gt_of_lt this] at h
      cases h
    · rw [Std.ReflOrd.compare_self] at h
      cases h
  · exact hmono hi hj

/-- **No element of an increasing list lies in one of its gaps.** -/
theorem not_mem_of_inSpan_gap {l : List α} (hl : Increasing l) {a b x : α}
    (hg : (a, b) ∈ gaps l) (hx : inSpan compare a b x = true) : x ∉ l := by
  intro hm
  obtain ⟨i, k, hi, hk, hki, he⟩ := mem_gaps hg
  obtain ⟨j, hj, rfl⟩ := mem_iff_getElem.mp hm
  obtain ⟨rfl, rfl⟩ := he
  have hgt : ∀ {p q : Nat} (hp : p < l.length) (hq : q < l.length),
      compare l[p] l[q] = .gt → q < p := fun hp hq h =>
    (hl.lt_iff hq hp).mp (Std.OrientedCmp.lt_of_gt h)
  unfold inSpan at hx
  by_cases hlast : i + 1 < l.length
  · -- an inner gap: the successor is the next position
    rw [Nat.mod_eq_of_lt hlast] at hki
    have hlt : compare l[i] l[k] = .lt := (hl.lt_iff hi hk).mpr (by omega)
    rw [hlt] at hx
    simp only [bne_self_eq_false, Bool.false_eq_true, if_false, Bool.and_eq_true, beq_iff_eq] at hx
    have h1 := hgt hj hi hx.1
    have h2 := (hl.lt_iff hj hk).mp hx.2
    omega
  · -- the last gap: the successor is the first position
    have hlen : i + 1 = l.length := by omega
    rw [hlen, Nat.mod_self] at hki
    have hnlt : compare l[i] l[k] ≠ .lt := by
      intro h
      have := (hl.lt_iff hi hk).mp h
      omega
    rw [if_pos (by simpa using hnlt)] at hx
    simp only [Bool.or_eq_true, beq_iff_eq] at hx
    rcases hx with h | h
    · have := hgt hj hi h
      omega
    · have := (hl.lt_iff hj hk).mp h
      omega

/-- A chain over the nodes of some set: their keys in increasing order, each linked to the next
one and the last to the first. -/
structure Chain {N : Type} (key : N → α) (node : N → Prop) where
  keys : List α
  increasing : Increasing keys
  mem_iff : ∀ k, k ∈ keys ↔ ∃ n, node n ∧ key n = k

/-- **A key inside a gap of the chain is no node's.** -/
theorem Chain.not_node_of_inSpan {N : Type} {key : N → α} {node : N → Prop} (c : Chain key node)
    {a b : α} {n : N} (hg : (a, b) ∈ gaps c.keys) (h : inSpan compare a b (key n) = true) :
    ¬ node n :=
  fun hn => not_mem_of_inSpan_gap c.increasing hg h ((c.mem_iff _).mpr ⟨n, hn, rfl⟩)

omit [Std.TransOrd α] in
/-- The start of a gap is a node's key. -/
theorem Chain.exists_node_of_gap {N : Type} {key : N → α} {node : N → Prop} (c : Chain key node)
    {a b : α} (hg : (a, b) ∈ gaps c.keys) : ∃ n, node n ∧ key n = a :=
  (c.mem_iff a).mp (of_mem_zip hg).1

end Gaps

end SimpleDns.Lib
