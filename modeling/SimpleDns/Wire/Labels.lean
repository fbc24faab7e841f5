import Mathlib.Data.List.Flatten
import SimpleDns.Wire.Canon

/-!
# Labels of a dotted name

How the `strtok_r` loop of the source acts on names put together from parts, and the canonical
label list of a name that fits its 256-octet buffer.
-/

namespace SimpleDns.Wire

open List

theorem strtok_append_cons (sep : UInt8) (a b : Text) :
    strtok sep (a ++ sep :: b) = strtok sep a ++ strtok sep b := by
  unfold strtok
  rw [splitOn_append_cons_self, filter_append]

theorem labels_append_dot (a b : Text) : labels (a ++ dot :: b) = labels a ++ labels b :=
  strtok_append_cons dot a b

/-- Tokens without the separator, joined by it, are told apart again. -/
theorem strtok_intercalate {sep : UInt8} {ts : List Text} (hsep : ∀ t ∈ ts, sep ∉ t)
    (hne : ∀ t ∈ ts, t ≠ []) : strtok sep ([sep].intercalate ts) = ts := by
  cases ts with
  | nil => rfl
  | cons t ts =>
    rw [strtok, splitOn_intercalate sep hsep (cons_ne_nil t ts), filter_eq_self]
    intro s hs
    simpa using hne s hs

theorem strtok_of_notMem {sep : UInt8} {s : Text} (h : sep ∉ s) (hne : s ≠ []) :
    strtok sep s = [s] := by
  have hone : strtok sep ([sep].intercalate [s]) = [s] :=
    strtok_intercalate (by simpa using h) (by simpa using hne)
  simpa using hone

/-- No part of a split holds the separator. -/
theorem notMem_of_mem_splitOn {sep : UInt8} {s t : Text} (h : t ∈ s.splitOn sep) : sep ∉ t := by
  induction s generalizing t with
  | nil =>
    obtain rfl : t = [] := by simpa [splitOn_nil] using h
    exact not_mem_nil
  | cons c cs ih =>
    rw [splitOn_cons_eq_if_modifyHead] at h
    by_cases hc : (c == sep) = true
    · rw [if_pos hc] at h
      obtain rfl | h := mem_cons.mp h
      · exact not_mem_nil
      · exact ih h
    · rw [if_neg hc] at h
      cases hs : cs.splitOn sep with
      | nil => exact absurd hs (splitOn_ne_nil _ _)
      | cons u us =>
        rw [hs] at h ih
        obtain rfl | h := mem_cons.mp h
        · have hu := ih mem_cons_self
          have hne : sep ≠ c := fun heq => hc (by simp [heq])
          simp [hne, hu]
        · exact ih (mem_cons_of_mem _ h)

/-- The octets of a token are octets of the text. -/
theorem mem_of_mem_strtok {sep c : UInt8} {s t : Text} (h : t ∈ strtok sep s) (hc : c ∈ t) :
    c ∈ s := by
  have hsplit := (mem_filter.mp h).1
  have hs : [sep].intercalate (s.splitOn sep) = s := intercalate_splitOn sep
  rw [← hs]
  cases hparts : s.splitOn sep with
  | nil => exact absurd hparts (splitOn_ne_nil _ _)
  | cons p ps =>
    rw [hparts] at hsplit
    rw [intercalate_eq_flatMap]
    obtain rfl | ht := mem_cons.mp hsplit
    · exact mem_append_left _ hc
    · exact mem_append_right _ (mem_flatMap.mpr ⟨t, ht, mem_cons_of_mem _ hc⟩)

theorem mem_of_mem_labels {s l : Text} {c : UInt8} (h : l ∈ labels s) (hc : c ∈ l) : c ∈ s :=
  mem_of_mem_strtok h hc

/-- No label is empty. -/
theorem ne_nil_of_mem_labels {s l : Text} (h : l ∈ labels s) : l ≠ [] := by
  simp only [labels, strtok, mem_filter, Bool.not_eq_true', isEmpty_eq_false_iff] at h
  exact h.2

/-! ## Case folding -/

theorem splitOn_strlower (s : Text) :
    (strlower s).splitOn dot = (s.splitOn dot).map strlower := by
  induction s with
  | nil => rfl
  | cons c cs ih =>
    have hd : (lowerByte c == dot) = (c == dot) := by
      rw [Bool.eq_iff_iff, beq_iff_eq, beq_iff_eq]
      exact lowerByte_eq_dot
    have hcons : strlower (c :: cs) = lowerByte c :: strlower cs := rfl
    rw [hcons, splitOn_cons_eq_if_modifyHead, splitOn_cons_eq_if_modifyHead, hd, ih]
    split
    · rfl
    · cases cs.splitOn dot <;> rfl

theorem labels_strlower (s : Text) : labels (strlower s) = (labels s).map strlower := by
  unfold labels strtok
  rw [splitOn_strlower, filter_map]
  congr 2
  funext l
  simp [strlower, Function.comp]

theorem short_labels_strlower {s : Text} (h : ∀ l ∈ labels s, l.length ≤ 63) :
    ∀ l ∈ labels (strlower s), l ≠ [] ∧ l.length ≤ 63 := by
  intro l hl
  refine ⟨ne_nil_of_mem_labels hl, ?_⟩
  rw [labels_strlower] at hl
  obtain ⟨m, hm, rfl⟩ := mem_map.mp hl
  rw [length_strlower]
  exact h m hm

/-! ## The uncompressed wire form -/

/-- Labels behind their length octets, and the root. -/
def nameWire (ls : List Text) : Bytes := ls.flatMap labelWire ++ [0]

theorem nameWire_cons (l : Text) (ls : List Text) :
    nameWire (l :: ls) = labelWire l ++ nameWire ls := by
  simp [nameWire]

theorem length_nameWire_cons (l : Text) (ls : List Text) :
    (nameWire (l :: ls)).length = l.length + 1 + (nameWire ls).length := by
  rw [nameWire_cons, length_append]
  rfl

@[simp] theorem length_nameWire_strlower (ls : List Text) :
    (nameWire (ls.map strlower)).length = (nameWire ls).length := by
  induction ls with
  | nil => rfl
  | cons l ls ih => rw [map_cons, length_nameWire_cons, length_nameWire_cons, ih,
      length_strlower]

theorem length_lt_nameWire (ls : List Text) : ls.length < (nameWire ls).length := by
  induction ls with
  | nil => exact Nat.zero_lt_one
  | cons l ls ih =>
    rw [length_nameWire_cons, length_cons]
    omega

theorem two_mul_length_nameWire {ls : List Text} (h : ∀ l ∈ ls, l ≠ []) :
    2 * ls.length + 1 ≤ (nameWire ls).length := by
  induction ls with
  | nil => exact le_rfl
  | cons l ls ih =>
    have hpos := length_pos_iff.mpr (h l mem_cons_self)
    have := ih fun m hm => h m (mem_cons_of_mem _ hm)
    rw [length_nameWire_cons, length_cons]
    omega

theorem length_nameWire_append (ls ms : List Text) :
    (nameWire (ls ++ ms)).length + 1 = (nameWire ls).length + (nameWire ms).length := by
  simp only [nameWire, flatMap_append, length_append, length_singleton]
  omega

theorem length_nameWire_take (ls : List Text) (n : Nat) :
    (nameWire (ls.take n)).length ≤ (nameWire ls).length := by
  have hsplit := length_nameWire_append (ls.take n) (ls.drop n)
  have hrest := length_lt_nameWire (ls.drop n)
  rw [take_append_drop] at hsplit
  omega

/-- What the label loop writes, and when it fits. -/
theorem wireLoop_eq_some_iff {blen pos : Nat} {ls : List Text} {w : Bytes} :
    wireLoop blen ls pos = some w ↔
      (∀ l ∈ ls, l.length ≤ 63) ∧ w = nameWire ls ∧ pos + w.length ≤ blen := by
  induction ls generalizing pos w with
  | nil =>
    simp only [wireLoop, nameWire, flatMap_nil, nil_append]
    split
    · rename_i h
      refine iff_of_false (by simp) ?_
      rintro ⟨-, rfl, hw⟩
      simp at hw
      omega
    · rename_i h
      constructor
      · rintro ⟨⟩
        exact ⟨by simp, rfl, by simp; omega⟩
      · rintro ⟨-, rfl, -⟩
        rfl
  | cons l ls ih =>
    have hpos := length_lt_nameWire ls
    simp only [wireLoop, nameWire_cons, forall_mem_cons]
    by_cases hl : l.length > 63
    · rw [if_pos hl]
      exact iff_of_false (by simp) fun h => by omega
    rw [if_neg hl]
    by_cases hroom : pos + l.length + 1 ≥ blen
    · rw [if_pos hroom]
      refine iff_of_false (by simp) ?_
      rintro ⟨-, rfl, hw⟩
      simp only [labelWire, length_append, length_cons] at hw
      omega
    rw [if_neg hroom, Option.map_eq_some_iff]
    constructor
    · rintro ⟨w', hw', rfl⟩
      obtain ⟨hls, rfl, hle⟩ := ih.mp hw'
      refine ⟨⟨by omega, hls⟩, rfl, ?_⟩
      simp only [labelWire, length_append, length_cons]
      omega
    · rintro ⟨⟨-, hls⟩, rfl, hle⟩
      refine ⟨nameWire ls, ih.mpr ⟨hls, rfl, ?_⟩, rfl⟩
      simp only [labelWire, length_append, length_cons] at hle
      omega

theorem joinDots_cons (l : Text) (ls : List Text) :
    joinDots (l :: ls) = l ++ ls.flatMap fun m => dot :: m :=
  intercalate_eq_flatMap dot l ls

/-- A dot between two labels for the length octet of each, and no root. -/
theorem length_joinDots (ls : List Text) : (joinDots ls).length = (nameWire ls).length - 2 := by
  cases ls with
  | nil => rfl
  | cons l ls =>
    have hsame : (ls.flatMap fun m => dot :: m).length = (ls.flatMap labelWire).length := by
      rw [length_flatMap, length_flatMap]
      rfl
    rw [joinDots_cons, length_append, hsame, length_nameWire_cons, nameWire, length_append,
      length_singleton]
    omega

theorem length_nameWire_le (s : Text) : (nameWire (labels s)).length ≤ s.length + 2 := by
  have hs : joinDots (s.splitOn dot) = s := intercalate_splitOn dot
  have hlen := length_joinDots (s.splitOn dot)
  have hsub : (nameWire (labels s)).length ≤ (nameWire (s.splitOn dot)).length :=
    ((filter_sublist.flatMap labelWire).append_right [0]).length_le
  rw [hs] at hlen
  omega

/-- Each label but the first costs a dot and an octet. -/
theorem two_mul_length_labels (s : Text) : 2 * (labels s).length ≤ s.length + 1 := by
  have hwire := two_mul_length_nameWire fun l => ne_nil_of_mem_labels (s := s) (l := l)
  have hle := length_nameWire_le s
  omega

/-! ## Names in their 256-octet buffers -/

theorem safeStrcpy_eq {s : Text} (h : s.length ≤ 255) : safeStrcpy s 256 = s :=
  take_of_length_le (by omega)

theorem canonLabels_eq {s : Text} (h : s.length ≤ 255) :
    canonLabels s = (labels (strlower s)).reverse := by
  unfold canonLabels
  rw [safeStrcpy_eq h, take_of_length_le]
  have := two_mul_length_labels (strlower s)
  rw [length_strlower] at this
  omega

theorem nameToWire_eq_some_iff {name : Text} (h : name.length ≤ 255) {blen : Nat} {w : Bytes} :
    nameToWire name blen = some w ↔
      (∀ l ∈ labels name, l.length ≤ 63) ∧ w = nameWire (labels name) ∧ w.length ≤ blen := by
  rw [nameToWire, safeStrcpy_eq h, wireLoop_eq_some_iff, Nat.zero_add]

/-- The labels of a dotted suffix come first in canonical order. -/
theorem canonLabels_append_dot {a b : Text} (h : (a ++ dot :: b).length ≤ 255) :
    canonLabels (a ++ dot :: b) = canonLabels b ++ (labels (strlower a)).reverse := by
  have hlow : strlower (a ++ dot :: b) = strlower a ++ dot :: strlower b := by
    simp [strlower, lowerByte_eq_dot.mpr rfl]
  have hb : b.length ≤ 255 := by simp at h; omega
  rw [canonLabels_eq h, canonLabels_eq hb, hlow, labels_append_dot, reverse_append]

theorem canonLabels_congr {a b : Text} (ha : a.length ≤ 255) (h : eqCI a b = true) :
    canonLabels a = canonLabels b := by
  have h' := eqCI_iff.mp h
  have hlen : a.length = b.length := by rw [← length_strlower a, h', length_strlower]
  rw [canonLabels_eq ha, canonLabels_eq (by omega), h']

/-- A name that ends in another one, behind a dot or as a whole, has its labels at the root end. -/
theorem canonLabels_prefix_of_suffix {q zone : Text} (hq : q.length ≤ 255)
    (hle : zone.length ≤ q.length) (hci : eqCI (q.drop (q.length - zone.length)) zone = true)
    (hdot : q.length = zone.length ∨ byteAt q (q.length - zone.length - 1) = dot) :
    canonLabels zone <+: canonLabels q := by
  have htail : (q.drop (q.length - zone.length)).length ≤ 255 := by
    rw [length_drop]
    omega
  rw [← canonLabels_congr htail hci]
  rcases Nat.eq_zero_or_pos (q.length - zone.length) with h0 | hpos
  · rw [h0]
    exact prefix_refl _
  · -- the octet before the suffix is a dot
    replace hdot : byteAt q (q.length - zone.length - 1) = dot := hdot.resolve_left (by omega)
    obtain ⟨k, hk⟩ : ∃ k, q.length - zone.length = k + 1 :=
      ⟨_, (Nat.succ_pred_eq_of_pos hpos).symm⟩
    rw [hk] at hdot ⊢
    have hlt : k < q.length := by omega
    have hsplit : q = q.take k ++ dot :: q.drop (k + 1) := by
      conv_lhs => rw [← take_append_drop k q, drop_eq_getElem_cons hlt]
      rw [Nat.add_sub_cancel, byteAt, getD_eq_getElem?_getD,
        getElem?_eq_getElem hlt] at hdot
      rw [← hdot, Option.getD_some]
    have hq' : (q.take k ++ dot :: q.drop (k + 1)).length ≤ 255 := by rwa [← hsplit]
    rw [congrArg canonLabels hsplit, canonLabels_append_dot hq']
    exact prefix_append _ _

end SimpleDns.Wire
