import SimpleDns.Wire.Compress

/-!
# The canonical form of encoded names

What `name_to_wire` writes is read back by `canon_rdata` wherever it stands, and uncompressed names
are told apart by their octets.

* `nameWire_append_inj`: no wire form is the beginning of another one.
* `canonName_encoded`: an encoded name has a canonical form. A name of 128 labels uses up the steps
  of `name_from_wire`, which then stops in front of the root octet.
* **`canonRdata_soa`**: two encoded names and twenty octets have one even then.
-/

namespace SimpleDns.Wire

open List RRType

/-! ## Wire forms are told apart -/

/-- No wire form is the beginning of another one. -/
theorem nameWire_append_inj {k : Nat} (hk : k ≤ 255) {ls ls' : List Text} {t t' : Bytes}
    (h : ∀ l ∈ ls, l ≠ [] ∧ l.length ≤ k) (h' : ∀ l ∈ ls', l ≠ [] ∧ l.length ≤ k)
    (heq : nameWire ls ++ t = nameWire ls' ++ t') : ls = ls' ∧ t = t' := by
  have hoctet : ∀ l : Text, l ≠ [] ∧ l.length ≤ k → l.length.toUInt8.toNat = l.length :=
    fun l hl => Nat.mod_eq_of_lt (by have := hl.2; omega)
  have hzero : ∀ l : Text, l ≠ [] ∧ l.length ≤ k → l.length.toUInt8 ≠ 0 := fun l hl h0 =>
    hl.1 (length_eq_zero_iff.mp (by rw [← hoctet l hl, h0]; rfl))
  induction ls generalizing ls' with
  | nil =>
    cases ls' with
    | nil => exact ⟨rfl, by simpa [nameWire] using heq⟩
    | cons l' ls' =>
      rw [nameWire_cons, nameWire] at heq
      exact absurd (cons.inj heq).1.symm (hzero l' (h' l' mem_cons_self))
  | cons l ls ih =>
    have hl := h l mem_cons_self
    cases ls' with
    | nil =>
      rw [nameWire_cons, nameWire] at heq
      exact absurd (cons.inj heq).1 (hzero l hl)
    | cons l' ls' =>
      rw [nameWire_cons, nameWire_cons, append_assoc, append_assoc] at heq
      obtain ⟨hhead, hrest⟩ := cons.inj heq
      have hlen : l.length = l'.length := by
        rw [← hoctet l hl, ← hoctet l' (h' l' mem_cons_self), hhead]
      obtain ⟨rfl, htail⟩ := append_inj hrest hlen
      obtain ⟨rfl, rfl⟩ := ih (fun m hm => h m (mem_cons_of_mem _ hm))
        (fun m hm => h' m (mem_cons_of_mem _ hm)) htail
      exact ⟨rfl, rfl⟩

/-! ## The canonical form -/

/-- A label of the beginning of a text is the beginning of one of its labels. -/
theorem prefix_of_mem_labels {s t l : Text} (hst : s <+: t) (hl : l ∈ labels s) :
    ∃ m ∈ labels t, l <+: m := by
  obtain ⟨u, rfl⟩ := hst
  -- the part up to the first dot, and what is behind it
  induction hn : s.length using Nat.strong_induction_on generalizing s with
  | _ n ih =>
    by_cases hdot : dot ∈ s
    · obtain ⟨a, b, rfl⟩ := append_of_mem hdot
      rw [labels_append_dot, mem_append] at hl
      rw [append_assoc, cons_append, labels_append_dot]
      rcases hl with hl | hl
      · exact ⟨l, mem_append_left _ hl, prefix_refl l⟩
      · obtain ⟨m, hm, hpre⟩ := ih b.length (by simp at hn; omega) hl rfl
        exact ⟨m, mem_append_right _ hm, hpre⟩
    · have hone : ∀ {a : Text}, dot ∉ a → a ≠ [] → labels a = [a] := strtok_of_notMem
      have hne : s ≠ [] := by
        rintro rfl
        cases hl
      rw [hone hdot hne, mem_singleton] at hl
      subst hl
      by_cases hu : dot ∈ u
      · obtain ⟨a, b, hsplit, ha⟩ := eq_append_cons_of_mem hu
        rw [hsplit, ← append_assoc, labels_append_dot,
          hone (by simp [hdot, ha]) (by simp [hne])]
        exact ⟨l ++ a, mem_append_left _ (mem_singleton_self _), prefix_append _ _⟩
      · rw [hone (by simp [hdot, hu]) (by simp [hne])]
        exact ⟨l ++ u, mem_singleton_self _, prefix_append _ _⟩

/-- An encoded name is read as its labels. -/
theorem nameLoop_encoded {t : Text} {blen : Nat} {w : Bytes} (h : nameToWire t blen = some w)
    (pre post : Bytes) :
    ∃ a, nameLoop (pre ++ w ++ post) 256 128 pre.length [] none =
        some (joinDots (labels (safeStrcpy t 256)), a) ∧
      a ≤ pre.length + w.length ∧ pre.length + w.length ≤ a + 1 := by
  obtain ⟨hshort, rfl, -⟩ := wireLoop_eq_some_iff.mp h
  have htext : (safeStrcpy t 256).length ≤ 255 := length_take_le _ _
  generalize safeStrcpy t 256 = s at hshort htext
  have hproper := proper_labels s
  have hlabels := two_mul_length_labels s
  have hjoin := length_joinDots_labels s
  have hname := nameAt_nameWire (fun l hl => (hproper l hl).1) hshort pre post
  obtain ⟨a, hloop, hle, hge, -⟩ := nameLoop_of_nameAt hname none
    (show (labels s).length ≤ 128 by omega) (by rw [joinOnto_nil hproper]; omega)
  rw [joinOnto_nil hproper] at hloop
  exact ⟨a, hloop, hle, hge⟩

section

variable {t : Text} {blen : Nat} {w : Bytes} (h : nameToWire t blen = some w) (outsz : Nat)
  (hroom : 257 ≤ outsz)

include h hroom

/-- An encoded name has a canonical form. -/
theorem canonName_encoded (pre post : Bytes) :
    ∃ c a, canonName (pre ++ w ++ post) pre.length outsz = some (c, a) ∧ c.length ≤ 257 ∧
      a ≤ pre.length + w.length ∧ pre.length + w.length ≤ a + 1 := by
  obtain ⟨a, hloop, hle, hge⟩ := nameLoop_encoded h pre post
  obtain ⟨hshort, rfl, -⟩ := wireLoop_eq_some_iff.mp h
  have htext : (safeStrcpy t 256).length ≤ 255 := length_take_le _ _
  generalize safeStrcpy t 256 = s at hshort htext hloop hle hge
  have hproper := proper_labels s
  have hjoin := length_joinDots_labels s
  have hnm : (strlower (cstr (joinDots (labels s)))).length ≤ 255 := by
    rw [length_strlower]
    exact le_trans (List.takeWhile_prefix _).length_le (by omega)
  have hcut : ∀ l ∈ labels (cstr (joinDots (labels s))), l.length ≤ 63 := by
    intro l hl
    obtain ⟨m, hm, hpre⟩ := prefix_of_mem_labels (List.takeWhile_prefix _) hl
    rw [labels_joinDots hproper] at hm
    exact hpre.length_le.trans (hshort m hm)
  have hclen := length_nameWire_le (strlower (cstr (joinDots (labels s))))
  have hc : nameToWire _ outsz = some _ := (nameToWire_eq_some_iff hnm).mpr
    ⟨fun l hl => (short_labels_strlower hcut l hl).2, rfl, by omega⟩
  refine ⟨_, a, ?_, hclen.trans (Nat.add_le_add_right hnm 2), hle, hge⟩
  rw [canonName, nameFromWire, hloop, Option.map_some]
  dsimp only
  rw [hc]
  rfl

/-- A name behind `pre` octets of rdata. -/
theorem canonName_behind (pre : Bytes) :
    pre.length < (pre ++ w).length ∧
      ∃ c a, canonName (pre ++ w) pre.length outsz = some (c, a) := by
  obtain ⟨c, a, hc, -⟩ := canonName_encoded h outsz hroom pre []
  rw [append_nil] at hc
  refine ⟨?_, c, a, hc⟩
  obtain ⟨-, rfl, -⟩ := wireLoop_eq_some_iff.mp h
  simp [nameWire]

end

section Rdata

variable {t : Text} {blen outsz : Nat} {w : Bytes} (h : nameToWire t blen = some w)
  (hroom : 263 ≤ outsz)

include h hroom

theorem canonRdata_name {type : Nat}
    (htype : type = NS ∨ type = CNAME ∨ type = PTR ∨ type = DNAME) :
    (canonRdata w 0 w.length type outsz).isSome = true := by
  obtain ⟨-, c, a, hc⟩ := canonName_behind h outsz (by omega) []
  rw [nil_append, length_nil] at hc
  rw [canonRdata, if_neg (by omega), if_pos htype, hc]
  rfl

theorem canonRdata_behind {pre : Bytes} {type : Nat}
    (hpre : type = MX ∧ pre.length = 2 ∨ type = SRV ∧ pre.length = 6) :
    (canonRdata (pre ++ w) 0 (pre ++ w).length type outsz).isSome = true := by
  obtain ⟨hlen, c, a, hc⟩ := canonName_behind h (outsz - pre.length) (by omega) pre
  obtain ⟨rfl, hpre⟩ | ⟨rfl, hpre⟩ := hpre
  · rw [hpre] at hlen hc
    rw [canonRdata, if_neg (by omega), if_neg (by decide), if_pos rfl, canonBehind,
      if_neg (by omega), Nat.zero_add, hc]
    rfl
  · rw [hpre] at hlen hc
    rw [canonRdata, if_neg (by omega), if_neg (by decide), if_neg (by decide), if_pos rfl,
      canonBehind, if_neg (by omega), Nat.zero_add, hc]
    rfl

end Rdata

/-- **An SOA has a canonical form**, also if the first name takes all steps of the reader: the
second one is then read from its root octet. -/
theorem canonRdata_soa {m r : Text} {b b' outsz : Nat} {wm wr tail : Bytes}
    (hm : nameToWire m b = some wm) (hr : nameToWire r b' = some wr) (htail : tail.length = 20)
    (hroom : 534 ≤ outsz) :
    (canonRdata (wm ++ wr ++ tail) 0 (wm ++ wr ++ tail).length SOA outsz).isSome = true := by
  obtain ⟨c, a, hc, hclen, hle, hge⟩ := canonName_encoded hm outsz (by omega) []
    (wr ++ tail)
  rw [nil_append, ← append_assoc, length_nil] at hc
  rw [length_nil, Nat.zero_add] at hle hge
  have hsecond : ∃ c' a', canonName (wm ++ wr ++ tail) a (outsz - c.length) = some (c', a') ∧
      c'.length ≤ 257 ∧ a' ≤ wm.length + wr.length := by
    rcases Nat.lt_or_ge a wm.length with hlt | hfull
    · -- the reader stopped in front of the root octet
      obtain ⟨-, hwm, -⟩ := wireLoop_eq_some_iff.mp hm
      obtain ⟨front, hfront⟩ : ∃ f, wm = f ++ [0] := ⟨_, hwm⟩
      have ha : a = front.length := by
        rw [hfront, length_append, length_singleton] at hlt hge
        omega
      obtain ⟨c', a', hc', hclen', hle', -⟩ := canonName_encoded
        (rfl : nameToWire [] 1 = some [0]) (outsz - c.length) (by omega) front (wr ++ tail)
      refine ⟨c', a', ?_, hclen', ?_⟩
      · rw [hfront, ha, append_assoc (front ++ [0])]
        exact hc'
      · rw [hfront, length_append]
        omega
    · obtain ⟨c', a', hc', hclen', hle', -⟩ := canonName_encoded hr (outsz - c.length)
        (by omega) wm tail
      obtain rfl : a = wm.length := by omega
      exact ⟨c', a', hc', hclen', hle'⟩
  obtain ⟨c', a', hc', hclen', hle'⟩ := hsecond
  rw [canonRdata, if_neg (by omega), if_neg (by decide), if_neg (by decide), if_neg (by decide),
    if_pos rfl, canonSoa, hc]
  dsimp only
  rw [hc']
  dsimp only
  rw [if_neg]
  · rfl
  · simp only [length_append]
    omega

/-- All other rdata is copied if it fits. -/
theorem canonRdata_other {rd : Bytes} {type outsz : Nat}
    (h : type ∉ [NS, CNAME, PTR, DNAME, MX, SRV,
      SOA]) :
    canonRdata rd 0 rd.length type outsz = if rd.length ≤ outsz then some rd else none := by
  simp only [mem_cons, not_mem_nil, or_false, not_or] at h
  obtain ⟨h₁, h₂, h₃, h₄, h₅, h₆, h₇⟩ := h
  rw [canonRdata, if_neg (by omega), if_neg (by simp [h₁, h₂, h₃, h₄]), if_neg h₅, if_neg h₆,
    if_neg h₇]
  split
  · rw [if_neg (by omega)]
  · rw [if_pos (by omega)]
    simp [slice]

end SimpleDns.Wire
