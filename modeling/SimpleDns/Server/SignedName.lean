import SimpleDns.Server.Sign
import SimpleDns.Wire.Decoder
import SimpleDns.Wire.Encoded

/-!
# The name buffers of `make_rrsig` (`dns_server.c:3245-3307`)

`make_rrsig` writes the signer into `hdr[512]` with a check before each label, and the owner into
`own_w[256]` without one.

* **`signing_inside_iff`**: for a decoded owner the writes are inside and the octets signed are
  those of its name exactly when it has 254 characters at most and no label holds a dot or an
  octet 0.
* **`longest_name_overruns`**: a name of 255 characters writes behind `own_w`.
-/

namespace SimpleDns.Server

open Wire List

/-- The indices of `own_w` that the owner loop writes, with `ow` octets written. -/
def ownerWrites : List Text → Nat → List Nat
  | [], ow => [ow]
  | l :: ls, ow => range' ow (l.length + 1) ++ ownerWrites ls (ow + 1 + l.length)

/-- The indices of `hdr` that the signer loop writes. -/
def signerWrites : List Text → Nat → List Nat
  | [], hp => [hp]
  | l :: ls, hp =>
    if hp + l.length + 2 > 512 then []
    else range' hp (l.length + 1) ++ signerWrites ls (hp + 1 + l.length)

/-- The labels of a name copied and lowered, as `rrsigHeader` and `canonicalRR` take them. -/
def loweredLabels (name : Text) : List Text := labels (strlower (safeStrcpy name 256))

theorem mem_ownerWrites {ls : List Text} {ow i : Nat} :
    i ∈ ownerWrites ls ow ↔ ow ≤ i ∧ i < ow + (nameWire ls).length := by
  induction ls generalizing ow with
  | nil =>
    simp only [ownerWrites, mem_singleton, nameWire, flatMap_nil, nil_append, length_singleton]
    omega
  | cons l ls ih =>
    rw [ownerWrites, mem_append, mem_range'_1, ih, length_nameWire_cons]
    have := length_lt_nameWire ls
    omega

theorem lt_of_mem_signerWrites {ls : List Text} {hp i : Nat} (hhp : hp ≤ 511)
    (h : i ∈ signerWrites ls hp) : i < 512 := by
  induction ls generalizing hp with
  | nil =>
    obtain rfl := mem_singleton.mp h
    omega
  | cons l ls ih =>
    unfold signerWrites at h
    split_ifs at h with hfull
    · cases h
    · obtain h | h := mem_append.mp h
      · rw [mem_range'_1] at h
        omega
      · exact ih (by omega) h

theorem length_lt_nameWire_of_mem {ls : List Text} {l : Text} (h : l ∈ ls) :
    l.length < (nameWire ls).length := by
  induction ls with
  | nil => cases h
  | cons m ls ih =>
    rw [length_nameWire_cons]
    obtain rfl | h := mem_cons.mp h
    · omega
    · have := ih h
      omega

variable {pkt : Bytes} {off n p e : Nat} {ls : List Text} {j : Option Nat} {t : Text}

/-- **Signing a decoded name.** -/
theorem signing_inside_iff (h : nameFromWire pkt off 256 = some (t, e))
    (hread : Reading pkt off n ls p j) (signer : Text) :
    ((∀ i ∈ ownerWrites (loweredLabels t) 0, i < 256) ∧
        (∀ i ∈ range 18 ++ signerWrites (loweredLabels signer) 18, i < 512) ∧
        nameWire (loweredLabels t) = nameWire (ls.map strlower)) ↔
      (joinDots ls).length ≤ 254 ∧ ∀ l ∈ ls, dot ∉ l ∧ 0 ∉ l := by
  have hheader : ∀ i ∈ range 18 ++ signerWrites (loweredLabels signer) 18, i < 512 := by
    intro i hi
    obtain hi | hi := mem_append.mp hi
    · exact (mem_range.mp hi).trans (by decide)
    · exact lt_of_mem_signerWrites (by decide) hi
  have hwrites : (∀ i ∈ ownerWrites (loweredLabels t) 0, i < 256) ↔
      (nameWire (loweredLabels t)).length ≤ 256 := by
    have hpos := length_lt_nameWire (loweredLabels t)
    constructor
    · intro hall
      by_contra hgt
      exact absurd (hall 256 (mem_ownerWrites.mpr (by omega))) (by decide)
    · intro hle i hi
      have := mem_ownerWrites.mp hi
      omega
  rw [hread.nameFromWire_eq] at h
  obtain ⟨rfl, -⟩ := Prod.mk.inj (Option.some.inj h)
  -- What is signed are the labels of the text, cut at an octet 0.
  have hlabels : loweredLabels (strlower (cstr (joinDots ls))) =
      (labels (cstr (joinDots ls))).map strlower := by
    have hle : (strlower (cstr (joinDots ls))).length ≤ 255 := by
      rw [length_strlower]
      exact ((takeWhile_sublist _).length_le).trans hread.fits
    rw [loweredLabels, safeStrcpy_eq hle, strlower_strlower, labels_strlower]
  rw [hwrites, hlabels, length_nameWire_strlower]
  constructor
  · rintro ⟨hle, -, hwire⟩
    have hlen := congrArg length hwire
    rw [length_nameWire_strlower, length_nameWire_strlower] at hlen
    have hshort : ∀ ms : List Text, (∀ l ∈ ms, l ≠ []) → (nameWire ms).length ≤ 256 →
        ∀ l ∈ ms.map strlower, l ≠ [] ∧ l.length ≤ 255 := by
      intro ms hne hms l hl
      obtain ⟨m, hm, rfl⟩ := mem_map.mp hl
      have := length_lt_nameWire_of_mem hm
      rw [length_strlower]
      exact ⟨by simpa [strlower] using hne m hm, by omega⟩
    have heq := (nameWire_append_inj le_rfl
      (hshort _ (fun l => ne_nil_of_mem_labels) hle) (hshort ls hread.walk.ne_nil (by omega))
      (congrArg (· ++ []) hwire)).1
    refine ⟨by rw [length_joinDots]; omega, fun l hl => ⟨?_, ?_⟩⟩
    · exact notMem_of_map_strlower (fun _ => lowerByte_eq_dot) heq.symm
        (fun m hm => (proper_labels _ m hm).2) l hl
    · exact notMem_of_map_strlower (fun _ => lowerByte_eq_zero) heq.symm
        (fun m hm h0 => notMem_cstr _ (mem_of_mem_labels hm h0)) l hl
  · rintro ⟨hlen, hclean⟩
    have hnul : 0 ∉ joinDots ls := notMem_joinDots (by decide) fun l hl => (hclean l hl).2
    have hsame : labels (cstr (joinDots ls)) = ls := by
      rw [cstr_eq_self hnul]
      exact labels_joinDots fun l hl => ⟨hread.walk.ne_nil l hl, (hclean l hl).1⟩
    rw [length_joinDots] at hlen
    rw [hsame]
    exact ⟨by omega, hheader, rfl⟩

/-- Four labels, the last of `n` octets. -/
def fourLabels (n : Nat) : List Text := replicate 3 (replicate 63 97) ++ [replicate n 97]

/-- A name of 254 characters fills the owner buffer. -/
theorem signing_inside_full :
    nameFromWire (nameWire (fourLabels 62)) 0 256 = some (joinDots (fourLabels 62), 256) ∧
      (∀ i ∈ ownerWrites (loweredLabels (joinDots (fourLabels 62))) 0, i < 256) ∧
      (nameWire (loweredLabels (joinDots (fourLabels 62)))).length = 256 := by
  have hname := nameAt_nameWire (by decide : ∀ l ∈ fourLabels 62, l ≠ []) (by decide) [] []
  rw [nil_append, append_nil] at hname
  obtain ⟨p, j, hwalk, hend, -⟩ := hname.reading
  have hdec : nameFromWire (nameWire (fourLabels 62)) 0 256 =
      some (joinDots (fourLabels 62), 256) := by decide +kernel
  obtain ⟨hin, -, hwire⟩ := (signing_inside_iff hdec
    ⟨hwalk, by decide +kernel, .inr ⟨by decide, hend⟩⟩ []).mpr (by decide +kernel)
  exact ⟨hdec, hin, by rw [hwire]; decide +kernel⟩

/-- **The longest name that is decoded overruns the owner buffer.** -/
theorem longest_name_overruns :
    ∃ t e, nameFromWire (nameWire (fourLabels 63)) 0 256 = some (t, e) ∧
      256 ∈ ownerWrites (loweredLabels t) 0 := by
  have h : ∃ r ∈ nameFromWire (nameWire (fourLabels 63)) 0 256,
      256 ∈ ownerWrites (loweredLabels r.1) 0 := by decide +kernel
  obtain ⟨⟨t, e⟩, hread, hmem⟩ := h
  exact ⟨t, e, hread, hmem⟩

end SimpleDns.Server
