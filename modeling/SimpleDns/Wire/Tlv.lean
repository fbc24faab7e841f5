import SimpleDns.Wire.Codec
import SimpleDns.Wire.Compress

/-!
# Tagged values and their hexadecimal text (`tlv_*`, `dns_wire.c:538-602`)

A blob is a version octet and a list of items: tag, 16-bit length, value. It is stored as
hexadecimal text.

* `tlvBuild`: the items written one after the other, `none` where one does not fit.
* `tlvRead`: the items up to the first truncated one, and whether there was none.
* `tlvRead_tlvBuild`: what is written is read; `hexDec_hexEnc` for the text.
* **`tlv_bijection`**: and what is read to the clean end is what the items are written as.
-/

namespace SimpleDns.Wire

open Lib List Option

/-! ## Items -/

/-- A tag and its value. -/
abbrev Item := UInt8 × Bytes

/-- `tlv_put` behind the octets written so far. -/
def tlvPut (cap : Nat) (buf : Bytes) (i : Item) : Option Bytes :=
  if i.2.length > 0xFFFF ∨ buf.length + 3 + i.2.length > cap then none
  else some (buf ++ i.1 :: (put16 i.2.length ++ i.2))

/-- `tlv_begin` with version 1, then one `tlv_put` for each item. -/
def tlvBuild (cap : Nat) (items : List Item) : Option Bytes := items.foldlM (tlvPut cap) [1]

/-- `tlv_next` until it does not return 1: the items, and whether it returned 0. -/
def tlvScan : Nat → Bytes → List Item × Bool
  | _, [] => ([], true)
  | fuel + 1, tag :: a :: b :: rest =>
    let l := get16 [a, b] 0
    if rest.length < l then ([], false)
    else
      let (items, done) := tlvScan fuel (rest.drop l)
      ((tag, rest.take l) :: items, done)
  | _, _ => ([], false)

/-- The items behind the version octet. -/
def tlvRead : Bytes → List Item × Bool
  | [] => ([], false)
  | _ :: rest => tlvScan rest.length rest

/-- The values under a tag, in their order. -/
def valuesOf (tag : UInt8) (items : List Item) : List Bytes :=
  items.filterMap fun i => if i.1 = tag then some i.2 else none

/-- `tlv_u32_of`. -/
def tlvU32Of (v : Bytes) : UInt32 := if v.length = 4 then UInt32.ofNat (get32 v 0) else 0

/-- The octets of one item. -/
def Item.octets (i : Item) : Bytes := i.1 :: (put16 i.2.length ++ i.2)

variable {cap : Nat} {items : List Item} {out : Bytes}

/-- What the writers leave, and when they all succeed. -/
theorem foldlM_tlvPut_eq_some_iff {buf : Bytes} (hbuf : buf.length ≤ cap) :
    items.foldlM (tlvPut cap) buf = some out ↔ out = buf ++ items.flatMap Item.octets ∧
      (∀ i ∈ items, i.2.length ≤ 0xFFFF) ∧ out.length ≤ cap := by
  induction items generalizing buf with
  | nil =>
    rw [foldlM_nil, flatMap_nil, append_nil]
    constructor
    · intro h
      cases h
      exact ⟨rfl, nofun, hbuf⟩
    · rintro ⟨rfl, -⟩
      rfl
  | cons i items ih =>
    rw [foldlM_cons]
    by_cases hfits : i.2.length ≤ 0xFFFF ∧ buf.length + 3 + i.2.length ≤ cap
    · have hput : tlvPut cap buf i = some (buf ++ i.octets) := if_neg (by omega)
      have hlen : (buf ++ i.octets).length ≤ cap := by
        simp only [Item.octets, length_append, length_cons, length_put16]
        omega
      rw [hput, bind_eq_bind, bind_some, ih hlen, flatMap_cons, append_assoc, forall_mem_cons,
        and_iff_right hfits.1]
    · have hput : tlvPut cap buf i = none := if_pos (by omega)
      rw [hput]
      refine iff_of_false nofun ?_
      rintro ⟨rfl, hall, hlen⟩
      simp only [flatMap_cons, Item.octets, length_append, length_cons, length_put16] at hlen
      exact hfits ⟨hall i mem_cons_self, by omega⟩

theorem length_tlvBuild (h : tlvBuild cap items = some out) (hcap : 1 ≤ cap) : out.length ≤ cap :=
  ((foldlM_tlvPut_eq_some_iff hcap).mp h).2.2

theorem tlvScan_octets (h : ∀ i ∈ items, i.2.length ≤ 0xFFFF) {fuel : Nat}
    (hfuel : items.length ≤ fuel) : tlvScan fuel (items.flatMap Item.octets) = (items, true) := by
  induction items generalizing fuel with
  | nil => cases fuel <;> rfl
  | cons i items ih =>
    obtain ⟨fuel, rfl⟩ : ∃ k, fuel = k + 1 := ⟨fuel - 1, by simp at hfuel; omega⟩
    have hlen := h i mem_cons_self
    have hget : get16 (put16 i.2.length) 0 = i.2.length := by
      have := get16_put16 (v := i.2.length) (by omega) [] []
      rwa [append_nil] at this
    have hrest := ih (fun j hj => h j (mem_cons_of_mem _ hj)) (Nat.le_of_succ_le_succ hfuel)
    rw [flatMap_cons]
    simp only [Item.octets, put16, cons_append, nil_append, tlvScan] at hget ⊢
    rw [hget, if_neg (by simp), drop_left' rfl, take_left' rfl, hrest]

theorem length_le_octets (items : List Item) :
    items.length ≤ (items.flatMap Item.octets).length := by
  induction items with
  | nil => exact le_refl 0
  | cons i items ih =>
    simp only [flatMap_cons, length_append, Item.octets, length_cons] at ih ⊢
    omega

/-- What is written is read. -/
theorem tlvRead_tlvBuild (hcap : 1 ≤ cap) (h : tlvBuild cap items = some out) :
    tlvRead out = (items, true) := by
  obtain ⟨rfl, hall, -⟩ := (foldlM_tlvPut_eq_some_iff hcap).mp h
  exact tlvScan_octets hall (length_le_octets items)

/-- A scan to the clean end has met the octets of its items and nothing else. -/
theorem octets_of_tlvScan {fuel : Nat} {b : Bytes} (h : tlvScan fuel b = (items, true)) :
    b = items.flatMap Item.octets ∧ ∀ i ∈ items, i.2.length ≤ 0xFFFF := by
  fun_induction tlvScan fuel b generalizing items with
  | case1 =>
    cases h
    exact ⟨rfl, nofun⟩
  | case2 => cases h
  | case3 fuel tag a b rest l hlen rest' done hscan =>
    rename_i ih
    obtain ⟨rfl, rfl⟩ := Prod.mk.inj h
    obtain ⟨hrest, hall⟩ := ih hscan
    have hl : l ≤ 0xFFFF := Nat.le_of_lt_succ (get16_lt [a, b] 0)
    have htake : (rest.take l).length = l := length_take_of_le (by omega)
    have hput : put16 l = [a, b] := put16_get16 [a, b] 0
    refine ⟨?_, forall_mem_cons.mpr ⟨htake.trans_le hl, hall⟩⟩
    rw [flatMap_cons, Item.octets, ← hrest, htake, hput]
    simp
  | case4 => cases h

/-- `tlv_begin`, then one `tlv_put` for each item. -/
def tlvWrite (cap : Nat) (version : UInt8) (items : List Item) : Option Bytes :=
  if cap < 1 then none else items.foldlM (tlvPut cap) [version]

/-- **The codec is a bijection**: what fits is written, and what is written is read to the clean
end; what is read to the clean end is what the items are written as. -/
theorem tlv_bijection :
    (∀ cap version items, (∀ i ∈ items, i.2.length ≤ 0xFFFF) →
      1 + (items.flatMap Item.octets).length ≤ cap →
        ∃ out, tlvWrite cap version items = some out ∧ tlvRead out = (items, true)) ∧
    ∀ buf items, tlvRead buf = (items, true) →
      ∃ version, tlvWrite buf.length version items = some buf := by
  refine ⟨fun cap version items hall hfits => ?_, fun buf items h => ?_⟩
  · have hcap : [version].length ≤ cap := (Nat.le_add_right _ _).trans hfits
    refine ⟨version :: items.flatMap Item.octets, (if_neg (not_lt.mpr hcap)).trans ?_,
      tlvScan_octets hall (length_le_octets items)⟩
    exact (foldlM_tlvPut_eq_some_iff hcap).mpr ⟨rfl, hall, by rwa [length_cons, Nat.add_comm]⟩
  · cases buf with
    | nil => cases h
    | cons version rest =>
      obtain ⟨rfl, hall⟩ := octets_of_tlvScan h
      refine ⟨version, (if_neg (by simp)).trans ?_⟩
      exact (foldlM_tlvPut_eq_some_iff (by simp)).mpr ⟨rfl, hall, le_refl _⟩

/-- An empty value and one of an octet, there and back. -/
theorem tlv_bijection_twoItems :
    (∃ out, tlvWrite 9 1 [(1, []), (2, [7])] = some out ∧ tlvRead out = ([(1, []), (2, [7])], true))
      ∧ ∃ version, tlvWrite 8 version [(1, []), (2, [7])] = some [1, 1, 0, 0, 2, 0, 1, 7] :=
  ⟨tlv_bijection.1 9 1 _ (by decide) (by decide),
    tlv_bijection.2 [1, 1, 0, 0, 2, 0, 1, 7] [(1, []), (2, [7])] (by decide +kernel)⟩

/-! ## Values -/

@[simp] theorem valuesOf_nil (tag : UInt8) : valuesOf tag [] = [] := rfl

@[simp] theorem valuesOf_append (tag : UInt8) (a b : List Item) :
    valuesOf tag (a ++ b) = valuesOf tag a ++ valuesOf tag b :=
  filterMap_append

@[simp] theorem valuesOf_cons (tag : UInt8) (i : Item) (items : List Item) :
    valuesOf tag (i :: items) =
      if i.1 = tag then i.2 :: valuesOf tag items else valuesOf tag items := by
  simp only [valuesOf, filterMap_cons]
  split <;> simp_all

/-- The values of a repeated item. -/
theorem valuesOf_map {α : Type} (tag t : UInt8) (f : α → Bytes) (l : List α) :
    valuesOf tag (l.map fun x => (t, f x)) = if t = tag then l.map f else [] := by
  induction l with
  | nil => simp
  | cons x l ih =>
    rw [map_cons, valuesOf_cons, ih]
    split <;> simp_all

theorem tlvU32Of_put32 (v : UInt32) : tlvU32Of (put32 v.toNat) = v := by
  have hget : get32 (put32 v.toNat) 0 = v.toNat := by
    have := get32_put32 v.toNat_lt [] []
    rwa [append_nil] at this
  rw [tlvU32Of, if_pos (length_put32 _), hget, UInt32.ofNat_toNat]

/-! ## Hexadecimal text -/

theorem hexDec_hexEnc {maxlen : Nat} {b : Bytes} (h : b.length ≤ maxlen) :
    hexDec maxlen (hexEnc b) = b := by
  have hbyte : ∀ c, ((strtol 16 (hexByte c)) % 256).toNat.toUInt8 = c := by decide +kernel
  induction b generalizing maxlen with
  | nil => cases maxlen <;> rfl
  | cons c b ih =>
    obtain ⟨n, rfl⟩ : ∃ n, maxlen = n + 1 := ⟨maxlen - 1, by simp at h; omega⟩
    have hrest := ih (Nat.le_of_succ_le_succ h)
    change ((strtol 16 (hexByte c)) % 256).toNat.toUInt8 :: hexDec n (hexEnc b) = c :: b
    rw [hbyte, hrest]

theorem length_hexEnc (b : Bytes) : (hexEnc b).length = 2 * b.length := by
  induction b with
  | nil => rfl
  | cons c b ih =>
    rw [hexEnc, flatMap_cons, length_append, ← hexEnc, ih, length_cons]
    simp only [hexByte, length_cons, length_nil]
    omega

end SimpleDns.Wire
