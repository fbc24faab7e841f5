import Mathlib.Data.List.TakeWhile
import Mathlib.Tactic.Ring

/-!
# Octets, C strings and the fixed-width accessors of `dns_wire.c`

A packet is a `List UInt8`; `pkt[i]` is `byteAt pkt i`, which is `0` past the end (every modelled
read is behind the bound check the C code makes, so the default is never observed). A C string is
its octets before the terminator.

* `strlower`, `safeStrcpy` (`dns_wire.c:31-42`), `strcasecmp` and the `strtok_r(_, ".", _)` loop
  (`labels`), which skips empty tokens.
* `put16`, `put32`, `get16`, `get32` (`dns_wire.c:298-318`), as the octets written and the number
  read.
* `serialLt`, `serialGe` (`dns_wire.c:1130-1136`).
-/

namespace SimpleDns.Wire

instance decidableSomeAnd {α : Type} {o : Option α} {P : α → Prop} [DecidablePred P] :
    Decidable (∃ a, o = some a ∧ P a) :=
  inferInstanceAs (Decidable (∃ a ∈ o, P a))

instance decidableSome {α : Type} {o : Option α} : Decidable (∃ a, o = some a) :=
  decidable_of_iff _ Option.isSome_iff_exists

/-- What holds of every octet is found out by trying them. -/
instance (priority := low) decidableOctets {P : UInt8 → Prop} [DecidablePred P] :
    Decidable (∀ c, P c) :=
  decidable_of_iff (∀ n < 256, P n.toUInt8)
    ⟨fun h c => by simpa using h c.toNat c.toNat_lt, fun h _ _ => h _⟩

/-- The octets of a packet, a buffer or an rdata. -/
abbrev Bytes := List UInt8

/-- The octets of a C string, without its terminator. -/
abbrev Text := List UInt8

/-- A string literal of the source. -/
def lit (s : String) : Text := s.toList.map fun c => c.toNat.toUInt8

/-- `b[o]`. -/
def byteAt (b : Bytes) (o : Nat) : UInt8 := b.getD o 0

/-- `memcpy(_, b + o, n)`: the `n` octets at `o`. -/
def slice (b : Bytes) (o n : Nat) : Bytes := (b.drop o).take n

/-! ## C strings -/

/-- The octet `'.'`. -/
def dot : UInt8 := 46

/-- What a C string function sees of a buffer: the octets before the first `'\0'`. -/
def cstr (b : Bytes) : Text := b.takeWhile fun c => c ≠ 0

/-- One octet of `strlower`: `'A'..'Z'` moves up by 32. -/
def lowerByte (c : UInt8) : UInt8 := if 65 ≤ c ∧ c ≤ 90 then c + 32 else c

/-- `strlower`. -/
def strlower (s : Text) : Text := s.map lowerByte

/-- `safe_strcpy(dst, src, dstsz)`: what `dst` holds afterwards. -/
def safeStrcpy (src : Text) (dstsz : Nat) : Text := src.take (dstsz - 1)

/-- `strcasecmp(a, b) == 0`. -/
def eqCI (a b : Text) : Bool := strlower a == strlower b

/-- The tokens of `strtok_r(s, sep, _)`: maximal runs without `sep`. -/
def strtok (sep : UInt8) (s : Text) : List Text := (s.splitOn sep).filter fun l => !l.isEmpty

/-- The labels of a dotted name, as every `strtok_r(_, ".", _)` loop of the source sees them. -/
def labels (s : Text) : List Text := strtok dot s

/-- Labels joined by dots. -/
def joinDots (ls : List Text) : Text := [dot].intercalate ls

/-! ## Fixed-width fields -/

/-- `put16`: the two octets written. -/
def put16 (v : Nat) : Bytes := [(v / 256).toUInt8, v.toUInt8]

/-- `put32`: the four octets written. -/
def put32 (v : Nat) : Bytes :=
  [(v / 16777216).toUInt8, (v / 65536).toUInt8, (v / 256).toUInt8, v.toUInt8]

/-- `get16`. -/
def get16 (b : Bytes) (o : Nat) : Nat := (byteAt b o).toNat * 256 + (byteAt b (o + 1)).toNat

/-- `get32`. -/
def get32 (b : Bytes) (o : Nat) : Nat :=
  (byteAt b o).toNat * 16777216 + (byteAt b (o + 1)).toNat * 65536 +
    (byteAt b (o + 2)).toNat * 256 + (byteAt b (o + 3)).toNat

/-- `(c & 0xC0) == 0xC0`: the length octet is a compression pointer. -/
def isPointer (c : UInt8) : Bool := c &&& 0xC0 == 0xC0

/-! ## RFC 1982 serial numbers -/

/-- `serial_lt` on `uint32_t`: `a != b` and the sign bit of `b - a` clear. -/
def serialLt (a b : Nat) : Bool := a ≠ b ∧ (b + 2 ^ 32 - a) % 2 ^ 32 < 2 ^ 31

/-- `serial_ge`. -/
def serialGe (a b : Nat) : Bool := !serialLt a b

/-! ## Small facts -/

theorem lowerByte_lowerByte : ∀ c, lowerByte (lowerByte c) = lowerByte c := by decide +kernel

theorem lowerByte_eq_dot {c : UInt8} : lowerByte c = dot ↔ c = dot := by
  revert c
  decide +kernel

theorem lowerByte_eq_zero {c : UInt8} : lowerByte c = 0 ↔ c = 0 := by
  revert c
  decide +kernel

@[simp] theorem strlower_strlower (s : Text) : strlower (strlower s) = strlower s := by
  simp [strlower, Function.comp_def, lowerByte_lowerByte]

@[simp] theorem length_strlower (s : Text) : (strlower s).length = s.length := List.length_map _

@[simp] theorem length_put16 (v : Nat) : (put16 v).length = 2 := rfl

@[simp] theorem length_put32 (v : Nat) : (put32 v).length = 4 := rfl

section

variable {α : Type} {sep x : α}

theorem intercalate_eq_flatMap (sep : α) (t : List α) (ts : List (List α)) :
    [sep].intercalate (t :: ts) = t ++ ts.flatMap fun v => sep :: v := by
  induction ts generalizing t with
  | nil => simp
  | cons v vs ih =>
    rw [List.intercalate_cons_cons, ih]
    simp

theorem mem_intercalate_singleton {ls : List (List α)} (h : x ∈ [sep].intercalate ls) :
    x = sep ∨ ∃ l ∈ ls, x ∈ l := by
  cases ls with
  | nil => simp at h
  | cons l ls =>
    rw [intercalate_eq_flatMap, List.mem_append, List.mem_flatMap] at h
    obtain h | ⟨m, hm, hx⟩ := h
    · exact .inr ⟨l, List.mem_cons_self, h⟩
    · exact (List.mem_cons.mp hx).imp_right fun hx => ⟨m, List.mem_cons_of_mem _ hm, hx⟩

variable [DecidableEq α] {t : List α} (h : x ∉ t)

include h

theorem takeWhile_ne_self : t.takeWhile (· ≠ x) = t :=
  List.takeWhile_eq_self_iff.mpr fun _ hc => decide_eq_true fun heq => h (heq ▸ hc)

/-- A text up to a mark that is not in it. -/
theorem takeWhile_ne_append (q : List α) : (t ++ x :: q).takeWhile (· ≠ x) = t ∧
    (t ++ x :: q).dropWhile (· ≠ x) = x :: q := by
  have hall : ∀ c ∈ t, decide (c ≠ x) = true := fun c hc => decide_eq_true fun heq => h (heq ▸ hc)
  rw [List.takeWhile_append_of_pos hall, List.dropWhile_append_of_pos hall]
  simp

end

theorem append_slice (b : Bytes) (o n : Nat) :
    b.take o ++ slice b o n ++ b.drop (o + n) = b := by
  rw [slice, ← List.drop_drop, List.append_assoc, List.take_append_drop, List.take_append_drop]

theorem length_slice_le (b : Bytes) (o n : Nat) : (slice b o n).length ≤ n := by
  simp only [slice, List.length_take]
  omega

theorem get16_lt (b : Bytes) (o : Nat) : get16 b o < 65536 := by
  have h1 := (byteAt b o).toNat_lt
  have h2 := (byteAt b (o + 1)).toNat_lt
  unfold get16
  omega

theorem put16_get16 (b : Bytes) (o : Nat) : put16 (get16 b o) = [byteAt b o, byteAt b (o + 1)] := by
  have h2 := (byteAt b (o + 1)).toNat_lt
  have hdiv : get16 b o / 256 = (byteAt b o).toNat := by
    unfold get16
    omega
  have hmod : (get16 b o).toUInt8 = byteAt b (o + 1) := by
    unfold get16
    apply UInt8.toNat_inj.mp
    simp
  simp [put16, hdiv, hmod]

theorem get32_lt (b : Bytes) (o : Nat) : get32 b o < 2 ^ 32 := by
  have h0 := (byteAt b o).toNat_lt
  have h1 := (byteAt b (o + 1)).toNat_lt
  have h2 := (byteAt b (o + 2)).toNat_lt
  have h3 := (byteAt b (o + 3)).toNat_lt
  unfold get32
  omega

theorem eqCI_iff {a b : Text} : eqCI a b = true ↔ strlower a = strlower b := by
  simp [eqCI]

@[simp] theorem eqCI_refl (a : Text) : eqCI a a = true := eqCI_iff.mpr rfl

end SimpleDns.Wire
