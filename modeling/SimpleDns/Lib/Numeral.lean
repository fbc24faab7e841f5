import Mathlib.Data.Nat.Digits.Lemmas

/-!
# Numerals in octet strings

`numeral b n` is `n` written in base `b` (`%u`, `%x`), `scanNumeral b s` reads the digits at the
start of `s` (`strtoul`, `%u`, `%x`). `scanNumeral_numeral`: reading what was written gives the
number back and stops behind it.
-/

namespace SimpleDns.Lib

open List

/-- The octet of a digit, `0`-`9` then `a`-`f`. -/
def digitChar (d : Nat) : UInt8 := if d < 10 then (48 + d).toUInt8 else (87 + d).toUInt8

/-- The value of a digit octet below `b`, either case. -/
def digitVal (b : Nat) (c : UInt8) : Option Nat :=
  let d := if 48 ≤ c ∧ c ≤ 57 then c.toNat - 48
    else if 97 ≤ c ∧ c ≤ 102 then c.toNat - 87
    else if 65 ≤ c ∧ c ≤ 70 then c.toNat - 55
    else b
  if d < b then some d else none

/-- `n` in base `b`, without leading zeros. -/
def numeral (b n : Nat) : List UInt8 :=
  if n = 0 then [digitChar 0] else (Nat.digits b n).reverse.map digitChar

/-- The number at the start of `s`, after `acc`, and what follows it. -/
def scanNumeral (b : Nat) : Nat → List UInt8 → Nat × List UInt8
  | acc, [] => (acc, [])
  | acc, c :: cs =>
    match digitVal b c with
    | some d => scanNumeral b (acc * b + d) cs
    | none => (acc, c :: cs)

/-- `s` does not start with a digit. -/
def NoDigit (b : Nat) (s : List UInt8) : Prop := ∀ c ∈ s.head?, digitVal b c = none

/-! ## Reading back -/

theorem digitVal_digitChar {b d : Nat} (hb : b ≤ 16) (hd : d < b) :
    digitVal b (digitChar d) = some d := by
  have hval : ∀ d < 16, ∀ b ≤ 16, d < b → digitVal b (digitChar d) = some d := by decide
  exact hval d (by omega) b hb hd

theorem scanNumeral_map {b : Nat} (hb : b ≤ 16) {rest : List UInt8} (hrest : NoDigit b rest) :
    ∀ (ds : List Nat) (acc : Nat), (∀ d ∈ ds, d < b) →
      scanNumeral b acc (ds.map digitChar ++ rest) =
        (ds.foldl (fun a d => a * b + d) acc, rest)
  | [], acc, _ => by
    cases rest with
    | nil => rfl
    | cons c cs => simp [scanNumeral, hrest c rfl]
  | d :: ds, acc, hds => by
    have hd := digitVal_digitChar hb (hds d mem_cons_self)
    simp only [map_cons, cons_append, scanNumeral, hd, foldl_cons]
    exact scanNumeral_map hb hrest ds _ fun e he => hds e (mem_cons_of_mem _ he)

theorem foldl_reverse_digits (b n : Nat) :
    (Nat.digits b n).reverse.foldl (fun a d => a * b + d) 0 = n := by
  calc (Nat.digits b n).reverse.foldl (fun a d => a * b + d) 0
      = (Nat.digits b n).foldr (fun d a => a * b + d) 0 := foldl_reverse
    _ = (Nat.digits b n).foldr (fun d a => d + b * a) 0 := by
        congr 1
        funext d a
        rw [Nat.add_comm, Nat.mul_comm]
    _ = Nat.ofDigits b (Nat.digits b n) := (Nat.ofDigits_eq_foldr b _).symm
    _ = n := Nat.ofDigits_digits b n

/-- **A numeral reads back**, whatever follows it, if that is not a digit. -/
theorem scanNumeral_numeral {b : Nat} (h2 : 1 < b) (hb : b ≤ 16) (n : Nat) {rest : List UInt8}
    (hrest : NoDigit b rest) : scanNumeral b 0 (numeral b n ++ rest) = (n, rest) := by
  unfold numeral
  by_cases hn : n = 0
  · rw [if_pos hn]
    have := scanNumeral_map hb hrest [0] 0 (by simp; omega)
    simpa [hn] using this
  · rw [if_neg hn, scanNumeral_map hb hrest _ 0]
    · rw [foldl_reverse_digits]
    · intro d hd
      exact Nat.digits_lt_base h2 (mem_reverse.mp hd)

theorem numeral_ne_nil (b n : Nat) : numeral b n ≠ [] := by
  unfold numeral
  split
  · simp
  · simpa using Nat.digits_ne_nil_iff_ne_zero.mpr ‹_›

/-- Every octet of a numeral is a digit. -/
theorem digitVal_isSome_of_mem_numeral {b n : Nat} (h2 : 1 < b) (hb : b ≤ 16) {c : UInt8}
    (hc : c ∈ numeral b n) : ∃ d < b, digitVal b c = some d ∧ c = digitChar d := by
  unfold numeral at hc
  split at hc
  · rw [mem_singleton] at hc
    exact ⟨0, by omega, hc ▸ digitVal_digitChar hb (by omega), hc⟩
  · obtain ⟨d, hd, rfl⟩ := mem_map.mp hc
    have hlt := Nat.digits_lt_base h2 (mem_reverse.mp hd)
    exact ⟨d, hlt, digitVal_digitChar hb hlt, rfl⟩

/-- The digits of a numeral, most significant first. -/
theorem numeral_eq_map {b : Nat} (h2 : 1 < b) (n : Nat) :
    ∃ ds : List Nat, numeral b n = ds.map digitChar ∧ (∀ d ∈ ds, d < b) ∧ ds ≠ [] ∧
      ds.foldl (fun a d => a * b + d) 0 = n := by
  unfold numeral
  split
  · rename_i h
    exact ⟨[0], rfl, by simp; omega, by simp, by simp [h]⟩
  · rename_i h
    refine ⟨(Nat.digits b n).reverse, rfl, fun d hd => ?_, ?_, foldl_reverse_digits b n⟩
    · exact Nat.digits_lt_base h2 (mem_reverse.mp hd)
    · simpa using Nat.digits_ne_nil_iff_ne_zero.mpr h

theorem length_numeral_le {b n k : Nat} (h2 : 1 < b) (hk : 0 < k) (h : n < b ^ k) :
    (numeral b n).length ≤ k := by
  unfold numeral
  split
  · exact hk
  · rw [length_map, length_reverse]
    exact (Nat.digits_length_le_iff h2 n).mpr h

end SimpleDns.Lib
