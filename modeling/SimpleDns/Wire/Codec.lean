import SimpleDns.Wire.Addr

/-!
# Number and octet decoders, and the OpenSSL primitives

The decoders of `dns_wire.c` (`hex_enc`, `hex_dec`, `b64std_dec`) with the libc conversions they and
the daemons use, and the primitives taken from OpenSSL. Nothing is assumed about the primitives.
-/

namespace SimpleDns.Wire

open Lib List

/-! ## OpenSSL -/

/-- The OpenSSL primitives: SHA-1, SHA-256, the two signature checks of `libdnswire`
(`verify_ecdsa_p256`, `verify_ed25519`) over signature, data and public key, and HMAC over digest
name, secret and data. -/
structure Crypto where
  sha1 : Bytes → Bytes
  sha256 : Bytes → Bytes
  verifyEcdsaP256 : Bytes → Bytes → Bytes → Bool
  verifyEd25519 : Bytes → Bytes → Bytes → Bool
  hmac : Text → Bytes → Bytes → Bytes

/-- Padded or cut to `n` octets. -/
def padTo (n : Nat) (b : Bytes) : Bytes := (b ++ replicate n 0).take n

/-- Primitives that can be evaluated on a concrete packet: a digest is the first 32 octets, and a
signature over `data` verifies when it is the first 64 octets of `data` (so signing and verifying
agree, whatever the key). -/
def Crypto.sample : Crypto where
  sha1 := padTo 20
  sha256 := padTo 32
  verifyEcdsaP256 sig data _ := sig == padTo 64 data
  verifyEd25519 sig data _ := sig == padTo 64 data
  hmac _ secret data := padTo 32 (secret ++ data)

/-! ## libc -/

/-- `isspace` in the C locale. -/
def isspace (c : UInt8) : Bool := c == 32 || (9 ≤ c && c ≤ 13)

/-- `strtol(s, NULL, base)` for a text without a base prefix. -/
def strtol (base : Nat) (s : Text) : Int :=
  match s.dropWhile isspace with
  | 45 :: rest => -((scanNumeral base 0 rest).1 : Int)
  | 43 :: rest => (scanNumeral base 0 rest).1
  | rest => (scanNumeral base 0 rest).1

/-- `atoi`. -/
def atoi (s : Text) : Int := strtol 10 s

theorem notMem_decimal_of_lt {c : UInt8} (hc : c < 48) (n : Nat) : c ∉ decimal n := by
  intro hmem
  obtain ⟨d, hd, -, rfl⟩ := digitVal_isSome_of_mem_numeral (by decide) (by decide) hmem
  have hdigit : ∀ d < 10, 48 ≤ digitChar d := by decide
  exact absurd (hdigit d hd) (UInt8.not_le.mpr hc)

/-- A decimal numeral reads back. -/
theorem strtol_decimal (n : Nat) {rest : Text} (hrest : NoDigit 10 rest) :
    strtol 10 (decimal n ++ rest) = n := by
  obtain ⟨ds, htext, hlt, hne, -⟩ := numeral_eq_map (b := 10) (by decide) n
  obtain ⟨d, ds, rfl⟩ := exists_cons_of_ne_nil hne
  have hscan := scanNumeral_numeral (b := 10) (by decide) (by decide) n hrest
  have hspec : ∀ d < 10, isspace (digitChar d) = false ∧ digitChar d ≠ 45 ∧ digitChar d ≠ 43 := by
    decide
  obtain ⟨hspace, h45, h43⟩ := hspec d (hlt d mem_cons_self)
  have hhead : decimal n ++ rest = digitChar d :: (ds.map digitChar ++ rest) := by
    rw [decimal, htext]
    rfl
  rw [← decimal, hhead] at hscan
  rw [hhead, strtol, dropWhile_cons, if_neg (by simp [hspace])]
  split
  · rename_i heq
    exact absurd (cons.inj heq).1 h45
  · rename_i heq
    exact absurd (cons.inj heq).1 h43
  · rw [hscan]

theorem atoi_decimal (n : Nat) : atoi (decimal n) = n := by
  have h : strtol 10 (decimal n ++ []) = n := strtol_decimal n (by simp [NoDigit])
  rwa [append_nil] at h

/-- `%d` at the start of a text, for numbers in the range of `int`. -/
def scanD (s : Text) : Option (Int × Text) :=
  let body := s.dropWhile isspace
  let neg := body.head? = some 45
  let digits := if neg ∨ body.head? = some 43 then body.tail else body
  if (digits.head?.bind (digitVal 10)).isNone then none
  else
    let (n, rest) := scanNumeral 10 0 digits
    some (if neg then -(n : Int) else n, rest)

/-- `%u` (32 bits) or `%hu` (16 bits), for numbers below `2^64`. -/
def scanUnsigned (bits : Nat) (s : Text) : Option (Nat × Text) :=
  (scanD s).map fun r => ((r.1 % ((2 ^ bits : Nat) : Int)).toNat, r.2)

theorem scanUnsigned_decimal {bits n : Nat} (hn : n < 2 ^ bits) {rest : Text}
    (hrest : NoDigit 10 rest) : scanUnsigned bits (decimal n ++ rest) = some (n, rest) := by
  obtain ⟨ds, htext, hlt, hne, -⟩ := numeral_eq_map (b := 10) (by decide) n
  obtain ⟨d, ds, rfl⟩ := exists_cons_of_ne_nil hne
  have hd := hlt d mem_cons_self
  have hscan := scanNumeral_numeral (b := 10) (by decide) (by decide) n hrest
  have hhead : decimal n ++ rest = digitChar d :: (ds.map digitChar ++ rest) := by
    rw [decimal, htext]
    rfl
  have hspec : ∀ d < 10, isspace (digitChar d) = false ∧ digitChar d ≠ 45 ∧ digitChar d ≠ 43 ∧
      digitVal 10 (digitChar d) = some d := by decide
  obtain ⟨hspace, h45, h43, hval⟩ := hspec d hd
  have hdrop : (decimal n ++ rest).dropWhile isspace = decimal n ++ rest := by
    rw [hhead, dropWhile_cons, if_neg (by simp [hspace])]
  have hhd : (decimal n ++ rest).head? = some (digitChar d) := by rw [hhead]; rfl
  unfold scanUnsigned scanD
  rw [hdrop]
  simp only [hhd, Option.some.injEq, h45, h43, or_self, if_false, Option.bind_some, hval,
    Option.isNone_some, Bool.false_eq_true]
  rw [← decimal] at hscan
  rw [hscan, Option.map_some, ← Int.natCast_mod, Nat.mod_eq_of_lt hn, Int.toNat_natCast]

theorem scanNumeral_suffix (b : Nat) : ∀ (acc : Nat) (s : Text), (scanNumeral b acc s).2 <:+ s
  | _, [] => suffix_refl _
  | acc, c :: cs => by
    unfold scanNumeral
    split
    · exact (scanNumeral_suffix b _ cs).trans (suffix_cons c cs)
    · exact suffix_refl _

/-- What the scan leaves is a part of the text, and the number fits. -/
theorem scanUnsigned_spec {bits n : Nat} {s rest : Text}
    (h : scanUnsigned bits s = some (n, rest)) : n < 2 ^ bits ∧ ∀ c ∈ rest, c ∈ s := by
  obtain ⟨⟨i, rest⟩, hscan, heq⟩ := Option.map_eq_some_iff.mp h
  cases heq
  have hpos : (0 : Int) < (2 ^ bits : Nat) := Int.natCast_pos.mpr (Nat.two_pow_pos bits)
  refine ⟨(Int.toNat_lt (Int.emod_nonneg _ hpos.ne')).mpr (Int.emod_lt_of_pos _ hpos), ?_⟩
  obtain ⟨body, hbody⟩ : ∃ body, body = s.dropWhile isspace := ⟨_, rfl⟩
  obtain ⟨digits, hdigits⟩ : ∃ digits,
      digits = if body.head? = some 45 ∨ body.head? = some 43 then body.tail else body := ⟨_, rfl⟩
  have hpart : ∀ c ∈ digits, c ∈ s := by
    intro c hc
    have hc' : c ∈ body := by
      rw [hdigits] at hc
      split at hc
      · exact mem_of_mem_tail hc
      · exact hc
    exact (dropWhile_suffix _).subset (hbody ▸ hc')
  unfold scanD at hscan
  dsimp only at hscan
  rw [← hbody, ← hdigits] at hscan
  split at hscan
  · cases hscan
  cases hscan
  exact fun c hc => hpart c ((scanNumeral_suffix 10 0 _).subset hc)

/-- `strcasestr(s, sub) != NULL`. -/
def strcasestr (s sub : Text) : Bool :=
  (range (s.length + 1)).any fun i => eqCI (slice s i sub.length) sub

/-- `strstr`. -/
def strstr (s sub : Text) : Option Nat :=
  (range (s.length + 1)).find? fun i => (s.drop i).take sub.length == sub

/-! ## Hexadecimal -/

/-- `hex_enc`. -/
def hexEnc (b : Bytes) : Text := b.flatMap hexByte

/-- `hex_dec(in, out, maxlen)`: pairs of characters, each through `strtol`. -/
def hexDec (maxlen : Nat) : Text → Bytes
  | a :: b :: rest =>
    match maxlen with
    | 0 => []
    | n + 1 => ((strtol 16 [a, b]) % 256).toNat.toUInt8 :: hexDec n rest
  | _ => []

theorem length_hexDec_le (maxlen : Nat) (t : Text) : (hexDec maxlen t).length ≤ maxlen := by
  fun_induction hexDec maxlen t with
  | case1 => exact le_refl 0
  | case2 a b rest n ih => exact Nat.succ_le_succ ih
  | case3 => exact Nat.zero_le _

/-! ## Base64 -/

/-- `rev[c]`; `none` is `-1`. -/
def b64Rev (c : UInt8) : Option Nat :=
  if 65 ≤ c ∧ c ≤ 90 then some (c.toNat - 65)
  else if 97 ≤ c ∧ c ≤ 122 then some (c.toNat - 71)
  else if 48 ≤ c ∧ c ≤ 57 then some (c.toNat + 4)
  else if c = 43 then some 62
  else if c = 47 then some 63
  else none

/-- The octets of one group of four characters whose first two have values `a` and `b`. A padding
third with a fourth that is none contributes `-1 << 6`. -/
def b64Group (a b : Nat) (c d : Option Nat) : Bytes :=
  (a * 4 + b / 16).toUInt8 ::
    ((c.map fun c => (b % 16 * 16 + c / 4).toUInt8).toList ++
      (d.map fun d => ((c.getD 3) % 4 * 64 + d).toUInt8).toList)

/-- `b64std_dec(in, out, olen)`. -/
def b64stdDec (olen : Nat) : Text → Bytes
  | w :: x :: y :: z :: rest =>
    if olen = 0 then []
    else
      match b64Rev w, b64Rev x with
      | some a, some b =>
        let group := (b64Group a b (b64Rev y) (b64Rev z)).take olen
        group ++ b64stdDec (olen - group.length) rest
      | _, _ => []
  | _ => []

end SimpleDns.Wire
