import SimpleDns.Wire.Canon

/-!
# Denial of existence on the wire: base32hex, NSEC3 hashes and type bitmaps

* `base32hexEnc`, `base32hexDec` (`dns_wire.c:170-237`): the first label of an NSEC3 owner.
* `nsec3HashRaw` (`dns_wire.c:253-294`): the iterated, salted SHA-1 of the name's wire form. SHA-1
  itself is a parameter.
* `bitmapHasType` is `nsec_bitmap_has_type` (`resolverd.c:1684-1698`).
-/

namespace SimpleDns.Wire

/-! ## base32hex (RFC 4648 §7) -/

/-- `b32h_val`. -/
def b32hVal (c : UInt8) : Option Nat :=
  if 48 ≤ c ∧ c ≤ 57 then some (c.toNat - 48)
  else if 65 ≤ c ∧ c ≤ 86 then some (c.toNat - 65 + 10)
  else if 97 ≤ c ∧ c ≤ 118 then some (c.toNat - 97 + 10)
  else none

/-- The digit `B32H[v]`. -/
def b32hDigit (v : Nat) : UInt8 := if v < 10 then (48 + v).toUInt8 else (65 + v - 10).toUInt8

/-- The output octets of an input group of `take` digits; `none` is not a valid group. -/
def b32hGroup (take : Nat) : Option Nat :=
  if take = 8 then some 5
  else if take = 7 then some 4
  else if take = 5 then some 3
  else if take = 4 then some 2
  else if take = 2 then some 1
  else none

/-- `v |= val << (35 - j * 5)` over one group, from digit `j` on. -/
def b32hBits : Nat → List Nat → Nat
  | _, [] => 0
  | j, v :: vs => v * 2 ^ (35 - j * 5) + b32hBits (j + 1) vs

/-- `v |= in[i + j] << (32 - j * 8)` over one group, from octet `j` on. -/
def octetBits : Nat → Bytes → Nat
  | _, [] => 0
  | j, b :: bs => b.toNat * 2 ^ (32 - j * 8) + octetBits (j + 1) bs

/-- The decoding loop of `base32hex_dec`, one group of eight digits a round. -/
def base32hexDecLoop (outlen : Nat) : Nat → Text → Bytes → Option Bytes
  | 0, _, out => some out
  | fuel + 1, s, out =>
    if s.isEmpty then some out
    else
      match (s.take 8).mapM b32hVal, b32hGroup (s.take 8).length with
      | some vals, some obytes =>
        if out.length + obytes > outlen then none
        else
          let v := b32hBits 0 vals
          let octets := (List.range obytes).map fun j => (v / 2 ^ (32 - j * 8)).toUInt8
          base32hexDecLoop outlen fuel (s.drop 8) (out ++ octets)
      | _, _ => none

/-- `base32hex_dec(in, out, outlen)`: the octets decoded, `none` for `-1`. -/
def base32hexDec (s : Text) (outlen : Nat) : Option Bytes :=
  base32hexDecLoop outlen s.length s []

/-- The encoding loop of `base32hex_enc`, one group of five octets a round. -/
def base32hexEncLoop (olen : Nat) : Nat → Bytes → Text → Text
  | 0, _, out => out
  | fuel + 1, b, out =>
    if b.isEmpty ∨ out.length + 7 ≥ olen then out
    else
      let v := octetBits 0 (b.take 5)
      -- a digit is written while `bits > 0`, five bits at a time
      let digits := ((b.take 5).length * 8 + 4) / 5
      let text := (List.range digits).map fun j => b32hDigit (v / 2 ^ (35 - j * 5) % 32)
      base32hexEncLoop olen fuel (b.drop 5) (out ++ text)

/-- `base32hex_enc(in, ilen, out, olen)`. -/
def base32hexEnc (b : Bytes) (olen : Nat) : Text := base32hexEncLoop olen b.length b []

/-! ## NSEC3 owner hash (RFC 5155 §5) -/

/-- The wire form `nsec3_hash_raw` hashes: labels while they are at most 63 octets and the whole at
most 255, then the root label. -/
def nsec3WireLoop : List Text → Bytes → Bytes
  | [], wire => wire
  | l :: ls, wire =>
    if l.length > 63 ∨ wire.length + l.length + 1 > 255 then wire
    else nsec3WireLoop ls (wire ++ labelWire l)

/-- `nsec3_hash_raw(name, salt, saltlen, iters, out)` over a given SHA-1. -/
def nsec3HashRaw (sha1 : Bytes → Bytes) (name : Text) (salt : Bytes) (iters : Nat) : Bytes :=
  let wire := nsec3WireLoop (labels (strlower (safeStrcpy name 256))) [] ++ [0]
  (fun h => sha1 (h ++ salt))^[iters] (sha1 (wire ++ salt))

/-! ## Type bitmaps (RFC 4034 §4.1.2) -/

/-- The window walk of `nsec_bitmap_has_type` from `off`. -/
def bitmapLoop (bm : Bytes) (type : Nat) : Nat → Nat → Bool
  | 0, _ => false
  | fuel + 1, off =>
    if off + 2 ≤ bm.length then
      let w := (byteAt bm off).toNat
      let wl := (byteAt bm (off + 1)).toNat
      if off + 2 + wl > bm.length then false
      else if w = type / 256 ∧ type % 256 / 8 < wl then
        (byteAt bm (off + 2 + type % 256 / 8)).toNat.testBit (7 - type % 8)
      else bitmapLoop bm type fuel (off + 2 + wl)
    else false

/-- `nsec_bitmap_has_type(bm, bmlen, type)`. -/
def bitmapHasType (bm : Bytes) (type : Nat) : Bool := bitmapLoop bm type bm.length 0

end SimpleDns.Wire
