import SimpleDns.Server.Transfer

/-!
# Stored values on the wire (`stored_rdata`, `dns_server.c:5457-5701`)

A record of the store is `ttl|value`. `storedRdata` turns the value of every type but A and AAAA
into rdata; the live query path and the zone transfer share it. SVCB, HTTPS and ZONEMD are stored as
hexadecimal TLV blobs (`dns_wire.c:560-900`), CSYNC as a list of type names.

`none` stands for `-1`.
-/

namespace SimpleDns.Server

open Wire Lib RRType

/-! ## Fields -/

/-- The octet `'|'`. -/
def bar : UInt8 := 124

/-- `strchr(val, '|')` with `pipe++`: the TTL in front of the first bar, and what is behind it. -/
def splitTtl (val : Text) : Nat × Text :=
  if bar ∈ val then ((atoi val % 2 ^ 32).toNat, (val.dropWhile (· ≠ bar)).drop 1)
  else (defaultTtl, val)

/-- `(uint16_t) atoi(tok)`, 0 for a missing token. -/
def fieldU16 (toks : List Text) (i : Nat) : Nat :=
  ((toks[i]?.map atoi).getD 0 % 2 ^ 16).toNat

/-- `(uint8_t) atoi(tok)`, 0 for a missing token. -/
def fieldU8 (toks : List Text) (i : Nat) : UInt8 :=
  ((toks[i]?.map atoi).getD 0 % 2 ^ 8).toNat.toUInt8

/-- A token copied into a buffer, empty for a missing one. -/
def fieldText (toks : List Text) (i size : Nat) : Text := safeStrcpy (toks[i]?.getD []) size

/-- One call of `strtok_r(s, sep, &rest)`: the token and where the next call resumes. -/
def strtokR (sep : UInt8) (s : Text) : Option (Text × Text) :=
  let t := s.dropWhile (· = sep)
  if t = [] then none else some (t.takeWhile (· ≠ sep), (t.dropWhile (· ≠ sep)).drop 1)

/-- Up to `n` tokens and the rest behind them. -/
def strtokN (sep : UInt8) : Nat → Text → List Text × Text
  | 0, s => ([], s)
  | n + 1, s =>
    match strtokR sep s with
    | none => ([], [])
    | some (tok, rest) =>
      let (toks, rest') := strtokN sep n rest
      (tok :: toks, rest')

/-! ## Character strings and bitmaps -/

/-- `txt_encode(s, rd, maxlen)` with `out` octets written: chunks of 255 behind their length. -/
def txtEncodeFrom (maxlen : Nat) : Nat → Text → Nat → Option Bytes
  | 0, _, _ => some []
  | fuel + 1, s, out =>
    if s = [] then some []
    else
      let chunk := s.take 255
      if out + 1 + chunk.length > maxlen then none
      else
        (txtEncodeFrom maxlen fuel (s.drop 255) (out + 1 + chunk.length)).map (labelWire chunk ++ ·)

/-- `txt_encode`. -/
def txtEncode (s : Text) (maxlen : Nat) : Option Bytes := txtEncodeFrom maxlen s.length s 0

/-- The octet `i` of a window-0 bitmap. -/
def bitmapOctet (types : List Nat) (i : Nat) : UInt8 :=
  ((List.range 8).foldl (fun a j => if 8 * i + j ∈ types then a + 2 ^ (7 - j) else a) 0).toUInt8

/-- A window-0 bitmap up to the octet of its largest type. -/
def typeBitmap (types : List Nat) : Bytes :=
  (List.range (types.foldl max 0 / 8 + 1)).map (bitmapOctet types)

/-- `str2type`. -/
def str2type (s : Text) : Nat :=
  match typeNames.find? fun p => eqCI s (lit p.2) with
  | some p => p.1
  | none =>
    let digit := fun c : UInt8 => 48 ≤ c && c ≤ 57
    if eqCI (s.take 4) (lit "TYPE") && digit (byteAt s 4) then (atoi (s.drop 4) % 2 ^ 16).toNat
    else if digit (byteAt s 0) then (atoi s % 2 ^ 16).toNat
    else 0

/-- `csync_encode_rdata`. -/
def csyncEncodeRdata (serial flags : Nat) (csv : Text) (outsz : Nat) : Option Bytes :=
  let types := ((strtok 44 csv).map str2type).filter fun t => t ≠ 0 ∧ t < 256
  let bitmap := if types = [] then [] else 0 :: labelWire (typeBitmap types)
  if outsz < 6 + bitmap.length then none else some (put32 serial ++ put16 flags ++ bitmap)

/-! ## TLV blobs -/

/-- The items behind the version octet (`tlv_next` until it returns 0), `none` for a truncated
one. -/
def tlvItems (tlv : Bytes) : Nat → Nat → Option (List (UInt8 × Bytes))
  | 0, _ => none
  | fuel + 1, off =>
    if off = tlv.length then some []
    else if off + 3 > tlv.length then none
    else
      let l := get16 tlv (off + 1)
      if off + 3 + l > tlv.length then none
      else (tlvItems tlv fuel (off + 3 + l)).map ((byteAt tlv off, slice tlv (off + 3) l) :: ·)

/-- The items of a version-1 blob. -/
def tlvParse (tlv : Bytes) : Option (List (UInt8 × Bytes)) :=
  if tlv.head? ≠ some 1 then none else tlvItems tlv (tlv.length + 1) 1

/-- The last item with the tag. -/
def tlvLast (items : List (UInt8 × Bytes)) (tag : UInt8) : Option Bytes :=
  (items.reverse.find? fun p => p.1 = tag).map (·.2)

/-- The SvcParams in ascending key order, `o` octets written. -/
def svcParams (items : List (UInt8 × Bytes)) (outcap : Nat) : List Nat → Nat → Option Bytes
  | [], _ => some []
  | key :: keys, o =>
    match tlvLast items (16 + key).toUInt8 with
    | none => svcParams items outcap keys o
    | some v =>
      if o + 4 + v.length > outcap then none
      else (svcParams items outcap keys (o + 4 + v.length)).map
        (put16 key ++ put16 v.length ++ v ++ ·)

/-- `svcb_tlv_to_wire`. -/
def svcbTlvToWire (tlv : Bytes) (outcap : Nat) : Option Bytes := do
  let items ← tlvParse tlv
  if items.any fun p => (p.1 = 1 && p.2.length ≠ 2) || (p.1 = 2 && p.2.length ≥ 256) then none
  let prio ← tlvLast items 1
  let target := cstr ((tlvLast items 2).getD [])
  let w ← nameToWire (if target = [] then [dot] else target) (outcap - 2)
  (svcParams items outcap (List.range 7) (2 + w.length)).map (prio ++ w ++ ·)

/-- `zonemd_tlv_to_wire`. -/
def zonemdTlvToWire (tlv : Bytes) (outcap : Nat) : Option Bytes := do
  let items ← tlvParse tlv
  let size := fun tag : UInt8 => if tag = 1 then 4 else 1
  if items.any fun p => (p.1 = 1 || p.1 = 2 || p.1 = 3) && p.2.length ≠ size p.1 then none
  let serial ← tlvLast items 1
  let scheme ← tlvLast items 2
  let hashalg ← tlvLast items 3
  let digest ← tlvLast items 4
  if 6 + digest.length > outcap then none else some (serial ++ scheme ++ hashalg ++ digest)

/-! ## The encoder -/

/-- A name behind `pre`. -/
def nameRdata (pre : Bytes) (name : Text) (rdcap : Nat) : Option Bytes :=
  (nameToWire name (rdcap - pre.length)).map (pre ++ ·)

/-- `order|pref|flags|service|regexp|replacement`; the regexp may hold bars. -/
def naptrRdata (val : Text) (rdcap : Nat) : Bytes :=
  let (toks, rest) := strtokN bar 4 val
  let (re, repl) : Text × Text :=
    if bar ∈ rest then
      ((rest.reverse.dropWhile (· ≠ bar)).drop 1 |>.reverse,
        (rest.reverse.takeWhile (· ≠ bar)).reverse)
    else (rest, [])
  let pre := put16 (fieldU16 toks 0) ++ put16 (fieldU16 toks 1) ++
    labelWire (fieldText toks 2 64) ++ labelWire (fieldText toks 3 64) ++
    labelWire (safeStrcpy re 256)
  let repl := safeStrcpy repl 256
  pre ++ (nameToWire (if repl = [] then [dot] else repl) (rdcap - pre.length)).getD []

/-- `stored_rdata(type, val, rd, rdcap)`. -/
def storedRdata (type : Nat) (val : Text) (rdcap : Nat) : Option Bytes :=
  let toks := strtok bar val
  if type = CNAME ∨ type = PTR ∨ type = DNAME then nameRdata [] val rdcap
  else if type = MX then
    if bar ∈ val then
      nameRdata (put16 (atoi val % 2 ^ 16).toNat) ((val.dropWhile (· ≠ bar)).drop 1) rdcap
    else nameRdata (put16 10) val rdcap
  else if type = TXT then txtEncode val rdcap
  else if type = SRV then
    nameRdata (put16 (fieldU16 toks 0) ++ put16 (fieldU16 toks 1) ++ put16 (fieldU16 toks 2))
      (fieldText toks 3 256) rdcap
  else if type = CAA then
    some (fieldU8 toks 0 :: labelWire (fieldText toks 1 64) ++ fieldText toks 2 256)
  else if type = SSHFP then
    some ([fieldU8 toks 0, fieldU8 toks 1] ++ hexDec 64 (toks[2]?.getD []))
  else if type = TLSA then
    some ([fieldU8 toks 0, fieldU8 toks 1, fieldU8 toks 2] ++ hexDec 512 (toks[3]?.getD []))
  else if type = LOC then some (hexDec rdcap val)
  else if type = URI then
    some (put16 (fieldU16 toks 0) ++ put16 (fieldU16 toks 1) ++ (toks[2]?.getD []).take 255)
  else if type = NAPTR then some (naptrRdata val rdcap)
  else if type = SVCB ∨ type = HTTPS then svcbTlvToWire (hexDec 512 val) rdcap
  else if type = ZONEMD then zonemdTlvToWire (hexDec 256 val) rdcap
  else if type = CSYNC then
    csyncEncodeRdata ((toks[0]?.map atoi).getD 0 % 2 ^ 32).toNat (fieldU16 toks 1)
      (fieldText toks 2 256) rdcap
  else none

end SimpleDns.Server
