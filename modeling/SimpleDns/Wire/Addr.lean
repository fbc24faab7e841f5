import SimpleDns.Lib.Numeral
import SimpleDns.Wire.Bytes

/-!
# Addresses as text (`inet_ntop`, `inet_pton`)

The two libc conversions the daemons store and emit addresses with, as documented: IPv4 is four
decimal octets; IPv6 is printed with the first longest run of two or more zero words as `::` and a
mapped or compatible IPv4 tail in dotted form.
-/

namespace SimpleDns.Wire

open Lib

/-- A number in decimal (`%u`). -/
def decimal (n : Nat) : Text := numeral 10 n

/-- A decimal numeral holds digits only. -/
theorem notMem_decimal {c : UInt8} (hc : digitVal 10 c = none) (n : Nat) : c ∉ decimal n := by
  intro h
  obtain ⟨d, -, hd, -⟩ := digitVal_isSome_of_mem_numeral (by decide) (by decide) h
  exact absurd (hc.symm.trans hd) nofun

/-- A number in lowercase hexadecimal (`%x`). -/
def hexadecimal (n : Nat) : Text := numeral 16 n

/-- Two hexadecimal digits (`%02x`). -/
def hexByte (c : UInt8) : Text := [digitChar (c.toNat / 16), digitChar (c.toNat % 16)]

/-! ## IPv4 -/

/-- `inet_ntop(AF_INET, b, ..)` of the first four octets. -/
def inetNtop4 (b : Bytes) : Text := joinDots ((b.take 4).map fun c => decimal c.toNat)

/-- One octet of an IPv4 address: one to three digits, no leading zero, at most 255. -/
def ptonOctet (s : Text) : Option UInt8 :=
  match s.mapM (digitVal 10) with
  | none => none
  | some ds =>
    let v := ds.foldl (fun a d => a * 10 + d) 0
    if ds = [] ∨ v > 255 ∨ (ds.length > 1 ∧ ds.head? = some 0) then none else some v.toUInt8

/-- `inet_pton(AF_INET, s, _)`: exactly four octets between dots. -/
def inetPton4 (s : Text) : Option Bytes :=
  match (s.splitOn dot).mapM ptonOctet with
  | some b => if b.length = 4 then some b else none
  | none => none

/-! ## IPv6 -/

/-- The octet `':'`. -/
def colon : UInt8 := 58

/-- The eight words of an IPv6 address. -/
def addrWords (b : Bytes) : List Nat := (List.range 8).map fun i => get16 b (2 * i)

/-- The length of the run of zero words at the start of `ws`. -/
def zeroRun (ws : List Nat) : Nat := (ws.takeWhile (· = 0)).length

/-- The first longest run of zero words, if it has two or more: where it starts and its length. -/
def bestZeroRun (ws : List Nat) : Option (Nat × Nat) :=
  let runs := (List.range ws.length).map fun i => (i, zeroRun (ws.drop i))
  let best := runs.foldl (fun b r => if r.2 > b.2 then r else b) (0, 0)
  if best.2 ≥ 2 then some best else none

/-- Word `i` is in the run. -/
def inRun (best : Option (Nat × Nat)) (i : Nat) : Bool :=
  match best with
  | some (base, len) => base ≤ i && i < base + len
  | none => false

/-- The words of `inet_ntop(AF_INET6)` from word `i` on; `tail` is the dotted IPv4 form of the last
four octets where it is used. -/
def ntop6Loop (best : Option (Nat × Nat)) (tail : Option Text) : Nat → List Nat → Text
  | _, [] => []
  | i, w :: ws =>
    if inRun best i then
      (if (best.map (·.1)) = some i then [colon] else []) ++ ntop6Loop best tail (i + 1) ws
    else
      let sep := if i = 0 then [] else [colon]
      match i, tail with
      | 6, some t => sep ++ t
      | _, _ => sep ++ hexadecimal w ++ ntop6Loop best tail (i + 1) ws

/-- The last four octets stand in dotted form: a compatible or mapped IPv4 address. -/
def dottedTail (ws : List Nat) (best : Option (Nat × Nat)) : Bool :=
  match best with
  | some (0, len) => len == 6 || (len == 5 && ws.getD 5 0 == 0xffff)
  | _ => false

/-- `inet_ntop(AF_INET6, b, ..)`. -/
def inetNtop6 (b : Bytes) : Text :=
  let ws := addrWords b
  let best := bestZeroRun ws
  let tail := if dottedTail ws best then some (inetNtop4 (b.drop 12)) else none
  let text := ntop6Loop best tail 0 ws
  match best with
  | some (base, len) => if base + len = 8 then text ++ [colon] else text
  | none => text

/-- The state of `inet_pton(AF_INET6)` inside a text: the words read, how many stood before the
`::`, and the group being read (its text and its digits). -/
structure Pton6 where
  words : List Nat
  gap : Option Nat
  tok : Text
  digits : List Nat

/-- The value of the group being read. -/
def Pton6.value (p : Pton6) : Nat := p.digits.foldl (fun a d => a * 16 + d) 0

/-- The end of the text: a group that is still open is a word, and a `::` stands for at least one
zero word. -/
def Pton6.finish (p : Pton6) : Option Bytes :=
  let ws := if p.digits = [] then p.words else p.words ++ [p.value]
  match p.gap with
  | none => if ws.length = 8 then some (ws.flatMap put16) else none
  | some g =>
    if ws.length < 8 then
      some ((ws.take g ++ List.replicate (8 - ws.length) 0 ++ ws.drop g).flatMap put16)
    else none

/-- The character loop of `inet_pton(AF_INET6)`. -/
def pton6Loop : Text → Pton6 → Option Bytes
  | [], p => p.finish
  | c :: cs, p =>
    match digitVal 16 c with
    | some d =>
      if p.digits.length = 4 then none
      else pton6Loop cs { p with tok := p.tok ++ [c], digits := p.digits ++ [d] }
    | none =>
      if c = colon then
        if p.digits = [] then
          if p.gap.isSome then none
          else pton6Loop cs { p with gap := some p.words.length, tok := [] }
        else if cs = [] ∨ p.words.length = 8 then none
        else pton6Loop cs ⟨p.words ++ [p.value], p.gap, [], []⟩
      else if c = dot ∧ p.words.length ≤ 6 then
        -- the rest of the text, from the start of this group, is an IPv4 address
        match inetPton4 (p.tok ++ c :: cs) with
        | some b => Pton6.finish ⟨p.words ++ [get16 b 0, get16 b 2], p.gap, [], []⟩
        | none => none
      else none

/-- `inet_pton(AF_INET6, s, _)`. -/
def inetPton6 (s : Text) : Option Bytes :=
  match s with
  | [] => none
  | c :: cs =>
    if c = colon then if cs.head? = some colon then pton6Loop cs ⟨[], none, [], []⟩ else none
    else pton6Loop s ⟨[], none, [], []⟩

end SimpleDns.Wire
