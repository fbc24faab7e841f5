import SimpleDns.Wire.Addr
import SimpleDns.Wire.Compress

/-!
# Record data as text (`rdata_to_str`, `resolverd.c:1116-1190`)

`none` stands for a CNAME, NS or PTR whose name does not decode behind its first label: the C
function then leaves a partly written name in its output, over whatever the buffer held. The names
of MX, SRV and SOA are decoded into zeroed buffers.
-/

namespace SimpleDns.Wire

open List RRType

/-- The character strings of a TXT rdata, each in quotes and followed by a blank, while they fit
`olen`; the last blank is cut off by the caller. -/
def txtText (pkt : Bytes) (fin olen : Nat) : Nat → Nat → Text → Text
  | 0, _, out => out
  | fuel + 1, i, out =>
    if i < fin then
      let l := min (byteAt pkt i).toNat (fin - (i + 1))
      let out' := if out.length + l + 3 < olen then out ++ [34] ++ slice pkt (i + 1) l ++ [34, 32]
        else out
      txtText pkt fin olen fuel (i + 1 + l) out'
    else out

/-- The hex dump of an rdata of any other type: two digits an octet, blanks between. -/
def hexDump (olen : Nat) : Bytes → Text → Text
  | [], out => out
  | c :: cs, out =>
    if out.length + 3 < olen then
      let out' := out ++ hexByte c
      hexDump olen cs (if ¬ cs.isEmpty ∧ out'.length + 1 < olen then out' ++ [32] else out')
    else out

/-- `rdata_to_str(pkt, plen, rdoff, rdlen, type, out, olen)`. -/
def rdataToStr (pkt : Bytes) (rdoff rdlen type olen : Nat) : Option Text :=
  let num := fun n => decimal n ++ [32]
  if type = RRType.A then
    some (if rdlen = 4 then cstr (inetNtop4 (slice pkt rdoff 4)) else [])
  else if type = AAAA then
    some (if rdlen = 16 then cstr (inetNtop6 (slice pkt rdoff 16)) else [])
  else if type = CNAME ∨ type = NS ∨ type = PTR then
    nameInBuffer pkt rdoff olen
  else if type = MX then
    some (safeStrcpy (num (get16 pkt rdoff) ++ nameInZeros pkt (rdoff + 2) 256) olen)
  else if type = TXT then
    some (cstr ((txtText pkt (rdoff + rdlen) olen rdlen rdoff []).dropLast))
  else if type = SOA then
    match nameFromWire pkt rdoff 256 with
    | none => some []
    | some (m, p) =>
      match nameFromWire pkt p 256 with
      | none => some []
      | some (r, q) =>
        some (if q + 20 ≤ pkt.length then
          safeStrcpy (m ++ [32] ++ r ++ [32] ++ num (get32 pkt q) ++ num (get32 pkt (q + 4)) ++
            num (get32 pkt (q + 8)) ++ num (get32 pkt (q + 12)) ++
            decimal (get32 pkt (q + 16))) olen
        else [])
  else if type = SRV then
    some (safeStrcpy (num (get16 pkt rdoff) ++ num (get16 pkt (rdoff + 2)) ++
      num (get16 pkt (rdoff + 4)) ++ nameInZeros pkt (rdoff + 6) 256) olen)
  else some (hexDump olen (slice pkt rdoff rdlen) [])

/-! ## Record data alone

A rdata whose names are written out prints the same from a packet of its own. -/

section Alone

variable {pkt : Bytes} {o n : Nat}

theorem slice_slice {i k : Nat} (h : i + k ≤ n) :
    slice (slice pkt o n) i k = slice pkt (o + i) k := by
  simp only [slice, drop_take, drop_drop, take_take]
  congr 1
  omega

variable (hin : o + n ≤ pkt.length)
include hin

theorem length_slice : (slice pkt o n).length = n := by
  simp only [slice, length_take, length_drop]
  omega

end Alone

end SimpleDns.Wire
