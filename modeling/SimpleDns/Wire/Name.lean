import SimpleDns.Wire.Bytes

/-!
# Names and records on the wire (`dns_wire.c`)

* `nameToWire` is `name_to_wire` (`dns_wire.c:323-346`): the name is copied into `tmp[256]`, cut
  at dots, and each label is written behind its length octet.
* `nameFromWire` is `name_from_wire` (`dns_wire.c:348-388`). The `while (steps++ < 128)` loop is
  `nameLoop` with 128 steps of fuel; as in the source, running out of steps ends the loop without
  an error. The decoded octets pass through a C string, so an octet `0` inside a label cuts the
  name there (`cstr`) although it counts against the output size.
* `RR`, `parseRR`, `scanRRs` and `skipQuestions` are the record loop every daemon writes inline
  (`resolverd.c:1573-1611` and its siblings): owner, type, class, TTL, rdata, stopping at the first
  record that does not fit the packet.
-/

namespace SimpleDns.Wire

open List

/-! ## Record types and classes (`dns_wire.h:24-65`) -/

namespace RRType

def A : Nat := 1
def NS : Nat := 2
def CNAME : Nat := 5
def SOA : Nat := 6
def PTR : Nat := 12
def MX : Nat := 15
def TXT : Nat := 16
def KEY : Nat := 25
def AAAA : Nat := 28
def LOC : Nat := 29
def SRV : Nat := 33
def NAPTR : Nat := 35
def DNAME : Nat := 39
def OPT : Nat := 41
def DS : Nat := 43
def SSHFP : Nat := 44
def RRSIG : Nat := 46
def NSEC : Nat := 47
def DNSKEY : Nat := 48
def NSEC3 : Nat := 50
def TLSA : Nat := 52
def CDS : Nat := 59
def CDNSKEY : Nat := 60
def CSYNC : Nat := 62
def ZONEMD : Nat := 63
def SVCB : Nat := 64
def HTTPS : Nat := 65
def ANY : Nat := 255
def URI : Nat := 256
def CAA : Nat := 257

end RRType

namespace RRClass

def IN : Nat := 1
def CH : Nat := 3
def NONE : Nat := 254
def ANY : Nat := 255

end RRClass

/-! ## Encoding a name -/

/-- One label behind its length octet. -/
def labelWire (l : Text) : Bytes := l.length.toUInt8 :: l

/-- The `while (lbl)` loop of `name_to_wire`: `pos` octets are written already, and a label longer
than 63 or past `blen` fails. -/
def wireLoop (blen : Nat) : List Text → Nat → Option Bytes
  | [], pos => if pos ≥ blen then none else some [0]
  | l :: ls, pos =>
    if l.length > 63 then none
    else if pos + l.length + 1 ≥ blen then none
    else (wireLoop blen ls (pos + l.length + 1)).map (labelWire l ++ ·)

/-- `name_to_wire(name, buf, blen)`: the octets written, `none` for `-1`. -/
def nameToWire (name : Text) (blen : Nat) : Option Bytes :=
  wireLoop blen (labels (safeStrcpy name 256)) 0

/-! ## Decoding a name -/

/-- The decoding loop of `name_from_wire` with `fuel` steps left: the octets decoded so far and
the offset to resume at after the first pointer. -/
def nameLoop (pkt : Bytes) (olen : Nat) : Nat → Nat → Text → Option Nat → Option (Text × Nat)
  | 0, pos, out, jret => some (out, jret.getD pos)
  | fuel + 1, pos, out, jret =>
    if pos ≥ pkt.length then none
    else
      let c := byteAt pkt pos
      if isPointer c then
        if pos + 1 ≥ pkt.length then none
        else
          let ptr := (c &&& 0x3F).toNat * 256 + (byteAt pkt (pos + 1)).toNat
          -- RFC 1035 §4.1.4: only a strictly prior target
          if ptr ≥ pos then none
          else nameLoop pkt olen fuel ptr out (some (jret.getD (pos + 2)))
      else if c = 0 then some (out, jret.getD (pos + 1))
      else
        let ll := c.toNat
        if pos + 1 + ll > pkt.length ∨ out.length + ll + 1 ≥ olen then none
        else
          let out' := out ++ (if out.isEmpty then [] else [dot]) ++ slice pkt (pos + 1) ll
          nameLoop pkt olen fuel (pos + 1 + ll) out' jret

/-- `name_from_wire(pkt, plen, off, out, olen)`: the name decoded at `off`, lowercased, and the
offset after it; `none` for `-1`. -/
def nameFromWire (pkt : Bytes) (off olen : Nat) : Option (Text × Nat) :=
  (nameLoop pkt olen 128 off [] none).map fun r => (strlower (cstr r.1), r.2)

/-- The octets the loop has written into `out` when it stops, for whatever reason. Where it returns
`-1` nothing ends them. -/
def nameWritten (pkt : Bytes) (olen : Nat) : Nat → Nat → Text → Text
  | 0, _, out => out
  | fuel + 1, pos, out =>
    if pos ≥ pkt.length then out
    else
      let c := byteAt pkt pos
      if isPointer c then
        if pos + 1 ≥ pkt.length then out
        else
          let ptr := (c &&& 0x3F).toNat * 256 + (byteAt pkt (pos + 1)).toNat
          if ptr ≥ pos then out else nameWritten pkt olen fuel ptr out
      else if c = 0 then out
      else
        let ll := c.toNat
        if pos + 1 + ll > pkt.length ∨ out.length + ll + 1 ≥ olen then out
        else
          let out' := out ++ (if out.isEmpty then [] else [dot]) ++ slice pkt (pos + 1) ll
          nameWritten pkt olen fuel (pos + 1 + ll) out'

/-- The string in a buffer of zeros after `name_from_wire`. -/
def nameInZeros (pkt : Bytes) (off olen : Nat) : Text :=
  match nameFromWire pkt off olen with
  | some n => n.1
  | none => cstr (nameWritten pkt olen 128 off [])

/-- The string in a buffer that starts with a zero after `name_from_wire`; `none` where what the
buffer held before shows behind the octets written. -/
def nameInBuffer (pkt : Bytes) (off olen : Nat) : Option Text :=
  match nameFromWire pkt off olen with
  | some n => some n.1
  | none =>
    let out := nameWritten pkt olen 128 off []
    if out.isEmpty ∨ 0 ∈ out then some (cstr out) else none

/-! ## Records -/

/-- One resource record of a packet, with the offsets at which its owner and its rdata start. -/
structure RR where
  start : Nat
  owner : Text
  type : Nat
  cls : Nat
  ttl : Nat
  rdoff : Nat
  rdlen : Nat
deriving DecidableEq, Repr

/-- The rdata octets of a record of `pkt`. -/
def RR.rdata (r : RR) (pkt : Bytes) : Bytes := slice pkt r.rdoff r.rdlen

/-- The record at `off`: owner into `char rname[256]`, ten fixed octets, `rdlen` octets of rdata,
all inside the packet. -/
def parseRR (pkt : Bytes) (off : Nat) : Option RR :=
  match nameFromWire pkt off 256 with
  | none => none
  | some (owner, a) =>
    if a + 10 > pkt.length then none
    else if a + 10 + get16 pkt (a + 8) > pkt.length then none
    else some ⟨off, owner, get16 pkt a, get16 pkt (a + 2), get32 pkt (a + 4), a + 10,
      get16 pkt (a + 8)⟩

/-- `for (i < n && off < rlen)`: up to `n` records from `off`, up to the first that does not
parse; the records and the offset reached. -/
def scanRRs (pkt : Bytes) : Nat → Nat → List RR × Nat
  | 0, off => ([], off)
  | n + 1, off =>
    if off < pkt.length then
      match parseRR pkt off with
      | none => ([], off)
      | some r =>
        let rest := scanRRs pkt n (r.rdoff + r.rdlen)
        (r :: rest.1, rest.2)
    else ([], off)

/-- `for (i < qdcount && off < rlen)`: the offset after the question section. -/
def skipQuestions (pkt : Bytes) : Nat → Nat → Option Nat
  | 0, off => some off
  | n + 1, off =>
    if off < pkt.length then
      match nameFromWire pkt off 256 with
      | none => none
      | some (_, a) => skipQuestions pkt n (a + 4)
    else some off

/-- A question loop that bounds the fixed octets, with its walk over a name. -/
def passQuestions (next : Nat → Option Nat) (pkt : Bytes) : Nat → Nat → Option Nat
  | 0, off => some off
  | n + 1, off =>
    match next off with
    | none => none
    | some a => if a + 4 > pkt.length then none else passQuestions next pkt n (a + 4)

/-- The same over records. -/
def passRecords (next : Nat → Option Nat) (pkt : Bytes) : Nat → Nat → Option Nat
  | 0, off => some off
  | n + 1, off =>
    match next off with
    | none => none
    | some a =>
      if a + 10 > pkt.length then none else passRecords next pkt n (a + 10 + get16 pkt (a + 8))

/-- `append_rr_plain(buf, off, blen, ..)`: the message so far, `off` octets, with one record
behind it whose owner is not compressed. -/
def appendRRPlain (msg : Bytes) (blen : Nat) (name : Text) (type cls ttl : Nat) (rdata : Bytes) :
    Option Bytes :=
  match nameToWire name (blen - msg.length) with
  | none => none
  | some w =>
    if msg.length + w.length + 10 + rdata.length > blen then none
    else some (msg ++ w ++ put16 type ++ put16 cls ++ put32 ttl ++ put16 rdata.length ++ rdata)

/-- The twelve header octets. -/
def header (id flags qd an ns ar : Nat) : Bytes :=
  put16 id ++ put16 flags ++ put16 qd ++ put16 an ++ put16 ns ++ put16 ar

/-- A header and one question: how every message of the daemons starts. -/
def messageStart (id flags an ns ar : Nat) (qname : Text) (qtype : Nat) : Option Bytes :=
  (nameToWire qname 256).map fun w =>
    header id flags 1 an ns ar ++ w ++ put16 qtype ++ put16 RRClass.IN

/-- The header counts (`dns_hdr_t`). -/
def qdcount (pkt : Bytes) : Nat := get16 pkt 4
def ancount (pkt : Bytes) : Nat := get16 pkt 6
def nscount (pkt : Bytes) : Nat := get16 pkt 8
def arcount (pkt : Bytes) : Nat := get16 pkt 10

/-- `ntohs(h->flags) & DNS_RCODE_MASK`. -/
def rcodeOf (pkt : Bytes) : Nat := get16 pkt 2 % 16

/-! ## Steps of the decoder -/

/-- The steps of a decoding that returns `res`. -/
inductive Decodes (pkt : Bytes) (olen : Nat) (res : Text × Nat) :
    Nat → Nat → Text → Option Nat → Prop
  | stop {pos : Nat} {out : Text} {jret : Option Nat} (eq : res = (out, jret.getD pos)) :
      Decodes pkt olen res 0 pos out jret
  | root {fuel pos : Nat} {out : Text} {jret : Option Nat} (lt : pos < pkt.length)
      (zero : byteAt pkt pos = 0) (eq : res = (out, jret.getD (pos + 1))) :
      Decodes pkt olen res (fuel + 1) pos out jret
  | pointer {fuel pos ptr : Nat} {out : Text} {jret : Option Nat} (lt : pos + 1 < pkt.length)
      (octet : isPointer (byteAt pkt pos) = true)
      (target : (byteAt pkt pos &&& 0x3F).toNat * 256 + (byteAt pkt (pos + 1)).toNat = ptr)
      (prior : ptr < pos) (rest : Decodes pkt olen res fuel ptr out (some (jret.getD (pos + 2)))) :
      Decodes pkt olen res (fuel + 1) pos out jret
  | label {fuel pos : Nat} {out l : Text} {jret : Option Nat}
      (octet : isPointer (byteAt pkt pos) = false) (size : (byteAt pkt pos).toNat = l.length)
      (ne_nil : l ≠ []) (le : pos + 1 + l.length ≤ pkt.length)
      (octets : slice pkt (pos + 1) l.length = l) (room : out.length + l.length + 1 < olen)
      (rest : Decodes pkt olen res fuel (pos + 1 + l.length)
        (out ++ (if out.isEmpty then [] else [dot]) ++ l) jret) :
      Decodes pkt olen res (fuel + 1) pos out jret

section Decodes

variable {pkt : Bytes} {olen fuel pos : Nat} {out : Text} {jret : Option Nat} {res : Text × Nat}

theorem Decodes.of_nameLoop (h : nameLoop pkt olen fuel pos out jret = some res) :
    Decodes pkt olen res fuel pos out jret := by
  induction fuel generalizing pos out jret with
  | zero => exact .stop (Option.some.inj h).symm
  | succ fuel ih =>
    unfold nameLoop at h
    dsimp only at h
    split at h
    · cases h
    split at h
    · split at h
      · cases h
      split at h
      · cases h
      · exact .pointer (by omega) ‹_› rfl (by omega) (ih h)
    split at h
    · exact .root (by omega) ‹_› (Option.some.inj h).symm
    split at h
    · cases h
    rename_i hptr hzero hfit
    have hsize : (slice pkt (pos + 1) (byteAt pkt pos).toNat).length = (byteAt pkt pos).toNat := by
      rw [slice, length_take, length_drop]
      omega
    rw [← hsize] at hfit
    refine .label (by simpa using hptr) hsize.symm ?_ (by omega) (by rw [hsize]) (by omega)
      (ih (by rwa [hsize]))
    intro hnil
    rw [hnil] at hsize
    exact hzero (UInt8.toNat_inj.mp hsize.symm)

theorem ne_zero_of_label {c : UInt8} {l : Text} (size : c.toNat = l.length) (hne : l ≠ []) :
    c ≠ 0 := by
  rintro rfl
  exact hne (length_eq_zero_iff.mp size.symm)

/-- **The decoder returns what its steps give.** -/
theorem nameLoop_eq_some_iff : nameLoop pkt olen fuel pos out jret = some res ↔
    Decodes pkt olen res fuel pos out jret := by
  refine ⟨.of_nameLoop, fun h => ?_⟩
  induction h with
  | stop eq => exact congrArg some eq.symm
  | root lt zero eq =>
    rw [nameLoop, if_neg (by omega), zero]
    exact congrArg some eq.symm
  | pointer lt octet target prior _ ih =>
    rw [nameLoop, if_neg (by omega)]
    simp only [octet, if_true, target, if_neg (Nat.not_le.mpr lt), if_neg (Nat.not_le.mpr prior)]
    exact ih
  | label octet size ne_nil le octets room _ ih =>
    rw [nameLoop, if_neg (by omega)]
    simp only [octet, Bool.false_eq_true, if_false, ne_zero_of_label size ne_nil, size, octets]
    rwa [if_neg (by omega)]

/-- A label with a dot in front of it. -/
theorem length_append_label (out l : Text) :
    (out ++ (if out.isEmpty then [] else [dot]) ++ l).length =
      l.length + if out = [] then 0 else out.length + 1 := by
  cases out with
  | nil => simp
  | cons c cs =>
    simp
    omega

theorem Decodes.length_lt (h : Decodes pkt olen res fuel pos out jret) (hout : out.length < olen) :
    res.1.length < olen := by
  induction h with
  | stop eq | root _ _ eq =>
    rwa [eq]
  | pointer _ _ _ _ _ ih => exact ih hout
  | label _ _ _ _ _ _ _ ih =>
    refine ih ?_
    rw [length_append_label]
    split <;> omega

end Decodes

theorem length_nameFromWire_le {pkt : Bytes} {off after : Nat} {name : Text}
    (h : nameFromWire pkt off 256 = some (name, after)) : name.length ≤ 255 := by
  obtain ⟨res, hres, heq⟩ := Option.map_eq_some_iff.mp h
  obtain ⟨rfl, -⟩ := Prod.mk.inj heq
  have hlt := (Decodes.of_nameLoop hres).length_lt (by decide)
  have hcut : (cstr res.1).length ≤ res.1.length := (List.takeWhile_prefix _).length_le
  rw [length_strlower]
  omega

end SimpleDns.Wire
