import SimpleDns.Wire.Name

/-!
# The update lease of an EDNS OPT record (`edns_parse`, `dns_wire.c:1140-1253`)

`edns_parse` fills one record for all options. Here it is what the update path reads of it: the
RFC 9664 update lease.
-/

namespace SimpleDns.Wire

/-- `skip_name`, with its 128 steps. -/
def skipNameLoop (pkt : Bytes) : Nat → Nat → Option Nat
  | 0, _ => none
  | fuel + 1, off =>
    if off ≥ pkt.length then none
    else
      let c := byteAt pkt off
      if isPointer c then if off + 2 ≤ pkt.length then some (off + 2) else none
      else if c = 0 then some (off + 1)
      else skipNameLoop pkt fuel (off + c.toNat + 1)

/-- `skip_name`. -/
def skipName (pkt : Bytes) (off : Nat) : Option Nat := skipNameLoop pkt 128 off

/-- The question loop of `edns_parse`. -/
def ednsQuestions (pkt : Bytes) : Nat → Nat → Option Nat := passQuestions (skipName pkt) pkt

/-- The loop over the answer and authority sections. -/
def ednsSkip (pkt : Bytes) : Nat → Nat → Option Nat := passRecords (skipName pkt) pkt

/-- The update lease: the lease and, in the long form, the key lease. -/
structure UpdateLease where
  lease : Nat
  keyLease : Option Nat
deriving DecidableEq, Repr

/-- `EDNS_OPT_UPDATE_LEASE`. -/
def ednsOptUpdateLease : Nat := 2

/-- The option loop over an OPT rdata; a later option overwrites the lease of an earlier one, and
keeps its key lease if it has none itself. -/
def ednsOptions (pkt : Bytes) (rend : Nat) : Nat → Nat → Option UpdateLease → Option UpdateLease
  | 0, _, ul => ul
  | fuel + 1, rp, ul =>
    if rp + 4 ≤ rend ∧ rp + 4 ≤ pkt.length then
      let oc := get16 pkt rp
      let ol := get16 pkt (rp + 2)
      let p := rp + 4
      let ul' :=
        if oc = ednsOptUpdateLease ∧ (ol = 4 ∨ ol = 8) ∧ p + ol ≤ pkt.length then
          some ⟨get32 pkt p, if ol = 8 then some (get32 pkt (p + 4)) else ul.bind (·.keyLease)⟩
        else ul
      if p + ol > pkt.length then ul' else ednsOptions pkt rend fuel (p + ol) ul'
    else ul

/-- The scan of the additional section for the OPT record. -/
def ednsScan (pkt : Bytes) : Nat → Nat → Option UpdateLease
  | 0, _ => none
  | n + 1, off =>
    if off ≥ pkt.length then none
    else
      match skipName pkt off with
      | none => none
      | some a =>
        if a + 10 > pkt.length then none
        else
          let rdlen := get16 pkt (a + 8)
          if get16 pkt a = RRType.OPT then
            ednsOptions pkt (a + 10 + rdlen) pkt.length (a + 10) none
          else ednsScan pkt n (a + 10 + rdlen)

/-- `edns_parse`: the update lease, `none` where `has_update_lease` stays 0. -/
def ednsParse (pkt : Bytes) : Option UpdateLease :=
  if pkt.length < 12 ∨ arcount pkt = 0 then none
  else
    match ednsQuestions pkt (qdcount pkt) 12 with
    | none => none
    | some off =>
      match ednsSkip pkt (ancount pkt + nscount pkt) off with
      | none => none
      | some off' => ednsScan pkt (arcount pkt) off'

end SimpleDns.Wire
