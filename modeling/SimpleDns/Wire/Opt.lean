import SimpleDns.Wire.Edns

/-!
# EDNS in queries and responses (`edns_parse`, `edns_append_opt`, `dns_wire.c:1158-1395`)

`ednsInfo` is what `edns_parse` leaves of the options the query path reads, `ednsAppendOpt` the OPT
record at the end of a response. An option that does not fit the buffer is left out.

* **`padded_iff`**: an encrypted response with room for a further block is padded to it unless just
  the header of the padding would fill the block.
-/

namespace SimpleDns.Wire

/-! ## The OPT record of a query -/

/-- The fields of `edns_info_t` that answering a query reads. -/
structure EdnsInfo where
  present : Bool
  maxUdp : Nat
  version : UInt8
  doBit : Bool
  clientCookie : Option Bytes
  serverCookie : Option Bytes
  keepaliveReq : Bool
  hasPadding : Bool
  zoneversionReq : Bool
deriving DecidableEq, Repr

/-- A query without OPT. -/
def EdnsInfo.absent : EdnsInfo := ⟨false, 512, 0, false, none, none, false, false, false⟩

/-- The option codes (`dns_wire.h:101-108`). -/
def ednsOptNsid : Nat := 3
def ednsOptCookie : Nat := 10
def ednsOptKeepalive : Nat := 11
def ednsOptPadding : Nat := 12
def ednsOptEde : Nat := 15
def ednsOptReportChannel : Nat := 18
def ednsOptZoneversion : Nat := 19

/-- One option with `ol` octets of data at `p`. -/
def EdnsInfo.option (ei : EdnsInfo) (pkt : Bytes) (oc ol p : Nat) : EdnsInfo :=
  if oc = ednsOptCookie ∧ 8 ≤ ol then
    if p + ol ≤ pkt.length then
      { ei with
        clientCookie := some (slice pkt p 8)
        serverCookie := if 8 < ol ∧ ol ≤ 24 then some (slice pkt (p + 8) (ol - 8))
          else ei.serverCookie }
    else ei
  else if oc = ednsOptKeepalive then { ei with keepaliveReq := true }
  else if oc = ednsOptPadding then { ei with hasPadding := true }
  else if oc = ednsOptZoneversion ∧ ol = 0 then { ei with zoneversionReq := true }
  else ei

/-- The option loop. -/
def ednsInfoOptions (pkt : Bytes) (rend : Nat) : Nat → Nat → EdnsInfo → EdnsInfo
  | 0, _, ei => ei
  | fuel + 1, rp, ei =>
    if rp + 4 ≤ rend ∧ rp + 4 ≤ pkt.length then
      let ol := get16 pkt (rp + 2)
      let ei' := ei.option pkt (get16 pkt rp) ol (rp + 4)
      if rp + 4 + ol > pkt.length then ei' else ednsInfoOptions pkt rend fuel (rp + 4 + ol) ei'
    else ei

/-- The scan of the additional section; only the first OPT record counts. -/
def ednsInfoScan (pkt : Bytes) : Nat → Nat → EdnsInfo
  | 0, _ => .absent
  | n + 1, off =>
    if off ≥ pkt.length then .absent
    else
      match skipName pkt off with
      | none => .absent
      | some a =>
        if a + 10 > pkt.length then .absent
        else
          let rdlen := get16 pkt (a + 8)
          if get16 pkt a = RRType.OPT then
            ednsInfoOptions pkt (a + 10 + rdlen) pkt.length (a + 10)
              { EdnsInfo.absent with
                present := true
                maxUdp := get16 pkt (a + 2)
                version := byteAt pkt (a + 5)
                doBit := 128 ≤ byteAt pkt (a + 6) }
          else ednsInfoScan pkt n (a + 10 + rdlen)

/-- `edns_parse`. -/
def ednsInfo (pkt : Bytes) : EdnsInfo :=
  if pkt.length < 12 ∨ arcount pkt = 0 then .absent
  else
    match ednsQuestions pkt (qdcount pkt) 12 with
    | none => .absent
    | some off =>
      match ednsSkip pkt (ancount pkt + nscount pkt) off with
      | none => .absent
      | some off' => ednsInfoScan pkt (arcount pkt) off'

/-! ## The OPT record of a response -/

/-- `EDNS_MAX_UDP`. -/
def ednsMaxUdp : Nat := 1232

/-- What the caller of `edns_append_opt` supplies: the extended rcode, NSID, server cookie, extended
error, zone version, report agent and update lease. -/
structure OptData where
  rcodeExt : Nat
  nsid : Text
  serverCookie : Bytes
  ede : Option (Nat × Text)
  zoneversion : Option (Nat × Nat)
  reportAgent : Text
  lease : Option UpdateLease := none
deriving DecidableEq, Repr

/-- One option behind `opts`, where the options start at `base`. -/
def optAppend (blen base code : Nat) (data opts : Bytes) : Bytes :=
  if base + opts.length + 4 + data.length < blen then
    opts ++ put16 code ++ put16 data.length ++ data
  else opts

/-- The options before the padding, in the order of the source. -/
def optUnpadded (blen base : Nat) (isTcp : Bool) (ei : EdnsInfo) (d : OptData) : Bytes :=
  let o := if d.nsid = [] then [] else optAppend blen base ednsOptNsid d.nsid []
  let o := match ei.clientCookie with
    | some c => optAppend blen base ednsOptCookie (c ++ d.serverCookie) o
    | none => o
  let o := if isTcp && ei.keepaliveReq then optAppend blen base ednsOptKeepalive (put16 300) o
    else o
  let o := match d.ede with
    | some (code, text) => optAppend blen base ednsOptEde (put16 code ++ text) o
    | none => o
  let o := match d.zoneversion with
    | some (ls, serial) =>
      if ei.zoneversionReq ∧ ls ≤ 255 then
        optAppend blen base ednsOptZoneversion (ls.toUInt8 :: 0 :: put32 serial) o
      else o
    | none => o
  let o := if d.reportAgent = [] then o
    else match nameToWire d.reportAgent 256 with
      | some w => optAppend blen base ednsOptReportChannel w o
      | none => o
  match d.lease with
  | some ul =>
    optAppend blen base ednsOptUpdateLease (put32 ul.lease ++ ul.keyLease.elim [] put32) o
  | none => o

/-- The block a response over an encrypted transport is padded to. -/
def padBlock (ei : EdnsInfo) : Nat := if ei.hasPadding then 128 else 468

/-- The options with the padding. -/
def optOptions (blen base : Nat) (isTcp : Bool) (ei : EdnsInfo) (d : OptData) : Bytes :=
  let o := optUnpadded blen base isTcp ei d
  if isTcp then
    let pad := (padBlock ei - (base + o.length + 4) % padBlock ei) % padBlock ei
    if pad = 0 then o else optAppend blen base ednsOptPadding (List.replicate pad 0) o
  else o

/-- `edns_append_opt` behind `off` octets: the OPT record, empty where it does not fit. -/
def ednsAppendOpt (blen off : Nat) (isTcp doBit : Bool) (ei : EdnsInfo) (d : OptData) : Bytes :=
  if off + 11 > blen then []
  else
    let o := optOptions blen (off + 11) isTcp ei d
    0 :: put16 RRType.OPT ++ put16 (if isTcp then 65535 else ednsMaxUdp) ++
      [d.rcodeExt.toUInt8, 0, if doBit then 128 else 0, 0] ++ put16 o.length ++ o

/-! ## Padding -/

section Padding

variable {blen off : Nat} (doBit : Bool) (ei : EdnsInfo) (d : OptData)

/-- Where the record would end without padding, and the four octets of the padding's header. -/
def padFrom (blen off : Nat) (ei : EdnsInfo) (d : OptData) : Nat :=
  off + 11 + (optUnpadded blen (off + 11) true ei d).length + 4

/-- The response ends at a multiple of the block, and RDLENGTH is the length of the options. -/
def Padded (blen off : Nat) (doBit : Bool) (ei : EdnsInfo) (d : OptData) : Prop :=
  (off + (ednsAppendOpt blen off true doBit ei d).length) % padBlock ei = 0 ∧
    get16 (ednsAppendOpt blen off true doBit ei d) 9 =
      (ednsAppendOpt blen off true doBit ei d).length - 11

instance : Decidable (Padded blen off doBit ei d) := inferInstanceAs (Decidable (_ ∧ _))

theorem padded_iff_options (h : off + 11 ≤ blen) : Padded blen off doBit ei d ↔
    (off + 11 + (optOptions blen (off + 11) true ei d).length) % padBlock ei = 0 ∧
      (optOptions blen (off + 11) true ei d).length ≤ 65535 := by
  have hlen : (ednsAppendOpt blen off true doBit ei d).length =
      11 + (optOptions blen (off + 11) true ei d).length := by
    rw [ednsAppendOpt, if_neg (Nat.not_lt.mpr h)]
    simp [put16]
    omega
  have hrd : get16 (ednsAppendOpt blen off true doBit ei d) 9 =
      (optOptions blen (off + 11) true ei d).length % 65536 := by
    rw [ednsAppendOpt, if_neg (Nat.not_lt.mpr h)]
    simp [put16, get16, byteAt]
    omega
  rw [Padded, hlen, hrd, Nat.add_assoc, Nat.add_sub_cancel_left, Nat.mod_eq_iff_lt (by decide),
    Nat.lt_succ_iff]

theorem padBlock_cases : padBlock ei = 128 ∨ padBlock ei = 468 := by
  unfold padBlock
  split <;> simp

/-- Where the options end: without the header of the padding where nothing is left to pad. -/
theorem length_optOptions (hroom : padFrom blen off ei d + padBlock ei ≤ blen) :
    off + 11 + (optOptions blen (off + 11) true ei d).length =
      if padFrom blen off ei d % padBlock ei = 0 then padFrom blen off ei d - 4
      else padFrom blen off ei d + (padBlock ei - padFrom blen off ei d % padBlock ei) := by
  have hcur : off + 11 + (optUnpadded blen (off + 11) true ei d).length + 4 =
      padFrom blen off ei d := rfl
  have hblock : 0 < padBlock ei := by
    obtain h | h := padBlock_cases ei <;> omega
  simp only [optOptions, if_true, hcur]
  split_ifs with hpad hexact hexact
  · omega
  · have hlt := Nat.mod_lt (padFrom blen off ei d) hblock
    rw [Nat.mod_eq_of_lt (by omega)] at hpad
    omega
  · rw [hexact, Nat.sub_zero, Nat.mod_self] at hpad
    exact absurd rfl hpad
  · rw [Nat.mod_eq_of_lt (by omega), optAppend, if_pos]
    · simp only [List.length_append, List.length_replicate, put16, List.length_cons,
        List.length_nil]
      omega
    · rw [hcur, List.length_replicate]
      omega

/-- **When an encrypted response is padded to the block.** -/
theorem padded_iff (hroom : padFrom blen off ei d + padBlock ei ≤ blen) :
    Padded blen off doBit ei d ↔ padFrom blen off ei d % padBlock ei ≠ 0 ∧
      padFrom blen off ei d + (padBlock ei - padFrom blen off ei d % padBlock ei) ≤
        off + 11 + 65535 := by
  have hopts := length_optOptions ei d hroom
  have hhdr : 4 ≤ padFrom blen off ei d := Nat.le_add_left _ _
  rw [padded_iff_options doBit ei d (by unfold padFrom at hroom; omega), hopts]
  obtain hblock | hblock := padBlock_cases ei
  all_goals
    rw [hblock] at hopts ⊢
    split_ifs at hopts ⊢ <;> omega

end Padding

/-- Nothing to say in an OPT record. -/
def OptData.empty : OptData := ⟨0, [], [], none, none, [], none⟩

/-- A response of 200 octets is padded to 468. -/
theorem padded_short : Padded 4096 200 false .absent .empty :=
  (padded_iff false .absent .empty (by decide)).mpr (by decide)

/-- **Where only the header of the padding is missing nothing is padded**: the response ends at 464
octets, four short of the block. -/
theorem four_short_not_padded :
    453 + (ednsAppendOpt 4096 453 true false .absent .empty).length = 464 ∧
      ¬ Padded 4096 453 false .absent .empty := by
  decide

end SimpleDns.Wire
