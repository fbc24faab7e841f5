import SimpleDns.Server.Srp
import SimpleDns.Wire.Address
import SimpleDns.Wire.Compress

/-!
# Zone transfer (`dns_server.c:8398-8469`, `9213-9414`, `9708-9857`, `9983-10107`)

The way of a change from the primary's journal to the secondary's store: `ixfr_journal_fetch` picks
a contiguous chain of entries, `axfr_thread` turns each into a difference sequence
`SOA(from) [deleted] SOA(to) [added]`, the secondary's `xfr_pull` tells the sections apart by
counting SOAs, and `xfr_apply_diffs` applies them to its `zone:` keys. A stream of data records
between two SOAs is a full transfer, which `xfr_apply` writes over the `zone:` keys of the zone.

A record of the stream is one message of its own (`axfr_emit_one`). Here it is its owner, type, TTL
and rdata, the owner as it comes out of the wire form (`wireOwner`).
-/

namespace SimpleDns.Server

open Wire Lib RRType

/-! ## Reading an entry -/

/-- `%u` at the start of a text. -/
def scanU (s : Text) : Option (Nat × Text) := scanUnsigned 32 s

/-- A literal `'|'` of a format. -/
def scanBar (s : Text) : Option Text :=
  match s with
  | 124 :: rest => some rest
  | _ => none

/-- `sscanf(e, "%u|%u|", &fs, &ts) == 2`. -/
def scanSerials (e : Text) : Option (Nat × Nat) :=
  (scanU e).bind fun f => (scanBar f.2).bind fun r => (scanU r).map fun t => (f.1, t.1)

/-- `%255[^c]`: one to 255 octets up to a `c`. -/
def scanUntil (c : UInt8) (s : Text) : Option (Text × Text) :=
  let t := (s.takeWhile (· ≠ c)).take 255
  if t = [] then none else some (t, s.drop t.length)

/-- What `sscanf(e, "%u|%u|%c|%255[^|]|%255[^\n]", ..)` leaves in the variables. -/
structure JournalLine where
  fromSerial : Nat
  toSerial : Nat
  op : UInt8
  name : Text
  value : Text
deriving DecidableEq, Repr

/-- The conversions in order; the first that fails leaves the rest at their initial values. -/
def scanEntry (e : Text) : JournalLine :=
  match scanU e with
  | none => ⟨0, 0, opAdd, [], []⟩
  | some (fs, r) =>
    match (scanBar r).bind scanU with
    | none => ⟨fs, 0, opAdd, [], []⟩
    | some (ts, r) =>
      match scanBar r with
      | some (op :: r) =>
        match (scanBar r).bind (scanUntil 124) with
        | none => ⟨fs, ts, op, [], []⟩
        | some (name, r) =>
          match (scanBar r).bind (scanUntil 10) with
          | none => ⟨fs, ts, op, name, []⟩
          | some (value, _) => ⟨fs, ts, op, name, value⟩
      | _ => ⟨fs, ts, opAdd, [], []⟩

/-! ## The chain -/

/-- The walk of `ixfr_journal_fetch`: `want` is the serial the next entry has to start from, `none`
while the start of the chain has not been found. -/
def fetchLoop (fromSerial current maxEntries : Nat) :
    List Text → Option Nat → List Text → Option (List Text)
  | [], _, _ => none
  | e :: es, want, acc =>
    match scanSerials e with
    | none => fetchLoop fromSerial current maxEntries es want acc
    | some (fs, ts) =>
      if fs = want.getD fromSerial then
        if acc.length ≥ maxEntries then none
        else if ts = current then some (acc ++ [e])
        else fetchLoop fromSerial current maxEntries es (some ts) (acc ++ [e])
      else if want.isNone then fetchLoop fromSerial current maxEntries es want acc
      else none

variable (S : Settings) (st : State) (zone : Text)

/-- `ixfr_journal_fetch`; `none` is `-1`, on which the caller falls back to AXFR. -/
def ixfrJournalFetch (fromSerial current : Nat) : Option (List Text) :=
  fetchLoop fromSerial current ixfrJournalMax (st.journal (ixfrJournalKey S zone)) none []

/-! ## The stream -/

/-- A record of the stream. -/
inductive XfrRR
  | soa (serial : Nat)
  | data (owner : Text) (type ttl : Nat) (rdata : Bytes)
deriving DecidableEq, Repr

/-- An owner name through `append_rr` behind the header of a message, with no name to point to, and
`name_from_wire`; `none` is a name that has no wire form, whose message is not sent. -/
def wireOwner (name : Text) : Option Text :=
  (nameToWireC 4096 name 12 []).1.bind fun w =>
    (nameFromWire (List.replicate 12 0 ++ w) 12 256).map (·.1)

/-- The family and octets of an entry's value; any other value drops the entry. -/
def entryAddress (value : Text) : Option (Family × Bytes) :=
  match inetPton4 value with
  | some b => some (.inet, b)
  | none => (inetPton6 value).map fun b => (.inet6, b)

/-- The difference sequence of one entry. -/
def diffSequence (e : Text) : List XfrRR :=
  let l := scanEntry e
  match entryAddress l.value with
  | none => []
  | some (family, rd) =>
    let rr := (wireOwner l.name).toList.map fun n => XfrRR.data n family.rrtype defaultTtl rd
    .soa l.fromSerial :: ((if l.op = opDel then rr else []) ++
      .soa l.toSerial :: (if l.op = opAdd then rr else []))

/-- The IXFR branch of `axfr_thread` for a fetched chain. -/
def ixfrStream (current : Nat) (entries : List Text) : List XfrRR :=
  .soa current :: (entries.flatMap diffSequence ++ [.soa current])

/-! ## The secondary reads the stream -/

/-- `xfr_diff_t`. -/
structure XfrDiff where
  op : UInt8
  name : Text
  type : Nat
  ttl : Nat
  val : Text
deriving DecidableEq, Repr

/-- `mode`. -/
inductive PullMode
  | unknown
  | full
  | incremental
deriving DecidableEq, Repr

/-- `xfr_rec_t`. -/
structure XfrRec where
  name : Text
  type : Nat
  ttl : Nat
  val : Text
deriving DecidableEq, Repr

/-- The loop variables of `xfr_pull`. -/
structure Pull where
  soaCount : Nat
  mode : PullMode
  inAdd : Bool
  done : Bool
  target : Nat
  diffs : List XfrDiff
  recs : List XfrRec
deriving DecidableEq, Repr

/-- The name at an offset of the rdata, which ends its message. -/
def rdataName (rdata : Bytes) (off : Nat) : Option Text := (nameFromWire rdata off 256).map (·.1)

/-- `xfr_rdata_to_store`; `none` is `-1`, for a record that is not kept. No value reaches the 600
octets of the buffer. -/
def xfrRdataToStore (type : Nat) (rdata : Bytes) : Option Text :=
  if type = RRType.A then if rdata.length = 4 then some (inetNtop4 rdata) else none
  else if type = AAAA then if rdata.length = 16 then some (inetNtop6 rdata) else none
  else if type = NS ∨ type = CNAME ∨ type = DNAME then rdataName rdata 0
  else if type = MX then
    if rdata.length < 3 then none
    else (rdataName rdata 2).map fun tgt => decimal (get16 rdata 0) ++ 124 :: tgt
  else if type = TXT then
    -- the first character string only
    let sl := (byteAt rdata 0).toNat
    if rdata.length < 1 + sl then none else some (cstr (slice rdata 1 sl))
  else if type = SRV then
    if rdata.length < 7 then none
    else (rdataName rdata 6).map fun tgt =>
      decimal (get16 rdata 0) ++ 124 :: (decimal (get16 rdata 2) ++
        124 :: (decimal (get16 rdata 4) ++ 124 :: tgt))
  else none

/-- `XFR_MAX_DIFFS`. -/
def xfrMaxDiffs : Nat := 8192

/-- `XFR_MAX_RECORDS`. -/
def xfrMaxRecords : Nat := 50000

/-- One record of the stream; `none` where the transfer overflows. -/
def pullStep (p : Pull) (rr : XfrRR) : Option Pull :=
  if p.done then some p
  else
    match rr with
    | .soa s =>
      let n := p.soaCount + 1
      if n = 1 then some { p with soaCount := n, target := s }
      else if n % 2 = 0 ∧ s = p.target then some { p with soaCount := n, done := true }
      else
        some { p with
          soaCount := n
          mode := if p.mode = .unknown then .incremental else p.mode
          inAdd := n % 2 == 1 }
    | .data owner type ttl rdata =>
      let mode := if p.soaCount = 1 ∧ p.mode = .unknown then .full else p.mode
      match xfrRdataToStore type rdata with
      | none => some { p with mode := mode }
      | some val =>
        if mode = .incremental then
          if p.diffs.length ≥ xfrMaxDiffs then none
          else
            let op := if p.inAdd then opAdd else opDel
            some { p with mode := mode, diffs := p.diffs ++ [⟨op, owner, type, ttl, val⟩] }
        else if p.recs.length ≥ xfrMaxRecords then none
        else some { p with mode := mode, recs := p.recs ++ [⟨owner, type, ttl, val⟩] }

/-- The variables before the first record. -/
def Pull.initial : Pull := ⟨0, .unknown, false, false, 0, [], []⟩

/-- The diffs and the serial `xfr_pull` hands to `xfr_apply_diffs`; `none` for a stream that is not
a complete incremental one. -/
def xfrCollect (stream : List XfrRR) : Option (List XfrDiff × Nat) :=
  match stream.foldlM pullStep .initial with
  | some p => if p.done ∧ p.mode = .incremental then some (p.diffs, p.target) else none
  | none => none

/-! ## The secondary applies the diffs -/

/-- The values of a stored `ttl|v|v..`, as `xfr_apply_one_diff` reads them. -/
def groupValues (cur : Text) : List Text :=
  ((strtok 124 cur).tail.take 64).map fun v => safeStrcpy v 256

/-- The TTL of a stored `ttl|v|v..`. -/
def groupTtl (cur : Text) : Option Nat :=
  (strtok 124 cur).head?.map fun t => ((strtol 10 t) % 2 ^ 32).toNat

/-- `"%u|%s|%s.."`. -/
def groupText (ttl : Nat) (vals : List Text) : Text :=
  safeStrcpy (decimal ttl ++ vals.flatMap fun v => 124 :: v) 1024

/-- The values after an addition or a deletion. -/
def editValues (op : UInt8) (val : Text) (vals : List Text) : List Text :=
  if op = opAdd then
    if vals.any (eqCI · val) ∨ vals.length ≥ 64 then vals else vals ++ [safeStrcpy val 256]
  else vals.eraseP (eqCI · val)

/-- `xfr_apply_one_diff` on the store of the secondary. -/
def xfrApplyOneDiff (s : Store) (d : XfrDiff) : Store :=
  let key := zkey (zone.take 255) ((type2str d.type).take 16) (d.name.take 255)
  if d.type ≠ RRType.A ∧ d.type ≠ AAAA ∧ d.type ≠ NS then
    if d.op = opAdd then vkSet s key (safeStrcpy (decimal d.ttl ++ [124] ++ d.val) 1024) 0
    else vkDel s key
  else
    let cur := (vkGet s key 1024).getD []
    let vals := editValues d.op d.val (groupValues cur)
    let ttl := if d.op = opAdd ∧ d.ttl ≠ 0 then d.ttl
      else (groupTtl cur).getD (ttlOr d.ttl)
    if vals = [] then vkDel s key else vkSet s key (groupText ttl vals) 0

/-- `xfr_set_serial`. -/
def xfrSetSerial (serial : Nat) : State :=
  let primary := eqCI zone S.zoneName
  let key := if primary then lit "config:zone_serial"
    else lit "config:zone:" ++ zone.take 255 ++ lit ":serial"
  { st with
    counter := Function.update st.counter key serial
    soaSerial := if primary then serial else st.soaSerial
    zones := st.zones.map fun z => if eqCI z.name zone then { z with soaSerial := serial } else z }

/-- `xfr_apply_diffs`. -/
def xfrApplyDiffs (diffs : List XfrDiff) (serial : Nat) : State :=
  xfrSetSerial S { st with store := diffs.foldl (xfrApplyOneDiff zone) st.store } zone serial

/-! ## The secondary applies a full transfer -/

/-- The types whose records share one value per owner. -/
def XfrRec.grouped (r : XfrRec) : Bool :=
  r.type = RRType.A ∨ r.type = AAAA ∨ r.type = NS

/-- `r'` goes into the value of `r`. -/
def XfrRec.joins (r r' : XfrRec) : Bool := r'.type = r.type ∧ eqCI r'.name r.name

/-- One `vk_set` of `xfr_apply`. -/
def xfrWrite (s : Store) (r : XfrRec) (val : Text) : Store :=
  vkSet s (zkey (zone.take 255) ((type2str r.type).take 16) (r.name.take 255)) val 0

/-- The loop of `xfr_apply`. `heads` are the records a grouped value was written for, so
`written[i]` is set for the records that join one of them. -/
def xfrWriteAll (zone : Text) : List XfrRec → List XfrRec → Store → Store
  | [], _, s => s
  | r :: rs, heads, s =>
    if heads.any (·.joins r) then xfrWriteAll zone rs heads s
    else if r.grouped then
      xfrWriteAll zone rs (r :: heads)
        (xfrWrite zone s r (groupText r.ttl (r.val :: (rs.filter r.joins).map (·.val))))
    else
      xfrWriteAll zone rs heads
        (xfrWrite zone s r (safeStrcpy (decimal r.ttl ++ [124] ++ r.val) 1024))

/-- The deletion of the keys `zone:<zone>:*`, for a zone name without glob characters. -/
def xfrClear (s : Store) : Store := fun key =>
  if (lit "zone:" ++ zone.take 255 ++ lit ":").isPrefixOf key then none else s key

/-- `xfr_apply`. -/
def xfrApply (recs : List XfrRec) (serial : Nat) : State :=
  xfrSetSerial S { st with store := xfrWriteAll zone recs [] (xfrClear zone st.store) } zone serial

/-- `xfr_get_serial`. -/
def xfrGetSerial : Nat :=
  ((st.zones.find? fun z => eqCI z.name zone).map (·.soaSerial)).getD 0

/-- What `xfr_pull` takes a stream for. -/
inductive Reading
  | refused
  | upToDate
  | diffs (ds : List XfrDiff) (serial : Nat)
  | full (recs : List XfrRec) (serial : Nat)
deriving DecidableEq, Repr

/-- The decision of `xfr_pull` behind its loop. -/
def xfrRead (localSerial : Nat) (stream : List XfrRR) : Reading :=
  match stream.foldlM pullStep .initial with
  | none => .refused
  | some p =>
    if p.done then
      if p.mode = .incremental then .diffs p.diffs p.target else .full p.recs p.target
    else if p.soaCount = 1 ∧ p.target = localSerial then .upToDate
    else .refused

/-- What `xfr_pull` does about it. -/
def Reading.apply : Reading → Option State
  | .refused => none
  | .upToDate => some st
  | .diffs ds serial => some (xfrApplyDiffs S st zone ds serial)
  | .full recs serial => some (xfrApply S st zone recs serial)

/-- `xfr_pull` behind the signature check: the state after the stream, `none` for a stream that is
refused. A lone SOA with the serial the secondary has changes nothing. -/
def xfrPull (stream : List XfrRR) : Option State :=
  (xfrRead (xfrGetSerial st zone) stream).apply S st zone

end SimpleDns.Server
