import SimpleDns.Server.Served
import SimpleDns.Wire.Opt

/-!
# Emitting RRsets into a response (`dns_server.c:712-768`, `5702-5888`)

* `Dnsd` is the server as answering a query sees it: store, zone table, the globals behind a query
  without a zone, and the settings. Hash functions are parameters.
* `Build` is a response under construction. Beside the octets and the compression context it holds,
  for each section, the counter the source counts and the data records emitted so far (RRSIGs are
  counted but not listed).
* `addrRrset`, `nsRrset` and `dsRrset` are the records `emit_addr_rrset`, `emit_ns_rrset` and
  `emit_ds_rrset` emit for a stored value.
-/

namespace SimpleDns.Server

open Wire Lib RRType

/-! ## The server -/

/-- `lb_mode_t`. -/
inductive LbMode
  | none
  | rr
  | random
deriving DecidableEq, Repr

/-- The server. `scan pat` lists the keys of `SCAN MATCH pat`; `lbHealth` is the health table,
`none` with health checking off; `siphash` is `siphash24` under `g_cookie_secret`. -/
structure Dnsd where
  store : Store
  scan : Text → List Text
  zones : List ServedZone
  global : ServedZone
  secondary : Bool
  nsid : Text
  reportAgent : Text
  dnsxlZones : Text
  lbMode : LbMode
  rrRotate : Bool
  lbHealth : Option (List (Text × Bool))
  forwardEnabled : Bool
  forwardAllow : Text
  sha1 : Bytes → Bytes
  sha256 : Bytes → Bytes
  siphash : Bytes → Bytes
  length_sha1 : ∀ m, (sha1 m).length = 20
  length_sha256 : ∀ m, (sha256 m).length = 32

/-- `g_lb_counter`, `g_rr_rot` and the values `rand` returns. -/
structure LbState where
  counter : Nat
  buckets : Nat → Nat
  rand : Nat → Nat
  drawn : Nat

/-- The query being answered: what is in scope of the lookups. -/
structure Ctx where
  server : Dnsd
  zone : Option ServedZone
  qname : Text
  qtype : Nat
  now : Nat
  blen : Nat
  dnssecOk : Bool

/-- `t_zone ? t_zone->name : ""`. -/
def Ctx.keyZone (c : Ctx) : Text := (c.zone.map (·.name)).getD []

/-- The zone, or the globals where there is none. -/
def Ctx.zoneOrGlobal (c : Ctx) : ServedZone := c.zone.getD c.server.global

/-- The type is asked for: `qtype == t || qtype == DNS_TYPE_ANY`. -/
def Ctx.wants (c : Ctx) (t : Nat) : Bool := c.qtype == t || c.qtype == ANY

/-! ## Responses -/

/-- A data record: `source` is the owner its rdata was found under. -/
structure Rec where
  owner : Text
  type : Nat
  ttl : Nat
  rdata : Bytes
  source : Text
deriving DecidableEq, Repr

/-- One section: its counter and its data records. -/
structure Section where
  count : Nat
  recs : List Rec
deriving DecidableEq, Repr

/-- The empty section. -/
def Section.empty : Section := ⟨0, []⟩

/-- The response under construction. -/
structure Build where
  msg : Bytes
  cc : CompressCtx
  answer : Section
  authority : Section
  additional : Section
  found : Bool
  isReferral : Bool
  lb : LbState

/-- The record joins the list when the counter moved. -/
def Section.push (s : Section) (count : Nat) (r : Rec) : Section :=
  ⟨count, if count = s.count then s.recs else s.recs ++ [r]⟩

/-- `emit_rr` behind `msg` into a section. -/
def emitSection (c : Ctx) (dnssecOk : Bool) (msg : Bytes) (cc : CompressCtx) (s : Section)
    (r : Rec) : Response × Section :=
  let E := emitRR (c.zone.map (·.signing)) c.now c.blen dnssecOk ⟨msg, cc, s.count⟩ r.owner r.type
    r.ttl r.rdata
  (E, s.push E.answers { r with ttl := ttlClamp r.ttl })

variable (b : Build) (c : Ctx)

/-- `emit_rr(.., &answers)`. -/
def Build.emit (r : Rec) : Build :=
  let e := emitSection c c.dnssecOk b.msg b.cc b.answer r
  { b with msg := e.1.msg, cc := e.1.cc, answer := e.2 }

/-- `emit_rr(.., &auth_count)`. -/
def Build.emitAuthority (dnssecOk : Bool) (r : Rec) : Build :=
  let e := emitSection c dnssecOk b.msg b.cc b.authority r
  { b with msg := e.1.msg, cc := e.1.cc, authority := e.2 }

/-- `emit_rr(.., 0, &glue_count)`. -/
def Build.emitGlue (r : Rec) : Build :=
  let e := emitSection c false b.msg b.cc b.additional r
  { b with msg := e.1.msg, cc := e.1.cc, additional := e.2 }

/-- The records one after another. -/
def Build.emitAll (rs : List Rec) : Build := rs.foldl (·.emit c) b

/-- `found = 1`. -/
def Build.find : Build := { b with found := true }

/-! ## Addresses -/

/-- `LB_MAX_ADDRS`. -/
def lbMaxAddrs : Nat := 32

/-- `lb_ip_is_up`: an address that is not in the table is up. -/
def lbIpIsUp (table : List (Text × Bool)) (ip : Text) : Bool := (table.lookup ip).getD true

variable (D : Dnsd)

/-- The addresses to emit: the first 32, with health checking those that are up, or all of them if
none is. -/
def lbSet (val : Text) : List Text :=
  let ips := (strtok bar (splitTtl val).2).take lbMaxAddrs
  match D.lbHealth with
  | none => ips
  | some table =>
    let healthy := ips.filter (lbIpIsUp table)
    if healthy = [] then ips else healthy

/-- The bucket of a name in `g_rr_rot`. -/
def rotBucket (name : Text) : Nat :=
  let h := name.foldl (fun h c => (h * 33 + c.toNat) % 2 ^ 32) 5381
  Nat.xor h (h / 65536) % 1024

/-- `rr_rotate_offset`. -/
def rrRotateOffset (lb : LbState) (name : Text) (n : Nat) : Nat × LbState :=
  if !D.rrRotate || n ≤ 1 then (0, lb)
  else
    let idx := rotBucket name
    (lb.buckets idx % n,
      { lb with buckets := Function.update lb.buckets idx ((lb.buckets idx + 1) % 2 ^ 32) })

/-- The rotation start over `n` addresses. -/
def rotationStart (lb : LbState) (name : Text) (n : Nat) : Nat × LbState :=
  match D.lbMode with
  | .rr => (lb.counter % n, { lb with counter := (lb.counter + 1) % 2 ^ 32 })
  | .random => (lb.rand lb.drawn % n, { lb with drawn := lb.drawn + 1 })
  | .none => rrRotateOffset D lb name n

variable (owner : Text)

/-- The records of `emit_addr_rrset` for a stored value, and the rotation state after it. -/
def addrRrset (lb : LbState) (owner source : Text) (f : Family) (val : Text) : List Rec × LbState :=
  let set := lbSet D val
  if set = [] then ([], lb)
  else
    let (start, lb) := rotationStart D lb owner set.length
    ((set.rotate start).filterMap fun ip =>
      (f.pton ip).map fun rd => ⟨owner, f.rrtype, (splitTtl val).1, rd, source⟩, lb)

/-- `emit_addr_rrset(.., &answers)`. -/
def Build.emitAddrRrset (source : Text) (f : Family) (val : Text) : Build :=
  let r := addrRrset c.server b.lb owner source f val
  { b with lb := r.2 }.emitAll c r.1

/-- `emit_addr_rrset(.., 0, &glue_count)`. -/
def Build.emitGlueRrset (f : Family) (val : Text) : Build :=
  let r := addrRrset c.server b.lb owner owner f val
  r.1.foldl (·.emitGlue c) { b with lb := r.2 }

/-! ## Name servers and DS -/

/-- The records of `emit_ns_rrset`. -/
def nsRrset (val : Text) : List Rec :=
  (strtok bar (splitTtl val).2).filterMap fun ns =>
    (nameToWire ns 300).map fun rd => ⟨owner, NS, (splitTtl val).1, rd, owner⟩

/-- A literal octet of a format. -/
def scanLit (c : UInt8) (s : Text) : Option Text := if s.head? = some c then some s.tail else none

/-- One entry `keytag,alg,digtype,hexdigest` of a stored DS value, `none` where it is skipped. -/
def dsEntry (ent : Text) : Option Bytes := do
  let (keytag, s) ← scanD ent
  let (alg, s) ← scanD (← scanLit 44 s)
  let (digtype, s) ← scanD (← scanLit 44 s)
  let s ← scanLit 44 s
  let hex := (s.takeWhile fun c => (digitVal 16 c).isSome).take 256
  let digest := hexDec 128 hex
  if hex = [] ∨ keytag < 0 ∨ keytag > 0xFFFF ∨ alg < 0 ∨ alg > 0xFF ∨ digtype < 0 ∨ digtype > 0xFF ∨
      digest = [] then none
  else some (put16 keytag.toNat ++ [alg.toNat.toUInt8, digtype.toNat.toUInt8] ++ digest)

/-- The records of `emit_ds_rrset`. -/
def dsRrset (val : Text) : List Rec :=
  (strtok bar (splitTtl val).2).filterMap fun ent =>
    (dsEntry ent).map fun rd => ⟨owner, DS, (splitTtl val).1, rd, owner⟩

/-! ## Keys -/

/-- One key of the DNSKEY answer: appended without `emit_rr`, key-signing keys with an RRSIG over
their own record, incoming keys without `found`. -/
def Build.appendKey (flags alg : Nat) (incoming : Bool) (key : Option KeyPair) : Build :=
  match key with
  | none => b
  | some k =>
    let rd := dnskeyRdata flags alg k
    let E := Response.append ⟨b.msg, b.cc, b.answer.count⟩ c.blen c.qname DNSKEY 3600 rd
    let answer := b.answer.push E.answers ⟨c.qname, DNSKEY, 3600, rd, c.qname⟩
    let E' := if flags = flagKsk ∧ c.dnssecOk then
        E.appendRrsig c.now c.blen c.keyZone c.qname DNSKEY 3600 rd (some k.toZoneKey) alg
      else E
    { b with
      msg := E'.msg, cc := E'.cc, answer := { answer with count := E'.answers }
      found := b.found || !incoming }

/-- `emit_ds_like`. -/
def Build.emitDsLike (type alg : Nat) (key : Option KeyPair) : Build :=
  match key with
  | none => b
  | some k =>
    match dsRdataFromDnskey c.server.sha256 c.qname (dnskeyRdata flagKsk alg k) k.tag alg with
    | none => b
    | some rd => b.emit c ⟨c.qname, type, 3600, rd, c.qname⟩

/-- `emit_cdnskey`. -/
def Build.emitCdnskey (alg : Nat) (key : Option KeyPair) : Build :=
  match key with
  | none => b
  | some k => b.emit c ⟨c.qname, CDNSKEY, 3600, dnskeyRdata flagKsk alg k, c.qname⟩

end SimpleDns.Server
