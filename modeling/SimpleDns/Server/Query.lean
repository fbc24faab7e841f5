import SimpleDns.Server.Emit

/-!
# Answering a query (`build_query_resp`, `dns_server.c:6138-7143`)

`buildQueryResp` reads the question, selects the zone and then tries one lookup after another: each
is a function on the response under construction, in the order of the source. `goto finish_answer`
is `Except.error`: the lookups behind it are skipped, and `finishAnswer` runs on what is there.

* `question` is everything up to the lookups: replies that need none (FORMERR, BADVERS, BADCOOKIE,
  CHAOS, REFUSED, a relayed answer, an expired secondary) leave there.
* `lookups` is the sequence of lookups, `found` the flag they set: `typedLookups` those guarded by
  the queried type, then the alias and the wildcard.
* `finishAnswer` sets counts and rcode, adds SOA and denial, truncates and appends OPT.

The HINFO record of an ANY answer is written behind the end of the response and overwritten by OPT,
so it is not part of the reply; statistics and logging are left out.
-/

namespace SimpleDns.Server

open Wire Lib RRType

/-! ## Replies -/

/-- What `rrl_check` says. -/
inductive RrlAction
  | send
  | drop
  | slip
deriving DecidableEq, Repr

/-- A query as it arrives: octets, response buffer size, transport, client address, time, rotation
state, the rate limiter's verdict and what `forward_query` would relay. -/
structure Request where
  query : Bytes
  blen : Nat
  isTcp : Bool
  cip : Bytes
  now : Nat
  lb : LbState
  rrl : RrlAction
  forwarded : Option Bytes

/-- A response: header fields, the octets behind the header, and the data records of its
sections. -/
structure Reply where
  rcode : Nat
  aa : Bool
  tc : Bool
  ad : Bool
  qdcount : Nat
  ancount : Nat
  nscount : Nat
  arcount : Nat
  body : Bytes
  answer : List Rec
  authority : List Rec
  additional : List Rec
deriving DecidableEq, Repr

/-- The result of `build_query_resp`: `-1`, an upstream's answer, or a response. -/
inductive QueryResult
  | drop
  | relay (octets : Bytes)
  | reply (r : Reply)
deriving DecidableEq, Repr

/-- A reply without records. -/
def Reply.bare (rcode : Nat) (aa : Bool) (qdcount : Nat) (body : Bytes) : Reply :=
  ⟨rcode, aa, false, false, qdcount, 0, 0, 0, body, [], [], []⟩

/-- The rcodes the query path uses. -/
def rcodeNoError : Nat := 0
def rcodeFormErr : Nat := 1
def rcodeServFail : Nat := 2
def rcodeNxDomain : Nat := 3
def rcodeRefused : Nat := 5

/-! ## Locally served zones and access lists -/

/-- `g_local_zones`. -/
def localZones : List Text :=
  [lit "localhost", lit "127.in-addr.arpa", lit "0.in-addr.arpa", lit "255.in-addr.arpa",
    lit "0.0.0.0.0.0.0.0.0.0.0.0.0.0.0.0.0.0.0.0.0.0.0.0.0.0.0.0.0.0.0.0.ip6.arpa",
    lit "d.f.ip6.arpa", lit "8.e.f.ip6.arpa", lit "9.e.f.ip6.arpa", lit "a.e.f.ip6.arpa",
    lit "b.e.f.ip6.arpa", lit "home.arpa"]

/-- `is_local_zone`. -/
def isLocalZone (qname : Text) : Bool := localZones.any (zoneMatches · (safeStrcpy qname 256))

/-- An address matches a network of `bits` bits. -/
def sameNetwork (bits : Nat) (a b : Bytes) : Bool :=
  get32 a 0 / 2 ^ (32 - bits) == get32 b 0 / 2 ^ (32 - bits)

/-- `atoi` as `(int) strtol(s, NULL, 10)`: saturated at 64 bits, then cut to 32. -/
def atoiInt (s : Text) : Int := (max (-2 ^ 63) (min (2 ^ 63 - 1) (atoi s))).bmod (2 ^ 32)

/-- An entry of an access list without the blanks before it, as `ip_list_allowed` reads it. -/
def entryRead (tok : Text) (ip : Bytes) : Bool :=
  let addr := tok.takeWhile (· ≠ 47)
  let bits := if addr.length = tok.length then 32
    else min 32 (atoiInt (tok.drop (addr.length + 1))).toNat
  match inetPton4 addr with
  | some net => sameNetwork bits ip net
  | none => false

/-- `ip_list_allowed`. -/
def ipListAllowed (list : Text) (ip : Bytes) : Bool :=
  (strtok 44 (safeStrcpy list 1024)).any fun tok => entryRead (tok.dropWhile (· = 32)) ip

/-! ## Cookies and OPT -/

/-- `compute_server_cookie`. -/
def computeServerCookie (D : Dnsd) (ccookie cip : Bytes) (timestamp : Nat) : Bytes :=
  let head := [1, 0, 0, 0] ++ put32 timestamp
  head ++ D.siphash (ccookie ++ head ++ cip)

/-- `cookie_verify`. -/
def cookieVerify (D : Dnsd) (ei : EdnsInfo) (cip : Bytes) (now : Nat) : Bool :=
  match ei.clientCookie with
  | none => true
  | some cc =>
    match ei.serverCookie with
    | none => false
    | some sc =>
      let ts := get32 sc 4
      sc.length == 16 && ts ≤ now && now - ts ≤ 3600 && computeServerCookie D cc cip ts == sc

/-- `report_agent_is_subdomain_of`. -/
def reportAgentIsSubdomainOf (agent zone : Text) : Bool :=
  zone.length != 0 && zone.length ≤ agent.length &&
    if agent.length = zone.length then eqCI agent zone
    else byteAt agent (agent.length - zone.length - 1) == dot &&
      eqCI (agent.drop (agent.length - zone.length)) zone

/-- `zone_label_count`. -/
def zoneLabelCount (name : Text) : Nat := if name = [] then 0 else name.count dot + 1

/-- `dnsd_edns_opt` behind `off` octets. -/
def dnsdEdnsOpt (D : Dnsd) (zone : Option ServedZone) (req : Request) (ei : EdnsInfo) (off : Nat)
    (doBit : Bool) (rcodeExt : Nat) (ede : Option (Nat × Text)) : Bytes :=
  let agent := match zone with
    | some Z => if reportAgentIsSubdomainOf D.reportAgent Z.name then [] else D.reportAgent
    | none => D.reportAgent
  ednsAppendOpt req.blen off req.isTcp doBit ei
    { rcodeExt
      nsid := D.nsid
      serverCookie := computeServerCookie D (ei.clientCookie.getD []) req.cip req.now
      ede
      zoneversion := zone.map fun Z => (zoneLabelCount Z.name, Z.soaSerial)
      reportAgent := agent }

/-- A reply with its OPT record, which counts as an additional record where it fits. -/
def Reply.withOpt (r : Reply) (opt : Bytes) : Reply :=
  { r with body := r.body ++ opt, arcount := r.arcount + if opt = [] then 0 else 1 }

/-! ## The question -/

/-- What the checks before the lookups leave. -/
structure Question where
  qname : Text
  qtype : Nat
  /-- The offset behind the name. -/
  after : Nat
  edns : EdnsInfo
  zone : Option ServedZone

/-- The question section, copied into the reply. -/
def Question.octets (q : Question) (query : Bytes) : Bytes := slice query 12 (q.after - 12 + 4)

/-- The end of the question section in the response. -/
def Question.fin (q : Question) : Nat := q.after + 4

/-- `zone_for_qname` on the served zones. -/
def Dnsd.zoneFor (D : Dnsd) (qname : Text) : Option ServedZone :=
  (zoneForQname (D.zones.map (·.toZoneEntry)) qname).bind fun i => D.zones[i]?

/-- A secondary past the SOA expire of the zone. -/
def Dnsd.expired (D : Dnsd) (Z : ServedZone) (now : Nat) : Bool :=
  D.secondary && Z.xfrLastOk != 0 && Z.xfrLastOk + Z.soa.expire < now

/-- The CHAOS identity query. -/
def isIdentityQuery (qname : Text) (qtype qclass : Nat) : Bool :=
  qclass == RRClass.CH && qtype == TXT &&
    (eqCI qname (lit "id.server") || eqCI qname (lit "hostname.bind"))

/-- The answer to `id.server` and `hostname.bind`. -/
def identityReply (D : Dnsd) (req : Request) (q : Question) : Reply :=
  let body := q.octets req.query
  let text := if D.nsid = [] then lit "unknown" else D.nsid
  let msg := List.replicate 12 0 ++ body
  let r : Reply := match txtEncode text 256 with
    | none => .bare rcodeNoError true 1 body
    | some rd =>
      match (appendRR req.blen msg [] q.qname TXT RRClass.CH 0 rd).1 with
      | none => .bare rcodeNoError true 1 body
      | some msg =>
        { Reply.bare rcodeNoError true 1 (msg.drop 12) with
          ancount := 1, answer := [⟨q.qname, TXT, 0, rd, q.qname⟩] }
  r.withOpt (dnsdEdnsOpt D none req q.edns (12 + r.body.length) false 0 none)

/-- The checks of `build_query_resp` before the lookups. -/
def question (D : Dnsd) (req : Request) : Except QueryResult Question :=
  let query := req.query
  if query.length < 12 then .error .drop
  else if qdcount query ≠ 1 then .error (.reply (.bare rcodeFormErr false 0 []))
  else
    match nameFromWire query 12 256 with
    | none => .error .drop
    | some (qname, after) =>
      if after + 3 ≥ query.length ∨ after + 4 > req.blen then .error .drop
      else
        let qtype := get16 query after
        let ei := ednsInfo query
        let q : Question := ⟨qname, qtype, after, ei, none⟩
        let bare := Reply.bare rcodeNoError true 1 (q.octets query)
        if ei.present && ei.version != 0 then
          .error (.reply (bare.withOpt (dnsdEdnsOpt D none req ei q.fin false 1 none)))
        else if !cookieVerify D ei req.cip req.now then
          .error (.reply ({ bare with rcode := 7 }.withOpt
            (dnsdEdnsOpt D none req ei q.fin false 1 none)))
        else if isIdentityQuery qname qtype (get16 query (after + 2)) then
          .error (.reply (identityReply D req q))
        else
          match D.zoneFor qname with
          | some Z =>
            if D.expired Z req.now then
              .error (.reply (.bare rcodeServFail false 1 (q.octets query)))
            else .ok { q with zone := some Z }
          | none =>
            if isLocalZone qname then .ok q
            else if req.isTcp && D.forwardEnabled && (get16 query 2).testBit 8 &&
                ipListAllowed D.forwardAllow req.cip && req.forwarded.isSome then
              .error (.relay (req.forwarded.getD []))
            else
              .error (.reply ({ bare with rcode := rcodeRefused, aa := false }.withOpt
                (dnsdEdnsOpt D none req ei q.fin false 0
                  (some (20, lit "Not authoritative for this zone")))))

/-! ## Denial -/

variable (c : Ctx) (b : Build)

/-- `add_soa_authority`. -/
def Build.addSoaAuthority (c : Ctx) : Build :=
  let Z := c.zoneOrGlobal
  match buildSoaRdata Z c.server.global with
  | none => b
  | some rd => b.emitAuthority c c.dnssecOk ⟨Z.name, SOA, Z.negativeTtl, rd, Z.name⟩

/-- `add_nsec_denial` and `add_nsec3_denial`. -/
def Build.addDenial (c : Ctx) : Build :=
  let Z := c.zoneOrGlobal
  if Z.denial.useNsec3 then
    let owner := nsec3Owner c.server.sha1 Z.name Z.denial c.qname
    b.emitAuthority c c.dnssecOk ⟨owner, NSEC3, Z.negativeTtl,
      nsec3Rdata c.server.sha1 Z.name Z.denial c.qtype, owner⟩
  else
    match nsecRdata Z.name with
    | none => b
    | some rd =>
      b.emitAuthority c c.dnssecOk ⟨c.qname, NSEC, Z.negativeTtl, rd, c.qname⟩

/-- SOA and, under the DO bit, the denial. -/
def Build.deny (c : Ctx) : Build :=
  let b := b.addSoaAuthority c
  if c.dnssecOk then b.addDenial c else b

/-! ## Delegations -/

/-- The loop of `zone_delegation_cut`: the cut and its stored value. -/
def cutLoop (s : Store) (zone : Text) : Nat → Text → Option (Text × Text)
  | 0, _ => none
  | fuel + 1, cand =>
    if cand.length ≤ zone.length then none
    else
      match vkGet s (zkey zone (lit "NS") cand) 512 with
      | some val => some (cand, val)
      | none =>
        if dot ∈ cand then cutLoop s zone fuel ((cand.dropWhile (· ≠ dot)).drop 1) else none

/-- `zone_delegation_cut`. -/
def zoneDelegationCut (s : Store) (zone qname : Text) : Option (Text × Text) :=
  cutLoop s zone 256 (safeStrcpy qname 256)

/-- The glue of one name server. -/
def Build.emitGlueFor (c : Ctx) (zone ns : Text) : Build :=
  if zone.isEmpty || !zoneMatches zone ns then b
  else
    let step := fun (b : Build) (f : Family) =>
      match vkGet c.server.store (zkey zone f.typeName ns) 128 with
      | some val => b.emitGlueRrset c ns f val
      | none => b
    step (step b .inet) .inet6

/-- The delegation block: the DS of a child from the parent, or a referral with glue. -/
def delegation : Except Build Build :=
  match c.zone with
  | none => .ok b
  | some Z =>
    match zoneDelegationCut c.server.store Z.name c.qname with
    | none => .ok b
    | some (cut, val) =>
      let ds := if c.qtype = DS ∧ eqCI c.qname cut then
          vkGet c.server.store (zkey Z.name (lit "DS") cut) 900
        else none
      match ds with
      | some dsval => .error (b.find.emitAll c (dsRrset cut dsval))
      | none =>
        let b := { b with found := true, isReferral := true }
        let b := (nsRrset cut val).foldl (·.emitAuthority c false) b
        .error ((strtok bar (splitTtl val).2).foldl (·.emitGlueFor c Z.name) b)

/-! ## Synthesised records -/

/-- The listed suffix of `g_dnsxl_zones` the name is below. -/
def dnsxlZone (D : Dnsd) (qname : Text) : Option Text :=
  (strtok 44 D.dnsxlZones).find? fun z =>
    z.length + 1 < qname.length && eqCI (qname.drop (qname.length - z.length)) z &&
      byteAt qname (qname.length - z.length - 1) == dot

/-- The leading labels as a reversed IPv4 address. -/
def dnsxlAddress (qname : Text) : Option Text := do
  let (d, s) ← scanU qname
  let (c, s) ← scanU (← scanLit dot s)
  let (b, s) ← scanU (← scanLit dot s)
  let (a, _) ← scanU (← scanLit dot s)
  if a > 255 ∨ b > 255 ∨ c > 255 ∨ d > 255 then none
  else some (joinDots [decimal a, decimal b, decimal c, decimal d])

/-- The stored listing of the name. -/
def dnsxlListing (D : Dnsd) (qname : Text) : Option Text := do
  let z ← dnsxlZone D qname
  let ip ← dnsxlAddress qname
  vkGet D.store (lit "dnsxl:" ++ z ++ [colon] ++ ip) 256

/-- `if (rl > 0)`. -/
def nonempty (rd : Option Bytes) : Option Bytes := rd.filter (· ≠ [])

/-- The A and TXT records of a listing. -/
def dnsxlRrset (val : Text) : List Rec :=
  let code := (atoi val % 2 ^ 32).toNat
  let code := if code = 0 then 2 else code
  let reason := if bar ∈ val then (val.dropWhile (· ≠ bar)).drop 1 else lit "listed"
  let a : List Rec := if c.wants RRType.A then
      [⟨c.qname, RRType.A, 3600, [127, 0, 0, code.toUInt8], c.qname⟩]
    else []
  let txt : List Rec := if c.wants TXT then
      ((nonempty (txtEncode reason 256)).map fun rd =>
        ⟨c.qname, TXT, 3600, rd, c.qname⟩).toList
    else []
  a ++ txt

/-- `dnsxl_try`. -/
def dnsxlTry : Except Build Build :=
  match dnsxlListing c.server c.qname with
  | none => .ok b
  | some val => .error (b.find.emitAll c (dnsxlRrset c val))

/-- `if (any_minimal && answers > 0) goto finish_answer`. -/
def minimalAny : Except Build Build :=
  if c.qtype = ANY ∧ b.answer.count > 0 then .error b else .ok b

/-- The DNSKEY answer in order: flags, algorithm, whether the key is an incoming one, and the key.
Zone-signing keys come first; incoming keys are published during a rollover only. -/
def ZoneKeys.published (K : ZoneKeys) : List (Nat × Nat × Bool × Option KeyPair) :=
  let zskNext := fun k : Option KeyPair => if K.rollPhase = .none then none else k
  let kskNext := fun k : Option KeyPair => if K.kskRollPhase = .none then none else k
  [(flagZsk, algEcdsaP256, false, K.zsk), (flagZsk, algEd25519, false, K.zskEd),
    (flagZsk, algEcdsaP256, true, zskNext K.zskNext),
      (flagZsk, algEd25519, true, zskNext K.zskEdNext),
    (flagKsk, algEcdsaP256, false, K.ksk), (flagKsk, algEd25519, false, K.kskEd),
    (flagKsk, algEcdsaP256, true, kskNext K.kskNext),
      (flagKsk, algEd25519, true, kskNext K.kskEdNext)]

/-- DNSKEY, at every name of a zone. -/
def dnskeyLookup : Except Build Build :=
  match c.wants DNSKEY, c.zone with
  | true, some Z =>
    minimalAny c (Z.keys.published.foldl (fun b k => b.appendKey c k.1 k.2.1 k.2.2.1 k.2.2.2) b)
  | _, _ => .ok b

/-- The advertised key-signing keys as CDS, CDNSKEY or DS; the name is found if something fits. -/
def advertise (type : Nat) (b : Build) : Build :=
  match c.wants type, c.zone with
  | true, some Z =>
    let b' := Z.keys.advertised.foldl (fun b k =>
      if type = CDNSKEY then b.emitCdnskey c k.1 k.2 else b.emitDsLike c type k.1 k.2) b
    { b' with found := b'.found || b.msg.length < b'.msg.length }
  | _, _ => b

/-- The SOA at the apex. -/
def soaLookup : Except Build Build :=
  match c.wants SOA, c.zone with
  | true, some Z =>
    if eqCI c.qname Z.name then
      match buildSoaRdata Z c.server.global with
      | none => .ok b
      | some rd => minimalAny c (b.find.emit c ⟨c.qname, SOA, Z.soaTtl, rd, c.qname⟩)
    else .ok b
  | _, _ => .ok b

/-! ## The compiled-in zone -/

/-- The rdata of a compiled-in record. -/
def DnsRec.rdata (r : DnsRec) : Option Bytes :=
  if r.type = RRType.A then some r.rdataA
  else if r.type = AAAA then inetPton6 r.rdataStr
  else if r.type = CNAME ∨ r.type = NS ∨ r.type = DNAME then
    nameToWire r.rdataStr 256
  else if r.type = MX then nameRdata (put16 r.rdataPref) r.rdataStr 256
  else if r.type = TXT then txtEncode r.rdataStr 256
  else none

/-- The record under an owner. -/
def Build.emitStatic (c : Ctx) (owner : Text) (r : DnsRec) : Build :=
  if c.wants r.type then
    match r.rdata with
    | some rd => b.emit c ⟨owner, r.type, r.ttl, rd, r.name⟩
    | none => b
  else b

/-- The loop over `static_zone`. -/
def staticLookup (c : Ctx) : List DnsRec → Build → Except Build Build
  | [], b => .ok b
  | r :: rs, b =>
    if eqCI r.name c.qname then
      match minimalAny c (b.find.emitStatic c r.name r) with
      | .ok b => staticLookup c rs b
      | .error b => .error b
    else staticLookup c rs b

/-! ## The store -/

/-- `vk_ttl`, at least 1. -/
def leaseTtl (s : Store) (key : Text) : Nat := max 1 (((s key).bind (·.ttl)).getD 0)

/-- The buffer an address value is read into: `char val[128]` and `char val[256]`. -/
def addrBuffer : Family → Nat
  | .inet => 128
  | .inet6 => 256

/-- A stored value, if there is one, with the name found. -/
def Build.ifStored (c : Ctx) (key : Text) (size : Nat) (f : Text → Build → Build) : Build :=
  match vkGet c.server.store key size with
  | some val => f val b.find
  | none => b

/-- The same for the values that must not be empty. -/
def Build.ifFilled (c : Ctx) (key : Text) (size : Nat) (f : Text → Build → Build) : Build :=
  match vkGet c.server.store key size with
  | some val => if val = [] then b else f val b.find
  | none => b

/-- One record at the queried name, if the rdata could be built. -/
def Build.emitOwn (c : Ctx) (type ttl : Nat) (rd : Option Bytes) : Build :=
  match rd with
  | some rd => b.emit c ⟨c.qname, type, ttl, rd, c.qname⟩
  | none => b

/-- NS at the name. -/
def nsLookup : Build :=
  if c.wants NS then
    b.ifStored c (zkey c.keyZone (lit "NS") c.qname) 512 fun val b =>
      b.emitAll c (nsRrset c.qname val)
  else b

/-- A and AAAA: the lease, the provisioned addresses and those of a registration. -/
def addrLookup (f : Family) (b : Build) : Build :=
  if c.wants f.rrtype then
    let key := dkey c.keyZone f.typeName c.qname
    let b := b.ifStored c key (addrBuffer f) fun val b =>
      b.emitOwn c f.rrtype (leaseTtl c.server.store key) (f.pton val)
    let b := b.ifStored c (zkey c.keyZone f.typeName c.qname) (addrBuffer f) fun val b =>
      b.emitAddrRrset c c.qname c.qname f val
    b.ifStored c (skey c.keyZone f.typeName c.qname) (addrBuffer f) fun val b =>
      b.emitAddrRrset c c.qname c.qname f val
  else b

/-- The pattern of the instances registered under a browse name, without the final star. -/
def instancePrefix : Text :=
  skey c.keyZone (lit "PTR") c.qname ++ [colon]

/-- One registered instance. -/
def Build.emitInstance (c : Ctx) (key : Text) : Build :=
  if (instancePrefix c).length < key.length then
    b.find.emitOwn c PTR (leaseTtl c.server.store key)
      (nameToWire (key.drop (instancePrefix c).length) 300)
  else b

/-- PTR: the lease, the provisioned pointer and the instances of a registration. -/
def ptrLookup : Build :=
  if c.wants PTR then
    let key := dkey c.keyZone (lit "PTR") c.qname
    let b := b.ifFilled c key 512 fun val b =>
      b.emitOwn c PTR (leaseTtl c.server.store key) (nameToWire val 300)
    let b := b.ifFilled c (zkey c.keyZone (lit "PTR") c.qname) 512 fun val b =>
      b.emitOwn c PTR (splitTtl val).1 (nameToWire (splitTtl val).2 300)
    (c.server.scan (instancePrefix c ++ [42])).foldl (·.emitInstance c) b
  else b

/-- SRV and TXT of a registration. -/
def srpLookup : Build :=
  let b := if c.wants SRV then
      b.ifFilled c (skey c.keyZone (lit "SRV") c.qname) 600 fun val b =>
        b.emitOwn c SRV (splitTtl val).1
          (nonempty (storedRdata SRV (splitTtl val).2 300))
    else b
  if c.wants TXT then
    b.ifFilled c (skey c.keyZone (lit "TXT") c.qname) 950 fun val b =>
      b.emitOwn c TXT (splitTtl val).1 (nonempty (some (hexDec 400 (splitTtl val).2)))
  else b

/-- `pts`. -/
def provisionedTypes : List Nat :=
  [CNAME, MX, TXT, SRV, CAA, SSHFP, TLSA,
    DNAME, LOC, URI, NAPTR, SVCB, HTTPS, ZONEMD,
    CSYNC]

/-- The loop over the provisioned types. -/
def provisionedLookup (c : Ctx) : List Nat → Build → Except Build Build
  | [], b => .ok b
  | t :: ts, b =>
    if c.wants t then
      match vkGet c.server.store (zkey c.keyZone (type2str t) c.qname) 512 with
      | none => provisionedLookup c ts b
      | some val =>
        match storedRdata t (splitTtl val).2 512 with
        | none => provisionedLookup c ts b.find
        | some rd =>
          match minimalAny c (b.find.emit c ⟨c.qname, t, (splitTtl val).1, rd, c.qname⟩) with
          | .ok b => provisionedLookup c ts b
          | .error b => .error b
    else provisionedLookup c ts b

/-! ## Aliases -/

/-- `t_zone ? t_zone->name : g_zone_name`. -/
def Ctx.zoneName : Text := c.zoneOrGlobal.name

/-- The addresses of one hop, if its family is asked for. -/
def Build.emitHop (c : Ctx) (cur : Text) (f : Family) : Build :=
  if c.wants f.rrtype then
    match vkGet c.server.store (zkey c.keyZone f.typeName cur) 256 with
    | some val => b.emitAddrRrset c cur cur f val
    | none => b
  else b

/-- The hop loop. -/
def hopLoop (c : Ctx) : Nat → Text → Build → Build
  | 0, _, b => b
  | fuel + 1, cur, b =>
    if cur = [] ∨ !zoneMatches c.zoneName cur then b
    else
      let b := (b.emitHop c cur .inet).emitHop c cur .inet6
      if b.answer.count = 0 then
        match vkGet c.server.store (zkey c.keyZone (lit "CNAME") cur) 512 with
        | none => b
        | some val =>
          let target := (splitTtl val).2
          let b := match nameToWire target 256 with
            | some rd => b.emit c ⟨cur, CNAME, (splitTtl val).1, rd, cur⟩
            | none => b
          hopLoop c fuel (safeStrcpy target 256) b
      else b

/-- CNAME synthesis for the other types. -/
def cnameLookup : Build :=
  if b.found || b.answer.count ≠ 0 || c.qtype = CNAME || c.qtype = ANY then b
  else
    b.ifStored c (zkey c.keyZone (lit "CNAME") c.qname) 512 fun val b =>
      match nameToWire (splitTtl val).2 256 with
      | none => b
      | some rd =>
        hopLoop c 8 (safeStrcpy (splitTtl val).2 256)
          (b.emit c ⟨c.qname, CNAME, (splitTtl val).1, rd, c.qname⟩)

/-! ## Wildcards -/

/-- `wname`: the first label replaced by a star. -/
def wildcardName (qname : Text) : Text := safeStrcpy (42 :: qname.dropWhile (· ≠ dot)) 256

/-- The addresses of a stored wildcard under the queried name. -/
def wildcardAddr (f : Family) (b : Build) : Build :=
  if c.wants f.rrtype then
    b.ifStored c (zkey c.keyZone f.typeName (wildcardName c.qname)) (addrBuffer f) fun val b =>
      b.emitAddrRrset c c.qname (wildcardName c.qname) f val
  else b

/-- The wildcard lookup. The loop over `static_zone` ends at the first record of the wildcard. -/
def wildcardLookup : Build :=
  if b.found || dot ∉ c.qname then b
  else
    match staticZone.find? fun r => eqCI r.name (wildcardName c.qname) with
    | some r => b.find.emitStatic c c.qname r
    | none => wildcardAddr c .inet6 (wildcardAddr c .inet b)

/-! ## The whole answer -/

/-- The lookups of the queried type, in the order of the source. -/
def typedLookups : Except Build Build := do
  let b ← dnsxlTry c b
  let b ← dnskeyLookup c b
  let b := advertise c CDS b
  let b := advertise c CDNSKEY b
  let b := advertise c DS b
  let b ← soaLookup c b
  let b ← staticLookup c staticZone b
  let b := nsLookup c b
  let b := addrLookup c .inet b
  let b := addrLookup c .inet6 b
  let b := ptrLookup c b
  let b := srpLookup c b
  provisionedLookup c provisionedTypes b

/-- All lookups: a delegation first, an alias and a wildcard where the type found nothing. -/
def lookups : Except Build Build := do
  let b ← delegation c b
  let b ← typedLookups c b
  return wildcardLookup c (cnameLookup c b)

/-- The state at `finish_answer`, however it is reached. -/
def atFinish : Except Build Build → Build
  | .ok b => b
  | .error b => b

/-- The reply's octets are cut to the question. -/
def Build.cut (fin : Nat) : Build :=
  { b with msg := b.msg.take fin }

/-- `finish_answer`. -/
def finishAnswer (req : Request) (q : Question) (b : Build) : QueryResult :=
  if !req.isTcp && req.rrl == .drop then .drop
  else
    let slip := !req.isTcp && req.rrl == .slip
    let negative := b.answer.count = 0 ∧ b.isReferral = false
    let b' := if slip then b.cut q.fin else b
    let b' := if negative then b'.deny c else b'
    let ad := c.dnssecOk && b.answer.count > 0 && (c.zone.bind (·.keys.zsk)).isSome
    let maxUdp := min (max 512 (if q.edns.present then q.edns.maxUdp else 512)) ednsMaxUdp
    let tooLong := !req.isTcp && maxUdp < b'.msg.length % 2 ^ 16
    let empty := slip || tooLong
    let authority := if negative then if tooLong then .empty else b'.authority
      else if empty then .empty else b'.authority
    let answer := if empty then Section.empty else b'.answer
    let additional := if empty then Section.empty else b'.additional
    let msg := if tooLong then b'.msg.take q.fin else b'.msg
    let r : Reply :=
      { rcode := if negative ∧ b.found = false then rcodeNxDomain else rcodeNoError
        aa := !b.isReferral
        tc := if negative then tooLong else empty
        ad := ad
        qdcount := 1
        ancount := answer.count
        nscount := authority.count
        arcount := additional.count
        body := msg.drop 12
        answer := answer.recs
        authority := authority.recs
        additional := additional.recs }
    .reply (r.withOpt (dnsdEdnsOpt c.server c.zone req q.edns msg.length c.dnssecOk 0 none))

/-- A locally served zone: NXDOMAIN with SOA, without rate limiting or truncation. -/
def localAnswer (req : Request) (q : Question) (b : Build) : Reply :=
  let b := b.deny c
  let r : Reply :=
    { Reply.bare rcodeNxDomain true 1 (b.msg.drop 12) with
      nscount := b.authority.count, authority := b.authority.recs }
  r.withOpt (dnsdEdnsOpt c.server c.zone req q.edns b.msg.length c.dnssecOk 0 none)

/-- What the lookups of a question see. -/
def Question.ctx (q : Question) (D : Dnsd) (req : Request) : Ctx where
  server := D
  zone := q.zone
  qname := q.qname
  qtype := q.qtype
  now := req.now
  blen := req.blen
  dnssecOk := q.edns.doBit

/-- The response with its question section. -/
def Question.start (q : Question) (req : Request) : Build where
  msg := List.replicate 12 0 ++ q.octets req.query
  cc := []
  answer := .empty
  authority := .empty
  additional := .empty
  found := false
  isReferral := false
  lb := req.lb

/-- The name is answered as a locally served zone. -/
def Question.isLocal (q : Question) : Bool :=
  isLocalZone q.qname && q.qtype != SOA && q.qtype != NS

/-- `build_query_resp`. -/
def buildQueryResp (D : Dnsd) (req : Request) : QueryResult :=
  match question D req with
  | .error r => r
  | .ok q =>
    let c := q.ctx D req
    let b := q.start req
    if q.isLocal then .reply (localAnswer c req q b)
    else finishAnswer c req q (atFinish (lookups c b))

end SimpleDns.Server
