import SimpleDns.Server.Rdata
import SimpleDns.Server.Sign
import SimpleDns.Wire.Nsec

/-!
# A served zone: SOA, keys and denial (`dns_server.c:380-460, 3095-3210, 4395-4481, 5193-5391`)

`ServedZone` holds the fields of `zone_entry_t` that answering a query reads. The functions here
build the rdata of the records that are not stored: SOA, DNSKEY, DS and CDS, and the NSEC and NSEC3
records of a denial.
-/

namespace SimpleDns.Server

open Wire RRType

/-! ## Zone entries -/

/-- A private key with its public half, 64 octets for P-256 and 32 for Ed25519. -/
structure KeyPair extends ZoneKey where
  pub : Bytes
  length_pub : pub.length ≤ 64

/-- `ksk_roll_phase`. -/
inductive KskRollPhase
  | none
  | double
  | retire
deriving DecidableEq, Repr

/-- The keys of a zone. -/
structure ZoneKeys where
  zsk : Option KeyPair
  zskEd : Option KeyPair
  ksk : Option KeyPair
  kskEd : Option KeyPair
  zskNext : Option KeyPair
  zskEdNext : Option KeyPair
  rollPhase : RollPhase
  kskNext : Option KeyPair
  kskEdNext : Option KeyPair
  kskRollPhase : KskRollPhase

/-- The SOA fields but the serial. -/
structure SoaFields where
  mname : Text
  rname : Text
  refresh : Nat
  retry : Nat
  expire : Nat
  minimum : Nat
  ttl : Nat
deriving DecidableEq, Repr

/-- `dnssec_use_nsec3`, `nsec3_salt` and `nsec3_iters`. -/
structure DenialFields where
  useNsec3 : Bool
  salt : Text
  iters : Nat
deriving DecidableEq, Repr

/-- The fields of `zone_entry_t` that answering a query reads. -/
structure ServedZone extends ZoneEntry where
  soa : SoaFields
  denial : DenialFields
  keys : ZoneKeys
  xfrLastOk : Nat

/-- What `emit_rr` reads of a zone. -/
def ServedZone.signing (Z : ServedZone) : SigningZone where
  name := Z.name
  zsk := Z.keys.zsk.map (·.toZoneKey)
  zskEd := Z.keys.zskEd.map (·.toZoneKey)
  zskNext := Z.keys.zskNext.map (·.toZoneKey)
  zskEdNext := Z.keys.zskEdNext.map (·.toZoneKey)
  rollPhase := Z.keys.rollPhase

/-! ## SOA -/

/-- `build_soa_rdata_serial`, with the global names where the zone has none. -/
def buildSoaRdataSerial (Z global : ServedZone) (serial rdlen : Nat) : Option Bytes := do
  let mname := if Z.soa.mname = [] then global.soa.mname else Z.soa.mname
  let rname := if Z.soa.rname = [] then global.soa.rname else Z.soa.rname
  let m ← nameToWire mname rdlen
  let r ← nameToWire rname (rdlen - m.length)
  if m.length + r.length + 20 > rdlen then none
  else some (m ++ r ++ put32 serial ++ put32 Z.soa.refresh ++ put32 Z.soa.retry ++
    put32 Z.soa.expire ++ put32 Z.soa.minimum)

/-- `build_soa_rdata` into `soa_rd[512]`. -/
def buildSoaRdata (Z global : ServedZone) : Option Bytes :=
  buildSoaRdataSerial Z global Z.soaSerial 512

/-- `zone_soa_ttl`. -/
def ServedZone.soaTtl (Z : ServedZone) : Nat := if Z.soa.ttl = 0 then Z.soa.minimum else Z.soa.ttl

/-- `zone_negative_ttl`. -/
def ServedZone.negativeTtl (Z : ServedZone) : Nat := min Z.soaTtl Z.soa.minimum

/-! ## DNSKEY and DS -/

/-- `dnskey_rdata_*`: flags 256 for a zone-signing key, 257 for a key-signing key. -/
def dnskeyRdata (flags alg : Nat) (k : KeyPair) : Bytes :=
  put16 flags ++ [3, alg.toUInt8] ++ k.pub

/-- `DNS_DNSKEY_FLAG_ZSK` and `DNS_DNSKEY_FLAG_KSK`. -/
def flagZsk : Nat := 256
def flagKsk : Nat := 257

/-- `ds_rdata_from_dnskey`. -/
def dsRdataFromDnskey (sha256 : Bytes → Bytes) (owner : Text) (dkrd : Bytes) (tag alg : Nat) :
    Option Bytes :=
  match nameToWire owner 512 with
  | none => none
  | some w =>
    if w.length + dkrd.length > 512 then none
    else some (put16 tag ++ [alg.toUInt8, 2] ++ sha256 (w ++ dkrd))

/-- The key-signing keys whose DS the zone wants at its parent: `cds_old` and `cds_new`. -/
def ZoneKeys.advertised (K : ZoneKeys) : List (Nat × Option KeyPair) :=
  (if K.kskRollPhase = .retire then [] else [(algEcdsaP256, K.ksk), (algEd25519, K.kskEd)]) ++
    if K.kskRollPhase = .none then []
    else [(algEcdsaP256, K.kskNext), (algEd25519, K.kskEdNext)]

/-! ## NSEC -/

/-- The types of every NSEC bitmap. -/
def nsecTypes : List Nat :=
  [RRType.A, NS, CNAME, SOA, MX, TXT, AAAA, SRV,
    DNSKEY, NSEC, RRSIG]

/-- `nsec_rdata` into `rd[512]`: the apex as next name and the fixed bitmap. -/
def nsecRdata (zone : Text) : Option Bytes :=
  match nameToWire zone 512 with
  | none => none
  | some w =>
    let bitmap := typeBitmap nsecTypes
    if w.length + 2 + bitmap.length > 512 then none else some (w ++ 0 :: labelWire bitmap)

/-! ## NSEC3 -/

/-- The salt octets, at most 16. -/
def DenialFields.saltOctets (d : DenialFields) : Bytes := hexDec 16 d.salt

/-- The hash of the apex in `nsec3_rdata`: its own loop, without lowercasing. -/
def nextHash (sha1 : Bytes → Bytes) (zone : Text) (d : DenialFields) : Bytes :=
  let wire := nsec3WireLoop (labels (safeStrcpy zone 256)) [] ++ [0]
  (fun h => sha1 (h ++ d.saltOctets))^[d.iters] (sha1 (wire ++ d.saltOctets))

/-- `nsec3_rdata`: the apex's hash as next hash, and the bit of the queried type. -/
def nsec3Rdata (sha1 : Bytes → Bytes) (zone : Text) (d : DenialFields) (coveredType : Nat) :
    Bytes :=
  [1, 0] ++ put16 d.iters ++ labelWire d.saltOctets ++ 20 :: nextHash sha1 zone d ++
    if coveredType < 256 then 0 :: labelWire (typeBitmap [coveredType]) else []

/-- The owner of an NSEC3 record: `<base32hex of the name's hash>.<zone>`, lowercased. -/
def nsec3Owner (sha1 : Bytes → Bytes) (zone : Text) (d : DenialFields) (name : Text) : Text :=
  strlower (base32hexEnc (nsec3HashRaw sha1 name d.saltOctets d.iters) 64 ++ [dot] ++ zone)

end SimpleDns.Server
