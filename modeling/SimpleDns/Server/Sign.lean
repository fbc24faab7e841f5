import SimpleDns.Resolver.Positive
import SimpleDns.Wire.Compress

/-!
# Signing a response (`dns_server.c:3213-3413`, `5393-5449`)

`emit_rr` appends one record and, under the DO bit, one RRSIG of that record for each zone-signing
key, P-256 first. `make_rrsig` signs the RRSIG header and the one record in canonical form.

* `makeRrsig` is `make_rrsig`, `signedMessage` the octets it hands to the signature primitive.
* `emitRR` is `emit_rr`; `emitRRset` emits the records of one RRset one after another.
* `ZoneKey` is a private key: what OpenSSL returns for a message, 64 octets in raw form.
-/

namespace SimpleDns.Server

open Wire

/-- `DNS_TTL_MAX`. -/
def dnsTtlMax : Nat := 2147483647

/-- `ttl_clamp`. -/
def ttlClamp (ttl : Nat) : Nat := if ttl > dnsTtlMax then dnsTtlMax else ttl

/-- `DNSSEC_SIG_VALIDITY`. -/
def dnssecSigValidity : Nat := 7 * 86400

/-- `DNS_ALG_ECDSAP256SHA256` and `DNS_ALG_ED25519`. -/
def algEcdsaP256 : Nat := 13
def algEd25519 : Nat := 15

/-- `label_count`: dots plus one, a trailing dot not counted. -/
def labelCount (name : Text) : Nat :=
  if name = [] then 0
  else if name.getLast? = some dot then name.count dot
  else name.count dot + 1

/-! ## Keys -/

/-- A zone-signing key: its signatures and its key tag. -/
structure ZoneKey where
  sign : Bytes → Option Bytes
  tag : Nat
  length_sign : ∀ m s, sign m = some s → s.length = 64

/-- `roll_phase`. -/
inductive RollPhase
  | none
  | publish
  | commit
deriving DecidableEq, Repr

/-- The fields of `zone_entry_t` that signing reads. -/
structure SigningZone where
  name : Text
  zsk : Option ZoneKey
  zskEd : Option ZoneKey
  zskNext : Option ZoneKey
  zskEdNext : Option ZoneKey
  rollPhase : RollPhase

/-- `use_next`. -/
def SigningZone.useNext (Z : SigningZone) : Bool := Z.rollPhase == .commit && Z.zskNext.isSome

/-! ## RRSIG -/

/-- The eighteen fixed octets. -/
def rrsigFixed (now : Nat) (owner : Text) (type ttl alg tag : Nat) : Bytes :=
  put16 type ++ [alg.toUInt8, (labelCount owner).toUInt8] ++ put32 ttl ++
    put32 (now + dnssecSigValidity) ++ put32 (now + 2 ^ 32 - 300) ++ put16 tag

/-- The signer loop into `hdr[512]`, with `hp` octets written. -/
def signerLoop : List Text → Nat → Option Bytes
  | [], _ => some [0]
  | l :: ls, hp =>
    if hp + l.length + 2 > 512 then none
    else (signerLoop ls (hp + 1 + l.length)).map (labelWire l ++ ·)

/-- `hdr`: the RRSIG rdata up to and including the signer name. -/
def rrsigHeader (now : Nat) (owner signer : Text) (type ttl alg tag : Nat) : Option Bytes :=
  (signerLoop (labels (strlower (safeStrcpy signer 256))) 18).map
    (rrsigFixed now owner type ttl alg tag ++ ·)

/-- `rr`: the one record in canonical form. -/
def canonicalRR (owner : Text) (type ttl : Nat) (rdata : Bytes) : Option Bytes :=
  (canonRdata rdata 0 rdata.length type rdata.length).map fun c =>
    nameWire (labels (strlower (safeStrcpy owner 256))) ++ put16 type ++ put16 RRClass.IN ++
      put32 ttl ++ put16 c.length ++ c

/-- The octets that are signed. -/
def signedMessage (now : Nat) (owner signer : Text) (type ttl : Nat) (rdata : Bytes)
    (alg tag : Nat) : Option Bytes :=
  (rrsigHeader now owner signer type ttl alg tag).bind fun hdr =>
    (canonicalRR owner type ttl rdata).map (hdr ++ ·)

/-- `make_rrsig`: the RRSIG rdata, `none` for `-1`. -/
def makeRrsig (now : Nat) (owner signer : Text) (type ttl : Nat) (rdata : Bytes) (key : ZoneKey)
    (alg : Nat) : Option Bytes :=
  (rrsigHeader now owner signer type ttl alg key.tag).bind fun hdr =>
    (canonicalRR owner type ttl rdata).bind fun rr => (key.sign (hdr ++ rr)).map (hdr ++ ·)

/-! ## Emission -/

/-- The response under construction: octets, compression context, and the count of its section. -/
structure Response where
  msg : Bytes
  cc : CompressCtx
  answers : Nat

/-- `append_rr` where a record that does not fit is left out. -/
def Response.append (E : Response) (blen : Nat) (name : Text) (type ttl : Nat) (rdata : Bytes) :
    Response :=
  let r := appendRR blen E.msg E.cc name type RRClass.IN ttl rdata
  match r.1 with
  | none => { E with cc := r.2 }
  | some msg => ⟨msg, r.2, E.answers + 1⟩

/-- One of the two RRSIG blocks of `emit_rr`. -/
def Response.appendRrsig (E : Response) (now blen : Nat) (zone name : Text) (type ttl : Nat)
    (rdata : Bytes) (key : Option ZoneKey) (alg : Nat) : Response :=
  match key with
  | none => E
  | some k =>
    match makeRrsig now name zone type ttl rdata k alg with
    | none => E
    | some sig => E.append blen name RRType.RRSIG ttl sig

/-- `emit_rr`; `zone` is `t_zone`. -/
def emitRR (zone : Option SigningZone) (now blen : Nat) (dnssecOk : Bool) (E : Response)
    (name : Text) (type ttl : Nat) (rdata : Bytes) : Response :=
  let ttl := ttlClamp ttl
  let r := appendRR blen E.msg E.cc name type RRClass.IN ttl rdata
  match r.1 with
  | none => { E with cc := r.2 }
  | some msg =>
    let E1 : Response := ⟨msg, r.2, E.answers + 1⟩
    match zone with
    | none => E1
    | some Z =>
      if !dnssecOk || Z.zsk.isNone then E1
      else
        let E2 := E1.appendRrsig now blen Z.name name type ttl rdata
          (if Z.useNext then Z.zskNext else Z.zsk) algEcdsaP256
        E2.appendRrsig now blen Z.name name type ttl rdata
          (if Z.useNext then Z.zskEdNext else Z.zskEd) algEd25519

/-- The records of an RRset, emitted one after another. -/
def emitRRset (zone : Option SigningZone) (now blen : Nat) (dnssecOk : Bool) (E : Response)
    (name : Text) (type ttl : Nat) (rdatas : List Bytes) : Response :=
  rdatas.foldl (fun E rdata => emitRR zone now blen dnssecOk E name type ttl rdata) E

end SimpleDns.Server
