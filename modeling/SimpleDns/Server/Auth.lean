import SimpleDns.Server.Store
import SimpleDns.Wire.Canon
import SimpleDns.Wire.Codec

/-!
# Authentication of an update: TSIG and SIG(0) (`dns_server.c:4484-4772`, `7328-7542`)

Both look for a trailing record in the additional section with the same unchecked name walk
(`walkName`), then verify a digest of the message up to that record with its `ARCOUNT` one lower
(`messageBefore`).
-/

namespace SimpleDns.Server

open Wire Lib

/-! ## Walking the sections -/

/-- The name walk of `tsig_find` and `sig0_find` from `a`; the pointer case does not look at the
bound. -/
def walkName (pkt : Bytes) : Nat → Nat → Option Nat
  | 0, _ => none
  | fuel + 1, a =>
    if a ≥ pkt.length then none
    else
      let c := byteAt pkt a
      if isPointer c then some (a + 2)
      else if c = 0 then some (a + 1)
      else walkName pkt fuel (a + c.toNat + 1)

/-- The walk is over after as many labels as the packet has octets. -/
def walkNameFrom (pkt : Bytes) (a : Nat) : Option Nat := walkName pkt (pkt.length + 1) a

/-- The questions of the skip loop. -/
def walkQuestions (pkt : Bytes) : Nat → Nat → Option Nat := passQuestions (walkNameFrom pkt) pkt

/-- The answer and authority records of the skip loop. -/
def walkRecords (pkt : Bytes) : Nat → Nat → Option Nat := passRecords (walkNameFrom pkt) pkt

/-- Where the additional section starts. -/
def additionalStart (pkt : Bytes) : Option Nat :=
  if pkt.length < 12 ∨ arcount pkt = 0 then none
  else
    match walkQuestions pkt (qdcount pkt) 12 with
    | none => none
    | some off => walkRecords pkt (ancount pkt + nscount pkt) off

/-- The message up to `off`, with `ARCOUNT` one lower. -/
def messageBefore (pkt : Bytes) (off : Nat) : Bytes :=
  let ar := (arcount pkt + 2 ^ 16 - 1) % 2 ^ 16
  slice pkt 0 10 ++ (put16 ar ++ slice pkt 12 (off - 12))

/-! ## TSIG -/

/-- `tsig_rr_t`, as far as the verification reads it. -/
structure TsigRR where
  keyName : Text
  algName : Text
  mac : Bytes
  timeHigh : Nat
  timeLow : Nat
  fudge : Nat
  error : Nat
deriving DecidableEq, Repr

/-- The key name as `tsig_find` reads it again: it ends at a pointer, and a name that does not fit
is the empty one. -/
def tsigKeyName (pkt : Bytes) : Nat → Nat → Text → Text
  | 0, _, acc => acc
  | fuel + 1, p, acc =>
    let c := byteAt pkt p
    if c = 0 ∨ isPointer c then acc
    else
      let sep := if acc = [] then [] else [dot]
      if acc.length + sep.length + c.toNat ≥ 255 then []
      else tsigKeyName pkt fuel (p + c.toNat + 1) (acc ++ sep ++ slice pkt (p + 1) c.toNat)

/-- The algorithm name from `rp`, with the offset behind it. -/
def tsigAlgName (pkt : Bytes) : Nat → Nat → Text → Option (Text × Nat)
  | 0, _, _ => none
  | fuel + 1, rp, acc =>
    if rp ≥ pkt.length then none
    else
      let c := byteAt pkt rp
      if c = 0 then some (safeStrcpy (strlower (acc ++ [dot])) 64, rp + 1)
      else
        let sep := if acc = [] then [] else [dot]
        tsigAlgName pkt fuel (rp + c.toNat + 1)
          (if acc.length + sep.length + c.toNat < 63 then
            acc ++ sep ++ slice pkt (rp + 1) c.toNat else acc)

/-- The TSIG record that starts at `off` and has its rdata at `rd`. -/
def tsigParse (pkt : Bytes) (off rd : Nat) : Option TsigRR :=
  match tsigAlgName pkt (pkt.length + 1) rd [] with
  | none => none
  | some (alg, rp) =>
    if rp + 10 > pkt.length then none
    else
      let macLen := get16 pkt (rp + 8)
      if macLen > 64 ∨ rp + 10 + macLen > pkt.length then none
      else if rp + 10 + macLen + 6 > pkt.length then none
      else
        some ⟨strlower (cstr (tsigKeyName pkt (pkt.length + 1) off [])), cstr alg,
          slice pkt (rp + 10) macLen, get16 pkt rp, get32 pkt (rp + 2), get16 pkt (rp + 6),
          get16 pkt (rp + 10 + macLen + 2)⟩

/-- The scan of the additional section for the first TSIG (type 250). -/
def tsigScan (pkt : Bytes) : Nat → Nat → Option (Nat × TsigRR)
  | 0, _ => none
  | n + 1, off =>
    match walkNameFrom pkt off with
    | none => none
    | some a =>
      if a + 10 > pkt.length then none
      else
        let rdlen := get16 pkt (a + 8)
        if get16 pkt a = 250 then
          if a + 10 + rdlen > pkt.length then none
          else (tsigParse pkt off (a + 10)).map fun t => (off, t)
        else tsigScan pkt n (a + 10 + rdlen)

/-- `tsig_find`. -/
def tsigFind (pkt : Bytes) : Option (Nat × TsigRR) :=
  match additionalStart pkt with
  | none => none
  | some off => tsigScan pkt (arcount pkt) off

/-- `tsig_alg_to_digest`. -/
def tsigAlgToDigest (alg : Text) : Text :=
  if strcasestr alg (lit "sha512") then lit "SHA512"
  else if strcasestr alg (lit "sha384") then lit "SHA384"
  else if strcasestr alg (lit "sha256") then lit "SHA256"
  else if strcasestr alg (lit "sha1") then lit "SHA1"
  else if strcasestr alg (lit "md5") then lit "MD5"
  else lit "SHA256"

/-- The TSIG variables of the MAC input. The algorithm name is always `hmac-sha256.` here. -/
def tsigVars (t : TsigRR) : Bytes :=
  (labels t.keyName).flatMap labelWire ++ [0] ++ put16 RRClass.ANY ++ put32 0 ++
    labelWire (lit "hmac-sha256") ++ [0] ++ put16 t.timeHigh ++ put32 t.timeLow ++
    put16 t.fudge ++ put16 t.error ++ put16 0

/-- `tsig_verify`. -/
def tsigVerify (C : Crypto) (secret pkt : Bytes) : Bool :=
  if secret = [] then true
  else
    match tsigFind pkt with
    | none => false
    | some (off, t) =>
      C.hmac (tsigAlgToDigest t.algName) secret (messageBefore pkt off ++ tsigVars t) == t.mac

/-! ## SIG(0) -/

/-- `sig0_rr_t`. -/
structure Sig0 where
  algorithm : UInt8
  sigExpiration : Nat
  sigInception : Nat
  keyTag : Nat
  signerName : Text
  rdataPrefix : Bytes
  signature : Bytes
deriving DecidableEq, Repr

/-- `DNS_TYPE_SIG`. -/
def typeSIG : Nat := 24

/-- The SIG(0) rdata at `rd`. -/
def sig0Parse (pkt : Bytes) (rd rdlen : Nat) : Option Sig0 :=
  match nameFromWire pkt (rd + 18) 256 with
  | none => none
  | some (signer, e) =>
    if e > rd + rdlen then none
    else
      some ⟨byteAt pkt (rd + 2), get32 pkt (rd + 8), get32 pkt (rd + 12), get16 pkt (rd + 16),
        strlower signer, slice pkt rd (e - rd), slice pkt e (rd + rdlen - e)⟩

/-- The scan of the additional section: a SIG with a type covered is no SIG(0) and is passed
over. -/
def sig0Scan (pkt : Bytes) : Nat → Nat → Option (Nat × Sig0)
  | 0, _ => none
  | n + 1, off =>
    match walkNameFrom pkt off with
    | none => none
    | some a =>
      if a + 10 > pkt.length then none
      else
        let rdlen := get16 pkt (a + 8)
        let rd := a + 10
        if rd + rdlen > pkt.length then none
        else if get16 pkt a = typeSIG then
          if rdlen < 18 then none
          else if get16 pkt rd ≠ 0 then sig0Scan pkt n (rd + rdlen)
          else (sig0Parse pkt rd rdlen).map fun s => (off, s)
        else sig0Scan pkt n (rd + rdlen)

/-- `sig0_find`: where the record starts, and its fields. -/
def sig0Find (pkt : Bytes) : Option (Nat × Sig0) :=
  match additionalStart pkt with
  | none => none
  | some off => sig0Scan pkt (arcount pkt) off

/-- `sig0_present`. -/
def sig0Present (pkt : Bytes) : Bool := (sig0Find pkt).isSome

/-- The key material of a KEY record. -/
structure KeyMaterial where
  flags : Int
  proto : Int
  alg : Int
  pub : Bytes
deriving DecidableEq, Repr

/-- The octets of `keyrd`. -/
def KeyMaterial.rdata (key : KeyMaterial) : Bytes :=
  put16 key.flags.toNat ++ [key.proto.toNat.toUInt8, key.alg.toNat.toUInt8] ++ key.pub

/-- `sig0_verify_with_key` at time `now`. -/
def sig0VerifyWithKey (C : Crypto) (now : Nat) (pkt : Bytes) (off : Nat) (s : Sig0)
    (key : KeyMaterial) : Bool :=
  if s.signature.length ≠ 64 then false
  else if s.sigExpiration ≤ s.sigInception then false
  else if now % 2 ^ 32 < s.sigInception ∨ now % 2 ^ 32 > s.sigExpiration then false
  else if key.flags < 0 ∨ key.flags > 0xFFFF then false
  else if key.proto ≠ 3 then false
  else if key.alg ≠ s.algorithm.toNat then false
  else if (key.alg = 13 ∧ key.pub.length ≠ 64) ∨ (key.alg = 15 ∧ key.pub.length ≠ 32) then false
  else if key.alg ≠ 13 ∧ key.alg ≠ 15 then false
  else if keytag key.rdata ≠ s.keyTag then false
  else
    let data := s.rdataPrefix ++ messageBefore pkt off
    if key.alg = 13 then C.verifyEcdsaP256 s.signature data key.pub
    else C.verifyEd25519 s.signature data key.pub

/-- The four fields of `flags|proto|alg|key`, with the key still as text. -/
def keyFields (val : Text) : Option (Int × Int × Int × Text) :=
  match strtok 124 val with
  | f :: p :: a :: k :: _ => some (atoi f, atoi p, atoi a, k)
  | _ => none

/-- `sig0_verify` for the zone `tz`, whose trusted keys are in the store. -/
def sig0Verify (C : Crypto) (now : Nat) (st : State) (tz : TZone) (pkt : Bytes) : Bool :=
  match sig0Find pkt with
  | none => false
  | some (off, s) =>
    if st.zone tz = none then false
    else
      match (vkGet st.store (zkey (st.keyZone tz) (lit "KEY") s.signerName) 512).bind keyFields with
      | none => false
      | some (flags, proto, alg, k) =>
        let pub := b64stdDec 256 k
        if pub = [] then false else sig0VerifyWithKey C now pkt off s ⟨flags, proto, alg, pub⟩

end SimpleDns.Server
