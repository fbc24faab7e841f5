import SimpleDns.Lib.Cyclic
import SimpleDns.Resolver.Positive
import SimpleDns.Wire.Nsec

/-!
# Validating a negative answer (`resolverd.c:1643-1928`)

`dnssec_validate_negative` looks for signatures over the SOA, NSEC and NSEC3 RRsets of the
authority section. `SECURE` needs one verified SOA, at least one stored proof and no signature that
failed; the proofs stored are the parsed NSEC/NSEC3 records of the verified RRsets, labelled with
the owner of the first SOA of the section.

* `NsecProof` is `nsec_proof_t`, `nsecParseRdata` is `nsec_parse_rdata`.
* `negLoop` is the loop over the RRSIGs; beside each proof it keeps the RRSIG that vouched for it,
  which the C code forgets (`NegState.stored`).
* `negLoop_eq`: the loop computes three independent facts about the candidate signatures, so
  `evidence_of_secure` reads the verdict off the packet.
* `secure_proofs_verified`: what `SECURE` does say. It never relates a proof to the name asked.
* `secure_no_leak_iff`: when the zone label of the stored proofs is right.
-/

namespace SimpleDns.Resolver

open Wire Lib List Option RRType

/-! ## Proofs -/

/-- The denial in an NSEC or an NSEC3 record. -/
inductive Denial
  | nsec (owner next : Text)
  | nsec3 (ownerHash nextHash : Bytes) (iters : Nat) (salt : Bytes) (optout : Bool)
deriving DecidableEq, Repr

/-- `nsec_proof_t`: the zone a candidate name must be in, the span and the bitmap at its owner. -/
structure NsecProof where
  zone : Text
  denial : Denial
  bitmap : Bytes
deriving DecidableEq, Repr

/-- `MAX_NEG_PROOFS`. -/
def maxNegProofs : Nat := 4

/-- `NEG_MAX_RRS`. -/
def negMaxRRs : Nat := 24

/-- The NSEC arm of `nsec_parse_rdata`: next name, then the bitmap, cut to `bitmap[128]`. -/
def parseNsec (pkt : Bytes) (owner : Text) (rdoff rdlen : Nat) : Option (Denial × Bytes) :=
  match nameFromWire pkt rdoff 256 with
  | none => none
  | some (next, after) =>
    if after > rdoff + rdlen then none
    else some (.nsec owner next, slice pkt after (min (rdoff + rdlen - after) 128))

/-- The NSEC3 arm: fixed fields, salt, next hash, owner hash from the first label, bitmap. -/
def parseNsec3 (pkt : Bytes) (owner : Text) (rdoff rdlen : Nat) : Option (Denial × Bytes) :=
  let rdend := rdoff + rdlen
  let saltlen := (byteAt pkt (rdoff + 4)).toNat
  let p := rdoff + 5 + saltlen
  let label := owner.takeWhile (· ≠ dot)
  if rdlen < 5 then none
  else if saltlen > 64 ∨ p > rdend then none
  else if p + 1 > rdend then none
  else if byteAt pkt p ≠ 20 ∨ p + 1 + 20 > rdend then none
  else if byteAt pkt rdoff ≠ 1 then none
  else if label.isEmpty ∨ label.length ≥ 64 then none
  else
    match base32hexDec label 20 with
    | none => none
    | some hash =>
      if hash.length ≠ 20 then none
      else some (.nsec3 hash (slice pkt (p + 1) 20) (get16 pkt (rdoff + 2))
        (slice pkt (rdoff + 5) saltlen) ((byteAt pkt (rdoff + 1)).toNat.testBit 0),
        slice pkt (p + 21) (min (rdend - (p + 21)) 128))

/-- `nsec_parse_rdata`, with the zone label its caller writes. -/
def nsecParseRdata (pkt : Bytes) (zone owner : Text) (rtype rdoff rdlen : Nat) :
    Option NsecProof :=
  if rdoff + rdlen > pkt.length then none
  else if rtype = NSEC then
    (parseNsec pkt owner rdoff rdlen).map fun d => ⟨zone, d.1, d.2⟩
  else if rtype = NSEC3 then
    (parseNsec3 pkt owner rdoff rdlen).map fun d => ⟨zone, d.1, d.2⟩
  else none

/-! ## The scan -/

/-- The loop that skips the answer section; it checks the fixed fields only. -/
def skipAnswers (pkt : Bytes) : Nat → Nat → Option Nat
  | 0, off => some off
  | n + 1, off =>
    if off < pkt.length then
      match nameFromWire pkt off 256 with
      | none => none
      | some (_, a) =>
        if a + 10 > pkt.length then none
        else skipAnswers pkt n (a + 10 + get16 pkt (a + 8))
    else some off

/-- The offset of the authority section. -/
def authorityStart (resp : Bytes) : Option Nat :=
  match skipQuestions resp (qdcount resp) 12 with
  | none => none
  | some off => skipAnswers resp (ancount resp) off

/-- The owner of the first SOA with a nonempty owner (`rtype == SOA && !zone[0]`). -/
def firstSoaZone (rrs : List RR) : Text :=
  match rrs.find? fun r => r.type = SOA ∧ r.owner ≠ [] with
  | some r => r.owner
  | none => []

/-- The first DNSKEY of the additional section that fits `dnskey_rd[128]`. -/
def additionalDnskey (rrs : List RR) : Option RR :=
  rrs.find? fun r => r.type = DNSKEY ∧ 0 < r.rdlen ∧ r.rdlen ≤ 128

/-- What the two scans leave for the signature loop: the first 24 records of the authority
section, the zone and the DNSKEY in the additional section. -/
structure NegScan where
  ns : List RR
  zone : Text
  inBand : Option RR

/-- The scan of the authority and the additional section. -/
def negScan (resp : Bytes) (off : Nat) : NegScan :=
  let auth := scanRRs resp (nscount resp) off
  let add := scanRRs resp (arcount resp) auth.2
  ⟨auth.1.take negMaxRRs, firstSoaZone auth.1, additionalDnskey add.1⟩

variable (S : NegScan) (E : Env) (resp : Bytes)

/-- The DNSKEY used: the one in the additional section, else the one fetched for the zone. -/
def NegScan.dnskey : Bytes :=
  match S.inBand with
  | some k => k.rdata resp
  | none => E.fetch S.zone

variable (sig : RR)

/-- A signature the loop looks at: it fits `rrsig_rd[512]`, covers SOA, NSEC or NSEC3, and the
RRset it covers is there. -/
def NegScan.candidate : Bool :=
  decide (sig.type = RRSIG) && decide (18 ≤ sig.rdlen) && decide (sig.rdlen ≤ 512) &&
    decide (covered resp sig = SOA ∨ covered resp sig = NSEC ∨
      covered resp sig = NSEC3) &&
    !(rrsetOffs S.ns sig.owner (covered resp sig)).isEmpty

/-- `dnssec_verify_rrset` on a candidate's RRset. -/
def NegScan.verify : Verdict :=
  dnssecVerifyRrset E.crypto resp (rrsetOffs S.ns sig.owner (covered resp sig)) (sig.rdata resp)
    (S.dnskey E resp)

/-- The proof a verified candidate contributes: the first record of its RRset, parsed. -/
def NegScan.proof : Option NsecProof :=
  match S.ns.find? fun r => r.type = covered resp sig ∧ r.owner = sig.owner with
  | none => none
  | some r => nsecParseRdata resp S.zone sig.owner (covered resp sig) r.rdoff r.rdlen

/-! ## The signature loop -/

/-- The variables of the loop. Each stored proof stands beside the RRSIG it came with. -/
structure NegState where
  soaSecure : Bool
  sawBogus : Bool
  stored : List (RR × NsecProof)

/-- The body of the loop for a candidate, once there is a DNSKEY. -/
def negStep (max : Nat) (st : NegState) (sig : RR) : NegState :=
  match S.verify E resp sig with
  | .invalid => { st with sawBogus := true }
  | .unsupported => st
  | .valid =>
    if E.trusted (S.dnskey E resp) then
      if covered resp sig = SOA then { st with soaSecure := true }
      else if st.stored.length < max then
        match S.proof resp sig with
        | none => st
        | some p => { st with stored := st.stored ++ [(sig, p)] }
      else st
    else st

/-- The loop; `none` is the early `return DNSSEC_INSECURE` without a DNSKEY. -/
def negLoop (S : NegScan) (E : Env) (resp : Bytes) (max : Nat) :
    List RR → NegState → Option NegState
  | [], st => some st
  | sig :: rest, st =>
    if S.candidate resp sig then
      if S.dnskey E resp = [] then none
      else negLoop S E resp max rest (negStep S E resp max st sig)
    else negLoop S E resp max rest st

/-- `dnssec_validate_negative` with the RRSIG of each proof kept. The `qname` argument is the
source's, which discards it (`(void) qname`). -/
def validateNegative (_qname : Text) (max : Nat) : DnssecStatus × List (RR × NsecProof) :=
  if resp.length < 12 then (.insecure, [])
  else if nscount resp = 0 then (.insecure, [])
  else
    match authorityStart resp with
    | none => (.insecure, [])
    | some off =>
      let S := negScan resp off
      if S.zone = [] then (.insecure, [])
      else
        match negLoop S E resp max S.ns ⟨false, false, []⟩ with
        | none => (.insecure, [])
        | some st =>
          if st.sawBogus then (.bogus, st.stored)
          else if st.soaSecure ∧ st.stored ≠ [] then (.secure, st.stored)
          else (.insecure, st.stored)

/-- `dnssec_validate_negative(resp, rlen, qname, proofs, max_proofs, &proof_count)`. -/
def dnssecValidateNegative (qname : Text) (max : Nat) : DnssecStatus × List NsecProof :=
  let r := validateNegative E resp qname max
  (r.1, r.2.map (·.2))

/-! ## The verdict, read off the packet -/

/-- The candidate verifies under a trusted key. -/
def NegScan.verified : Bool :=
  S.candidate resp sig && decide (S.verify E resp sig = .valid) && E.trusted (S.dnskey E resp)

/-- The proof one signature contributes. -/
def NegScan.denial : Option (RR × NsecProof) :=
  if S.verified E resp sig ∧ covered resp sig ≠ SOA then
    (S.proof resp sig).map fun p => (sig, p)
  else none

variable (sigs : List RR)

/-- The proofs of the verified NSEC and NSEC3 RRsets among `sigs`, in order. -/
def NegScan.denials : List (RR × NsecProof) :=
  sigs.filterMap (S.denial E resp)

/-- Some signature over an SOA RRset verified. -/
def NegScan.soaVerified : Bool :=
  sigs.any fun sig => S.verified E resp sig && decide (covered resp sig = SOA)

/-- Some candidate signature failed. -/
def NegScan.bogus : Bool :=
  sigs.any fun sig => S.candidate resp sig && decide (S.verify E resp sig = .invalid)

section Loop

variable {S : NegScan} {E : Env} {resp : Bytes} {max : Nat}

theorem denials_cons (sig : RR) (rest : List RR) :
    S.denials E resp (sig :: rest) = (S.denial E resp sig).toList ++ S.denials E resp rest := by
  unfold NegScan.denials
  rw [filterMap_cons]
  cases S.denial E resp sig <;> rfl

theorem take_append_take {α : Type} (n : Nat) (a b : List α) :
    (a.take n ++ b).take n = (a ++ b).take n := by
  rw [take_append, take_append, take_take, Nat.min_self, length_take]
  congr 2
  omega

/-- One round over a candidate. -/
theorem negStep_eq {st : NegState} {sig : RR} (hc : S.candidate resp sig = true)
    (hlen : st.stored.length ≤ max) :
    negStep S E resp max st sig =
      ⟨st.soaSecure || (S.verified E resp sig && decide (covered resp sig = SOA)),
        st.sawBogus || decide (S.verify E resp sig = .invalid),
        (st.stored ++ (S.denial E resp sig).toList).take max⟩ := by
  have hst : st.stored.take max = st.stored := take_of_length_le hlen
  unfold negStep NegScan.denial NegScan.verified
  cases hv : S.verify E resp sig with
  | invalid => simp [hst]
  | unsupported => simp [hst]
  | valid =>
    by_cases htr : E.trusted (S.dnskey E resp) = true
    · by_cases hsoa : covered resp sig = SOA
      · simp [htr, hsoa, hc, hst]
      · by_cases hfull : st.stored.length < max
        · cases hp : S.proof resp sig with
          | none => simp [htr, hsoa, hc, hst, hfull]
          | some p =>
            have : (st.stored ++ [(sig, p)]).take max = st.stored ++ [(sig, p)] :=
              take_of_length_le (by simp only [length_append, length_singleton]; omega)
            simp [htr, hsoa, hc, hfull, this]
        · have htake : ∀ l : List (RR × NsecProof), (st.stored ++ l).take max = st.stored := by
            intro l
            rw [take_append_of_le_length (by omega), hst]
          simp [htr, hsoa, hc, hfull, htake]
    · simp [htr, hst]

/-- **The loop computes three facts about its signatures**: whether an SOA verified, whether a
candidate failed, and the first `max` proofs of verified denials. -/
theorem negLoop_eq (hkey : S.dnskey E resp ≠ []) : ∀ (sigs : List RR) (st : NegState),
    st.stored.length ≤ max → negLoop S E resp max sigs st =
      some ⟨st.soaSecure || S.soaVerified E resp sigs, st.sawBogus || S.bogus E resp sigs,
        (st.stored ++ S.denials E resp sigs).take max⟩
  | [], st, hlen => by
    simp [negLoop, NegScan.soaVerified, NegScan.bogus, NegScan.denials, take_of_length_le hlen]
  | sig :: rest, st, hlen => by
    have ih := negLoop_eq hkey rest
    rw [negLoop, denials_cons]
    by_cases hc : S.candidate resp sig = true
    · rw [if_pos hc, if_neg hkey, negStep_eq hc hlen, ih _ (length_take_le ..)]
      simp only [NegScan.soaVerified, NegScan.bogus, any_cons, hc, Bool.true_and,
        Bool.or_assoc, take_append_take, append_assoc]
    · have hver : S.verified E resp sig = false := by simp [NegScan.verified, hc]
      have hden : S.denial E resp sig = none := by simp [NegScan.denial, hver]
      rw [if_neg hc, ih _ hlen, hden]
      simp [NegScan.soaVerified, NegScan.bogus, hver, hc]

/-- Without a DNSKEY the loop gives up at the first candidate and otherwise finds nothing. -/
theorem negLoop_no_dnskey (hkey : S.dnskey E resp = []) : ∀ (sigs : List RR) (st : NegState),
    negLoop S E resp max sigs st = none ∨ negLoop S E resp max sigs st = some st
  | [], st => .inr rfl
  | sig :: rest, st => by
    rw [negLoop]
    by_cases hc : S.candidate resp sig = true
    · rw [if_pos hc, if_pos hkey]
      exact .inl rfl
    · rw [if_neg hc]
      exact negLoop_no_dnskey hkey rest st

end Loop

/-- What `SECURE` rests on: an authority section with a zone, no candidate signature that failed,
a verified SOA and a stored proof. -/
structure Evidence (E : Env) (resp : Bytes) (max : Nat) (S : NegScan) : Prop where
  zone : S.zone ≠ []
  noneFailed : ∀ sig ∈ S.ns, S.candidate resp sig = true → S.verify E resp sig ≠ .invalid
  soa : ∃ sig ∈ S.ns, S.verified E resp sig = true ∧ covered resp sig = SOA
  proof : (S.denials E resp S.ns).take max ≠ []

variable {E : Env} {resp : Bytes}

/-- **`SECURE` read off the packet**, and the proofs it comes with. -/
theorem evidence_of_secure {qname : Text} {max : Nat} {stored : List (RR × NsecProof)}
    (h : validateNegative E resp qname max = (.secure, stored)) :
    ∃ off, authorityStart resp = some off ∧ Evidence E resp max (negScan resp off) ∧
      stored = ((negScan resp off).denials E resp (negScan resp off).ns).take max := by
  unfold validateNegative at h
  split at h
  · cases h
  split at h
  · cases h
  split at h
  · cases h
  rename_i off hoff
  refine ⟨off, hoff, ?_⟩
  dsimp only at h
  generalize negScan resp off = S at h ⊢
  split at h
  · cases h
  rename_i hz
  by_cases hkey : S.dnskey E resp = []
  · rcases @negLoop_no_dnskey S E resp max hkey S.ns ⟨false, false, []⟩ with hl | hl <;>
      rw [hl] at h <;> cases h
  rw [negLoop_eq hkey S.ns _ (Nat.zero_le _)] at h
  simp only [Bool.false_or, nil_append] at h
  split at h
  · cases h
  rename_i hb
  split at h
  · rename_i hs
    cases h
    refine ⟨⟨hz, ?_, ?_, hs.2⟩, rfl⟩
    · simpa [NegScan.bogus] using hb
    · simpa [NegScan.soaVerified] using hs.1
  · cases h

/-! ## The terms of an accepted signature -/

/-- The terms on which a signature was accepted over an RRset of `rrs`: it is an RRSIG, its
algorithm is 13 or 15, the key is trusted and as long as that algorithm's keys, and the signature
verified. -/
structure AcceptedUnder (E : Env) (resp : Bytes) (rrs : List RR) (sig : RR) (key : Bytes) :
    Prop where
  isRrsig : sig.type = RRSIG
  algorithm : byteAt (sig.rdata resp) 2 = 13 ∧ key.length = 68 ∨
    byteAt (sig.rdata resp) 2 = 15 ∧ key.length = 36
  trusted : E.trusted key = true
  verified : dnssecVerifyRrset E.crypto resp (rrsetOffs rrs sig.owner (covered resp sig))
    (sig.rdata resp) key = .valid

/-- The terms RFC 4035 §5.3.1 sets for an RRSIG at the time `now`: its validity period, a signer
that is the owner or an ancestor of it, and the algorithm and key tag of the DNSKEY. -/
structure WithinTerms (resp : Bytes) (now : Nat) (sig : RR) (key : Bytes) : Prop where
  started : serialGe now (get32 (sig.rdata resp) 12) = true
  notExpired : serialGe (get32 (sig.rdata resp) 8) now = true
  signer : ∃ name after, nameFromWire (sig.rdata resp) 18 256 = some (name, after) ∧
    nameInZone sig.owner name = true
  algorithm : byteAt (sig.rdata resp) 2 = byteAt key 3
  tag : get16 (sig.rdata resp) 16 = keytag key

theorem acceptedUnder_of_valid {rrs : List RR} {sig : RR} {key : Bytes}
    (ht : sig.type = RRSIG) (htr : E.trusted key = true)
    (hv : dnssecVerifyRrset E.crypto resp (rrsetOffs rrs sig.owner (covered resp sig)) (sig.rdata
      resp) key = .valid) : AcceptedUnder E resp rrs sig key := by
  obtain ⟨h, data, ha⟩ := accepts_of_valid hv
  refine ⟨ht, ?_, htr, hv⟩
  rcases ha.primitive with ⟨halg, hk, -⟩ | ⟨halg, hk, -⟩
  · exact .inl ⟨halg, hk⟩
  · exact .inr ⟨halg, hk⟩

variable {S : NegScan}

theorem acceptedUnder_of_verified {sig : RR} (h : S.verified E resp sig = true) :
    AcceptedUnder E resp S.ns sig (S.dnskey E resp) := by
  simp only [NegScan.verified, Bool.and_eq_true, decide_eq_true_eq] at h
  refine acceptedUnder_of_valid ?_ h.2 h.1.2
  have hc := h.1.1
  simp only [NegScan.candidate, Bool.and_eq_true, decide_eq_true_eq] at hc
  exact hc.1.1.1.1

/-- `nsec_parse_rdata` refuses every other type. -/
theorem nsecParseRdata_eq_some {pkt : Bytes} {zone owner : Text} {rtype rdoff rdlen : Nat}
    {p : NsecProof} (h : nsecParseRdata pkt zone owner rtype rdoff rdlen = some p) :
    p.zone = zone ∧ (rtype = NSEC ∨ rtype = NSEC3) := by
  unfold nsecParseRdata at h
  split at h
  · cases h
  split at h
  · obtain ⟨d, -, rfl⟩ := map_eq_some_iff.mp h
    exact ⟨rfl, .inl ‹_›⟩
  split at h
  · obtain ⟨d, -, rfl⟩ := map_eq_some_iff.mp h
    exact ⟨rfl, .inr ‹_›⟩
  · cases h

theorem proof_eq_some {sig : RR} {p : NsecProof} (h : S.proof resp sig = some p) :
    ∃ r ∈ S.ns, r.type = covered resp sig ∧ r.owner = sig.owner ∧
      nsecParseRdata resp S.zone r.owner r.type r.rdoff r.rdlen = some p := by
  unfold NegScan.proof at h
  split at h
  · cases h
  · rename_i r hf
    have hfound := find?_some hf
    obtain ⟨htype, howner⟩ := of_decide_eq_true hfound
    rw [← htype, ← howner] at h
    exact ⟨r, mem_of_find?_eq_some hf, htype, howner, h⟩

theorem mem_denials {sigs : List RR} {e : RR × NsecProof} (h : e ∈ S.denials E resp sigs) :
    e.1 ∈ sigs ∧ S.verified E resp e.1 = true ∧ covered resp e.1 ≠ SOA ∧
      S.proof resp e.1 = some e.2 := by
  obtain ⟨sig, hm, hd⟩ := mem_filterMap.mp h
  unfold NegScan.denial at hd
  split at hd
  · rename_i hc
    obtain ⟨p, hp, rfl⟩ := map_eq_some_iff.mp hd
    exact ⟨hm, hc.1, hc.2, hp⟩
  · cases hd

/-- **The terms of acceptance.** A positive answer is `SECURE` only through its first RRSIG, a
negative one only through an RRSIG over an SOA and one over each stored proof, each accepted under
the algorithm, key length and trust of `AcceptedUnder`. The validity period, the signer name, the
key tag and the algorithm octet of the DNSKEY are not among the terms. -/
theorem secure_accepted_under (E : Env) (resp : Bytes) (qname : Text) (max : Nat) :
    (dnssecValidateResponse E resp qname = .secure →
      ∃ sig, firstRrsig (answerRRs resp) = some sig ∧
        AcceptedUnder E resp ((answerRRs resp).take dnssecMaxRRs) sig (dnskeyFor E resp qname)) ∧
    (∀ stored, validateNegative E resp qname max = (.secure, stored) →
      ∃ off, authorityStart resp = some off ∧
        let S := negScan resp off
        (∃ sig ∈ S.ns, covered resp sig = SOA ∧
          AcceptedUnder E resp S.ns sig (S.dnskey E resp)) ∧
        ∀ e ∈ stored, e.1 ∈ S.ns ∧ AcceptedUnder E resp S.ns e.1 (S.dnskey E resp)) := by
  constructor
  · intro hs
    obtain ⟨sig, hsig, htr, hv⟩ := validate_secure_iff.mp hs
    have hp := find?_some hsig
    simp only [decide_eq_true_eq] at hp
    exact ⟨sig, hsig, acceptedUnder_of_valid hp.1 htr hv⟩
  · intro stored hs
    obtain ⟨off, ho, hev, rfl⟩ := evidence_of_secure hs
    refine ⟨off, ho, ?_, fun e he => ?_⟩
    · obtain ⟨sig, hm, hver, hsoa⟩ := hev.soa
      exact ⟨sig, hm, hsoa, acceptedUnder_of_verified hver⟩
    · obtain ⟨hm, hver, -, -⟩ := mem_denials (mem_of_mem_take he)
      exact ⟨hm, acceptedUnder_of_verified hver⟩

/-- An answer to `a.b` A whose only signature ran out in 1970 (expiration 2, inception 1), names
`evil` as its signer and carries the key tag 0. -/
def staleAnswer : Option Bytes := do
  let canon ← appendRRPlain [] 256 (lit "a.b") RRType.A RRClass.IN 60 [192, 0, 2, 1]
  let sig := sampleRrsig RRType.A 15 2 60 2 1 0 (lit "evil") [canon]
  let m ← messageStart 7 0x8180 2 0 0 (lit "a.b") RRType.A
  let m ← appendRRPlain m 512 (lit "a.b") RRType.A RRClass.IN 60 [192, 0, 2, 1]
  appendRRPlain m 512 (lit "a.b") RRSIG RRClass.IN 60 sig

/-- **An expired signature of a foreign signer is accepted**: `SECURE` at a clock of 2026, and no
RRSIG of the answer is within its terms under the key used. -/
theorem staleAnswer_secure_out_of_terms :
    ∃ resp, staleAnswer = some resp ∧ dnssecValidateResponse .sample resp (lit "a.b") = .secure ∧
      ∀ sig ∈ answerRRs resp, sig.type = RRSIG →
        ¬ WithinTerms resp 1790000000 sig (dnskeyFor .sample resp (lit "a.b")) := by
  obtain ⟨resp, hresp, hsec, hexp⟩ : ∃ resp, staleAnswer = some resp ∧
      dnssecValidateResponse .sample resp (lit "a.b") = .secure ∧
      ∀ sig ∈ answerRRs resp, sig.type = RRSIG →
        ¬ serialGe (get32 (sig.rdata resp) 8) 1790000000 = true := by decide +kernel
  exact ⟨resp, hresp, hsec, fun sig hs ht hw => hexp sig hs ht hw.notExpired⟩

/-! ## The name asked -/

/-- The proof matches or covers `qname`: its owner is `qname`, or `qname` lies strictly inside its
span, in name order for NSEC and in hash order for NSEC3. -/
def NsecProof.matchesOrCovers (C : Crypto) (p : NsecProof) (qname : Text) : Bool :=
  match p.denial with
  | .nsec owner next => canonNameCmp qname owner == .eq || inSpan canonNameCmp owner next qname
  | .nsec3 ownerHash nextHash iters salt _ =>
    let h := nsec3HashRaw C.sha1 qname salt iters
    h == ownerHash || inSpan compare ownerHash nextHash h

/-- **What a `SECURE` denial proves**: an SOA RRset of the authority section verified under a
trusted key, at least one proof was stored, and every proof is the parsed NSEC or NSEC3 record of
an RRset of that section that verified under it. The name asked plays no part: verdict and proofs
are the same for every `qname`. -/
theorem secure_proofs_verified (E : Env) (resp : Bytes) (qname : Text) (max : Nat) :
    ((dnssecValidateNegative E resp qname max).1 = .secure →
      ∃ off, authorityStart resp = some off ∧
        let S := negScan resp off
        (∃ sig ∈ S.ns, covered resp sig = SOA ∧
          AcceptedUnder E resp S.ns sig (S.dnskey E resp)) ∧
        (dnssecValidateNegative E resp qname max).2 ≠ [] ∧
        ∀ p ∈ (dnssecValidateNegative E resp qname max).2, ∃ sig ∈ S.ns, ∃ r ∈ S.ns,
          AcceptedUnder E resp S.ns sig (S.dnskey E resp) ∧ r.owner = sig.owner ∧
          r.type = covered resp sig ∧ (r.type = NSEC ∨ r.type = NSEC3) ∧
          nsecParseRdata resp S.zone r.owner r.type r.rdoff r.rdlen = some p) ∧
    ∀ qname',
      dnssecValidateNegative E resp qname' max = dnssecValidateNegative E resp qname max := by
  refine ⟨fun hs => ?_, fun _ => rfl⟩
  unfold dnssecValidateNegative at hs ⊢
  generalize hr : validateNegative E resp qname max = r at hs ⊢
  obtain ⟨status, stored⟩ := r
  subst hs
  obtain ⟨off, ho, hev, rfl⟩ := evidence_of_secure hr
  refine ⟨off, ho, ?_, ?_, fun p hp => ?_⟩
  · obtain ⟨sig, hm, hver, hsoa⟩ := hev.soa
    exact ⟨sig, hm, hsoa, acceptedUnder_of_verified hver⟩
  · simpa using hev.proof
  · obtain ⟨e, he, rfl⟩ := mem_map.mp hp
    obtain ⟨hm, hver, -, hproof⟩ := mem_denials (mem_of_mem_take he)
    obtain ⟨r, hr, htype, howner, hparse⟩ := proof_eq_some hproof
    exact ⟨e.1, hm, r, hr, acceptedUnder_of_verified hver, howner, htype,
      (nsecParseRdata_eq_some hparse).2, hparse⟩

/-- The sample zone `b` at work: an NXDOMAIN for `qname` whose authority section holds the SOA of
`soa` and one NSEC from `owner` to `next`, both signed. -/
def sampleDenial (soa owner next : Text) (m : Bytes) : Option Bytes := do
  let soaRd := (← nameToWire soa 256) ++ [0] ++ replicate 20 1
  let nsecRd := (← nameToWire next 256) ++ [0, 1, 64]
  let soaRR ← appendRRPlain [] 256 soa SOA RRClass.IN 60 soaRd
  let nsecRR ← appendRRPlain [] 256 owner NSEC RRClass.IN 60 nsecRd
  let labelCount := fun n : Text => (labels n).length
  let soaSig := sampleRrsig SOA 15 (labelCount soa) 60 2 1 0 soa [soaRR]
  let nsecSig := sampleRrsig NSEC 15 (labelCount owner) 60 2 1 0 soa [nsecRR]
  let m ← appendRRPlain m 1024 soa SOA RRClass.IN 60 soaRd
  let m ← appendRRPlain m 1024 soa RRSIG RRClass.IN 60 soaSig
  let m ← appendRRPlain m 1024 owner NSEC RRClass.IN 60 nsecRd
  appendRRPlain m 1024 owner RRSIG RRClass.IN 60 nsecSig

/-- An NXDOMAIN for `q.b` that proves the gap between `a.b` and `c.b`. -/
def offTopicDenial : Option Bytes := do
  let m ← messageStart 7 0x8183 0 4 0 (lit "q.b") RRType.A
  sampleDenial (lit "b") (lit "a.b") (lit "c.b") m

/-- **A denial of something else is accepted**: `SECURE` for `q.b`, with no proof that matches or
covers it. -/
theorem offTopicDenial_secure_unrelated :
    ∃ resp, offTopicDenial = some resp ∧
      (dnssecValidateNegative .sample resp (lit "q.b") maxNegProofs).1 = .secure ∧
      ¬ ∃ p ∈ (dnssecValidateNegative .sample resp (lit "q.b") maxNegProofs).2,
        p.matchesOrCovers Env.sample.crypto (lit "q.b") = true := by
  decide +kernel

/-! ## The zone label -/

/-- The zone label of every stored proof is right: it is the owner of an SOA RRset that verified,
and the NSEC or NSEC3 owner lies inside it. -/
def NoLeak (E : Env) (resp : Bytes) (S : NegScan) (stored : List (RR × NsecProof)) : Prop :=
  ∀ e ∈ stored, (∃ sig ∈ S.ns, S.verified E resp sig = true ∧ covered resp sig = SOA ∧
    sig.owner = e.2.zone) ∧ nameInZone e.1.owner e.2.zone = true

/-- Every proof carries the owner of the first SOA of the section. -/
theorem denials_zone {sigs : List RR} {e : RR × NsecProof} (h : e ∈ S.denials E resp sigs) :
    e.2.zone = S.zone := by
  obtain ⟨-, -, -, hp⟩ := mem_denials h
  obtain ⟨r, -, -, -, hparse⟩ := proof_eq_some hp
  exact (nsecParseRdata_eq_some hparse).1

/-- A candidate of an algorithm the resolver supports. -/
def NegScan.signed (S : NegScan) (resp : Bytes) (sig : RR) : Bool :=
  S.candidate resp sig &&
    decide (byteAt (sig.rdata resp) 2 = 13 ∨ byteAt (sig.rdata resp) 2 = 15)

/-- The signatures over NSEC and NSEC3 RRsets whose first record parses. -/
def NegScan.signedDenials (S : NegScan) (resp : Bytes) : List RR :=
  S.ns.filter fun sig =>
    S.signed resp sig && decide (covered resp sig ≠ SOA) && (S.proof resp sig).isSome

/-- The first SOA of the section has a signature, and the first `max` signed denials are owned by
names inside the owner of that SOA. -/
structure SpeaksForFirstSoa (resp : Bytes) (max : Nat) (S : NegScan) : Prop where
  soaSigned : ∃ sig ∈ S.ns, S.signed resp sig = true ∧ covered resp sig = SOA ∧ sig.owner = S.zone
  inside : ∀ sig ∈ (S.signedDenials resp).take max, nameInZone sig.owner S.zone = true

/-- Only the algorithm makes a signature one the resolver passes over. -/
theorem verify_ne_unsupported {C : Crypto} {pkt : Bytes} {offs : List Nat} {rrsig dnskey : Bytes}
    (h : byteAt rrsig 2 = 13 ∨ byteAt rrsig 2 = 15) :
    dnssecVerifyRrset C pkt offs rrsig dnskey ≠ .unsupported := by
  have halg : ¬ (byteAt rrsig 2 ≠ 13 ∧ byteAt rrsig 2 ≠ 15) := by tauto
  intro hv
  simp only [dnssecVerifyRrset, if_neg halg] at hv
  repeat' split at hv
  all_goals cases hv

variable {max : Nat}

/-- **Where a section is accepted, every signature of a supported algorithm has verified.** -/
theorem Evidence.verified_eq_signed (hev : Evidence E resp max S) {sig : RR} (hm : sig ∈ S.ns) :
    S.verified E resp sig = S.signed resp sig := by
  obtain ⟨soa, -, hsoa, -⟩ := hev.soa
  have htrusted : E.trusted (S.dnskey E resp) = true := (Bool.and_eq_true_iff.mp hsoa).2
  unfold NegScan.verified NegScan.signed
  rw [htrusted, Bool.and_true]
  refine Bool.eq_iff_iff.mpr ?_
  simp only [Bool.and_eq_true, decide_eq_true_eq]
  refine and_congr_right fun hc => ⟨fun hv => ?_, fun halg => ?_⟩
  · obtain ⟨h, data, ha⟩ := accepts_of_valid hv
    exact ha.primitive.imp And.left And.left
  · have hfailed := hev.noneFailed sig hm hc
    have hpassed : S.verify E resp sig ≠ .unsupported := verify_ne_unsupported halg
    cases hv : S.verify E resp sig with
    | valid => rfl
    | invalid => exact absurd hv hfailed
    | unsupported => exact absurd hv hpassed

/-- The proofs stored are those of the signed denials. -/
theorem Evidence.map_denials (hev : Evidence E resp max S) :
    (S.denials E resp S.ns).map Prod.fst = S.signedDenials resp := by
  unfold NegScan.denials NegScan.signedDenials
  rw [map_filterMap, ← filterMap_eq_filter]
  refine filterMap_congr fun sig hm => ?_
  rw [NegScan.denial, hev.verified_eq_signed hm]
  by_cases hd : S.signed resp sig = true ∧ covered resp sig ≠ SOA
  · cases hp : S.proof resp sig <;> simp [hd, hp, Option.guard]
  · rw [if_neg hd, Option.guard, if_neg fun h => hd (by simpa using (Bool.and_eq_true_iff.mp h).1)]
    rfl

/-- **The zone label of an accepted section is right exactly when the section speaks for its first
SOA**: that SOA has a signature of its own, and the signed denials stored are owned inside it. -/
theorem secure_no_leak_iff (E : Env) (resp : Bytes) (qname : Text) (max : Nat)
    {stored : List (RR × NsecProof)} {off : Nat}
    (hs : validateNegative E resp qname max = (.secure, stored))
    (ho : authorityStart resp = some off) :
    NoLeak E resp (negScan resp off) stored ↔ SpeaksForFirstSoa resp max (negScan resp off) := by
  obtain ⟨off', ho', hev, rfl⟩ := evidence_of_secure hs
  obtain rfl : off' = off := Option.some.inj (ho'.symm.trans ho)
  set S := negScan resp off'
  have hsoa : (∃ sig ∈ S.ns, S.verified E resp sig = true ∧ covered resp sig = SOA ∧
      sig.owner = S.zone) ↔ ∃ sig ∈ S.ns, S.signed resp sig = true ∧ covered resp sig = SOA ∧
        sig.owner = S.zone :=
    exists_congr fun sig => and_congr_right fun hm => by rw [hev.verified_eq_signed hm]
  constructor
  · intro hno
    refine ⟨?_, fun sig hsig => ?_⟩
    · obtain ⟨e, he⟩ := exists_mem_of_ne_nil _ hev.proof
      have hlabel := (hno e he).1
      rw [denials_zone (mem_of_mem_take he)] at hlabel
      exact hsoa.mp hlabel
    · rw [← hev.map_denials, ← map_take] at hsig
      obtain ⟨e, he, rfl⟩ := mem_map.mp hsig
      have hin := (hno e he).2
      rwa [denials_zone (mem_of_mem_take he)] at hin
  · rintro ⟨hfirst, hin⟩ e he
    rw [denials_zone (mem_of_mem_take he)]
    refine ⟨hsoa.mpr hfirst, hin e.1 ?_⟩
    rw [← hev.map_denials, ← map_take]
    exact mem_map_of_mem he

/-- The denial from the zone `b` alone keeps its label. -/
theorem offTopicDenial_no_leak :
    ∃ resp stored off, offTopicDenial = some resp ∧
      validateNegative .sample resp (lit "q.b") maxNegProofs = (.secure, stored) ∧
      authorityStart resp = some off ∧ NoLeak .sample resp (negScan resp off) stored := by
  have hsec : (validateNegative .sample (offTopicDenial.get (by decide +kernel)) (lit "q.b")
      maxNegProofs).1 = .secure := by decide +kernel
  have hoff : authorityStart (offTopicDenial.get (by decide +kernel)) = some 21 := by
    decide +kernel
  refine ⟨_, _, 21, by simp, Prod.fst_eq_iff.mp hsec, hoff, ?_⟩
  refine (secure_no_leak_iff _ _ _ _ (Prod.fst_eq_iff.mp hsec) hoff).mpr ⟨?_, ?_⟩
  all_goals decide +kernel

/-- An NXDOMAIN for `q.com`: an unsigned SOA of `com`, then the signed SOA and NSEC of `b.com`,
with the key of `b.com` in the additional section. -/
def mixedDenial : Option Bytes := do
  let m ← messageStart 7 0x8183 0 5 1 (lit "q.com") RRType.A
  let m ← appendRRPlain m 1024 (lit "com") SOA RRClass.IN 60 ([0, 0] ++ replicate 20 1)
  let m ← sampleDenial (lit "b.com") (lit "b.com") (lit "b.com") m
  appendRRPlain m 1024 (lit "b.com") DNSKEY RRClass.IN 60 (padTo 36 [1, 0, 3, 15])

/-- **A proof of `b.com` is stored for the zone `com`**: the denial is `SECURE`, and the zone of a
stored proof is not the owner of any SOA that verified. -/
theorem mixedDenial_leaks :
    ∃ resp, mixedDenial = some resp ∧
      ¬ ∀ stored off, validateNegative .sample resp (lit "q.com") maxNegProofs = (.secure, stored) →
        authorityStart resp = some off → NoLeak .sample resp (negScan resp off) stored := by
  obtain ⟨resp, hresp, hsec, hoff, hleak⟩ : ∃ resp, mixedDenial = some resp ∧
      (validateNegative .sample resp (lit "q.com") maxNegProofs).1 = .secure ∧
      authorityStart resp = some 23 ∧ ¬ NoLeak .sample resp (negScan resp 23)
        (validateNegative .sample resp (lit "q.com") maxNegProofs).2 := by
    unfold NoLeak
    decide +kernel
  exact ⟨resp, hresp, fun h => hleak (h _ 23 (Prod.fst_eq_iff.mp hsec) hoff)⟩

end SimpleDns.Resolver
