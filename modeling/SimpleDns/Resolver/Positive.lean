import SimpleDns.Resolver.Verify

/-!
# Validating a positive answer (`resolverd.c:1550-1641`)

`dnssec_validate_response` scans the answer section once. It keeps the rdata of the first RRSIG
that fits `rrsig_rd[512]`, the rdata of the last DNSKEY that fits `dnskey_rd[128]`, and the
offsets, owners and types of the first sixteen records; then it verifies the one RRset that RRSIG
covers among those sixteen, and its verdict is the verdict on the whole response.

* `validate_secure_iff`: `SECURE` exactly when that one RRset verifies under a trusted key.
* `secure_covers_iff`: what the verdict says about the rest of the answer. Every RRset of the
  answer is covered by a signature exactly when the RRsets the scan leaves out happen to be.
-/

namespace SimpleDns.Resolver

open Wire List RRType

/-- `dnssec_status_t`. -/
inductive DnssecStatus
  | unchecked
  | secure
  | insecure
  | bogus
deriving DecidableEq, Repr

/-- What validation reads besides the response: the primitives, the configured trust anchors
(SHA-256 of a DNSKEY rdata) and what `dnssec_fetch_dnskey(name, _, 128)` copies out (`[]` when it
returns 0). -/
structure Env where
  crypto : Crypto
  anchors : List Bytes
  fetch : Text → Bytes

variable (E : Env)

/-- `dnskey_is_trusted`. -/
def Env.trusted (dnskey : Bytes) : Bool := E.anchors.contains (E.crypto.sha256 dnskey)

variable (resp : Bytes)

/-- The records of the answer section the scan reaches. -/
def answerRRs : List RR :=
  match skipQuestions resp (qdcount resp) 12 with
  | none => []
  | some off => (scanRRs resp (ancount resp) off).1

variable (rrs : List RR)

/-- The first RRSIG that fits `rrsig_rd[512]`. -/
def firstRrsig : Option RR :=
  rrs.find? fun r => r.type = RRSIG ∧ 0 < r.rdlen ∧ r.rdlen ≤ 512

/-- The last DNSKEY that fits `dnskey_rd[128]`. -/
def inBandDnskey : Option RR :=
  rrs.reverse.find? fun r => r.type = DNSKEY ∧ 0 < r.rdlen ∧ r.rdlen ≤ 128

/-- The DNSKEY used: the one in the answer, else the one fetched for `qname`. -/
def dnskeyFor (qname : Text) : Bytes :=
  match inBandDnskey (answerRRs resp) with
  | some k => k.rdata resp
  | none => E.fetch qname

/-- The type an RRSIG covers. -/
def covered (sig : RR) : Nat := get16 (sig.rdata resp) 0

/-- The offsets of the records of one RRset. -/
def rrsetOffs (owner : Text) (type : Nat) : List Nat :=
  (rrs.filter fun r => r.type = type ∧ r.owner = owner).map (·.start)

/-- `dnssec_validate_response`. -/
def dnssecValidateResponse (qname : Text) : DnssecStatus :=
  if resp.length < 12 then .insecure
  else if ancount resp = 0 then .insecure
  else
    match skipQuestions resp (qdcount resp) 12 with
    | none => .insecure
    | some off =>
      let rrs := (scanRRs resp (ancount resp) off).1
      match firstRrsig rrs with
      | none => .insecure
      | some sig =>
        if sig.rdlen < 18 then .bogus
        else
          let offs := rrsetOffs (rrs.take dnssecMaxRRs) sig.owner (covered resp sig)
          if offs = [] then .bogus
          else
            let key := match inBandDnskey rrs with
              | some k => k.rdata resp
              | none => E.fetch qname
            if key = [] then .insecure
            else if E.trusted key then
              match dnssecVerifyRrset E.crypto resp offs (sig.rdata resp) key with
              | .valid => .secure
              | .invalid => .bogus
              | .unsupported => .insecure
            else
              match dnssecVerifyRrset E.crypto resp offs (sig.rdata resp) key with
              | .invalid => .bogus
              | _ => .insecure

/-- A zone-signing key of 36 octets (flags 256, protocol 3, algorithm 15), trusted, and handed out
by every fetch. -/
def Env.sample : Env where
  crypto := .sample
  anchors := [padTo 32 [1, 0, 3, 15]]
  fetch _ := padTo 36 [1, 0, 3, 15]

/-- An RRSIG rdata (RFC 4034 §3.1) in its wire order, with the signature of `Crypto.sample` over
the canonical records `rrs`. -/
def sampleRrsig (type alg labels ttl expiration inception tag : Nat) (signer : Text)
    (rrs : List Bytes) : Bytes :=
  let hdr := put16 type ++ [alg.toUInt8, labels.toUInt8] ++ put32 ttl ++ put32 expiration ++
    put32 inception ++ put16 tag ++ (nameToWire signer 256).getD []
  hdr ++ padTo 64 (hdr ++ rrs.flatten)

/-! ## The verdict -/

/-- The RRSIG `sig` verifies its RRset, as far as the first sixteen records hold it, under the
DNSKEY used, and that key is trusted. -/
def SelectedVerifies (qname : Text) (sig : RR) : Prop :=
  E.trusted (dnskeyFor E resp qname) = true ∧
    dnssecVerifyRrset E.crypto resp
      (rrsetOffs ((answerRRs resp).take dnssecMaxRRs) sig.owner (covered resp sig))
      (sig.rdata resp) (dnskeyFor E resp qname) = .valid

/-- A valid verdict needs an RRset, a key and eighteen octets of RRSIG. -/
theorem valid_needs {C : Crypto} {pkt : Bytes} {offs : List Nat} {rrsig key : Bytes}
    (hv : dnssecVerifyRrset C pkt offs rrsig key = .valid) :
    offs ≠ [] ∧ key ≠ [] ∧ 18 ≤ rrsig.length := by
  obtain ⟨h, data, ha⟩ := accepts_of_valid hv
  have h18 := hdrLen_ge ha.hdr
  have hsig := ha.siglen
  simp only [length_drop] at hsig
  refine ⟨?_, ?_, by omega⟩
  · intro e
    have := ha.rrs.1
    rw [e] at this
    cases this
  · intro e
    rcases ha.primitive with ⟨-, hk, -⟩ | ⟨-, hk, -⟩ <;> rw [e] at hk <;> cases hk

/-- A record is found only inside a packet with a full header. -/
theorem answerRRs_eq_nil_of_short {resp : Bytes} (h : resp.length < 12) : answerRRs resp = [] := by
  have hq : skipQuestions resp (qdcount resp) 12 = some 12 := by
    cases qdcount resp with
    | zero => rfl
    | succ n => simp only [skipQuestions, if_neg (show ¬ 12 < resp.length by omega)]
  unfold answerRRs
  rw [hq]
  cases ancount resp with
  | zero => rfl
  | succ n => simp only [scanRRs, if_neg (show ¬ 12 < resp.length by omega)]

/-- **`SECURE` means that the selected RRset verified under a trusted key.** -/
theorem validate_secure_iff {E : Env} {resp : Bytes} {qname : Text} :
    dnssecValidateResponse E resp qname = .secure ↔
      ∃ sig, firstRrsig (answerRRs resp) = some sig ∧ SelectedVerifies E resp qname sig := by
  by_cases hlen : resp.length < 12
  · rw [dnssecValidateResponse, if_pos hlen, answerRRs_eq_nil_of_short hlen]
    simp [firstRrsig]
  by_cases han : ancount resp = 0
  · have hnil : answerRRs resp = [] := by
      unfold answerRRs
      rw [han]
      split <;> rfl
    rw [dnssecValidateResponse, if_neg hlen, if_pos han, hnil]
    simp [firstRrsig]
  unfold dnssecValidateResponse SelectedVerifies dnskeyFor answerRRs
  rw [if_neg hlen, if_neg han]
  cases skipQuestions resp (qdcount resp) 12 with
  | none => simp [firstRrsig]
  | some off =>
    simp only
    generalize (scanRRs resp (ancount resp) off).1 = rrs
    cases firstRrsig rrs with
    | none => simp
    | some sig =>
      simp only [Option.some.injEq, exists_eq_left']
      generalize hkey : (match inBandDnskey rrs with
        | some k => k.rdata resp
        | none => E.fetch qname) = key
      generalize hoffs : rrsetOffs (rrs.take dnssecMaxRRs) sig.owner (covered resp sig) = offs
      constructor
      · intro hs
        split at hs
        · cases hs
        split at hs
        · cases hs
        split at hs
        · cases hs
        split at hs
        · rename_i htr
          refine ⟨htr, ?_⟩
          split at hs
          · assumption
          · cases hs
          · cases hs
        · split at hs <;> cases hs
      · rintro ⟨htr, hv⟩
        obtain ⟨ho, hk, hl⟩ := valid_needs hv
        have hrd : 18 ≤ sig.rdlen := le_trans hl (length_slice_le resp sig.rdoff sig.rdlen)
        rw [if_neg (by omega), if_neg ho, if_neg hk, if_pos htr, hv]

/-! ## What the verdict covers -/

/-- An RRset of the answer is covered: some RRSIG of the answer over it verifies, over all its
records, under some trusted DNSKEY. -/
def RRsetCovered (owner : Text) (type : Nat) : Prop :=
  ∃ sig ∈ answerRRs resp, sig.type = RRSIG ∧ sig.owner = owner ∧ covered resp sig = type ∧
    ∃ key, E.trusted key = true ∧
      dnssecVerifyRrset E.crypto resp (rrsetOffs (answerRRs resp) owner type) (sig.rdata resp) key =
        .valid

/-- Every RRset of the answer other than the RRSIGs is covered. -/
def AnswerCovered : Prop :=
  ∀ r ∈ answerRRs resp, r.type ≠ RRSIG → RRsetCovered E resp r.owner r.type

/-- The record belongs to the RRset of `sig`, and that RRset ends within the sixteen records the
scan keeps. -/
def InSelected (sig r : RR) : Prop :=
  r.owner = sig.owner ∧ r.type = covered resp sig ∧
    ∀ r' ∈ (answerRRs resp).drop dnssecMaxRRs, ¬ (r'.owner = r.owner ∧ r'.type = r.type)

theorem rrsetOffs_take {rrs : List RR} {owner : Text} {type n : Nat}
    (h : ∀ r ∈ rrs.drop n, ¬ (r.owner = owner ∧ r.type = type)) :
    rrsetOffs (rrs.take n) owner type = rrsetOffs rrs owner type := by
  unfold rrsetOffs
  conv_rhs => rw [← take_append_drop n rrs]
  have hnil : (rrs.drop n).filter (fun r => decide (r.type = type ∧ r.owner = owner)) = [] := by
    rw [filter_eq_nil_iff]
    intro r hr hc
    simp only [decide_eq_true_eq] at hc
    exact h r hr ⟨hc.2, hc.1⟩
  rw [filter_append, hnil, append_nil]

/-- The selected RRset is covered when none of it lies past the sixteenth record. -/
theorem covered_of_selected {E : Env} {resp : Bytes} {qname : Text} {sig r : RR}
    (hsig : firstRrsig (answerRRs resp) = some sig) (hv : SelectedVerifies E resp qname sig)
    (hr : InSelected resp sig r) : RRsetCovered E resp r.owner r.type := by
  obtain ⟨ho, ht, hpast⟩ := hr
  have hp := find?_some hsig
  simp only [decide_eq_true_eq] at hp
  refine ⟨sig, mem_of_find?_eq_some hsig, hp.1, ho.symm, ht.symm, dnskeyFor E resp qname,
    hv.1, ?_⟩
  rw [← rrsetOffs_take hpast, ho, ht]
  exact hv.2

/-- **A `SECURE` answer is covered throughout exactly when the RRsets outside the selected one
are**: whatever the first RRSIG does not cover among the first sixteen records has to be covered
by a signature the code never looked at. -/
theorem secure_covers_iff (E : Env) (resp : Bytes) (qname : Text) :
    (dnssecValidateResponse E resp qname = .secure → AnswerCovered E resp) ↔
      ∀ sig, firstRrsig (answerRRs resp) = some sig → SelectedVerifies E resp qname sig →
        ∀ r ∈ answerRRs resp, r.type ≠ RRSIG → ¬ InSelected resp sig r →
          RRsetCovered E resp r.owner r.type := by
  constructor
  · intro h sig hsig hv r hr hne _
    exact h (validate_secure_iff.mpr ⟨sig, hsig, hv⟩) r hr hne
  · intro h hs r hr hne
    obtain ⟨sig, hsig, hv⟩ := validate_secure_iff.mp hs
    by_cases hin : InSelected resp sig r
    · exact covered_of_selected hsig hv hin
    · exact h sig hsig hv r hr hne hin

/-! ## Names inside a zone -/

/-- `name_in_zone` (`resolverd.c:3391-3404`). -/
def nameInZone (name zone : Text) : Bool :=
  if zone.isEmpty then true
  else if name.length < zone.length then false
  else if !eqCI (name.drop (name.length - zone.length)) zone then false
  else name.length == zone.length || byteAt name (name.length - zone.length - 1) == dot

/-- An answer to `a.b` A: the signed address, its RRSIG, and an unsigned address of `x.b`. -/
def mixedAnswer : Option Bytes := do
  let canon ← appendRRPlain [] 256 (lit "a.b") RRType.A RRClass.IN 60 [192, 0, 2, 1]
  let sig := sampleRrsig RRType.A 15 2 60 2000000000 1000000000 1 (lit "b") [canon]
  let m ← messageStart 7 0x8180 3 0 0 (lit "a.b") RRType.A
  let m ← appendRRPlain m 512 (lit "a.b") RRType.A RRClass.IN 60 [192, 0, 2, 1]
  let m ← appendRRPlain m 512 (lit "a.b") RRSIG RRClass.IN 60 sig
  appendRRPlain m 512 (lit "x.b") RRType.A RRClass.IN 60 [203, 0, 113, 9]

/-- **The verdict does not cover the answer**: `SECURE`, and no RRSIG is there for `x.b`. -/
theorem mixedAnswer_secure_not_covered :
    ∃ resp, mixedAnswer = some resp ∧
      ¬ (dnssecValidateResponse .sample resp (lit "a.b") = .secure →
        AnswerCovered .sample resp) := by
  obtain ⟨resp, hresp, hsec, hno, r, hr, hne, ho⟩ : ∃ resp, mixedAnswer = some resp ∧
      dnssecValidateResponse .sample resp (lit "a.b") = .secure ∧
      (∀ sig ∈ answerRRs resp, sig.type = RRSIG → sig.owner ≠ lit "x.b") ∧
      ∃ r ∈ answerRRs resp, r.type ≠ RRSIG ∧ r.owner = lit "x.b" := by decide +kernel
  refine ⟨resp, hresp, fun h => ?_⟩
  obtain ⟨sig, hs, ht, hown, -⟩ := h hsec r hr hne
  exact hno sig hs ht (hown.trans ho)

end SimpleDns.Resolver
