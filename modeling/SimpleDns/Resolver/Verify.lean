import SimpleDns.Wire.Canon
import SimpleDns.Wire.Codec

/-!
# Verifying one RRset (`resolverd.c:1269-1438`)

`dnssec_verify_rrset` rebuilds the octets an RRSIG signs (RFC 4034 §3.1.8.1: the RRSIG rdata up to
and including the signer name, then the RRset in canonical form and order) and hands them to the
signature primitive of the RRSIG's algorithm.

* `Crypto` holds the primitives taken from OpenSSL; nothing here assumes anything about them.
* `signedData` is the octet string rebuilt; `dnssecVerifyRrset` is the verdict, where the C return
  values `1`, `0` and `-1` are `valid`, `invalid` and `unsupported`.
* `accepts_of_valid`: what a `valid` verdict says about its arguments. The fields of the RRSIG that
  are read are the type covered, the algorithm, the labels count and the original TTL. The
  expiration, the inception, the key tag and the signer name are part of the signed octets only.
* **`verify_perm`**: the order of the records does not matter.
-/

namespace SimpleDns.Resolver

open Wire List

/-- The return values `1`, `0` and `-1` of `dnssec_verify_rrset`. -/
inductive Verdict
  | valid
  | invalid
  | unsupported
deriving DecidableEq, Repr

/-- `DNSSEC_MAX_RRS`. -/
def dnssecMaxRRs : Nat := 16

/-- `CANON_RR_MAX`. -/
def canonRRMax : Nat := 800

/-- `name_label_count`: dots plus one, a leading `"*."` not counted. -/
def nameLabelCount (name : Text) : Nat :=
  if name.isEmpty then 0
  else
    let n := 1 + name.count dot
    if (lit "*.").isPrefixOf name then n - 1 else n

/-- `p = strchr(p, '.') + 1`, `skip` times. -/
def skipLabels : Nat → Text → Option Text
  | 0, p => some p
  | skip + 1, p => if dot ∈ p then skipLabels skip ((p.dropWhile (· ≠ dot)).drop 1) else none

/-- The owner name that was signed (RFC 4035 §5.3.2): the owner itself, or the wildcard over its
rightmost `sigLabels` labels when the owner has more labels than the RRSIG says. -/
def signedOwner (oname : Text) (sigLabels : Nat) : Option Text :=
  let olabels := nameLabelCount oname
  if olabels < sigLabels then none
  else if olabels > sigLabels then
    (skipLabels (olabels - sigLabels) oname).map fun p => (lit "*." ++ p).take 259
  else some oname

/-- One record of the set in canonical form: owner, type, class, original TTL, rdlength, rdata. -/
def canonRR (pkt : Bytes) (covered sigLabels origTtl off : Nat) : Option Bytes :=
  match nameFromWire pkt off 256 with
  | none => none
  | some (oname, a) =>
    if a + 10 > pkt.length then none
    else if get16 pkt a ≠ covered then none
    else if a + 10 + get16 pkt (a + 8) > pkt.length then none
    else
      match signedOwner oname sigLabels with
      | none => none
      | some owner =>
        match nameToWire owner canonRRMax with
        | none => none
        | some w =>
          if w.length + 10 > canonRRMax then none
          else
            (canonRdata pkt (a + 10) (get16 pkt (a + 8)) (get16 pkt a)
              (canonRRMax - w.length - 10)).map fun c =>
                w ++ put16 (get16 pkt a) ++ put16 (get16 pkt (a + 2)) ++ put32 origTtl ++
                  put16 c.length ++ c

/-- The offset after the signer name, walked from `pos`; `none` at a compression pointer. The
loop also ends at the end of the rdata. -/
def signerEnd (rrsig : Bytes) : Nat → Nat → Option Nat
  | 0, pos => some pos
  | fuel + 1, pos =>
    if pos < rrsig.length then
      let l := byteAt rrsig pos
      if l = 0 then some (pos + 1)
      else if isPointer l then none
      else signerEnd rrsig fuel (pos + l.toNat + 1)
    else some pos

/-- `hdr_len`: the length of the RRSIG rdata before the signature. -/
def hdrLen (rrsig : Bytes) : Option Nat := signerEnd rrsig rrsig.length 18

/-- The octets the signature is checked over: RRSIG header, then the canonical RRset. -/
def signedData (pkt : Bytes) (offs : List Nat) (rrsig : Bytes) : Option Bytes :=
  match hdrLen rrsig with
  | none => none
  | some h =>
    (offs.mapM (canonRR pkt (get16 rrsig 0) (byteAt rrsig 3).toNat (get32 rrsig 4))).map fun rrs =>
      rrsig.take h ++ (canonRRSort rrs).flatten

/-- `dnssec_verify_rrset`. -/
def dnssecVerifyRrset (C : Crypto) (pkt : Bytes) (offs : List Nat) (rrsig dnskey : Bytes) :
    Verdict :=
  if rrsig.length < 18 then .invalid
  else if offs.length < 1 ∨ offs.length > dnssecMaxRRs then .invalid
  else if byteAt rrsig 2 ≠ 13 ∧ byteAt rrsig 2 ≠ 15 then .unsupported
  else
    match hdrLen rrsig with
    | none => .invalid
    | some h =>
      if h ≥ rrsig.length then .invalid
      else if dnskey.length < 4 then .invalid
      else
        let sig := rrsig.drop h
        let pubkey := dnskey.drop 4
        if byteAt rrsig 2 = 13 ∧ (sig.length ≠ 64 ∨ pubkey.length ≠ 64) then .invalid
        else if byteAt rrsig 2 = 15 ∧ (sig.length ≠ 64 ∨ pubkey.length ≠ 32) then .invalid
        else
          match signedData pkt offs rrsig with
          | none => .invalid
          | some data =>
            let ok := if byteAt rrsig 2 = 13 then C.verifyEcdsaP256 sig data pubkey
              else C.verifyEd25519 sig data pubkey
            if ok then .valid else .invalid

/-! ## What a valid verdict says -/

/-- The terms under which a signature is accepted: a supported algorithm, the key and signature
lengths of that algorithm, and the primitive's consent over the rebuilt octets. -/
structure Accepts (C : Crypto) (pkt : Bytes) (offs : List Nat) (rrsig dnskey : Bytes) (h : Nat)
    (data : Bytes) : Prop where
  rrs : 1 ≤ offs.length ∧ offs.length ≤ dnssecMaxRRs
  hdr : hdrLen rrsig = some h
  rebuilt : signedData pkt offs rrsig = some data
  siglen : (rrsig.drop h).length = 64
  primitive :
    (byteAt rrsig 2 = 13 ∧ dnskey.length = 68 ∧
        C.verifyEcdsaP256 (rrsig.drop h) data (dnskey.drop 4) = true) ∨
      (byteAt rrsig 2 = 15 ∧ dnskey.length = 36 ∧
        C.verifyEd25519 (rrsig.drop h) data (dnskey.drop 4) = true)

theorem signerEnd_ge (rrsig : Bytes) : ∀ (fuel pos : Nat) {h : Nat},
    signerEnd rrsig fuel pos = some h → pos ≤ h
  | 0, pos, h, e => by simp only [signerEnd, Option.some.injEq] at e; omega
  | fuel + 1, pos, h, e => by
    simp only [signerEnd] at e
    split at e
    · split at e
      · simp only [Option.some.injEq] at e; omega
      · split at e
        · cases e
        · have := signerEnd_ge rrsig fuel _ e
          omega
    · simp only [Option.some.injEq] at e; omega

/-- The signature follows the eighteen fixed octets and the signer name. -/
theorem hdrLen_ge {rrsig : Bytes} {h : Nat} (e : hdrLen rrsig = some h) : 18 ≤ h :=
  signerEnd_ge rrsig _ _ e

/-- **A `valid` verdict is given on the terms of `Accepts`.** -/
theorem accepts_of_valid {C : Crypto} {pkt : Bytes} {offs : List Nat} {rrsig dnskey : Bytes}
    (hv : dnssecVerifyRrset C pkt offs rrsig dnskey = .valid) :
    ∃ h data, Accepts C pkt offs rrsig dnskey h data := by
  unfold dnssecVerifyRrset at hv
  split at hv
  · cases hv
  split at hv
  · cases hv
  rename_i hlen hoffs
  split at hv
  · cases hv
  rename_i halg
  cases hh : hdrLen rrsig with
  | none => rw [hh] at hv; cases hv
  | some h =>
    rw [hh] at hv
    simp only at hv
    split at hv
    · cases hv
    split at hv
    · cases hv
    rename_i hlt hkey
    split at hv
    · cases hv
    split at hv
    · cases hv
    rename_i h13 h15
    cases hd : signedData pkt offs rrsig with
    | none => rw [hd] at hv; cases hv
    | some data =>
      rw [hd] at hv
      simp only at hv
      have hok : (if byteAt rrsig 2 = 13 then
          C.verifyEcdsaP256 (rrsig.drop h) data (dnskey.drop 4)
          else C.verifyEd25519 (rrsig.drop h) data (dnskey.drop 4)) = true := by
        by_contra hc
        rw [if_neg hc] at hv
        cases hv
      simp only [length_drop] at h13 h15
      have hboth : byteAt rrsig 2 = 13 ∨ byteAt rrsig 2 = 15 := by
        by_contra hc
        exact halg (by simpa using hc)
      refine ⟨h, data, by omega, hh, hd, ?_, ?_⟩
      · simp only [length_drop]
        rcases hboth with ha | ha
        · have := not_and.mp h13 ha
          omega
        · have := not_and.mp h15 ha
          omega
      · rcases hboth with ha | ha
        · rw [if_pos ha] at hok
          have := not_and.mp h13 ha
          exact .inl ⟨ha, by omega, hok⟩
        · rw [if_neg (by rw [ha]; decide)] at hok
          have := not_and.mp h15 ha
          exact .inr ⟨ha, by omega, hok⟩

/-! ## The order of the records -/

section Order

open List

theorem mapM_eq_filterMap {α β : Type} (f : α → Option β) (l : List α) :
    l.mapM f = if ∀ x ∈ l.map f, x.isSome then some ((l.map f).filterMap id) else none := by
  induction l with
  | nil => rfl
  | cons a l ih =>
    rw [mapM_cons, ih]
    cases h : f a with
    | none => simp [h]
    | some b =>
      simp only [h, map_cons, forall_mem_cons, Option.isSome_some, true_and, filterMap_cons, id]
      split <;> rfl

/-- The canonical form of the record at an offset, for an RRSIG. -/
def canonFor (rrsig pkt : Bytes) : Nat → Option Bytes :=
  canonRR pkt (get16 rrsig 0) (byteAt rrsig 3).toNat (get32 rrsig 4)

variable {pkt pkt' rrsig : Bytes} {offs offs' : List Nat}

/-- **The order of the records does not matter.** Two RRsets, of one packet or of two, whose
canonical forms under the RRSIG are the same up to their order give the same octets to the
signature check, and the same verdict. Offsets of one packet in another order are such sets. -/
theorem verify_perm
    (h : (offs.map (canonFor rrsig pkt)).Perm (offs'.map (canonFor rrsig pkt'))) :
    signedData pkt offs rrsig = signedData pkt' offs' rrsig ∧
      ∀ C dnskey, dnssecVerifyRrset C pkt offs rrsig dnskey =
        dnssecVerifyRrset C pkt' offs' rrsig dnskey := by
  have hsort : (offs.mapM (canonFor rrsig pkt)).map canonRRSort =
      (offs'.mapM (canonFor rrsig pkt')).map canonRRSort := by
    rw [mapM_eq_filterMap, mapM_eq_filterMap]
    simp only [h.mem_iff]
    split
    · exact congrArg some (canonRRSort_congr (h.filterMap _))
    · rfl
  have hdata : signedData pkt offs rrsig = signedData pkt' offs' rrsig := by
    unfold signedData
    cases hdrLen rrsig with
    | none => rfl
    | some n =>
      have hall := congrArg (Option.map fun rrs => rrsig.take n ++ rrs.flatten) hsort
      rwa [Option.map_map, Option.map_map] at hall
  have hlen : offs.length = offs'.length := by simpa using h.length_eq
  refine ⟨hdata, fun C dnskey => ?_⟩
  unfold dnssecVerifyRrset
  rw [hdata, hlen]

/-- Two address records of the name `a`. -/
def twoAddresses : Bytes :=
  [1, 97, 0, 0, 1, 0, 1, 0, 0, 0, 60, 0, 4, 192, 0, 2, 9,
    1, 97, 0, 0, 1, 0, 1, 0, 0, 0, 60, 0, 4, 192, 0, 2, 1]

theorem verify_perm_twoAddresses :
    (signedData twoAddresses [0, 17] ([0, 1, 13, 1] ++ replicate 79 0)).isSome = true ∧
      signedData twoAddresses [0, 17] ([0, 1, 13, 1] ++ replicate 79 0) =
        signedData twoAddresses [17, 0] ([0, 1, 13, 1] ++ replicate 79 0) :=
  ⟨by decide +kernel, (verify_perm ((Perm.swap 17 0 []).map _)).1⟩

end Order

end SimpleDns.Resolver
