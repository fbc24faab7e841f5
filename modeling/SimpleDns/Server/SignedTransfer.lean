import SimpleDns.Server.FullTransfer
import SimpleDns.Server.TsigRecord

/-!
# Signed transfers (`dns_server.c:5042-5110`, `9521-9577`, `9736-9757`, `10109-10254`)

A transfer under TSIG is one chain of MACs: `axfr_thread` signs its first and its last message and
folds every message between them into the running MAC (`tsig_axfr_first`, `tsig_axfr_mid`,
`tsig_axfr_last`); the secondary keeps the same running MAC (`xfr_tsig_verify_msg`) and counts the
unsigned messages. The two agree on the chain message by message.

* `axfrSigned` is what is sent, `xfrAccepts` the check of `xfr_pull`. The records are
  the `axfrItems` of `FullTransfer.lean`.
* **`xfrAccepts_axfrSigned_iff`**: the transfer is accepted exactly when at most 99 records stand
  between the SOAs and the key name has no upper-case letter. The primary never signs a message in
  between, and it signs the key name as it is configured, where the secondary verifies the
  lower-case form.
* `hundred_records_refused`: a zone of a hundred records.
-/

namespace SimpleDns.Server

open Wire Lib List Option RRType

/-! ## The MAC chain -/

/-- `BUF_SIZE`. -/
def axfrBufSize : Nat := 4096

/-- `tsig_hmac_prepend`. -/
def macPrefix (mac : Bytes) : Bytes := if mac = [] then [] else put16 mac.length ++ mac

variable (C : Crypto) (K : TsigKey)

/-- `tsig_hmac_new` and `tsig_hmac_prepend`, then `data`: the digest is taken from the key name. -/
def chainMac (prior data : Bytes) : Bytes :=
  C.hmac (tsigAlgToDigest K.name) K.secret (macPrefix prior ++ data)

/-- `tsig_axfr_first`: the message sent, and the running MAC. -/
def tsigAxfrFirst (blen : Nat) (msg : Bytes) (qid now : Nat) (reqMac : Bytes) : Bytes × Bytes :=
  if K.secret = [] ∨ reqMac = [] then (msg, [])
  else
    let mac := chainMac C K reqMac (msg ++ tsigVarsBuild K.name now 0)
    (tsigRRWrite K.name blen msg qid 0 now mac, mac)

/-- `tsig_axfr_mid`. -/
def tsigAxfrMid (prior msg : Bytes) : Bytes :=
  if K.secret = [] ∨ prior = [] then prior else chainMac C K prior msg

/-- `tsig_axfr_last`. -/
def tsigAxfrLast (blen : Nat) (msg : Bytes) (qid now : Nat) (prior : Bytes) : Bytes :=
  if K.secret = [] ∨ prior = [] then msg
  else
    tsigRRWrite K.name blen msg qid 0 now
      (chainMac C K prior (msg ++ tsigVarsBuild K.name now 0))

/-- The messages of a transfer under TSIG: the first is signed at `now`, the last at `now'`. -/
def signedChain (qid now now' : Nat) (reqMac f : Bytes) (mids : List Bytes) (l : Bytes) :
    List Bytes :=
  let first := tsigAxfrFirst C K axfrBufSize f qid now reqMac
  first.1 :: (mids ++ [tsigAxfrLast C K axfrBufSize l qid now'
    (mids.foldl (tsigAxfrMid C K) first.2)])

/-! ## What the primary sends -/

/-- `DNS_QR | DNS_AA`. -/
def axfrFlags : Nat := 0x8400

variable (D : Dnsd) (Z : ServedZone)

/-- The message of one record; `none` where the owner has no wire form or the record no room. -/
def axfrMessage (qid : Nat) (i : AxfrItem) : Option Bytes :=
  (appendRR axfrBufSize (header qid axfrFlags 0 1 0 0) [] i.1 i.2.1 RRClass.IN i.2.2.1 i.2.2.2).1

/-- The first message: question and SOA. Without a wire form the question is left out, without an
rdata the SOA. -/
def axfrFirst (global : ServedZone) (qid : Nat) : Option Bytes :=
  let question := ((nameToWire Z.name (axfrBufSize - 12)).map fun w =>
    w ++ put16 252 ++ put16 RRClass.IN).getD []
  let msg := header qid axfrFlags 1 1 0 0 ++ question
  match buildSoaRdata Z global with
  | none => some msg
  | some soa => (appendRR axfrBufSize msg [] Z.name SOA RRClass.IN Z.soa.minimum soa).1

/-- The last message: the SOA again. -/
def axfrLast (global : ServedZone) (qid : Nat) : Option Bytes :=
  (buildSoaRdata Z global).bind fun soa =>
    axfrMessage qid (Z.name, SOA, Z.soa.minimum, soa)

/-- The messages between the first and the last. -/
def axfrMids (qid : Nat) : List Bytes :=
  (axfrItems D Z).filterMap (axfrMessage qid)

/-- The messages of a full transfer under TSIG. -/
def axfrSigned (qid now now' : Nat) (reqMac : Bytes) : Option (List Bytes) :=
  (axfrFirst Z D.global qid).bind fun f =>
    (axfrLast Z D.global qid).map (signedChain C K qid now now' reqMac f (axfrMids D Z qid))

/-! ## What the secondary checks -/

/-- `prior`, `last_signed` and `unsigned_run`. -/
structure XfrChain where
  prior : Bytes
  lastSigned : Bool
  unsignedRun : Nat
deriving DecidableEq, Repr

/-- `xfr_tsig_verify_msg`: the running MAC and whether the message was signed. -/
def xfrTsigVerifyMsg (prior msg : Bytes) : Option (Bytes × Bool) :=
  match tsigFind msg with
  | none => some (chainMac C K prior msg, false)
  | some (off, t) =>
    if off = 0 then none
    else if chainMac C K prior (messageBefore msg off ++ tsigVars t) = t.mac then some (t.mac, true)
    else none

/-- The check of one message in `xfr_pull`; `none` rejects the transfer. -/
def xfrChainStep (c : XfrChain) (msg : Bytes) : Option XfrChain :=
  if msg.length < 12 ∨ msg.length > 65535 then none
  else
    (xfrTsigVerifyMsg C K c.prior msg).bind fun r =>
      let run := if r.2 then 0 else c.unsignedRun + 1
      if run > 99 then none else some ⟨r.1, r.2, run⟩

/-- Every message is accepted, and the last one was signed. -/
def xfrAccepts (reqMac : Bytes) (msgs : List Bytes) : Bool :=
  match msgs.foldlM (xfrChainStep C K) ⟨reqMac, false, 0⟩ with
  | none => false
  | some c => c.lastSigned

/-! ## The signed messages are found again -/

/-- The MACs of the chain: HMACs of at most 64 octets, never empty. -/
def MacSized : Prop := ∀ d s m, C.hmac d s m ≠ [] ∧ (C.hmac d s m).length ≤ 64

/-- A message that can be signed: its sections end with it, and the TSIG record has room. -/
structure Signable (qid qd : Nat) (msg : Bytes) : Prop where
  body : ∃ body, msg = header qid axfrFlags qd 1 0 0 ++ body ∧ Sections qd 1 body
  room : msg.length + 200 ≤ axfrBufSize
  small : qd < 2 ^ 16

variable {Z global : ServedZone} {soa : Bytes}

theorem length_buildSoaRdata_le (h : buildSoaRdata Z global = some soa) : soa.length ≤ 512 := by
  unfold buildSoaRdata buildSoaRdataSerial at h
  simp only [bind_eq_bind, bind_eq_some_iff] at h
  obtain ⟨m, -, r, -, h⟩ := h
  split at h
  · cases h
  · rename_i hlen
    rw [← some.inj h]
    simp only [length_append, length_put32]
    omega

/-- The octets of a record that the walk gets past wherever they stand. -/
def Walked (rr : Bytes) : Prop :=
  ∀ pre post, walkRecords (pre ++ rr ++ post) 1 pre.length = some (pre.length + rr.length)

theorem sections_question {ls : List Text} (hne : ∀ l ∈ ls, l ≠ [])
    (hshort : ∀ l ∈ ls, l.length ≤ 63) {rr : Bytes} (h : Walked rr) (type cls : Nat) :
    Sections 1 1 (nameWire ls ++ put16 type ++ put16 cls ++ rr) := by
  intro id flags ar post
  have hname : header id flags 1 1 0 ar ++ (nameWire ls ++ put16 type ++ put16 cls ++ rr) ++ post =
      header id flags 1 1 0 ar ++ nameWire ls ++ (put16 type ++ put16 cls ++ rr ++ post) := by
    simp
  have hrecord : header id flags 1 1 0 ar ++
      (nameWire ls ++ put16 type ++ put16 cls ++ rr) ++ post =
      header id flags 1 1 0 ar ++ (nameWire ls ++ put16 type ++ put16 cls) ++ rr ++ post := by
    simp
  have hwalk : walkNameFrom (header id flags 1 1 0 ar ++
      (nameWire ls ++ put16 type ++ put16 cls ++ rr) ++ post) 12 =
        some (12 + (nameWire ls).length) := by
    rw [hname]
    exact walkNameFrom_nameWire hne hshort (header id flags 1 1 0 ar) _
  have hquestion : walkQuestions (header id flags 1 1 0 ar ++
      (nameWire ls ++ put16 type ++ put16 cls ++ rr) ++ post) 1 12 =
        some (12 + (nameWire ls).length + 4) := by
    rw [walkQuestions, passQuestions, hwalk]
    dsimp only
    rw [if_neg (by simp only [length_append, length_header, length_put16]; omega),
      passQuestions]
  have hlen : 12 + (nameWire ls).length + 4 =
      (header id flags 1 1 0 ar ++ (nameWire ls ++ put16 type ++ put16 cls)).length := by
    simp only [length_append, length_header, length_put16]
    omega
  rw [hquestion, bind_some, hlen, hrecord, h]
  simp only [length_append, length_header, Nat.add_assoc]

theorem nameToWire_zone (ho : OwnerName Z.name) :
    nameToWire Z.name (axfrBufSize - 12) = some (nameWire (labels Z.name)) :=
  (nameToWire_eq_some_iff ho.short).mpr ⟨ho.labels_short, rfl, ho.length_wire.trans (by decide)⟩

/-- The SOA behind a question. -/
theorem signable_question (ho : OwnerName Z.name) (hsoa : buildSoaRdata Z global = some soa)
    (qid qtype : Nat) : ∃ f, (appendRR axfrBufSize (header qid axfrFlags 1 1 0 0 ++
      (nameWire (labels Z.name) ++ put16 qtype ++ put16 RRClass.IN)) [] Z.name SOA RRClass.IN
        Z.soa.minimum soa).1 = some f ∧ Signable qid 1 f := by
  have hlen := length_buildSoaRdata_le hsoa
  have hwire := ho.length_wire
  obtain ⟨msg, hmsg⟩ : ∃ m, m = header qid axfrFlags 1 1 0 0 ++
      (nameWire (labels Z.name) ++ put16 qtype ++ put16 RRClass.IN) := ⟨_, rfl⟩
  have hmsgLen : msg.length ≤ 271 := by
    rw [hmsg]
    simp only [length_append, length_header, length_put16]
    omega
  have hroom : msg.length + 265 + soa.length ≤ axfrBufSize := by
    rw [axfrBufSize]
    omega
  obtain ⟨f, hf⟩ := appendRR_of_room ho [] SOA RRClass.IN Z.soa.minimum hroom
  have hfLen := length_appendRR_le ho hf
  rw [← hmsg]
  refine ⟨f, hf, ?_⟩
  obtain ⟨rr, rfl, hrr⟩ := walkRecords_appendRR (hlen.trans_lt (by decide)) hf
  refine ⟨⟨_, ?_, sections_question (fun l hl => ne_nil_of_mem_labels hl) ho.labels_short hrr qtype
    RRClass.IN⟩, ?_, by decide⟩
  · rw [hmsg]
    simp
  · rw [axfrBufSize]
    omega

/-- The first message is the SOA behind the question. -/
theorem signable_axfrFirst (ho : OwnerName Z.name) (hsoa : buildSoaRdata Z global = some soa)
    (qid : Nat) : ∃ f, axfrFirst Z global qid = some f ∧ Signable qid 1 f := by
  rw [axfrFirst, hsoa, nameToWire_zone ho, map_some, getD_some]
  exact signable_question ho hsoa qid 252

/-- The last message is the SOA alone. -/
theorem signable_axfrLast (ho : OwnerName Z.name) (hsoa : buildSoaRdata Z global = some soa)
    (qid : Nat) : ∃ l, axfrLast Z global qid = some l ∧ Signable qid 0 l := by
  have hlen := length_buildSoaRdata_le hsoa
  have hroom : (header qid axfrFlags 0 1 0 0).length + 265 + soa.length ≤ axfrBufSize := by
    rw [axfrBufSize, length_header]
    omega
  obtain ⟨l, hl⟩ := appendRR_of_room ho [] SOA RRClass.IN Z.soa.minimum hroom
  have hlLen := length_appendRR_le ho hl
  rw [length_header] at hlLen
  refine ⟨l, ?_, ?_⟩
  · rwa [axfrLast, hsoa, bind_some]
  · obtain ⟨rr, rfl, hrr⟩ := walkRecords_appendRR (hlen.trans_lt (by decide)) hl
    refine ⟨⟨rr, rfl, fun id flags ar => hrr (header id flags 0 1 0 ar)⟩, ?_, by decide⟩
    rw [axfrBufSize]
    omega

/-! ## The two chains agree -/

section Chains

variable {C : Crypto} {K : TsigKey} (hname : LegalKeyName K.name) (hmac : MacSized C)

include hname hmac

variable {fudge qid qd : Nat} {msg : Bytes}

/-- A signed message is verified against the variables of the lower-case key name. -/
theorem xfrTsigVerifyMsg_signed {now : Nat} {prior : Bytes} (hs : Signable qid qd msg)
    (hfudge : fudge < 2 ^ 16) :
    xfrTsigVerifyMsg C K prior (tsigWrite fudge K.name axfrBufSize msg qid 0 now
        (chainMac C K prior (msg ++ tsigVarsWith fudge K.name now 0))) =
      if chainMac C K prior (msg ++ tsigVarsWith fudge (strlower K.name) now 0) =
          chainMac C K prior (msg ++ tsigVarsWith fudge K.name now 0) then
        some (chainMac C K prior (msg ++ tsigVarsWith fudge K.name now 0), true) else none := by
  obtain ⟨body, rfl, hsections⟩ := hs.body
  have hroom := hs.room
  rw [length_append, length_header] at hroom
  have hsize : (chainMac C K prior (header qid axfrFlags qd 1 0 0 ++ body ++
      tsigVarsWith fudge K.name now 0)).length ≤ 64 := (hmac _ _ _).2
  rw [xfrTsigVerifyMsg,
    tsigFind_tsigWrite hname hsections hs.small (by decide) hroom hsize hfudge]
  dsimp only
  rw [if_neg (by omega), messageBefore_tsigWrite hname hroom hsize, tsigVars_tsigRead hname]
  rfl

omit hmac in
/-- The signed message has a length that is read. -/
theorem length_signed {mac : Bytes} (hs : Signable qid qd msg) (hsize : mac.length ≤ 64)
    (fudge now : Nat) : 12 ≤ (tsigWrite fudge K.name axfrBufSize msg qid 0 now mac).length ∧
      (tsigWrite fudge K.name axfrBufSize msg qid 0 now mac).length ≤ 65535 := by
  obtain ⟨body, rfl, -⟩ := hs.body
  have hroom := hs.room
  rw [length_append, length_header] at hroom
  have hwire := length_nameWire_le K.name
  have hshort := hname.short
  rw [tsigWrite_eq hname hroom hsize, length_append, length_append, length_header,
    tsigRecord, length_append, length_recordTail, length_tsigRdata]
  rw [axfrBufSize] at hroom
  omega

/-- The check of a signed message that continues the chain. -/
theorem xfrChainStep_signed (hs : Signable qid qd msg) (hfudge : fudge < 2 ^ 16) (now : Nat)
    (c : XfrChain) :
    xfrChainStep C K c (tsigWrite fudge K.name axfrBufSize msg qid 0 now
        (chainMac C K c.prior (msg ++ tsigVarsWith fudge K.name now 0))) =
      if chainMac C K c.prior (msg ++ tsigVarsWith fudge (strlower K.name) now 0) =
          chainMac C K c.prior (msg ++ tsigVarsWith fudge K.name now 0) then
        some ⟨chainMac C K c.prior (msg ++ tsigVarsWith fudge K.name now 0), true, 0⟩
      else none := by
  have hlen := length_signed hname hs (hmac (tsigAlgToDigest K.name) K.secret
    (macPrefix c.prior ++ (msg ++ tsigVarsWith fudge K.name now 0))).2 fudge now
  rw [xfrChainStep, if_neg (by unfold chainMac; omega),
    xfrTsigVerifyMsg_signed hname hmac hs hfudge]
  split <;> rfl

end Chains

/-- A message of one record is not signed, and is read. -/
theorem axfrMessage_spec {qid : Nat} {i : AxfrItem} {msg : Bytes}
    (h : axfrMessage qid i = some msg) :
    tsigFind msg = none ∧ 12 ≤ msg.length ∧ msg.length ≤ 65535 := by
  unfold axfrMessage appendRR at h
  dsimp only at h
  split at h
  · cases h
  · rename_i w _
    split at h
    · cases h
    · rename_i hroom
      cases h
      have har : ∀ rest, arcount (header qid axfrFlags 0 1 0 0 ++ rest) = 0 :=
        fun rest => arcount_header rest (by decide)
      refine ⟨?_, ?_, ?_⟩
      · rw [tsigFind, additionalStart, append_assoc, har, if_pos (.inr rfl)]
      · rw [append_assoc, length_append, length_header]
        exact Nat.le_add_right _ _
      · rw [axfrBufSize] at hroom
        rw [length_append, length_append, length_recordTail]
        omega

/-- **The unsigned messages** take both chains to the same MAC, and their number is limited. -/
theorem foldlM_unsigned {C : Crypto} {K : TsigKey} (hsecret : K.secret ≠ []) (hmac : MacSized C)
    {ms : List Bytes} (hms : ∀ m ∈ ms, tsigFind m = none ∧ 12 ≤ m.length ∧ m.length ≤ 65535)
    {c : XfrChain} (hprior : c.prior ≠ []) (hrun : c.unsignedRun ≤ 99) :
    ms.foldlM (xfrChainStep C K) c =
      if c.unsignedRun + ms.length ≤ 99 then
        some ⟨ms.foldl (tsigAxfrMid C K) c.prior, c.lastSigned && ms.isEmpty,
          c.unsignedRun + ms.length⟩
      else none := by
  induction ms generalizing c with
  | nil =>
    rw [foldlM_nil, length_nil, Nat.add_zero, if_pos hrun]
    simp
  | cons m ms ih =>
    obtain ⟨hfind, hmin, hmax⟩ := hms m mem_cons_self
    have hmid : tsigAxfrMid C K c.prior m = chainMac C K c.prior m := by
      rw [tsigAxfrMid, if_neg (not_or.mpr ⟨hsecret, hprior⟩)]
    have hstep : xfrChainStep C K c m = if c.unsignedRun + 1 > 99 then none
        else some ⟨chainMac C K c.prior m, false, c.unsignedRun + 1⟩ := by
      rw [xfrChainStep, if_neg (by omega), xfrTsigVerifyMsg, hfind]
      rfl
    rw [foldlM_cons, hstep, foldl_cons, hmid, length_cons]
    by_cases hlast : c.unsignedRun + 1 > 99
    · rw [if_pos hlast, if_neg (by omega)]
      rfl
    · rw [if_neg hlast, bind_eq_bind, bind_some,
        ih (fun m hm => hms m (mem_cons_of_mem _ hm)) (hmac _ _ _).1 (not_lt.mp hlast)]
      have hcount : c.unsignedRun + 1 + ms.length = c.unsignedRun + (ms.length + 1) := by omega
      simp [hcount]

theorem foldl_tsigAxfrMid_ne_nil {C : Crypto} {K : TsigKey} (hmac : MacSized C) {prior : Bytes}
    (hprior : prior ≠ []) (ms : List Bytes) : ms.foldl (tsigAxfrMid C K) prior ≠ [] := by
  induction ms generalizing prior with
  | nil => exact hprior
  | cons m ms ih =>
    refine ih ?_
    unfold tsigAxfrMid
    split
    · exact hprior
    · exact (hmac _ _ _).1

/-- The MAC of the message under the lower-case key name tells it from the one under the key name as
it is configured. -/
def CaseBinding (fudge now : Nat) (reqMac msg : Bytes) : Prop :=
  chainMac C K reqMac (msg ++ tsigVarsWith fudge (strlower K.name) now 0) =
    chainMac C K reqMac (msg ++ tsigVarsWith fudge K.name now 0) → strlower K.name = K.name

/-- **A signed chain is accepted** exactly when at most 99 messages stand between the first and the
last, and the key name has no upper-case letter. -/
theorem xfrAccepts_signedChain_iff {C : Crypto} {K : TsigKey} {reqMac f l : Bytes}
    {mids : List Bytes} {qid qd qd' now : Nat} (hsecret : K.secret ≠ [])
    (hname : LegalKeyName K.name) (hmac : MacSized C) (hreq : reqMac ≠ [])
    (hfs : Signable qid qd f) (hls : Signable qid qd' l)
    (hmids : ∀ m ∈ mids, tsigFind m = none ∧ 12 ≤ m.length ∧ m.length ≤ 65535)
    (hcase : CaseBinding C K 5 now reqMac f) (now' : Nat) :
    xfrAccepts C K reqMac (signedChain C K qid now now' reqMac f mids l) = true ↔
      mids.length ≤ 99 ∧ strlower K.name = K.name := by
  generalize hmac₁ : chainMac C K reqMac (f ++ tsigVarsWith 5 K.name now 0) = mac₁
  have hne₁ : mac₁ ≠ [] := hmac₁ ▸ (hmac _ _ _).1
  have hsent : signedChain C K qid now now' reqMac f mids l =
      tsigWrite 5 K.name axfrBufSize f qid 0 now mac₁ :: (mids ++
        [tsigAxfrLast C K axfrBufSize l qid now' (mids.foldl (tsigAxfrMid C K) mac₁)]) := by
    rw [signedChain, tsigAxfrFirst, if_neg (not_or.mpr ⟨hsecret, hreq⟩), tsigVarsBuild, hmac₁]
    rfl
  have hstep₁ := xfrChainStep_signed hname hmac hfs (show 5 < 2 ^ 16 by decide) now
    ⟨reqMac, false, 0⟩
  rw [hmac₁] at hstep₁
  rw [hsent, xfrAccepts, foldlM_cons, hstep₁]
  by_cases hlow : strlower K.name = K.name
  · -- the secondary keeps the primary's MAC from the first message to the last
    rw [hlow, hmac₁, if_pos rfl, bind_eq_bind, bind_some, foldlM_append,
      foldlM_unsigned hsecret hmac hmids hne₁ (Nat.zero_le _)]
    simp only [Nat.zero_add, and_true]
    by_cases hcount : mids.length ≤ 99
    · have hne₂ := foldl_tsigAxfrMid_ne_nil hmac hne₁ mids (K := K)
      generalize mids.foldl (tsigAxfrMid C K) mac₁ = mac₂ at hne₂
      have hstep₂ := xfrChainStep_signed hname hmac hls (show 5 < 2 ^ 16 by decide) now'
        ⟨mac₂, true && mids.isEmpty, mids.length⟩
      rw [hlow, if_pos rfl] at hstep₂
      rw [if_pos hcount, tsigAxfrLast, if_neg (not_or.mpr ⟨hsecret, hne₂⟩), tsigRRWrite,
        tsigVarsBuild]
      simp only [bind_eq_bind, bind_some, foldlM_cons, foldlM_nil, hstep₂]
      exact iff_of_true rfl hcount
    · simp [hcount]
  · -- the first message is refused
    rw [if_neg fun heq => hlow (hcase (heq.trans hmac₁.symm))]
    simp [hlow]

/-- **A signed transfer is accepted** by a secondary with the same key exactly when at most 99
records stand between the SOAs and the key name has no upper-case letter. -/
theorem xfrAccepts_axfrSigned_iff {C : Crypto} {K : TsigKey} {D : Dnsd} {Z : ServedZone}
    {reqMac : Bytes} (hsecret : K.secret ≠ []) (hname : LegalKeyName K.name) (hmac : MacSized C)
    (ho : OwnerName Z.name) (hsoa : (buildSoaRdata Z D.global).isSome = true) (hreq : reqMac ≠ [])
    (qid now now' : Nat) (hcase : ∀ f ∈ axfrFirst Z D.global qid, CaseBinding C K 5 now reqMac f) :
    ∃ msgs, axfrSigned C K D Z qid now now' reqMac = some msgs ∧
      (xfrAccepts C K reqMac msgs = true ↔
        (axfrMids D Z qid).length ≤ 99 ∧ strlower K.name = K.name) := by
  obtain ⟨soa, hsoa⟩ := isSome_iff_exists.mp hsoa
  obtain ⟨f, hf, hfs⟩ := signable_axfrFirst ho hsoa qid
  obtain ⟨l, hl, hls⟩ := signable_axfrLast ho hsoa qid
  refine ⟨_, by rw [axfrSigned, hf, hl, bind_some, map_some], ?_⟩
  refine xfrAccepts_signedChain_iff hsecret hname hmac hreq hfs hls (fun m hm => ?_) (hcase f hf)
    now'
  obtain ⟨i, -, hi⟩ := mem_filterMap.mp hm
  exact axfrMessage_spec hi

/-! ## A small zone and one that is too large -/

/-- A primary of the zone `z` with two names of `n` addresses each. -/
def twoHosts (n : Nat) : Dnsd :=
  let addresses := lit "60" ++ (range n).flatMap fun i => bar :: (lit "10.0.0." ++ decimal i)
  { plainServer [(lit "zone:z:A:a.z", addresses), (lit "zone:z:A:b.z", addresses)] with
    scan := fun pat => if pat = lit "zone:z:A:*" then [lit "zone:z:A:a.z", lit "zone:z:A:b.z"]
      else [] }

/-- A key that signs with the primitives of `Crypto.sample`. -/
def sampleTsigKey : TsigKey := ⟨lit "tsig-key", lit "s"⟩

theorem macSized_sample : MacSized .sample := by
  intro d s m
  have hlen : (Crypto.sample.hmac d s m).length = 32 := by
    simp only [Crypto.sample, padTo, length_take, length_append, length_replicate]
    omega
  exact ⟨ne_nil_of_length_pos (by omega), by omega⟩

/-- Two names with an address each are transferred. -/
theorem two_records_accepted :
    ∃ msgs, axfrSigned .sample sampleTsigKey (twoHosts 1) (plainZone (lit "z")) 7 1000 1001 [9] =
        some msgs ∧ xfrAccepts .sample sampleTsigKey [9] msgs = true := by
  obtain ⟨msgs, hsent, haccept⟩ := xfrAccepts_axfrSigned_iff (C := .sample) (K := sampleTsigKey)
    (D := twoHosts 1) (Z := plainZone (lit "z")) (by decide)
    ⟨by decide, by decide, by decide⟩ macSized_sample ⟨by decide, by decide, _, rfl⟩
    (by decide +kernel) (cons_ne_nil 9 []) 7 1000 1001 fun _ _ _ => by decide
  exact ⟨msgs, hsent, haccept.mpr (by decide +kernel)⟩

/-- **A zone of a hundred addresses is refused** by a secondary with the same key. -/
theorem hundred_records_refused :
    ∃ msgs, axfrSigned .sample sampleTsigKey (twoHosts 50) (plainZone (lit "z")) 7 1000 1001 [9] =
        some msgs ∧ msgs.length = 102 ∧ xfrAccepts .sample sampleTsigKey [9] msgs = false := by
  decide +kernel

end SimpleDns.Server
