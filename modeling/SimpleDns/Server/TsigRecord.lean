import SimpleDns.Server.Auth
import SimpleDns.Wire.Compress

/-!
# A TSIG record is found again (`dns_server.c:4507-4640`, `4927-5019`, `9453-9485`)

`tsig_rr_write` puts a TSIG record behind a message, `tsig_find` walks the sections to it and reads
its fields back, and the verifier builds the MAC variables from what it has read. The name walk of
`tsig_find` gets past every name that `name_to_wire_c` writes (`walkName_wrote`).

* **`tsigFind_tsigWrite`**: the record is found where it was written, with its fields; of the key
  name only the lower-case form comes back.
* `messageBefore_tsigWrite`: the octets ahead of it are those of the unsigned message.
-/

namespace SimpleDns.Server

open Wire Lib List

/-! ## Writing -/

/-- `g_tsig_key_name` and `g_tsig_secret`. -/
structure TsigKey where
  name : Text
  secret : Bytes
deriving DecidableEq, Repr

/-- A key name as a C string with labels of at most 63 octets, 253 octets in all. -/
structure LegalKeyName (name : Text) : Prop where
  noNul : 0 ∉ name
  short : name.length ≤ 253
  labelsShort : ∀ l ∈ labels name, l.length ≤ 63

/-- The MAC variables with this fudge. -/
def tsigVarsWith (fudge : Nat) (name : Text) (now error : Nat) : Bytes :=
  tsigVars ⟨safeStrcpy name 256, [], [], 0, now % 2 ^ 32, fudge, error⟩

/-- `tsig_vars_build`. -/
def tsigVarsBuild (name : Text) (now error : Nat) : Bytes := tsigVarsWith 5 name now error

/-- `alg_wire`. -/
def algWire : Bytes := labelWire (lit "hmac-sha256") ++ [0]

/-- The rdata behind the algorithm name. -/
def tsigFields (fudge qid error now : Nat) (mac : Bytes) : Bytes :=
  put16 0 ++ (put32 (now % 2 ^ 32) ++ (put16 fudge ++ (put16 mac.length ++ (mac ++ (put16 qid ++
    (put16 error ++ put16 0))))))

/-- A TSIG record behind a message of `off` octets. -/
def tsigWrite (fudge : Nat) (name : Text) (blen : Nat) (msg : Bytes) (qid error now : Nat)
    (mac : Bytes) : Bytes :=
  let rd := algWire ++ tsigFields fudge qid error now mac
  if msg.length + 200 > blen then msg
  else
    slice msg 0 10 ++ put16 (arcount msg + 1) ++ msg.drop 12 ++
      nameWire (labels (safeStrcpy name 256)) ++ put16 250 ++ put16 RRClass.ANY ++ put32 0 ++
      [0, rd.length.toUInt8] ++ rd

/-- `tsig_rr_write(buf, off, blen, ..)`. -/
def tsigRRWrite (name : Text) (blen : Nat) (msg : Bytes) (qid error now : Nat) (mac : Bytes) :
    Bytes :=
  tsigWrite 5 name blen msg qid error now mac

/-! ## The name walk -/

variable {ls : List Text} {fuel : Nat}

/-- The key name as `tsig_find` reads it again. -/
theorem tsigKeyName_of_nameAt {pkt : Bytes} {k pos e : Nat} (h : NameAt pkt k pos ls e)
    (hk : k = ls.length) {acc : Text} (hfit : (joinOnto acc ls).length ≤ 254) (hfuel : k < fuel) :
    tsigKeyName pkt fuel pos acc = joinOnto acc ls := by
  induction h generalizing acc fuel with
  | @root pos lt zero =>
    obtain ⟨fuel, rfl⟩ := Nat.exists_eq_add_one_of_ne_zero (Nat.ne_of_gt hfuel)
    rw [tsigKeyName]
    simp only [zero, true_or, if_true]
    rfl
  | @label k pos e l ls ne_nil short le octet octets rest ih =>
    obtain ⟨fuel, rfl⟩ := Nat.exists_eq_add_one_of_ne_zero (Nat.ne_zero_of_lt hfuel)
    obtain ⟨hptr, hzero, hnat⟩ := label_octet_spec (by simpa using ne_nil) short
    -- what is read with this label is a part of the whole name
    have hjoin : joinOnto acc (l :: ls) =
        joinOnto (acc ++ (if acc = [] then [] else [dot]) ++ l) ls := by
      cases acc <;> rfl
    rw [hjoin] at hfit ⊢
    have hpart := (length_joinOnto_ge (acc ++ (if acc = [] then [] else [dot]) ++ l) ls).trans hfit
    rw [length_append, length_append] at hpart
    rw [tsigKeyName]
    simp only [octet, hptr, hzero, hnat, octets, Bool.false_eq_true, or_self, if_false]
    rw [if_neg (by omega), add_right_comm]
    exact ih (by simpa using hk) hfit (by omega)
  | pointer lt octets small prior rest ih =>
    have := rest.length_le
    omega

theorem isPointer_or : ∀ x, isPointer (0xC0 ||| x) = true := by decide +kernel

variable {blen : Nat}

/-- The walk gets past a name of `name_to_wire_c` wherever it stands: it does not follow pointers.
-/
theorem walkName_wrote {w : Bytes} (h : Wrote ls w) (hne : ∀ l ∈ ls, l ≠ []) (pre post : Bytes)
    (hfuel : w.length ≤ fuel) :
    walkName (pre ++ w ++ post) fuel pre.length = some (pre.length + w.length) := by
  have hfirst : ∀ (pre : Bytes) (c : UInt8) (t : Bytes),
      byteAt (pre ++ c :: t ++ post) pre.length = c := by
    intro pre c t
    rw [append_assoc, ← Nat.add_zero pre.length, byteAt_append_right]
    rfl
  induction h generalizing pre fuel with
  | root =>
    obtain ⟨fuel, rfl⟩ : ∃ n, fuel = n + 1 := ⟨fuel - 1, by simp at hfuel; omega⟩
    rw [walkName, if_neg (by simp)]
    simp only [hfirst]
    rfl
  | pointer o =>
    obtain ⟨fuel, rfl⟩ : ∃ n, fuel = n + 1 := ⟨fuel - 1, by simp [pointerTo] at hfuel; omega⟩
    rw [walkName, if_neg (by simp [pointerTo])]
    simp only [pointerTo, hfirst, isPointer_or, if_true]
    rfl
  | @label l ls w short _ ih =>
    rw [length_append] at hfuel ⊢
    obtain ⟨fuel, rfl⟩ : ∃ n, fuel = n + 1 := ⟨fuel - 1, by simp [labelWire] at hfuel; omega⟩
    obtain ⟨hptr, hzero, hnat⟩ := label_octet_spec (by simpa using hne l mem_cons_self) short
    obtain ⟨hoctet, -, hlen⟩ := labelWire_at l pre (w ++ post)
    rw [walkName, if_neg (by simp [labelWire]), ← append_assoc, append_assoc]
    simp only [hoctet, hptr, hzero, hnat, Bool.false_eq_true, if_false]
    rw [add_right_comm, ← hlen, ← append_assoc,
      ih (fun m hm => hne m (mem_cons_of_mem _ hm)) _ (by simp [labelWire] at hfuel; omega)]
    simp only [length_append, Nat.add_assoc]

theorem wrote_nameWire (hshort : ∀ l ∈ ls, l.length ≤ 63) : Wrote ls (nameWire ls) := by
  induction ls with
  | nil => exact .root
  | cons l ls ih =>
    rw [nameWire_cons]
    exact .label (hshort l mem_cons_self) (ih fun m hm => hshort m (mem_cons_of_mem _ hm))

theorem walkNameFrom_nameWire (hne : ∀ l ∈ ls, l ≠ []) (hshort : ∀ l ∈ ls, l.length ≤ 63)
    (pre post : Bytes) : walkNameFrom (pre ++ nameWire ls ++ post) pre.length =
      some (pre.length + (nameWire ls).length) := by
  refine walkName_wrote (wrote_nameWire hshort) hne pre post ?_
  simp only [length_append]
  omega

variable {name : Text}

/-- A record of `append_rr` is walked past, whatever stands before and behind it. -/
theorem walkRecords_appendRR {msg msg' rdata : Bytes} {cc : CompressCtx} {type cls ttl : Nat}
    (hrd : rdata.length < 2 ^ 16) (h : (appendRR blen msg cc name type cls ttl rdata).1 = some msg')
    :
    ∃ rr, msg' = msg ++ rr ∧ ∀ pre post, walkRecords (pre ++ rr ++ post) 1 pre.length =
      some (pre.length + rr.length) := by
  obtain ⟨w, hw, rfl⟩ := appendRR_eq (Prod.ext h rfl)
  refine ⟨w ++ recordTail type cls ttl rdata, append_assoc .., fun pre post => ?_⟩
  have hpkt : pre ++ (w ++ recordTail type cls ttl rdata) ++ post =
      pre ++ w ++ (recordTail type cls ttl rdata ++ post) := by
    simp
  have hwalk : walkNameFrom (pre ++ w ++ (recordTail type cls ttl rdata ++ post)) pre.length =
      some (pre.length + w.length) := by
    refine walkName_wrote (wrote_of_wireLoopC (congrArg Prod.fst hw)) ?_ pre _ ?_
    · exact fun l hl => ne_nil_of_mem_labels (mem_of_mem_take hl)
    · simp only [length_append]
      omega
  have hrdlen : get16 (pre ++ w ++ (recordTail type cls ttl rdata ++ post))
      (pre.length + w.length + 8) = rdata.length := by
    have := get16_put16 hrd (pre ++ w ++ put16 type ++ put16 cls ++ put32 ttl) (rdata ++ post)
    simpa [recordTail, Nat.add_assoc] using this
  have hlen := length_recordTail type cls ttl rdata
  rw [hpkt, walkRecords, passRecords, hwalk]
  dsimp only
  rw [if_neg (by simp only [length_append, hlen]; omega), hrdlen, passRecords, length_append, hlen]
  simp only [Option.some.injEq]
  omega

/-! ## The sections of a message -/

/-- The questions and records behind a header fill `body`, whatever follows. -/
def Sections (qd an : Nat) (body : Bytes) : Prop :=
  ∀ id flags ar post,
    (walkQuestions (header id flags qd an 0 ar ++ body ++ post) qd 12).bind
      (walkRecords (header id flags qd an 0 ar ++ body ++ post) an) = some (12 + body.length)

variable {id flags qd an : Nat} {body : Bytes}

/-- The additional section starts behind the others. -/
theorem additionalStart_of_sections {ar : Nat} (hs : Sections qd an body) (hqd : qd < 2 ^ 16)
    (han : an < 2 ^ 16) (har : ar < 2 ^ 16) (hpos : ar ≠ 0) (post : Bytes) :
    additionalStart (header id flags qd an 0 ar ++ body ++ post) = some (12 + body.length) := by
  have hlen : ¬((header id flags qd an 0 ar ++ body ++ post).length < 12 ∨ ar = 0) := by
    simp only [length_append, length_header]
    omega
  have hwalk := hs id flags ar post
  rw [additionalStart]
  simp only [append_assoc] at hwalk hlen ⊢
  rw [qdcount_header _ hqd, ancount_header _ han, nscount_header _ (by decide),
    arcount_header _ har, if_neg hlen, Nat.add_zero]
  obtain ⟨off, hq, hr⟩ := Option.bind_eq_some_iff.mp hwalk
  rwa [hq]

/-! ## Finding the record again -/

/-- A TSIG record. -/
def tsigRecord (fudge : Nat) (name : Text) (qid error now : Nat) (mac : Bytes) : Bytes :=
  nameWire (labels name) ++
    recordTail 250 RRClass.ANY 0 (algWire ++ tsigFields fudge qid error now mac)

variable {mac : Bytes} {fudge qid error now : Nat}

theorem length_tsigRdata : (algWire ++ tsigFields fudge qid error now mac).length =
    29 + mac.length := by
  have hlen : algWire.length = 13 := by decide
  simp only [tsigFields, length_append, length_put16, length_put32, hlen]
  omega

/-- The message with the record behind it and one additional record more. -/
theorem tsigWrite_eq (hname : LegalKeyName name) (hroom : 12 + body.length + 200 ≤ blen)
    (hmac : mac.length ≤ 64) (qid error now : Nat) :
    tsigWrite fudge name blen (header id flags qd an 0 0 ++ body) qid error now mac =
      header id flags qd an 0 1 ++ body ++ tsigRecord fudge name qid error now mac := by
  have har : arcount (header id flags qd an 0 0 ++ body) = 0 := arcount_header _ (by decide)
  have hcut : safeStrcpy name 256 = name := safeStrcpy_eq (hname.short.trans (by decide))
  have hrdlen : put16 (29 + mac.length) = [0, (29 + mac.length).toUInt8] := by
    rw [put16, Nat.div_eq_of_lt (by omega)]
    rfl
  have hhead : slice (header id flags qd an 0 0 ++ body) 0 10 ++ put16 (0 + 1) ++
      (header id flags qd an 0 0 ++ body).drop 12 = header id flags qd an 0 1 ++ body := by
    simp [slice, header, put16]
  rw [tsigWrite, if_neg (by simp only [length_append, length_header]; omega), har, hcut,
    hhead, tsigRecord, recordTail, length_tsigRdata, hrdlen]
  simp

/-- The algorithm name of the rdata. -/
theorem tsigAlgName_algWire {pkt pre rest : Bytes} (hpkt : pkt = pre ++ (algWire ++ rest)) :
    tsigAlgName pkt (pkt.length + 1) pre.length [] =
      some (lit "hmac-sha256.", pre.length + 13) := by
  have hfirst : byteAt pkt pre.length = 11 := hpkt ▸ byteAt_append_right pre _ 0
  have hlast : byteAt pkt (pre.length + 12) = 0 := hpkt ▸ byteAt_append_right pre _ 12
  have hslice : slice pkt (pre.length + 1) 11 = lit "hmac-sha256" :=
    hpkt ▸ slice_append_right pre _ 1 11
  have hlen : algWire.length = 13 := by decide
  obtain ⟨n, hn⟩ : ∃ n, pkt.length = pre.length + 13 + n :=
    ⟨rest.length, by rw [hpkt, length_append, length_append, hlen, Nat.add_assoc]⟩
  have heleven : (11 : UInt8).toNat = 11 := rfl
  rw [hn, show pre.length + 13 + n + 1 = pre.length + 12 + n + 2 by omega, tsigAlgName,
    if_neg (by omega)]
  simp only [hfirst, heleven, hslice]
  rw [if_neg (by decide), tsigAlgName, if_neg (by omega)]
  simp only [Nat.add_assoc, hlast, if_true]
  rw [Option.some.injEq, Prod.mk.injEq]
  exact ⟨by decide, rfl⟩

/-- What is read of the rdata, for a record that starts at `off`. -/
theorem tsigParse_tsigFields {pkt pre : Bytes}
    (hpkt : pkt = pre ++ (algWire ++ tsigFields fudge qid error now mac)) (hmac : mac.length ≤ 64)
    (hfudge : fudge < 2 ^ 16) (herror : error < 2 ^ 16) (off : Nat) :
    tsigParse pkt off pre.length =
      some ⟨strlower (cstr (tsigKeyName pkt (pkt.length + 1) off [])), lit "hmac-sha256.", mac, 0,
        now % 2 ^ 32, fudge, error⟩ := by
  have hlen : pkt.length = pre.length + (29 + mac.length) := by
    rw [hpkt, length_append, length_tsigRdata]
  have hpkt' : pkt = pre ++ algWire ++ tsigFields fudge qid error now mac := by
    rw [hpkt, append_assoc]
  have hlenAlg : (pre ++ algWire).length = pre.length + 13 := length_append
  have h16 : ∀ i, get16 pkt (pre.length + 13 + i) = get16 (tsigFields fudge qid error now mac)
      i := by
    intro i
    rw [hpkt', ← hlenAlg, get16_append_right]
  have hhigh : get16 pkt (pre.length + 13) = 0 := by
    rw [← Nat.add_zero (pre.length + 13), h16]
    simp [tsigFields, get16, put16, byteAt]
  have hlow : get32 pkt (pre.length + 13 + 2) = now % 2 ^ 32 := by
    rw [hpkt', ← hlenAlg, get32_append_right]
    simp [tsigFields, get32, put16, put32, byteAt]
    omega
  have hfudgeAt : get16 pkt (pre.length + 13 + 6) = fudge := by
    rw [h16]
    simp [tsigFields, get16, put16, put32, byteAt]
    omega
  have hmacLen : get16 pkt (pre.length + 13 + 8) = mac.length := by
    rw [h16]
    simp [tsigFields, get16, put16, put32, byteAt]
    omega
  have hmacAt : slice pkt (pre.length + 13 + 10) mac.length = mac := by
    rw [hpkt', ← hlenAlg, slice_append_right]
    exact take_left
  have herr : get16 pkt (pre.length + 13 + 10 + mac.length + 2) = error := by
    have hat := get16_put16 herror (put16 0 ++ put32 (now % 2 ^ 32) ++ put16 fudge ++
      put16 mac.length ++ mac ++ put16 qid) (put16 0)
    simp only [append_assoc, length_append, length_put16, length_put32] at hat
    rw [Nat.add_assoc (pre.length + 13), Nat.add_assoc (pre.length + 13), h16,
      show 10 + mac.length + 2 = 2 + (4 + (2 + (2 + (mac.length + 2)))) by omega]
    exact hat
  have halg : cstr (lit "hmac-sha256.") = lit "hmac-sha256." := by decide
  rw [tsigParse, tsigAlgName_algWire hpkt]
  simp only [hmacLen, hmacAt, hhigh, hlow, hfudgeAt, herr]
  rw [if_neg (by omega), if_neg (by omega), if_neg (by omega), halg]

theorem LegalKeyName.length_joinDots (h : LegalKeyName name) :
    (joinDots (labels name)).length ≤ 254 := by
  have hwire := length_nameWire_le name
  have hshort := h.short
  rw [Wire.length_joinDots]
  omega

/-- The scan of the additional section stops at the record. -/
theorem tsigScan_tsigRecord (hshort : ∀ l ∈ labels name, l.length ≤ 63) (hmac : mac.length ≤ 64)
    (hfudge : fudge < 2 ^ 16) (herror : error < 2 ^ 16) {pkt pre : Bytes}
    (hpkt : pkt = pre ++ tsigRecord fudge name qid error now mac) (n : Nat) :
    tsigScan pkt (n + 1) pre.length = some (pre.length,
      ⟨strlower (cstr (tsigKeyName pkt (pkt.length + 1) pre.length [])), lit "hmac-sha256.", mac, 0,
        now % 2 ^ 32, fudge, error⟩) := by
  obtain ⟨rd, hrd⟩ : ∃ rd, rd = algWire ++ tsigFields fudge qid error now mac := ⟨_, rfl⟩
  have hlen : rd.length = 29 + mac.length := hrd ▸ length_tsigRdata
  rw [tsigRecord, ← hrd] at hpkt
  have hfields : FieldsAt pkt (pre.length + (nameWire (labels name)).length) 250 RRClass.ANY 0
      rd := by
    rw [hpkt, ← append_assoc, ← length_append, ← append_nil (_ ++ recordTail ..)]
    exact fieldsAt_recordTail (by decide) (by decide) (by decide) (by omega) _ []
  have hwalk : walkNameFrom pkt pre.length =
      some (pre.length + (nameWire (labels name)).length) := by
    rw [hpkt, ← append_assoc]
    exact walkNameFrom_nameWire (fun l hl => (proper_labels name l hl).1) hshort pre _
  have hle := hfields.le
  obtain ⟨toRdata, hto⟩ : ∃ t, t = pre ++ (nameWire (labels name) ++ (put16 250 ++
      (put16 RRClass.ANY ++ (put32 0 ++ put16 rd.length)))) := ⟨_, rfl⟩
  have hat : toRdata.length = pre.length + (nameWire (labels name)).length + 10 := by
    simp only [hto, length_append, length_put16, length_put32]
    omega
  have hparse := tsigParse_tsigFields (hrd ▸ show pkt = toRdata ++ rd by
    simp [hpkt, hto, recordTail]) hmac hfudge herror pre.length
  rw [tsigScan, hwalk]
  simp only [hfields.typeAt, hfields.rdlenAt, if_true]
  rw [if_neg (by omega), if_neg (by omega), ← hat, hparse]
  rfl

/-- What is read of the record. -/
def tsigRead (fudge : Nat) (name : Text) (error now : Nat) (mac : Bytes) : TsigRR where
  keyName := strlower (joinDots (labels name))
  algName := lit "hmac-sha256."
  mac := mac
  timeHigh := 0
  timeLow := now % 2 ^ 32
  fudge := fudge
  error := error

/-- The key name comes back in lower case. -/
theorem tsigScan_legal (hname : LegalKeyName name) (hmac : mac.length ≤ 64) (pre : Bytes) (n : Nat)
    (hfudge : fudge < 2 ^ 16) (herror : error < 2 ^ 16) :
    tsigScan (pre ++ tsigRecord fudge name qid error now mac) (n + 1) pre.length =
      some (pre.length, tsigRead fudge name error now mac) := by
  have hproper := proper_labels name
  have hkey : tsigKeyName (pre ++ tsigRecord fudge name qid error now mac)
      ((pre ++ tsigRecord fudge name qid error now mac).length + 1) pre.length [] =
        joinDots (labels name) := by
    have hcount := length_lt_nameWire (labels name)
    rw [← joinOnto_nil hproper]
    rw [tsigRecord, ← append_assoc]
    refine tsigKeyName_of_nameAt
      (nameAt_nameWire (fun l hl => (hproper l hl).1) hname.labelsShort pre _) rfl ?_ ?_
    · rw [joinOnto_nil hproper]
      exact hname.length_joinDots
    · simp only [length_append]
      omega
  rw [tsigScan_tsigRecord hname.labelsShort hmac hfudge herror rfl, hkey,
    cstr_eq_self (notMem_joinDots (by decide) fun _ hl h0 =>
      hname.noNul (mem_of_mem_labels hl h0)), tsigRead]

/-- **The record is found where it was written**, and read as it was written but for the case of the
key name. -/
theorem tsigFind_tsigWrite (hname : LegalKeyName name) (hs : Sections qd an body)
    (hqd : qd < 2 ^ 16) (han : an < 2 ^ 16) (hroom : 12 + body.length + 200 ≤ blen)
    (hmac : mac.length ≤ 64) (hfudge : fudge < 2 ^ 16) (qid now : Nat) :
    tsigFind (tsigWrite fudge name blen (header id flags qd an 0 0 ++ body) qid 0 now mac) =
      some (12 + body.length, tsigRead fudge name 0 now mac) := by
  have hlen : (header id flags qd an 0 1 ++ body).length = 12 + body.length := by
    rw [length_append, length_header]
  have hone : arcount (header id flags qd an 0 1 ++ body ++ tsigRecord fudge name qid 0 now mac) =
      1 := by
    rw [append_assoc]
    exact arcount_header _ (by decide)
  rw [tsigWrite_eq hname hroom hmac, tsigFind,
    additionalStart_of_sections hs hqd han (by decide) (by decide), hone, ← hlen]
  exact tsigScan_legal hname hmac _ 0 hfudge (by decide)

/-- The octets ahead of the record are the message without it. -/
theorem messageBefore_tsigWrite (hname : LegalKeyName name)
    (hroom : 12 + body.length + 200 ≤ blen) (hmac : mac.length ≤ 64) (qid now : Nat) :
    messageBefore (tsigWrite fudge name blen (header id flags qd an 0 0 ++ body) qid 0 now mac)
      (12 + body.length) = header id flags qd an 0 0 ++ body := by
  have hone : arcount (header id flags qd an 0 1 ++
      (body ++ tsigRecord fudge name qid 0 now mac)) = 1 := arcount_header _ (by decide)
  have hbody : slice (header id flags qd an 0 1 ++ (body ++ tsigRecord fudge name qid 0 now mac)) 12
      body.length = body := take_left
  have hsub : 12 + body.length - 12 = body.length := Nat.add_sub_cancel_left ..
  rw [tsigWrite_eq hname hroom hmac, append_assoc, messageBefore, hone, hsub, hbody]
  rfl

/-- The verifier builds the variables of the lower-case key name. -/
theorem tsigVars_tsigRead (hname : LegalKeyName name) (now : Nat) (mac : Bytes) :
    tsigVars (tsigRead fudge name 0 now mac) = tsigVarsWith fudge (strlower name) now 0 := by
  have hcut : safeStrcpy (strlower name) 256 = strlower name :=
    safeStrcpy_eq (by rw [length_strlower]; exact hname.short.trans (by decide))
  have hlabels : labels (strlower (joinDots (labels name))) = labels (strlower name) := by
    rw [labels_strlower, labels_strlower, labels_joinDots (proper_labels name)]
  rw [tsigVarsWith, hcut, tsigVars, tsigVars, tsigRead]
  simp only [hlabels]

end SimpleDns.Server
