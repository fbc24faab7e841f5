import SimpleDns.Wire.Decoder

/-!
# Which replies are accepted (`resolverd.c:2285-2422`, `2469-2492`)

A query goes out with the letters of its name in random case. A reply is accepted if it has the id,
the QR bit, and a first question with the type and class whose name is the sent one, letter by
letter. The names are compared as C strings in dotted form, and one dot at the end of either is
ignored.

* `dns0x20Mix`, `question`, `qnameFromWireCasePreserving`, `responseMatchesQuery` follow the source;
  `question` is the part of `build_query` between the header and its OPT and TSIG records.
* `responseMatchesQuery_iff`: which packets are accepted (`Resembles`).
* **`binds_question_iff`**: acceptance is the echo of the question exactly if a packet that
  resembles the query has no label with a dot or an octet 0, and the sent name no empty label; and
  neither has 128 labels. **`dotted_label_accepted`**: one label `a.b` is accepted for the two
  labels of `a.b`.
-/

namespace SimpleDns.Resolver

open Wire List Option

/-! ## The query -/

/-- The loop of `dns0x20_mix`: `bi` letters were met, and each letter takes one of the 256 bits. -/
def mixLoop (bits : Bytes) : Nat → Text → Text
  | _, [] => []
  | bi, c :: cs =>
    let c := lowerByte c
    if 97 ≤ c ∧ c ≤ 122 then
      let up := bi / 8 < 32 ∧ (byteAt bits (bi / 8)).toNat.testBit (bi % 8)
      (if up then c - 32 else c) :: mixLoop bits (bi + 1) cs
    else c :: mixLoop bits bi cs

/-- `dns0x20_mix(qname, out, outsz)` with the random octets `bits`. -/
def dns0x20Mix (bits : Bytes) (qname : Text) (outsz : Nat) : Text :=
  mixLoop bits 0 (qname.take (outsz - 1))

/-- `DNS_BUF`. -/
def dnsBuf : Nat := 8192

/-- The question section that `build_query` writes behind the header. -/
def question (qname : Text) (qtype : Nat) : Option Bytes :=
  match nameToWire qname (dnsBuf - 12) with
  | none => none
  | some w =>
    if 12 + w.length + 4 > dnsBuf then none else some (w ++ put16 qtype ++ put16 RRClass.IN)

/-! ## The reply -/

/-- A name without one dot at its end. -/
def stripDot (s : Text) : Text := if s.getLast? = some dot then s.dropLast else s

/-- `names_equal_nocase`. -/
def namesEqualNocase (a b : Text) : Bool := eqCI (stripDot a) (stripDot b)

/-- The loop of `qname_from_wire_case_preserving`. Each step but the last adds to `out`, so that
`outsz` steps are enough. -/
def caseLoop (pkt : Bytes) (outsz : Nat) : Nat → Nat → Text → Option (Text × Nat)
  | 0, off, out => some (out, off)
  | fuel + 1, off, out =>
    if off ≥ pkt.length then some (out, off)
    else
      let c := byteAt pkt off
      if c &&& 0xC0 ≠ 0 then none
      else if c = 0 then some (out, off + 1)
      else if off + 1 + c.toNat > pkt.length then none
      else if !out.isEmpty ∧ out.length + 1 ≥ outsz then none
      else
        let out' := out ++ (if out.isEmpty then [] else [dot])
        if out'.length + c.toNat ≥ outsz then none
        else caseLoop pkt outsz fuel (off + 1 + c.toNat) (out' ++ slice pkt (off + 1) c.toNat)

/-- `qname_from_wire_case_preserving`. -/
def qnameFromWireCasePreserving (pkt : Bytes) (outsz : Nat) : Option Text :=
  (caseLoop pkt outsz outsz 12 []).map fun r => cstr r.1

/-- The QR bit of the flags. -/
def hasQR (pkt : Bytes) : Bool := (get16 pkt 2).testBit 15

/-- `response_matches_query`. -/
def responseMatchesQuery (resp : Bytes) (id : Nat) (sent : Text) (qtype : Nat)
    (enforceCase : Bool) : Bool :=
  if resp.length < 12 then false
  else if get16 resp 0 ≠ id then false
  else if !hasQR resp then false
  else if get16 resp 4 < 1 then false
  else
    match nameFromWire resp 12 256 with
    | none => false
    | some (rqname, off) =>
      if off + 4 > resp.length then false
      else if get16 resp off ≠ qtype then false
      else if get16 resp (off + 2) ≠ RRClass.IN then false
      else if !namesEqualNocase rqname sent then false
      else if enforceCase then
        match qnameFromWireCasePreserving resp 256 with
        | none => false
        | some rqnameCs => stripDot rqnameCs == stripDot sent
      else true

/-! ## Names without a dot at the end -/

theorem labels_stripDot (s : Text) : labels (stripDot s) = labels s := by
  unfold stripDot
  split
  · rename_i h
    obtain ⟨t, rfl⟩ := getLast?_eq_some_iff.mp h
    rw [dropLast_concat, labels_append_dot]
    simp [labels, strtok, splitOn_nil]
  · rfl

theorem stripDot_strlower (s : Text) : stripDot (strlower s) = strlower (stripDot s) := by
  unfold stripDot
  have hlast : (strlower s).getLast? = some dot ↔ s.getLast? = some dot := by
    rw [strlower, getLast?_map, map_eq_some_iff]
    constructor
    · rintro ⟨c, hc, hdot⟩
      rw [hc, lowerByte_eq_dot.mp hdot]
    · intro h
      exact ⟨dot, h, lowerByte_eq_dot.mpr rfl⟩
  by_cases h : s.getLast? = some dot
  · rw [if_pos (hlast.mpr h), if_pos h, strlower, strlower, map_dropLast]
  · rw [if_neg (mt hlast.mp h), if_neg h]

theorem stripDot_joinDots {ls : List Text} (h : Proper ls) :
    stripDot (joinDots ls) = joinDots ls := by
  refine if_neg fun hlast => ?_
  obtain ⟨t, ht⟩ := getLast?_eq_some_iff.mp hlast
  -- the labels are those of the text in front of the dot, so they are shorter joined
  have hls : ls = labels t := by
    rw [← labels_joinDots h, ht, labels_append_dot]
    simp [labels, strtok, splitOn_nil]
  have hle := length_joinDots_labels t
  have hlen := congrArg length ht
  rw [← hls] at hle
  rw [length_append, length_singleton] at hlen
  omega

/-! ## The two decoders -/

section Decoders

variable {pkt : Bytes} {n pos p : Nat} {ls : List Text} {j : Option Nat}

theorem length_of_masked {k : Nat} (h0 : k ≠ 0) (hk : k ≤ 191) :
    k.toUInt8 &&& 0xC0 = 0 ↔ k ≤ 63 := by
  have hall : ∀ k ≤ 191, k ≠ 0 → (k.toUInt8 &&& 0xC0 = 0 ↔ k ≤ 63) := by decide +kernel
  exact hall k hk h0

theorem masked_pointer {o : Nat} (h : o < 0x4000) : (0xC0 ||| (o / 256).toUInt8) &&& 0xC0 ≠ 0 := by
  have hall : ∀ q < 64, (0xC0 ||| (q : Nat).toUInt8) &&& 0xC0 ≠ 0 := by decide +kernel
  exact hall (o / 256) (by omega)

/-- A label is read if it is short. -/
theorem caseLoop_label (fuel : Nat) {l out : Text} (ne_nil : l ≠ []) (long : l.length ≤ 191)
    (le : pos + 1 + l.length ≤ pkt.length) (octet : byteAt pkt pos = l.length.toUInt8)
    (octets : slice pkt (pos + 1) l.length = l) (hroom : out.length + l.length + 1 < 256) :
    caseLoop pkt 256 (fuel + 1) pos out =
      if l.length ≤ 63 then caseLoop pkt 256 fuel (pos + 1 + l.length)
        (out ++ (if out.isEmpty then [] else [dot]) ++ l)
      else none := by
  have hne : l.length ≠ 0 := by simpa using ne_nil
  obtain ⟨-, hzero, hval⟩ := not_pointer_of_length hne long
  have hmask := length_of_masked hne long
  have hsep : (if out.isEmpty then [] else [dot]).length ≤ 1 := by split <;> simp
  rw [caseLoop, if_neg (by omega)]
  simp only [octet, hval, octets, length_append]
  by_cases hl : l.length ≤ 63
  · rw [if_neg (not_not.mpr (hmask.mpr hl)), if_neg hzero, if_neg (by omega),
      if_neg (by omega), if_neg (by omega), if_pos hl]
  · rw [if_pos (mt hmask.mp hl), if_neg hl]

/-- Along a walk the decoder that keeps the case meets no pointer and no long label, or fails. -/
theorem caseLoop_walk (h : Walk pkt n pos ls p j) {fuel : Nat} {out : Text}
    (hlen : (joinOnto out ls).length ≤ 255) (hs : (caseLoop pkt 256 (n + fuel) pos out).isSome) :
    j = none ∧ (∀ l ∈ ls, l.length ≤ 63) ∧
      caseLoop pkt 256 (n + fuel) pos out = caseLoop pkt 256 fuel p (joinOnto out ls) := by
  induction h generalizing out with
  | nil pos => exact ⟨rfl, fun _ hl => absurd hl not_mem_nil, by simp [joinOnto]⟩
  | @label n pos p l ls j ne_nil long le octet octets rest ih =>
    have hstep := caseLoop_label (n + fuel) ne_nil long le octet octets
      (fits_of_joinOnto (long.trans (by decide)) hlen)
    rw [show n + 1 + fuel = n + fuel + 1 by omega, hstep] at hs ⊢
    by_cases hl : l.length ≤ 63
    · rw [if_pos hl] at hs ⊢
      obtain ⟨rfl, hshort, heq⟩ := ih hlen hs
      exact ⟨rfl, forall_mem_cons.mpr ⟨hl, hshort⟩, heq⟩
    · rw [if_neg hl] at hs
      cases hs
  | @pointer n pos o p ls j lt octets small prior rest ih =>
    have hmask : byteAt pkt pos &&& 0xC0 ≠ 0 := by
      rw [(pointer_octets octets).1]
      exact masked_pointer small
    rw [show n + 1 + fuel = n + fuel + 1 by omega, caseLoop, if_neg (by omega)] at hs
    simp [hmask] at hs

theorem caseLoop_of_nameAt (fuel : Nat) {e : Nat} (h : NameAt pkt n pos ls e) (hn : n = ls.length)
    {out : Text} (hlen : (joinOnto out ls).length ≤ 255) :
    caseLoop pkt 256 (n + (fuel + 1)) pos out = some (joinOnto out ls, e) := by
  induction h generalizing out with
  | @root pos lt zero =>
    rw [Nat.zero_add, caseLoop, if_neg (by omega)]
    simp [zero, joinOnto]
  | @label n pos e l ls ne_nil short le octet octets rest ih =>
    have hstep := caseLoop_label (n + (fuel + 1)) ne_nil (short.trans (by decide)) le octet
      octets (fits_of_joinOnto (short.trans (by decide)) hlen)
    rw [show n + 1 + (fuel + 1) = n + (fuel + 1) + 1 by omega, hstep, if_pos short]
    exact ih (by simpa using hn) hlen
  | @pointer n pos o e ls lt octets small prior rest ih =>
    have := rest.length_le
    omega

end Decoders

/-! ## What is accepted -/

/-- A packet that resembles the query: its first question, in labels that end at `p`, has the sent
name for its dotted form, read as a C string, and behind it stand the type and the class. -/
structure Resembles (resp : Bytes) (id : Nat) (sent : Text) (qtype : Nat) (ls : List Text)
    (p : Nat) : Prop where
  long : 12 ≤ resp.length
  idAt : get16 resp 0 = id
  qr : hasQR resp = true
  counted : 1 ≤ get16 resp 4
  name : NameAt resp ls.length 12 ls (p + 1)
  chars : (joinDots ls).length ≤ 255
  text : stripDot (cstr (joinDots ls)) = stripDot sent
  room : resumeAt ls.length p + 4 ≤ resp.length
  typeAt : get16 resp (resumeAt ls.length p) = qtype
  clsAt : get16 resp (resumeAt ls.length p + 2) = RRClass.IN

variable {resp : Bytes} {id qtype : Nat} {sent : Text} {ls : List Text} {p : Nat}

/-- What `name_from_wire` reads of labels without a pointer. -/
theorem reading_of_nameAt (h : NameAt resp ls.length 12 ls (p + 1))
    (hchars : (joinDots ls).length ≤ 255) : Reading resp 12 ls.length ls p none := by
  obtain ⟨p', j, hwalk, hend, he⟩ := h.reading
  obtain rfl := hwalk.none_of_length.2 rfl
  obtain rfl : p = p' := Nat.succ.inj he
  have hcount := two_mul_length_le h.ne_nil
  refine ⟨hwalk, hchars, ?_⟩
  by_cases hn : ls.length = 128
  · exact .inl hn
  · exact .inr ⟨by omega, hend⟩

/-- What the decoder that keeps the case reads of them. -/
theorem qnameFromWireCasePreserving_of_nameAt (h : NameAt resp ls.length 12 ls (p + 1))
    (hchars : (joinDots ls).length ≤ 255) :
    qnameFromWireCasePreserving resp 256 = some (cstr (joinDots ls)) := by
  have hcount := two_mul_length_le h.ne_nil
  have hjoin := joinOnto_eq_joinDots h.ne_nil
  have hloop := caseLoop_of_nameAt (255 - ls.length) h rfl (hjoin ▸ hchars)
  rw [hjoin, show ls.length + (255 - ls.length + 1) = 256 by omega] at hloop
  rw [qnameFromWireCasePreserving, hloop, map_some]

/-- A full buffer takes no further label. -/
theorem endsAt_of_caseLoop {fuel : Nat} {out : Text} (hp : p < resp.length)
    (hout : 255 ≤ out.length) (hs : (caseLoop resp 256 (fuel + 1) p out).isSome) :
    EndsAt resp p := by
  rw [caseLoop, if_neg (by omega)] at hs
  by_contra hne
  have hzero : byteAt resp p ≠ 0 := fun h0 => hne ⟨hp, h0⟩
  have hfull : !out.isEmpty ∧ out.length + 1 ≥ 256 := by
    refine ⟨?_, by omega⟩
    cases out with
    | nil => simp at hout
    | cons => rfl
  simp only [hzero, if_pos hfull, if_false, ite_self, isSome_none, Bool.false_eq_true] at hs

/-- A reading that the other decoder confirms, with octets behind it, is one of labels alone. -/
theorem nameAt_of_reading {n : Nat} {j : Option Nat} (h : Reading resp 12 n ls p j)
    (hs : (qnameFromWireCasePreserving resp 256).isSome)
    (hroom : j.getD (resumeAt n p) < resp.length) :
    j = none ∧ n = ls.length ∧ NameAt resp ls.length 12 ls (p + 1) := by
  have hjoin := joinOnto_eq_joinDots h.walk.ne_nil
  have hn : n ≤ 128 := by rcases h.stops with rfl | ⟨hlt, -⟩ <;> omega
  have hsteps : (caseLoop resp 256 (n + (256 - n)) 12 []).isSome := by
    rw [qnameFromWireCasePreserving, isSome_map] at hs
    rwa [show n + (256 - n) = 256 by omega]
  obtain ⟨rfl, hshort, heq⟩ := caseLoop_walk h.walk (hjoin ▸ h.fits) hsteps
  obtain rfl := h.walk.length_of_none
  have hend : EndsAt resp p := by
    rcases h.stops with hlast | ⟨-, hend⟩
    · -- behind 128 labels the text is full, so another label would not be read
      rw [heq, hjoin, hlast] at hsteps
      have hfull := two_mul_length_le h.walk.ne_nil
      exact endsAt_of_caseLoop (by simpa [resumeAt, hlast] using hroom) (by omega) hsteps
    · exact hend
  exact ⟨rfl, rfl, h.walk.nameAt hshort (.root hend.1 hend.2)⟩

theorem responseMatchesQuery_iff :
    responseMatchesQuery resp id sent qtype true = true ↔
      ∃ ls p, Resembles resp id sent qtype ls p := by
  constructor
  · intro h
    rw [responseMatchesQuery] at h
    split at h
    · cases h
    split at h
    · cases h
    split at h
    · cases h
    split at h
    · cases h
    split at h
    · cases h
    split at h
    · cases h
    split at h
    · cases h
    split at h
    · cases h
    split at h
    · cases h
    rename_i hlong hid hqr hcounted _ rqname off hname hroom htype hcls _
    rw [if_pos rfl] at h
    split at h
    · cases h
    rename_i rqnameCs hcase
    obtain ⟨n, ls, p, j, hread, -, rfl⟩ := nameFromWire_eq_some_iff.mp hname
    obtain ⟨rfl, rfl, hnameAt⟩ := nameAt_of_reading hread (by simp [hcase]) (by omega)
    rw [qnameFromWireCasePreserving_of_nameAt hnameAt hread.fits] at hcase
    cases hcase
    refine ⟨ls, p, by omega, not_not.mp hid, by simpa using hqr, by omega, hnameAt, hread.fits, ?_,
      Nat.le_of_not_lt hroom, not_not.mp htype, not_not.mp hcls⟩
    simpa using h
  · rintro ⟨ls, p, h⟩
    have hread := (reading_of_nameAt h.name h.chars).nameFromWire_eq
    have hcase := qnameFromWireCasePreserving_of_nameAt h.name h.chars
    have hnames : namesEqualNocase (strlower (cstr (joinDots ls))) sent = true := by
      rw [namesEqualNocase, stripDot_strlower, eqCI_iff, strlower_strlower, h.text]
    have hlong := h.long
    have hroom := h.room
    have hcounted := h.counted
    rw [responseMatchesQuery, if_neg (by omega), if_neg (not_not.mpr h.idAt),
      if_neg (by simp [h.qr]),
      if_neg (by omega), hread]
    simp only [getD_none]
    rw [if_neg (by omega), if_neg (not_not.mpr h.typeAt), if_neg (not_not.mpr h.clsAt),
      if_neg (by simp [hnames]), if_pos trivial, hcase]
    simpa using h.text

/-! ## Acceptance and the echo of the question -/

/-- The reply answers the query: the QR bit, the id, and a first question whose labels, type and
class are those of the query. -/
structure Answers (resp : Bytes) (id : Nat) (sent : Text) (qtype : Nat) : Prop where
  idAt : get16 resp 0 = id
  qr : hasQR resp = true
  counted : 1 ≤ get16 resp 4
  question : ∃ k e, NameAt resp k 12 (labels sent) e ∧ e + 4 ≤ resp.length ∧
    get16 resp e = qtype ∧ get16 resp (e + 2) = RRClass.IN

/-- The reply has the QR bit and the id, and the question section `q` unchanged. -/
structure Echoes (resp : Bytes) (id : Nat) (q : Bytes) : Prop where
  idAt : get16 resp 0 = id
  qr : hasQR resp = true
  counted : get16 resp 4 = 1
  question : ∃ head tail, resp = head ++ q ++ tail ∧ head.length = 12

/-- **Acceptance binds the question**: what is accepted answers the query, and an echo of the
question is accepted. -/
def BindsQuestion (resp : Bytes) (id : Nat) (sent : Text) (qtype : Nat) (q : Bytes) : Prop :=
  (responseMatchesQuery resp id sent qtype true = true → Answers resp id sent qtype) ∧
    (Echoes resp id q → responseMatchesQuery resp id sent qtype true = true)

/-- No label has a dot or an octet 0, and there are fewer than 128. -/
def PlainLabels (ls : List Text) : Prop := (∀ l ∈ ls, dot ∉ l ∧ 0 ∉ l) ∧ ls.length < 128

theorem length_mixLoop (bits : Bytes) (bi : Nat) (s : Text) :
    (mixLoop bits bi s).length = s.length := by
  induction s generalizing bi with
  | nil => rfl
  | cons c cs ih =>
    rw [mixLoop]
    split
    · rw [length_cons, length_cons, ih]
    · rw [length_cons, length_cons, ih]

theorem notMem_mixLoop {bits : Bytes} {bi : Nat} {s : Text} (h : 0 ∉ s) :
    0 ∉ mixLoop bits bi s := by
  induction s generalizing bi with
  | nil => exact h
  | cons c cs ih =>
    obtain ⟨hc, hcs⟩ := not_or.mp (mt mem_cons.mpr h)
    rw [mixLoop]
    split
    · rename_i hletter
      refine mt mem_cons.mp (not_or.mpr ⟨?_, ih hcs⟩)
      split
      · grind
      · grind
    · have hlow : 0 ≠ lowerByte c := fun h0 => hc (lowerByte_eq_zero.mp h0.symm).symm
      exact mt mem_cons.mp (not_or.mpr ⟨hlow, ih hcs⟩)

/-- Behind 128 labels the type is read one octet early, which is never the type and the class. -/
theorem Resembles.lt_of_fields (h : Resembles resp id sent qtype ls p)
    (htype : get16 resp (p + 1) = qtype) (hcls : get16 resp (p + 1 + 2) = RRClass.IN) :
    ls.length < 128 := by
  obtain ⟨-, -, hend⟩ := reading_of_nameAt h.name h.chars
  obtain ⟨p', j, hwalk, hzero, he⟩ := h.name.reading
  obtain rfl := hwalk.none_of_length.2 rfl
  obtain rfl : p = p' := Nat.succ.inj he
  refine (hend.resolve_left fun hlast => ?_).1
  have hresume : resumeAt ls.length p = p := if_pos hlast
  have htype' := h.typeAt
  have hcls' := h.clsAt
  rw [hresume] at htype' hcls'
  simp only [get16, hzero.2, RRClass.IN, UInt8.toNat_zero, Nat.add_assoc, Nat.reduceAdd]
    at htype hcls htype' hcls'
  omega

/-- A question with clean labels is the one that was sent. -/
theorem Resembles.labels_eq (h : Resembles resp id sent qtype ls p)
    (hclean : ∀ l ∈ ls, dot ∉ l ∧ 0 ∉ l) : ls = labels sent := by
  have hproper : Proper ls := fun l hl => ⟨h.name.ne_nil l hl, (hclean l hl).1⟩
  have hnul : 0 ∉ joinDots ls := notMem_joinDots (by decide) fun l hl => (hclean l hl).2
  have htext := h.text
  rw [cstr_eq_self hnul] at htext
  rw [← labels_stripDot sent, ← htext, labels_stripDot, labels_joinDots hproper]

theorem answers_iff (hnul : 0 ∉ sent) :
    (responseMatchesQuery resp id sent qtype true = true → Answers resp id sent qtype) ↔
      ∀ ls p, Resembles resp id sent qtype ls p → PlainLabels ls := by
  rw [responseMatchesQuery_iff]
  constructor
  · intro h ls p hres
    obtain ⟨-, -, -, k, e, hname, -, htype, hcls⟩ := h ⟨ls, p, hres⟩
    obtain ⟨rfl, rfl⟩ := hres.name.unique hname
    refine ⟨fun l hl => ⟨(proper_labels sent l hl).2, fun h0 => ?_⟩, hres.lt_of_fields htype hcls⟩
    exact hnul (mem_of_mem_labels hl h0)
  · rintro h ⟨ls, p, hres⟩
    obtain ⟨hclean, hcount⟩ := h ls p hres
    have hls := hres.labels_eq hclean
    have hend : resumeAt ls.length p = p + 1 := if_neg (by omega)
    have hroom := hres.room
    have htype := hres.typeAt
    have hcls := hres.clsAt
    rw [hend] at hroom htype hcls
    exact ⟨hres.idAt, hres.qr, hres.counted, _, _, hls ▸ hres.name, hroom, htype, hcls⟩

/-- What stands in an echo of the question. -/
theorem Echoes.fields {q : Bytes} (h : Echoes resp id q) (hlen : sent.length ≤ 255)
    (hqtype : qtype < 2 ^ 16) (hq : Resolver.question sent qtype = some q) :
    NameAt resp (labels sent).length 12 (labels sent) (12 + (nameWire (labels sent)).length) ∧
      12 + (nameWire (labels sent)).length + 4 ≤ resp.length ∧
      get16 resp (12 + (nameWire (labels sent)).length) = qtype ∧
      get16 resp (12 + (nameWire (labels sent)).length + 2) = RRClass.IN := by
  obtain ⟨head, tail, rfl, hhead⟩ := h.question
  rw [Resolver.question] at hq
  split at hq
  · cases hq
  rename_i w hw
  split at hq
  · cases hq
  cases hq
  obtain ⟨hshort, rfl, -⟩ := (nameToWire_eq_some_iff hlen).mp hw
  have hpkt : head ++ (nameWire (labels sent) ++ put16 qtype ++ put16 RRClass.IN) ++ tail =
      head ++ nameWire (labels sent) ++ (put16 qtype ++ (put16 RRClass.IN ++ tail)) := by
    simp only [append_assoc]
  have hpos : (head ++ nameWire (labels sent)).length =
      12 + (nameWire (labels sent)).length := by
    rw [length_append, hhead]
  have hpos' : (head ++ nameWire (labels sent) ++ put16 qtype).length =
      12 + (nameWire (labels sent)).length + 2 := by
    rw [length_append, hpos, length_put16]
  refine ⟨?_, ?_, ?_, ?_⟩
  · rw [hpkt, ← hhead]
    exact nameAt_nameWire (fun l hl => ne_nil_of_mem_labels hl) hshort head _
  · simp only [length_append, length_put16]
    omega
  · rw [hpkt, ← hpos]
    exact get16_put16 hqtype _ _
  · rw [hpkt, ← hpos', ← append_assoc]
    exact get16_put16 (by decide) _ _

theorem echoes_iff {q : Bytes} (hnul : 0 ∉ sent) (hlen : sent.length ≤ 255)
    (hqtype : qtype < 2 ^ 16) (hq : question sent qtype = some q) :
    (Echoes resp id q → responseMatchesQuery resp id sent qtype true = true) ↔
      (Echoes resp id q → stripDot sent = joinDots (labels sent) ∧ (labels sent).length < 128) := by
  refine imp_congr_right fun hecho => ?_
  obtain ⟨hname, hroom, htype, hcls⟩ := hecho.fields hlen hqtype hq
  have hproper := proper_labels sent
  have hclean : 0 ∉ joinDots (labels sent) :=
    notMem_joinDots (by decide) fun l hl h0 => hnul (mem_of_mem_labels hl h0)
  obtain ⟨p, hp⟩ : ∃ p, 12 + (nameWire (labels sent)).length = p + 1 :=
    ⟨11 + (nameWire (labels sent)).length, by omega⟩
  rw [hp] at hname hroom htype hcls
  rw [responseMatchesQuery_iff]
  constructor
  · rintro ⟨ls, p', hres⟩
    obtain ⟨rfl, he⟩ := hname.unique hres.name
    obtain rfl := Nat.succ.inj he
    have htext := hres.text
    rw [cstr_eq_self hclean, stripDot_joinDots hproper] at htext
    exact ⟨htext.symm, hres.lt_of_fields htype hcls⟩
  · rintro ⟨htidy, hcount⟩
    have hresume : resumeAt (labels sent).length p = p + 1 := if_neg (by omega)
    have hcounted := hecho.counted
    refine ⟨labels sent, p, ?_⟩
    constructor
    · omega
    · exact hecho.idAt
    · exact hecho.qr
    · omega
    · exact hname
    · exact (length_joinDots_labels sent).trans hlen
    · rw [cstr_eq_self hclean, stripDot_joinDots hproper, htidy]
    · rwa [hresume]
    · rw [hresume]
      exact htype
    · rw [hresume]
      exact hcls

/-- **When acceptance binds the question.** A packet that resembles the query has clean labels; and
if it echoes the question, the sent name is tidy: no empty label, but for a dot at its end, and
fewer than 128 labels. -/
theorem binds_question_iff {bits q qname : Bytes} (hnul : 0 ∉ qname)
    (hqtype : qtype < 2 ^ 16) (hq : question (dns0x20Mix bits qname 256) qtype = some q) :
    BindsQuestion resp id (dns0x20Mix bits qname 256) qtype q ↔
      (∀ ls p, Resembles resp id (dns0x20Mix bits qname 256) qtype ls p → PlainLabels ls) ∧
        (Echoes resp id q →
          stripDot (dns0x20Mix bits qname 256) = joinDots (labels (dns0x20Mix bits qname 256)) ∧
            (labels (dns0x20Mix bits qname 256)).length < 128) := by
  have hsent : 0 ∉ dns0x20Mix bits qname 256 :=
    notMem_mixLoop fun h0 => hnul (mem_of_mem_take h0)
  have hlen : (dns0x20Mix bits qname 256).length ≤ 255 := by
    rw [dns0x20Mix, length_mixLoop]
    exact length_take_le _ _
  exact and_congr (answers_iff hsent) (echoes_iff hsent hlen hqtype hq)

/-- A reply to `a.b A` with the question in the given labels. -/
def sampleReply (ls : List Text) : Bytes :=
  header 7 0x8180 1 0 0 0 ++ (nameWire ls ++ put16 RRType.A ++ put16 RRClass.IN)

theorem nameAt_sampleReply {ls : List Text} (h : ∀ l ∈ ls, l ≠ [] ∧ l.length ≤ 63) :
    NameAt (sampleReply ls) ls.length 12 ls (12 + (nameWire ls).length) := by
  rw [sampleReply, append_assoc (nameWire ls), ← append_assoc]
  exact nameAt_nameWire (fun l hl => (h l hl).1) (fun l hl => (h l hl).2)
    (header 7 0x8180 1 0 0 0) _

/-- The echo of the question is accepted, and its labels are clean. -/
theorem echo_bound :
    responseMatchesQuery (sampleReply [lit "A", lit "b"]) 7 (lit "A.b") RRType.A true = true ∧
      BindsQuestion (sampleReply [lit "A", lit "b"]) 7 (dns0x20Mix [1] (lit "a.b") 256) RRType.A
        (nameWire [lit "A", lit "b"] ++ put16 RRType.A ++ put16 RRClass.IN) := by
  refine ⟨by decide +kernel, (binds_question_iff (by decide) (by decide)
    (by decide +kernel)).mpr ⟨fun ls p hres => ?_, fun _ => by decide +kernel⟩⟩
  have hlabels : ∀ l ∈ [lit "A", lit "b"], l ≠ [] ∧ l.length ≤ 63 := by decide
  obtain ⟨rfl, -⟩ := (nameAt_sampleReply hlabels).unique hres.name
  exact ⟨by decide, by decide⟩

/-- **One label `a.b` is accepted for the two labels of `a.b`.** -/
theorem dotted_label_accepted :
    question (dns0x20Mix [] (lit "a.b") 256) RRType.A =
        some (nameWire [lit "a", lit "b"] ++ put16 RRType.A ++ put16 RRClass.IN) ∧
      ¬ BindsQuestion (sampleReply [lit "a.b"]) 7 (dns0x20Mix [] (lit "a.b") 256) RRType.A
        (nameWire [lit "a", lit "b"] ++ put16 RRType.A ++ put16 RRClass.IN) := by
  refine ⟨by decide +kernel, fun h => ?_⟩
  have haccepted : responseMatchesQuery (sampleReply [lit "a.b"]) 7
      (dns0x20Mix [] (lit "a.b") 256) RRType.A true = true := by decide +kernel
  obtain ⟨k, e, hname, -⟩ := (h.1 haccepted).question
  have hsingle : ∀ l ∈ [lit "a.b"], l ≠ [] ∧ l.length ≤ 63 := by decide
  exact absurd ((nameAt_sampleReply hsingle).unique hname).1 (by decide +kernel)

end SimpleDns.Resolver
