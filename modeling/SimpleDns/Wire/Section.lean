import SimpleDns.Wire.Decoder
import SimpleDns.Wire.Encoded

/-!
# The records of a section, as RFC 1035 reads them

What a message says, apart from the code that reads it: names through their pointers, the fields
behind them, and the canonical form of the rdata (RFC 4034 §6.2: names written out in lower case).
Records are compared by owner, type and canonical rdata.

* `DomainName`: a name of at most 255 octets, in fewer than 128 labels and pointers.
* `CanonAt`, `SectionAt`, `AnswersOf`: a rdata, consecutive records, the answers of a message.
* `sectionAt_written`, `SectionAt.written`: what is written one record after the other is read so,
  and nothing else is.
-/

namespace SimpleDns.Wire

open List RRType

/-! ## Names -/

/-- A name at `off`, behind which the reader goes on at `e`. -/
structure DomainName (pkt : Bytes) (off : Nat) (ls : List Text) (e : Nat) : Prop where
  spelled : ∃ k < 128, NameAt pkt k off ls e
  short : (nameWire ls).length ≤ 255

section Names

variable {pkt : Bytes} {off e : Nat} {ls : List Text}

theorem DomainName.unique {ls' : List Text} {e' : Nat} (h : DomainName pkt off ls e)
    (h' : DomainName pkt off ls' e') : ls = ls' ∧ e = e' := by
  obtain ⟨k, -, hname⟩ := h.spelled
  obtain ⟨k', -, hname'⟩ := h'.spelled
  exact hname.unique hname'

theorem DomainName.lt (h : DomainName pkt off ls e) : off < pkt.length := by
  obtain ⟨k, -, hname⟩ := h.spelled
  exact hname.lt

/-- Labels that can be written: none is empty or longer than 63 octets. -/
def Encodable (ls : List Text) : Prop := ∀ l ∈ ls, l ≠ [] ∧ l.length ≤ 63

theorem DomainName.encodable (h : DomainName pkt off ls e) : Encodable ls := by
  obtain ⟨k, -, hname⟩ := h.spelled
  exact fun l hl => ⟨hname.ne_nil l hl, hname.short l hl⟩

theorem length_joinDots_lt_nameWire (ls : List Text) :
    (joinDots ls).length < (nameWire ls).length := by
  have hwire := length_lt_nameWire ls
  rw [length_joinDots]
  omega

/-- Labels are told apart by their wire form. -/
theorem Encodable.eq_of_nameWire {ls' : List Text} (h : Encodable ls) (h' : Encodable ls')
    (heq : nameWire ls = nameWire ls') : ls = ls' := by
  have hnil : nameWire ls ++ [] = nameWire ls' ++ [] := by rw [heq]
  exact (nameWire_append_inj (by decide) h h' hnil).1

/-- Written labels are a name. -/
theorem domainName_nameWire (h : Encodable ls) (hshort : (nameWire ls).length ≤ 255)
    (pre post : Bytes) :
    DomainName (pre ++ nameWire ls ++ post) pre.length ls (pre.length + (nameWire ls).length) := by
  have hne : ∀ l ∈ ls, l ≠ [] := fun l hl => (h l hl).1
  have hcount := two_mul_length_nameWire hne
  exact ⟨⟨ls.length, by omega,
    nameAt_nameWire hne (fun l hl => (h l hl).2) pre post⟩, hshort⟩

/-- The name in lower case. -/
theorem encodable_strlower (h : Encodable ls) : Encodable (ls.map strlower) := by
  intro l hl
  obtain ⟨m, hm, rfl⟩ := mem_map.mp hl
  obtain ⟨hne, hshort⟩ := h m hm
  refine ⟨fun hnil => hne (map_eq_nil_iff.mp hnil), ?_⟩
  rwa [length_strlower]

@[simp] theorem map_strlower_strlower (ls : List Text) :
    (ls.map strlower).map strlower = ls.map strlower := by
  rw [map_map]
  exact map_congr_left fun l _ => strlower_strlower l

/-- A larger buffer takes what a smaller one takes. -/
theorem Decodes.mono {olen olen' : Nat} (hle : olen ≤ olen') {fuel pos : Nat} {out : Text}
    {jret : Option Nat} {r : Text × Nat} (h : Decodes pkt olen r fuel pos out jret) :
    Decodes pkt olen' r fuel pos out jret := by
  induction h with
  | stop eq => exact .stop eq
  | root lt zero eq => exact .root lt zero eq
  | pointer lt octet target prior _ ih => exact .pointer lt octet target prior ih
  | label octet size ne_nil le octets room _ ih =>
    exact .label octet size ne_nil le octets (by omega) ih

/-- The decoder reads the name, as a C string. -/
theorem DomainName.nameFromWire (h : DomainName pkt off ls e) {olen : Nat} (holen : 256 ≤ olen) :
    nameFromWire pkt off olen = some (strlower (cstr (joinDots ls)), e) := by
  obtain ⟨k, hk, hname⟩ := h.spelled
  obtain ⟨p, j, hwalk, hend, he⟩ := hname.reading
  have hfits : (joinDots ls).length ≤ 255 :=
    (Nat.le_of_lt (length_joinDots_lt_nameWire ls)).trans h.short
  have hread : Reading pkt off k ls p j := ⟨hwalk, hfits, .inr ⟨hk, hend⟩⟩
  have h256 := hread.nameFromWire_eq
  have hresume : resumeAt k p = p + 1 := if_neg (by omega)
  rw [hresume, ← he] at h256
  rw [Wire.nameFromWire, Option.map_eq_some_iff] at h256 ⊢
  obtain ⟨r, hr, heq⟩ := h256
  exact ⟨r, nameLoop_eq_some_iff.mpr ((Decodes.of_nameLoop hr).mono holen), heq⟩

end Names

/-! ## Record data -/

/-- The types whose rdata is a name. -/
def nameTypes : List Nat := [NS, CNAME, PTR, DNAME]

/-- The types that have a name in their rdata. -/
def namedTypes : List Nat := [MX, SRV, SOA] ++ nameTypes

/-- The `len` octets at `off` are a rdata of the type, and this is its canonical form. -/
inductive CanonAt (pkt : Bytes) (off len type : Nat) : Bytes → Prop
  | name {ls : List Text} (named : type ∈ nameTypes) (h : DomainName pkt off ls (off + len)) :
      CanonAt pkt off len type (nameWire (ls.map strlower))
  | mx {ls : List Text} (named : type = MX) (h : DomainName pkt (off + 2) ls (off + len)) :
      CanonAt pkt off len type (slice pkt off 2 ++ nameWire (ls.map strlower))
  | srv {ls : List Text} (named : type = SRV)
      (h : DomainName pkt (off + 6) ls (off + len)) :
      CanonAt pkt off len type (slice pkt off 6 ++ nameWire (ls.map strlower))
  | soa {m r : List Text} {e e' : Nat} (named : type = SOA) (hm : DomainName pkt off m e)
      (hr : DomainName pkt e r e') (hlen : e' + 20 = off + len) :
      CanonAt pkt off len type
        (nameWire (m.map strlower) ++ nameWire (r.map strlower) ++ slice pkt e' 20)
  | other (plain : type ∉ namedTypes) : CanonAt pkt off len type (slice pkt off len)

variable {pkt rd : Bytes} {off len type : Nat}

theorem CanonAt.of_plain (h : CanonAt pkt off len type rd) (hplain : type ∉ namedTypes) :
    rd = slice pkt off len := by
  cases h with
  | name named => exact absurd (mem_append_right _ named) hplain
  | mx named | srv named | soa named => exact absurd (by rw [named]; decide) hplain
  | other => rfl

theorem CanonAt.of_name (h : CanonAt pkt off len type rd) (hname : type ∈ nameTypes) :
    ∃ ls, DomainName pkt off ls (off + len) ∧ rd = nameWire (ls.map strlower) := by
  cases h with
  | name _ h => exact ⟨_, h, rfl⟩
  | mx named | srv named | soa named => exact absurd hname (by rw [named]; decide)
  | other plain => exact absurd (mem_append_right _ hname) plain

theorem CanonAt.of_mx (h : CanonAt pkt off len MX rd) :
    ∃ ls, DomainName pkt (off + 2) ls (off + len) ∧
      rd = slice pkt off 2 ++ nameWire (ls.map strlower) := by
  cases h with
  | name named => exact absurd named (by decide)
  | mx _ h => exact ⟨_, h, rfl⟩
  | srv named | soa named => cases named
  | other plain => exact absurd (by decide) plain

theorem slice_between (pre b post : Bytes) : slice (pre ++ b ++ post) pre.length b.length = b := by
  rw [slice_append_left (by rw [length_append]), slice_append_self]

/-- Octets of a type without names are their own canonical form. -/
theorem canonAt_plain (h : type ∉ namedTypes) (pre rd post : Bytes) :
    CanonAt (pre ++ rd ++ post) pre.length rd.length type rd := by
  have hother : CanonAt (pre ++ rd ++ post) pre.length rd.length type _ := .other h
  rwa [slice_between] at hother

variable {ls : List Text}

/-- A name behind other octets of the rdata. -/
theorem domainName_behind (front : Bytes) (h : Encodable ls) (hshort : (nameWire ls).length ≤ 255)
    (pre post : Bytes) :
    DomainName (pre ++ (front ++ nameWire ls) ++ post) (pre.length + front.length) ls
        (pre.length + (front ++ nameWire ls).length) ∧
      slice (pre ++ (front ++ nameWire ls) ++ post) pre.length front.length = front := by
  have hname := domainName_nameWire h hshort (pre ++ front) post
  have hpkt : pre ++ front ++ nameWire ls ++ post = pre ++ (front ++ nameWire ls) ++ post := by simp
  have hslice := slice_between pre front (nameWire ls ++ post)
  rw [← append_assoc, hpkt] at hslice
  have hend : (pre ++ front).length + (nameWire ls).length =
      pre.length + (front ++ nameWire ls).length := by
    simp only [length_append, Nat.add_assoc]
  rw [hpkt, hend, length_append] at hname
  exact ⟨hname, hslice⟩

theorem canonAt_behind {front : Bytes}
    (hfront : type = MX ∧ front.length = 2 ∨ type = SRV ∧ front.length = 6)
    (h : Encodable ls) (hshort : (nameWire ls).length ≤ 255) (pre post : Bytes) :
    CanonAt (pre ++ (front ++ nameWire ls) ++ post) pre.length (front ++ nameWire ls).length type
      (front ++ nameWire (ls.map strlower)) := by
  obtain ⟨hname, hslice⟩ := domainName_behind front h hshort pre post
  obtain ⟨htype, hlen⟩ | ⟨htype, hlen⟩ := hfront
  · rw [hlen] at hname hslice
    have hmx := CanonAt.mx htype hname
    rwa [hslice] at hmx
  · rw [hlen] at hname hslice
    have hsrv := CanonAt.srv htype hname
    rwa [hslice] at hsrv

/-- The name a reader finds where labels are written. -/
theorem DomainName.eq_of_written {ls' : List Text} {pre post : Bytes} {e : Nat}
    (h : DomainName (pre ++ nameWire ls ++ post) pre.length ls' e) (henc : Encodable ls) :
    ls' = ls ∧ e = pre.length + (nameWire ls).length := by
  obtain ⟨k, -, hname⟩ := h.spelled
  exact hname.unique
    (nameAt_nameWire (fun l hl => (henc l hl).1) (fun l hl => (henc l hl).2) pre post)

/-! ## Sections -/

/-- A record as it is compared. -/
structure Rec where
  owner : List Text
  type : Nat
  rdata : Bytes
deriving DecidableEq, Repr

/-- The octets of the record, written out. -/
def Rec.size (r : Rec) : Nat := (nameWire r.owner).length + 10 + r.rdata.length

/-- Records of class IN, one after the other. -/
inductive SectionAt (pkt : Bytes) : Nat → List Rec → Prop
  | nil (off : Nat) : SectionAt pkt off []
  | cons {off a : Nat} {ls : List Text} {rd : Bytes} {recs : List Rec}
      (owner : DomainName pkt off ls a) (cls : get16 pkt (a + 2) = RRClass.IN)
      (fits : a + 10 + get16 pkt (a + 8) ≤ pkt.length)
      (rdata : CanonAt pkt (a + 10) (get16 pkt (a + 8)) (get16 pkt a) rd)
      (rest : SectionAt pkt (a + 10 + get16 pkt (a + 8)) recs) :
      SectionAt pkt off (⟨ls.map strlower, get16 pkt a, rd⟩ :: recs)

/-- `n` questions, one after the other. -/
inductive QuestionsAt (pkt : Bytes) : Nat → Nat → Nat → Prop
  | nil (off : Nat) : QuestionsAt pkt 0 off off
  | cons {n off a e : Nat} {ls : List Text} (name : DomainName pkt off ls a)
      (fits : a + 4 ≤ pkt.length) (rest : QuestionsAt pkt n (a + 4) e) :
      QuestionsAt pkt (n + 1) off e

/-- The first answers of a message. -/
def FirstAnswers (pkt : Bytes) (recs : List Rec) : Prop :=
  ∃ off, QuestionsAt pkt (qdcount pkt) 12 off ∧ SectionAt pkt off recs ∧
    recs.length ≤ ancount pkt

/-- The answers of a message. -/
def AnswersOf (pkt : Bytes) (recs : List Rec) : Prop :=
  FirstAnswers pkt recs ∧ ancount pkt = recs.length

theorem QuestionsAt.unique {n e e' : Nat} (h : QuestionsAt pkt n off e)
    (h' : QuestionsAt pkt n off e') : e = e' := by
  induction h generalizing e' with
  | nil => cases h'; rfl
  | cons name fits rest ih =>
    cases h' with
    | cons name' fits' rest' =>
      obtain ⟨-, rfl⟩ := name.unique name'
      exact ih rest'

theorem QuestionsAt.skipQuestions {n e : Nat} (h : QuestionsAt pkt n off e) :
    skipQuestions pkt n off = some e := by
  induction h with
  | nil => rfl
  | cons name fits rest ih =>
    rwa [Wire.skipQuestions, if_pos name.lt, name.nameFromWire (le_refl 256)]

/-! ## Written records -/

/-- A record as a writer puts it into a message, without compression. -/
structure Written where
  labels : List Text
  type : Nat
  ttl : Nat
  rdata : Bytes

/-- Its octets. -/
def Written.wire (w : Written) : Bytes :=
  nameWire w.labels ++ recordTail w.type RRClass.IN w.ttl w.rdata

/-- The fields hold what was put into them. -/
structure Written.Valid (w : Written) : Prop where
  labels : Encodable w.labels
  type : w.type < 2 ^ 16
  rdata : w.rdata.length < 2 ^ 16

/-- What a written record says, to a reader who finds this canonical form of its rdata. -/
structure Written.Says (w : Written) (r : Rec) : Prop where
  owner : r.owner = w.labels.map strlower
  type : r.type = w.type
  rdata : ∃ pre post, CanonAt (pre ++ w.rdata ++ post) pre.length w.rdata.length w.type r.rdata

theorem put32_mod (v : Nat) : put32 (v % 2 ^ 32) = put32 v := by
  have hbyte : ∀ a b : Nat, a % 256 = b % 256 → a.toUInt8 = b.toUInt8 := fun a b h =>
    UInt8.toNat_inj.mp (by simpa using h)
  simp only [put32, cons.injEq, and_true]
  refine ⟨hbyte _ _ ?_, hbyte _ _ ?_, hbyte _ _ ?_, hbyte _ _ ?_⟩ <;> omega

theorem Written.fieldsAt {w : Written} (hw : w.Valid) (pre post : Bytes) :
    FieldsAt (pre ++ w.wire ++ post) (pre.length + (nameWire w.labels).length) w.type RRClass.IN
      (w.ttl % 2 ^ 32) w.rdata := by
  have h := fieldsAt_recordTail hw.type (by decide : RRClass.IN < 2 ^ 16)
    (Nat.mod_lt w.ttl (by decide : 0 < 2 ^ 32)) hw.rdata (pre ++ nameWire w.labels) post
  rw [recordTail, put32_mod, ← recordTail, length_append] at h
  simpa [wire] using h

theorem Written.length_wire (w : Written) :
    w.wire.length = (nameWire w.labels).length + 10 + w.rdata.length := by
  rw [wire, length_append, length_recordTail, Nat.add_assoc]

theorem Written.length_next (w : Written) (pre : Bytes) : (pre ++ w.wire).length =
    pre.length + (nameWire w.labels).length + 10 + w.rdata.length := by
  rw [length_append, w.length_wire]
  omega

theorem Written.behind_name (w : Written) (pre tail : Bytes) : pre ++ nameWire w.labels ++
    (recordTail w.type RRClass.IN w.ttl w.rdata ++ tail) = pre ++ w.wire ++ tail := by
  simp [wire]

theorem Written.flatMap_cons (w : Written) (ws : List Written) (pre post : Bytes) :
    pre ++ (w :: ws).flatMap wire ++ post = pre ++ w.wire ++ (ws.flatMap wire ++ post) := by
  simp

/-- Ten octets stand between the owner and the rdata. -/
theorem Written.exists_front (w : Written) (pre : Bytes) :
    ∃ front : Bytes, front.length = pre.length + (nameWire w.labels).length + 10 ∧
      ∀ tail, front ++ w.rdata ++ tail = pre ++ w.wire ++ tail :=
  ⟨pre ++ nameWire w.labels ++
    (put16 w.type ++ put16 RRClass.IN ++ put32 w.ttl ++ put16 w.rdata.length),
    by rw [length_append, length_append]; rfl, by simp [wire, recordTail]⟩

/-- A written record says `r` to every reader. -/
structure Written.Reads (w : Written) (r : Rec) : Prop where
  valid : w.Valid
  short : (nameWire w.labels).length ≤ 255
  owner : r.owner = w.labels.map strlower
  type : r.type = w.type
  rdata : ∀ pre post, CanonAt (pre ++ w.rdata ++ post) pre.length w.rdata.length w.type r.rdata

/-- **What is written is read.** -/
theorem sectionAt_written {ws : List Written} {recs : List Rec}
    (h : List.Forall₂ Written.Reads ws recs) (pre post : Bytes) :
    SectionAt (pre ++ ws.flatMap Written.wire ++ post) pre.length recs := by
  induction h generalizing pre with
  | nil => exact .nil _
  | @cons w r ws recs hw _ ih =>
    have hrest := ih (pre ++ w.wire)
    rw [append_assoc, w.length_next] at hrest
    rw [w.flatMap_cons]
    generalize ws.flatMap Written.wire ++ post = tail at hrest ⊢
    have hfields := Written.fieldsAt hw.valid pre tail
    have hname := domainName_nameWire hw.valid.labels hw.short pre
      (recordTail w.type RRClass.IN w.ttl w.rdata ++ tail)
    rw [w.behind_name] at hname
    obtain ⟨front, hfront, hwire⟩ := w.exists_front pre
    have hdata := hw.rdata front tail
    rw [hwire, hfront, ← hfields.rdlenAt, ← hfields.typeAt] at hdata
    rw [← hfields.rdlenAt] at hrest
    have hrec : r = ⟨w.labels.map strlower, get16 (pre ++ w.wire ++ tail)
        (pre.length + (nameWire w.labels).length), r.rdata⟩ := by
      rw [hfields.typeAt, ← hw.owner, ← hw.type]
    have hfits := hfields.le
    rw [← hfields.rdlenAt] at hfits
    rw [hrec]
    exact .cons hname hfields.clsAt hfits hdata hrest

/-- **What is read was written.** -/
theorem SectionAt.written {ws : List Written} {sent : List Rec} {pre post : Bytes}
    (h : SectionAt (pre ++ ws.flatMap Written.wire ++ post) pre.length sent)
    (hvalid : ∀ w ∈ ws, w.Valid) (hlen : sent.length ≤ ws.length) :
    ∀ r ∈ sent, ∃ w ∈ ws, w.Says r := by
  induction ws generalizing pre sent with
  | nil =>
    intro r hr
    rw [length_eq_zero_iff.mp (Nat.le_zero.mp hlen)] at hr
    cases hr
  | cons w ws ih =>
    have hw := hvalid w mem_cons_self
    rw [w.flatMap_cons] at h
    generalize htail : ws.flatMap Written.wire ++ post = tail at h
    have hfields := Written.fieldsAt hw pre tail
    generalize hoff : pre.length = off at h
    cases h with
    | nil => exact nofun
    | @cons _ a ls rd recs owner cls fits rdata rest =>
      subst hoff
      rw [← w.behind_name] at owner
      obtain ⟨rfl, rfl⟩ := owner.eq_of_written hw.labels
      rw [hfields.typeAt, hfields.rdlenAt] at rdata
      rw [hfields.rdlenAt, ← w.length_next, ← htail, ← append_assoc] at rest
      intro r hr
      rcases mem_cons.mp hr with rfl | hr
      · obtain ⟨front, hfront, hwire⟩ := w.exists_front pre
        refine ⟨w, mem_cons_self, rfl, hfields.typeAt, front, tail, ?_⟩
        rwa [hwire, hfront]
      · obtain ⟨v, hv, hsaid⟩ := ih rest (fun v hv => hvalid v (mem_cons_of_mem _ hv))
          (Nat.le_of_succ_le_succ hlen) r hr
        exact ⟨v, mem_cons_of_mem _ hv, hsaid⟩

end SimpleDns.Wire
