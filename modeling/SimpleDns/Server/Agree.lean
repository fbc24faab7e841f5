import SimpleDns.Server.Sign

/-!
# What is signed and what is verified

`resolverd` rebuilds the signed octets from the RRset it sees (`signedData`), `make_rrsig` signs the
record it is given (`signedMessage`). Here the two are compared record by record.

* `canonRdata_embed`: rdata without pointers has one canonical form, alone or in a packet.
* `canonRR_eq`: the validator rebuilds the record the signer wrote, if it counts the owner's labels
  as the signer does and the record fits its buffer.
* `readsHeader`: the validator reads the signer's header.
* **`signedData_eq_iff`**: the strings are equal exactly for one record that the two sides see
  alike.
-/

namespace SimpleDns.Server

open Wire Resolver List Option RRType

/-! ## Rdata without pointers -/

/-- The offset behind a name without pointers. -/
def plainEnd (rd : Bytes) : Nat → Nat → Option Nat
  | 0, _ => none
  | fuel + 1, pos =>
    if pos ≥ rd.length then none
    else if isPointer (byteAt rd pos) then none
    else if byteAt rd pos = 0 then some (pos + 1)
    else plainEnd rd fuel (pos + 1 + (byteAt rd pos).toNat)

/-- The names inside the rdata are not compressed: `rrdata` is "a standalone, already-uncompressed
buffer" (`make_rrsig`). -/
def PlainRdata (type : Nat) (rd : Bytes) : Prop :=
  if type = NS ∨ type = CNAME ∨ type = PTR ∨ type = DNAME then
    ∃ e, plainEnd rd 128 0 = some e
  else if type = MX then ∃ e, plainEnd rd 128 2 = some e
  else if type = SRV then ∃ e, plainEnd rd 128 6 = some e
  else if type = SOA then ∃ a e, plainEnd rd 128 0 = some a ∧ plainEnd rd 128 a = some e
  else True

section Rdata

variable {rd : Bytes} {fuel pos : Nat}

/-- A name without pointers reads the same from inside a packet. -/
theorem nameLoop_embed {e e' : Nat} {out t : Text} (hplain : plainEnd rd fuel pos = some e)
    (h : nameLoop rd 256 fuel pos out none = some (t, e')) (pre post : Bytes) :
    e' = e ∧ nameLoop (pre ++ rd ++ post) 256 fuel (pre.length + pos) out none =
      some (t, pre.length + e) := by
  rw [nameLoop_eq_some_iff] at h ⊢
  have hbyte : ∀ {pos}, pos < rd.length →
      byteAt (pre ++ rd ++ post) (pre.length + pos) = byteAt rd pos := fun hpos => by
    rw [byteAt_append_left (by rw [length_append]; omega), byteAt_append_right]
  have hsize : (pre ++ rd ++ post).length = pre.length + (rd.length + post.length) := by simp
  generalize hj : none = jret at h ⊢
  induction h with
  | stop => cases hplain
  | @root fuel pos out jret lt zero eq =>
    subst hj
    rw [plainEnd, if_neg (by omega), zero] at hplain
    cases hplain
    cases eq
    exact ⟨rfl, .root (by omega) ((hbyte lt).trans zero) rfl⟩
  | pointer lt octet =>
    rw [plainEnd, if_neg (by omega), if_pos octet] at hplain
    cases hplain
  | @label fuel pos out l jret octet size ne_nil le octets room _ ih =>
    have hoctet := hbyte (show pos < rd.length by omega)
    rw [plainEnd, if_neg (by omega), if_neg (by simp [octet]),
      if_neg (ne_zero_of_label size ne_nil), size] at hplain
    obtain ⟨rfl, hrest⟩ := ih hplain hj
    refine ⟨rfl, .label (hoctet ▸ octet) (hoctet ▸ size) ne_nil (by omega) ?_ room ?_⟩
    · rw [slice_append_left (by rw [length_append]; omega), Nat.add_assoc, slice_append_right,
        octets]
    · rwa [show pre.length + pos + 1 + l.length = pre.length + (pos + 1 + l.length) by omega]

/-- A buffer that is large enough changes nothing. -/
theorem nameToWire_resize {name : Text} {b : Nat} {w : Bytes} (h : nameToWire name b = some w)
    (b' : Nat) : nameToWire name b' = if w.length ≤ b' then some w else none := by
  obtain ⟨hshort, rfl, -⟩ := wireLoop_eq_some_iff.mp h
  by_cases hle : (nameWire (labels (safeStrcpy name 256))).length ≤ b'
  · rw [if_pos hle]
    exact wireLoop_eq_some_iff.mpr ⟨hshort, rfl, by omega⟩
  · rw [if_neg hle, eq_none_iff_forall_ne_some]
    intro w hw
    obtain ⟨-, rfl, hle'⟩ := wireLoop_eq_some_iff.mp hw
    omega

theorem canonName_embed {e e' b : Nat} {w : Bytes} (hplain : plainEnd rd 128 pos = some e)
    (h : canonName rd pos b = some (w, e')) (pre post : Bytes) (b' : Nat) :
    e' = e ∧ canonName (pre ++ rd ++ post) (pre.length + pos) b' =
      if w.length ≤ b' then some (w, pre.length + e) else none := by
  rw [canonName] at h
  cases hn : nameFromWire rd pos 256 with
  | none => simp [hn] at h
  | some p =>
    obtain ⟨nm, a⟩ := p
    simp only [hn, map_eq_some_iff, Prod.mk.injEq] at h
    obtain ⟨w', hw', rfl, rfl⟩ := h
    obtain ⟨⟨t, a'⟩, ht, hnm⟩ := map_eq_some_iff.mp hn
    cases hnm
    obtain ⟨rfl, hloop⟩ := nameLoop_embed hplain ht pre post
    refine ⟨rfl, ?_⟩
    rw [canonName, nameFromWire, hloop, map_some]
    simp only [nameToWire_resize hw' b']
    split <;> rfl

/-- The same for a name behind `k` fixed octets, as MX and SRV have it. -/
theorem canonBehind_embed {k lo e : Nat} {c : Bytes} (hplain : plainEnd rd 128 k = some e)
    (h : canonBehind k lo rd 0 rd.length rd.length = some c) (pre post : Bytes) (b : Nat) :
    canonBehind k lo (pre ++ rd ++ post) pre.length rd.length b =
      if c.length ≤ b then some c else none := by
  unfold canonBehind at h ⊢
  by_cases hshort : rd.length < lo ∨ rd.length < k
  · rw [if_pos hshort] at h
    cases h
  rw [if_neg hshort, Nat.zero_add] at h
  obtain ⟨⟨w, e'⟩, hw, rfl⟩ := map_eq_some_iff.mp h
  have hslice : slice (pre ++ rd ++ post) pre.length k = slice rd 0 k := by
    rw [slice_append_left (by rw [length_append]; omega)]
    exact slice_append_right pre rd 0 k
  have hlen : (slice rd 0 k).length = k := by
    rw [slice, drop_zero, length_take]
    omega
  dsimp only
  rw [(canonName_embed hplain hw pre post (b - k)).2, hslice, length_append, hlen]
  by_cases hroom : b < k
  · rw [if_pos (.inr hroom), if_neg (by omega)]
  rw [if_neg (by omega)]
  by_cases hle : w.length ≤ b - k
  · rw [if_pos hle, if_pos (by omega), map_some]
  · rw [if_neg hle, if_neg (by omega), map_none]

/-- The same for the two names of an SOA. -/
theorem canonSoa_embed {a e : Nat} {c : Bytes} (ha : plainEnd rd 128 0 = some a)
    (he : plainEnd rd 128 a = some e) (h : canonSoa rd 0 rd.length = some c) (pre post : Bytes)
    (b : Nat) :
    canonSoa (pre ++ rd ++ post) pre.length b = if c.length ≤ b then some c else none := by
  unfold canonSoa at h ⊢
  cases hm : canonName rd 0 rd.length with
  | none => simp [hm] at h
  | some p =>
    obtain ⟨m, a'⟩ := p
    obtain ⟨rfl, hm'⟩ := canonName_embed ha hm pre post b
    simp only [hm] at h
    cases hr : canonName rd a' (rd.length - m.length) with
    | none => simp [hr] at h
    | some q =>
      obtain ⟨r, e'⟩ := q
      obtain ⟨rfl, hr'⟩ := canonName_embed he hr pre post (b - m.length)
      simp only [hr] at h
      split at h
      · cases h
      rename_i hfit
      cases h
      rw [Nat.add_zero] at hm'
      have hslice : slice (pre ++ rd ++ post) (pre.length + e') 20 = slice rd e' 20 := by
        rw [slice_append_left (by rw [length_append]; omega), slice_append_right]
      have hlen : (slice rd e' 20).length = 20 := by
        rw [slice, length_take, length_drop]
        omega
      have hin : ¬pre.length + e' + 20 > (pre ++ rd ++ post).length := by
        simp only [length_append]
        omega
      have hc : (m ++ r ++ slice rd e' 20).length = m.length + r.length + 20 := by
        rw [length_append, length_append, hlen]
      rw [hm', hc]
      by_cases hmb : m.length ≤ b
      · simp only [if_pos hmb, hr']
        by_cases hrb : r.length ≤ b - m.length
        · simp only [if_pos hrb, hslice, hin, false_or, ← not_le, ite_not]
        · simp only [if_neg hrb, if_neg (show ¬m.length + r.length + 20 ≤ b by omega)]
      · simp only [if_neg hmb, if_neg (show ¬m.length + r.length + 20 ≤ b by omega)]

/-- **Rdata without pointers has one canonical form**, read alone or from inside a packet; the
packet's reader needs room for it. -/
theorem canonRdata_embed {type : Nat} {c : Bytes} (hplain : PlainRdata type rd)
    (h : canonRdata rd 0 rd.length type rd.length = some c) (pre post : Bytes) (b : Nat) :
    canonRdata (pre ++ rd ++ post) pre.length rd.length type b =
      if c.length ≤ b then some c else none := by
  have hin : ¬pre.length + rd.length > (pre ++ rd ++ post).length := by
    simp only [length_append]
    omega
  unfold canonRdata at h ⊢
  unfold PlainRdata at hplain
  rw [if_neg (by omega)] at h
  rw [if_neg hin]
  by_cases hname : type = NS ∨ type = CNAME ∨ type = PTR ∨
      type = DNAME
  · rw [if_pos hname] at h hplain ⊢
    obtain ⟨e, he⟩ := hplain
    obtain ⟨⟨w, e'⟩, hw, rfl⟩ := map_eq_some_iff.mp h
    have := (canonName_embed he hw pre post b).2
    rw [Nat.add_zero] at this
    rw [this]
    split <;> rfl
  rw [if_neg hname] at h hplain ⊢
  by_cases hmx : type = MX
  · rw [if_pos hmx] at h hplain ⊢
    obtain ⟨e, he⟩ := hplain
    exact canonBehind_embed he h pre post b
  rw [if_neg hmx] at h hplain ⊢
  by_cases hsrv : type = SRV
  · rw [if_pos hsrv] at h hplain ⊢
    obtain ⟨e, he⟩ := hplain
    exact canonBehind_embed he h pre post b
  rw [if_neg hsrv] at h hplain ⊢
  by_cases hsoa : type = SOA
  · rw [if_pos hsoa] at h hplain ⊢
    obtain ⟨a, e, ha, he⟩ := hplain
    exact canonSoa_embed ha he h pre post b
  rw [if_neg hsoa] at h ⊢
  rw [if_neg (lt_irrefl _)] at h
  cases h
  have hslice : slice (pre ++ rd ++ post) pre.length rd.length = rd := by
    rw [slice_append_left (by rw [length_append])]
    exact slice_append_self pre rd
  have hself : slice rd 0 rd.length = rd := by simp [slice]
  rw [hslice, hself]
  by_cases hle : rd.length ≤ b
  · rw [if_neg (by omega), if_pos hle]
  · rw [if_pos (by omega), if_neg hle]

end Rdata

/-! ## Labels -/

/-- The owner as a reader of the response sees it. -/
def emittedOwner (name : Text) : Text := strlower (joinDots (ownerLabels name))

theorem length_splitOn (s : Text) : (s.splitOn dot).length = s.count dot + 1 := by
  induction s with
  | nil => rfl
  | cons c cs ih =>
    rw [splitOn_cons_eq_if_modifyHead, count_cons]
    split
    · rw [length_cons, ih]
    · rw [length_modifyHead, ih, Nat.add_zero]

theorem length_labels_le (s : Text) : (labels s).length ≤ s.count dot + 1 := by
  rw [← length_splitOn]
  exact length_filter_le ..

/-- The signer counts at least the labels there are. -/
theorem length_labels_le_labelCount (name : Text) : (labels name).length ≤ labelCount name := by
  unfold labelCount
  by_cases hnil : name = []
  · rw [hnil]
    decide
  rw [if_neg hnil]
  by_cases hlast : name.getLast? = some dot
  · rw [if_pos hlast]
    obtain ⟨t, rfl⟩ := getLast?_eq_some_iff.mp hlast
    have ht := length_labels_le t
    rw [labels_append_dot, length_append, count_append, show labels [] = [] from rfl]
    simpa using ht
  · rw [if_neg hlast]
    exact length_labels_le name

theorem labelCount_le {name : Text} (h : name.length ≤ 255) : labelCount name ≤ 255 := by
  unfold labelCount
  split
  · omega
  split
  · exact (count_le_length ..).trans h
  · rename_i hnil hlast
    have hlt : name.count dot < name.length := by
      refine lt_of_le_of_ne count_le_length fun heq => hlast ?_
      have hall := count_eq_length.mp heq
      obtain ⟨t, c, rfl⟩ := eq_nil_or_concat name |>.resolve_left hnil
      rw [hall c (by simp)]
      simp
    omega

theorem count_dot_joinDots {l : Text} {ls : List Text} (h : Proper (l :: ls)) :
    (joinDots (l :: ls)).count dot = ls.length := by
  have hlen := length_splitOn (joinDots (l :: ls))
  rw [joinDots, splitOn_intercalate dot (fun m hm => (h m hm).2) (by simp), length_cons] at hlen
  exact (Nat.succ.inj hlen).symm

theorem count_dot_strlower (s : Text) : (strlower s).count dot = s.count dot := by
  rw [strlower, count_eq_countP, countP_map, count_eq_countP]
  exact countP_congr fun c _ => by simp [lowerByte_eq_dot]

/-- The validator counts at most the labels that were written. -/
theorem nameLabelCount_emittedOwner_le (name : Text) :
    nameLabelCount (emittedOwner name) ≤ (ownerLabels name).length := by
  have hproper := proper_ownerLabels name
  unfold nameLabelCount emittedOwner
  cases hls : ownerLabels name with
  | nil => decide
  | cons l ls =>
    rw [hls] at hproper
    rw [count_dot_strlower, count_dot_joinDots hproper]
    split
    · omega
    · dsimp only
      split <;> rw [length_cons] <;> omega

/-- The signer and the validator count the same labels. -/
def LabelsAgree (name : Text) : Prop := labelCount name = nameLabelCount (emittedOwner name)

instance (name : Text) : Decidable (LabelsAgree name) :=
  inferInstanceAs (Decidable (labelCount name = nameLabelCount (emittedOwner name)))

/-- The owner the validator rebuilds. -/
theorem signedOwner_emittedOwner (name : Text) :
    signedOwner (emittedOwner name) (labelCount name) =
      if LabelsAgree name then some (emittedOwner name) else none := by
  have h1 := nameLabelCount_emittedOwner_le name
  have h2 : (ownerLabels name).length ≤ (labels name).length := by
    rw [ownerLabels, length_take]
    omega
  have h3 := length_labels_le_labelCount name
  unfold signedOwner
  by_cases h : LabelsAgree name
  · have heq : labelCount name = nameLabelCount (emittedOwner name) := h
    rw [if_pos h, heq, if_neg (lt_irrefl _), if_neg (lt_irrefl _)]
  · have hne : labelCount name ≠ nameLabelCount (emittedOwner name) := h
    rw [if_neg h, if_pos (by omega)]

/-- Where the counts agree, all labels were written. -/
theorem LabelsAgree.ownerLabels_eq {name : Text} (h : LabelsAgree name) :
    ownerLabels name = labels name := by
  have h1 := nameLabelCount_emittedOwner_le name
  have h3 := length_labels_le_labelCount name
  rw [← h] at h1
  rw [ownerLabels] at h1 ⊢
  rw [length_take] at h1
  exact take_of_length_le (by omega)

/-- The wire form of the emitted owner is the one the signer wrote. -/
theorem nameToWire_emittedOwner {name : Text} (ho : OwnerName name) (h : LabelsAgree name) :
    nameToWire (emittedOwner name) canonRRMax =
      some (nameWire (labels (strlower (safeStrcpy name 256)))) := by
  have hlabels : labels (emittedOwner name) = labels (strlower name) := by
    rw [emittedOwner, labels_strlower, labels_joinDots (proper_ownerLabels name), h.ownerLabels_eq,
      labels_strlower]
  have hlen : (emittedOwner name).length ≤ 255 := by
    rw [emittedOwner, length_strlower]
    exact ho.length_joinDots.trans (by decide)
  rw [nameToWire_eq_some_iff hlen, safeStrcpy_eq ho.short, hlabels]
  refine ⟨fun l hl => (short_labels_strlower ho.labels_short l hl).2, rfl, ?_⟩
  rw [labels_strlower, length_nameWire_strlower]
  exact ho.length_wire.trans (by decide)

/-! ## One record -/

/-- The canonical record fits the validator's buffer. -/
def FitsCanon (name : Text) (type : Nat) (rd : Bytes) : Prop :=
  ∀ c, canonRdata rd 0 rd.length type rd.length = some c →
    (nameWire (labels name)).length + 10 + c.length ≤ canonRRMax

instance (name : Text) (type : Nat) (rd : Bytes) : Decidable (FitsCanon name type rd) :=
  match h : canonRdata rd 0 rd.length type rd.length with
  | none => isTrue (by simp [FitsCanon, h])
  | some c =>
    decidable_of_iff ((nameWire (labels name)).length + 10 + c.length ≤ canonRRMax)
      (by simp [FitsCanon, h])

/-- **One record**: the validator rebuilds what the signer wrote, if it counts the same labels and
has the room. -/
theorem canonRR_eq {pkt : Bytes} {off a : Nat} {name : Text} {type ttl : Nat} {rd rr : Bytes}
    (ho : OwnerName name) (hplain : PlainRdata type rd)
    (hrec : RecordAt pkt off (emittedOwner name) type RRClass.IN ttl rd a)
    (hrr : canonicalRR name type ttl rd = some rr) :
    canonRR pkt type (labelCount name) ttl off = some rr ∧ LabelsAgree name ∧
        FitsCanon name type rd ∨
      canonRR pkt type (labelCount name) ttl off = none ∧
        ¬(LabelsAgree name ∧ FitsCanon name type rd) := by
  obtain ⟨c, hc, rfl⟩ := map_eq_some_iff.mp hrr
  have hfits : FitsCanon name type rd ↔
      (nameWire (labels name)).length + 10 + c.length ≤ canonRRMax := by
    simp [FitsCanon, hc]
  have hle := hrec.fields.le
  simp only [canonRR, hrec.name, hrec.fields.typeAt, hrec.fields.clsAt, hrec.fields.rdlenAt,
    ne_eq, not_true_eq_false, if_false, if_neg (show ¬a + 10 > pkt.length by omega),
    if_neg (show ¬a + 10 + rd.length > pkt.length by omega), signedOwner_emittedOwner]
  by_cases hagree : LabelsAgree name
  · have hw : (nameWire (labels (strlower (safeStrcpy name 256)))).length =
        (nameWire (labels name)).length := by
      rw [safeStrcpy_eq ho.short, labels_strlower, length_nameWire_strlower]
    have hpkt := append_slice pkt (a + 10) rd.length
    rw [hrec.fields.rdataAt] at hpkt
    have hpre : (pkt.take (a + 10)).length = a + 10 := by
      rw [length_take]
      omega
    have hrd := canonRdata_embed hplain hc (pkt.take (a + 10)) (pkt.drop (a + 10 + rd.length))
      (canonRRMax - (nameWire (labels (strlower (safeStrcpy name 256)))).length - 10)
    rw [hpkt, hpre] at hrd
    have hroom : ¬(nameWire (labels (strlower (safeStrcpy name 256)))).length + 10 >
        canonRRMax := by
      have := ho.length_wire
      simp only [canonRRMax]
      omega
    simp only [if_pos hagree, nameToWire_emittedOwner ho hagree, if_neg hroom, hrd, hfits]
    by_cases hlen : (nameWire (labels name)).length + 10 + c.length ≤ canonRRMax
    · left
      rw [if_pos (by omega), map_some]
      exact ⟨rfl, hagree, hlen⟩
    · right
      rw [if_neg (by omega), map_none]
      exact ⟨rfl, fun h => hlen h.2⟩
  · simp [hagree]

/-! ## The RRSIG -/

section Rrsig

variable {now : Nat} {owner signer : Text} {type ttl alg tag : Nat} {hdr : Bytes}

theorem signerLoop_eq {ls : List Text} {hp : Nat} {w : Bytes} (h : signerLoop ls hp = some w) :
    w = nameWire ls := by
  induction ls generalizing hp w with
  | nil =>
    cases h
    rfl
  | cons l ls ih =>
    rw [signerLoop] at h
    split at h
    · cases h
    obtain ⟨w', hw', rfl⟩ := map_eq_some_iff.mp h
    rw [ih hw']
    simp [nameWire]

theorem rrsigHeader_eq (h : rrsigHeader now owner signer type ttl alg tag = some hdr) :
    hdr = rrsigFixed now owner type ttl alg tag ++
      nameWire (labels (strlower (safeStrcpy signer 256))) := by
  obtain ⟨w, hw, rfl⟩ := map_eq_some_iff.mp h
  rw [signerLoop_eq hw]

theorem length_rrsigFixed : (rrsigFixed now owner type ttl alg tag).length = 18 := rfl

/-- The validator finds the end of a name without a pointer. -/
theorem signerEnd_of_nameAt {rrsig : Bytes} {k pos e : Nat} {ls : List Text}
    (h : NameAt rrsig k pos ls e) (hk : k = ls.length) {fuel : Nat} (hfuel : k < fuel) :
    signerEnd rrsig fuel pos = some e := by
  induction h generalizing fuel with
  | @root pos lt zero =>
    obtain ⟨fuel, rfl⟩ := Nat.exists_eq_add_one_of_ne_zero (Nat.ne_of_gt hfuel)
    rw [signerEnd, if_pos lt]
    simp only [zero, if_true]
  | @label k pos e l ls ne_nil short le octet octets rest ih =>
    obtain ⟨fuel, rfl⟩ := Nat.exists_eq_add_one_of_ne_zero (Nat.ne_zero_of_lt hfuel)
    obtain ⟨hptr, hzero, hval⟩ := label_octet_spec (by simpa using ne_nil) short
    rw [signerEnd, if_pos (by omega)]
    simp only [octet, hzero, if_false, hptr, Bool.false_eq_true, hval]
    rw [add_right_comm]
    exact ih (by simpa using hk) (by omega)
  | pointer lt octets small prior rest ih =>
    have := rest.length_le
    omega

/-- The zone's name is a domain name of a 256-octet buffer. -/
structure ZoneName (zone : Text) : Prop where
  short : zone.length ≤ 255
  labels : ∀ l ∈ labels zone, l.length ≤ 63

/-- What the validator reads out of the RRSIG. -/
structure ReadsHeader (rrsig hdr : Bytes) (owner : Text) (type ttl : Nat) : Prop where
  hdr_len : hdrLen rrsig = some hdr.length
  take_hdr : rrsig.take hdr.length = hdr
  covered : get16 rrsig 0 = type
  sigLabels : (byteAt rrsig 3).toNat = labelCount owner
  origTtl : get32 rrsig 4 = ttl

theorem readsHeader (hz : ZoneName signer) (howner : owner.length ≤ 255) (htype : type < 2 ^ 16)
    (httl : ttl < 2 ^ 32) (h : rrsigHeader now owner signer type ttl alg tag = some hdr)
    (sig : Bytes) : ReadsHeader (hdr ++ sig) hdr owner type ttl := by
  have hhdr := rrsigHeader_eq h
  rw [safeStrcpy_eq hz.short] at hhdr
  have hfuel : (Wire.labels (strlower signer)).length < (hdr ++ sig).length := by
    have hwire := length_lt_nameWire (Wire.labels (strlower signer))
    rw [hhdr, length_append, length_append]
    omega
  have hls := short_labels_strlower hz.labels
  have hend := signerEnd_of_nameAt (nameAt_nameWire (fun l hl => (hls l hl).1)
    (fun l hl => (hls l hl).2) (rrsigFixed now owner type ttl alg tag) sig) rfl hfuel
  rw [← hhdr, ← length_append, ← hhdr] at hend
  constructor
  · exact hend
  · exact take_left
  · rw [hhdr]
    simpa [rrsigFixed] using get16_put16 htype [] _
  · rw [hhdr]
    have hle := labelCount_le howner
    simp [rrsigFixed, byteAt, put16]
    omega
  · rw [hhdr]
    simpa [rrsigFixed] using
      get32_put32 httl (put16 type ++ [alg.toUInt8, (labelCount owner).toUInt8]) _

end Rrsig

/-! ## The RRset -/

/-- A record of the response, with a canonical form. -/
structure SignedRecord (pkt : Bytes) (name : Text) (type ttl off : Nat) (rd : Bytes) : Prop where
  record : ∃ a, RecordAt pkt off (emittedOwner name) type RRClass.IN ttl rd a
  canonical : ∃ rr, canonicalRR name type ttl rd = some rr
  plain : PlainRdata type rd

section RRset

variable {pkt : Bytes} {name : Text} {type ttl : Nat}

/-- The rebuilt records are the canonical ones. -/
theorem mapM_canonRR {offs : List Nat} {rds rrs : List Bytes} (ho : OwnerName name)
    (hrecs : List.Forall₂ (SignedRecord pkt name type ttl) offs rds)
    (h : offs.mapM (canonRR pkt type (labelCount name) ttl) = some rrs) :
    List.Forall₂ (fun rd rr => canonicalRR name type ttl rd = some rr) rds rrs := by
  induction hrecs generalizing rrs with
  | nil =>
    cases h
    exact .nil
  | @cons off rd offs rds hrec hrest ih =>
    obtain ⟨⟨a, hat⟩, ⟨rr, hrr⟩, hplain⟩ := hrec
    rw [mapM_cons] at h
    obtain ⟨hsome, -⟩ | ⟨hnone, -⟩ := canonRR_eq ho hplain hat hrr
    · rw [hsome, bind_eq_bind, bind_some] at h
      obtain ⟨rrs', hrrs', h⟩ := bind_eq_some_iff.mp h
      cases h
      exact .cons hrr (ih hrrs')
    · rw [hnone] at h
      cases h

theorem length_canonicalRR {rd rr : Bytes} (h : canonicalRR name type ttl rd = some rr) :
    0 < rr.length := by
  obtain ⟨c, -, rfl⟩ := map_eq_some_iff.mp h
  simp only [length_append, length_put16, length_put32]
  omega

/-- **The strings are equal exactly for one record that the two sides see alike.** -/
theorem signedData_eq_iff {off : Nat} {offs : List Nat} {rd rr rrsig hdr : Bytes}
    {rds : List Bytes} (ho : OwnerName name) (hrec : SignedRecord pkt name type ttl off rd)
    (hrecs : List.Forall₂ (SignedRecord pkt name type ttl) offs rds)
    (hr : ReadsHeader rrsig hdr name type ttl) (hrr : canonicalRR name type ttl rd = some rr) :
    signedData pkt (off :: offs) rrsig = some (hdr ++ rr) ↔
      rds = [] ∧ LabelsAgree name ∧ FitsCanon name type rd := by
  simp only [signedData, hr.hdr_len, hr.covered, hr.sigLabels, hr.origTtl, hr.take_hdr,
    map_eq_some_iff]
  cases hrecs with
  | nil =>
    obtain ⟨⟨a, hat⟩, -, hplain⟩ := hrec
    obtain ⟨hsome, hcond⟩ | ⟨hnone, hcond⟩ := canonRR_eq ho hplain hat hrr
    · refine iff_of_true ⟨[rr], ?_, ?_⟩ ⟨rfl, hcond⟩
      · rw [mapM_cons, hsome, mapM_nil]
        rfl
      · simp [canonRRSort, canonRRInsert]
    · refine iff_of_false ?_ fun h => hcond h.2
      rintro ⟨rrs, hrrs, -⟩
      rw [mapM_cons, hnone] at hrrs
      cases hrrs
  | @cons off' rd' offs rds hrec' hrest =>
    refine iff_of_false ?_ fun h => absurd h.1 (cons_ne_nil _ _)
    rintro ⟨rrs, hrrs, heq⟩
    have hall := mapM_canonRR ho (.cons hrec (.cons hrec' hrest)) hrrs
    cases hall with
    | @cons _ rr₁ _ rrs₁ h₁ hall =>
      cases hall with
      | @cons _ rr₂ _ rrs₂ h₂ hall =>
        obtain rfl : rr₁ = rr := some.inj (h₁.symm.trans hrr)
        have hlen := congrArg length (append_cancel_left heq)
        rw [((canonRRSort_perm _).flatten).length_eq] at hlen
        have hpos := length_canonicalRR h₂
        simp only [flatten_cons, length_append] at hlen
        omega

end RRset

end SimpleDns.Server
