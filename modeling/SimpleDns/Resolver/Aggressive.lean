import SimpleDns.Resolver.Negative
import SimpleDns.Spec.Zone
import SimpleDns.Wire.Labels

/-!
# Aggressive use of denial spans (`resolverd.c:3353-3472`)

A validated NSEC or NSEC3 span answers later queries without asking upstream (RFC 8198). The table
is a ring of slots; `aggressive_nsec_answer` scans it and takes the first live slot of the name's
zone that matches the name with the type's bit clear (NODATA) or whose span holds the name
(NXDOMAIN).

* `aggressiveNsecAnswer` is the scan with its remembered hash of the name, `aggressiveNsecInsert`
  the ring write.
* `ZoneChain` is a correct chain of a zone: the abstract side, over `Spec.Zone`.
* `aggressive_sound_iff`: with every live slot taken from one correct chain, when the answer is the
  one the zone would give. A span alone says that the name owns nothing. It does not exclude a zone
  cut above it, an empty non-terminal or a wildcard.
-/

namespace SimpleDns.Resolver

open Wire Lib Spec List Option RRType

/-! ## The table -/

/-- `agg_nsec_slot_t`. -/
structure AggSlot where
  proof : NsecProof
  expiry : Nat
  inUse : Bool
deriving DecidableEq, Repr

/-- `in_use && expiry > now`. -/
def AggSlot.live (s : AggSlot) (now : Nat) : Bool := s.inUse && now < s.expiry

/-- `g_agg_nsec` and `g_agg_nsec_next`. -/
structure AggTable where
  slots : List AggSlot
  next : Nat
deriving DecidableEq, Repr

/-- `MAX_AGG_NSEC`. -/
def maxAggNsec : Nat := 2048

/-- `aggressive_nsec_insert`: the slot at the cursor is overwritten. -/
def aggressiveNsecInsert (T : AggTable) (proof : NsecProof) (ttlSecs now : Nat) : AggTable :=
  if ttlSecs = 0 then T
  else
    { slots := T.slots.set T.next ⟨proof, now + ttlSecs, true⟩
      next := (T.next + 1) % maxAggNsec }

/-! ## The scan -/

/-- The comparison both arms of the loop end in: at the owner the bitmap decides, inside the span
the name does not exist. The result is `is_nxdomain`. -/
def spanAnswer {α : Type} (cmp : α → α → Ordering) (q owner next : α) (bitmap : Bytes)
    (qtype : Nat) : Option Bool :=
  if cmp q owner == .eq then if bitmapHasType bitmap qtype then none else some false
  else if inSpan cmp owner next q then some true
  else none

/-- The remembered hash of the name with the iterations and the salt length it was made for. -/
abbrev QHash := Option (Nat × Nat × Bytes)

/-- The hash is made again when the iterations or the salt length differ from the remembered
ones. -/
def qhashFor (C : Crypto) (qname : Text) (iters : Nat) (salt : Bytes) (qh : QHash) :
    Nat × Nat × Bytes :=
  match qh with
  | some (i, l, h) =>
    if i ≠ iters ∨ l ≠ salt.length then (iters, salt.length, nsec3HashRaw C.sha1 qname salt iters)
    else (i, l, h)
  | none => (iters, salt.length, nsec3HashRaw C.sha1 qname salt iters)

/-- One slot: what it answers and the hash remembered after it. -/
def slotAnswer (C : Crypto) (qname : Text) (qtype now : Nat) (s : AggSlot) (qh : QHash) :
    Option Bool × QHash :=
  if !s.live now then (none, qh)
  else if !nameInZone qname s.proof.zone then (none, qh)
  else
    match s.proof.denial with
    | .nsec3 ownerHash nextHash iters salt optout =>
      if optout then (none, qh)
      else
        let h := qhashFor C qname iters salt qh
        (spanAnswer compare h.2.2 ownerHash nextHash s.proof.bitmap qtype, some h)
    | .nsec owner next =>
      (spanAnswer canonNameCmp qname owner next s.proof.bitmap qtype, qh)

/-- The loop of `aggressive_nsec_answer`. -/
def aggLoop (C : Crypto) (qname : Text) (qtype now : Nat) : List AggSlot → QHash → Option Bool
  | [], _ => none
  | s :: rest, qh =>
    match slotAnswer C qname qtype now s qh with
    | (some v, _) => some v
    | (none, qh') => aggLoop C qname qtype now rest qh'

/-- `aggressive_nsec_answer`: `some is_nxdomain` where the C function returns `1`. -/
def aggressiveNsecAnswer (C : Crypto) (enabled : Bool) (slots : List AggSlot) (qname : Text)
    (qtype now : Nat) : Option Bool :=
  if !enabled then none else aggLoop C qname qtype now slots none

/-! ## Chains of a zone -/

/-- The NSEC3 hash of a name given by its labels. -/
def nsec3HashName (sha1 : Bytes → Bytes) (salt : Bytes) (iters : Nat) (n : Name) : Bytes :=
  (fun h => sha1 (h ++ salt))^[iters] (sha1 (nsec3WireLoop n.reverse [] ++ [0] ++ salt))

/-- A correct chain of `z`: an NSEC chain over its owners in canonical order, or an NSEC3 chain
without opt-out over the hashes of its names, with one salt and iteration count. -/
inductive ZoneChain (C : Crypto) (z : Zone)
  | nsec (c : Chain (id : Name → Name) z.NsecNode)
  | nsec3 (iters : Nat) (salt : Bytes) (c : Chain (nsec3HashName C.sha1 salt iters) z.Nsec3Node)

/-- The bitmap at `n` is right: it lists what the name owns, and beyond that at most the record
types that carry the proof. -/
structure BitmapOf (z : Zone) (n : Name) (bitmap : Bytes) : Prop where
  lists : ∀ t ∈ z.denialTypes n, bitmapHasType bitmap t = true
  only : ∀ t, bitmapHasType bitmap t = true →
    t ∈ z.denialTypes n ∨ t = RRSIG ∨ t = NSEC

/-- The proof is a record of the chain, with the zone it belongs to. -/
def ZoneChain.Holds {C : Crypto} {z : Zone} : ZoneChain C z → NsecProof → Prop
  | .nsec c, p => canonLabels p.zone = z.apex ∧ ∃ owner next, p.denial = .nsec owner next ∧
      (canonLabels owner, canonLabels next) ∈ gaps c.keys ∧ BitmapOf z (canonLabels owner) p.bitmap
  | .nsec3 iters salt c, p => canonLabels p.zone = z.apex ∧ ∃ ownerHash nextHash,
      p.denial = .nsec3 ownerHash nextHash iters salt false ∧ (ownerHash, nextHash) ∈ gaps c.keys ∧
      ∀ n, z.Nsec3Node n → nsec3HashName C.sha1 salt iters n = ownerHash → BitmapOf z n p.bitmap

/-- The hash of `q` is not the hash of another name of the zone. -/
def ZoneChain.Separates {C : Crypto} {z : Zone} : ZoneChain C z → Name → Prop
  | .nsec _, _ => True
  | .nsec3 iters salt _, q => ∀ n, z.Nsec3Node n →
      nsec3HashName C.sha1 salt iters n = nsec3HashName C.sha1 salt iters q → n = q

/-- The names the chain links. -/
def ZoneChain.Node {C : Crypto} {z : Zone} : ZoneChain C z → Name → Prop
  | .nsec _, n => z.NsecNode n
  | .nsec3 _ _ _, n => z.Nsec3Node n

/-! ## What the scan finds -/

theorem nsec3HashRaw_eq (sha1 : Bytes → Bytes) (salt : Bytes) (iters : Nat) {q : Text}
    (hq : q.length ≤ 255) :
    nsec3HashRaw sha1 q salt iters = nsec3HashName sha1 salt iters (canonLabels q) := by
  unfold nsec3HashRaw nsec3HashName
  rw [canonLabels_eq hq, reverse_reverse, safeStrcpy_eq hq]

/-- A name in a zone has the zone's labels at its root end. -/
theorem canonLabels_prefix_of_nameInZone {q zone : Text} (hq : q.length ≤ 255)
    (h : nameInZone q zone = true) : canonLabels zone <+: canonLabels q := by
  unfold nameInZone at h
  by_cases hnil : zone.isEmpty = true
  · rw [isEmpty_iff.mp hnil]
    exact nil_prefix
  rw [if_neg hnil] at h
  by_cases hlen : q.length < zone.length
  · rw [if_pos hlen] at h
    cases h
  rw [if_neg hlen] at h
  by_cases hci : eqCI (q.drop (q.length - zone.length)) zone = true
  · rw [hci] at h
    simp only [Bool.not_true, Bool.false_eq_true, if_false, Bool.or_eq_true, beq_iff_eq] at h
    exact canonLabels_prefix_of_suffix hq (by omega) hci h
  · simp [hci] at h

/-- What an answer means for the chain: NXDOMAIN says `q` is no name of it, NODATA that `q` is one
whose record does not list the type. -/
def ZoneChain.Denies {C : Crypto} {z : Zone} (ch : ZoneChain C z) (q : Name) (t : Nat) :
    Bool → Prop
  | true => ¬ ch.Node q
  | false => ch.Node q ∧ t ∉ z.denialTypes q

/-- The record's owner is `qname`. -/
def NsecProof.hasOwner (C : Crypto) (p : NsecProof) (qname : Text) : Bool :=
  match p.denial with
  | .nsec owner _ => canonNameCmp qname owner == .eq
  | .nsec3 ownerHash _ iters salt _ =>
    compare (nsec3HashRaw C.sha1 qname salt iters) ownerHash == .eq

/-- `qname` lies strictly inside the record's span. -/
def NsecProof.spans (C : Crypto) (p : NsecProof) (qname : Text) : Bool :=
  match p.denial with
  | .nsec owner next => inSpan canonNameCmp owner next qname
  | .nsec3 ownerHash nextHash iters salt _ =>
    inSpan compare ownerHash nextHash (nsec3HashRaw C.sha1 qname salt iters)

/-- The slot is consulted for `qname`: it is live and of a zone `qname` is in. -/
def AggSlot.applies (s : AggSlot) (qname : Text) (now : Nat) : Bool :=
  s.live now && nameInZone qname s.proof.zone

/-- What a slot says on its own, whatever hash is remembered. -/
def AggSlot.answer (C : Crypto) (qname : Text) (qtype now : Nat) (s : AggSlot) : Option Bool :=
  if s.applies qname now then
    if s.proof.hasOwner C qname then if bitmapHasType s.proof.bitmap qtype then none else some false
    else if s.proof.spans C qname then some true
    else none
  else none

/-- The remembered hash, if any, is the chain's hash of `q`. -/
def ZoneChain.Remembers {C : Crypto} {z : Zone} : ZoneChain C z → Name → QHash → Prop
  | .nsec _, _, _ => True
  | .nsec3 iters salt _, q, qh => ∀ r ∈ qh, r.2.2 = nsec3HashName C.sha1 salt iters q

section Scan

variable {C : Crypto} {z : Zone} {ch : ZoneChain C z} {qname : Text} {qtype now : Nat}

/-- One slot of the chain: the remembered hash does not change what it answers, and stays the
chain's. -/
theorem slotAnswer_spec (hq : qname.length ≤ 255) {s : AggSlot}
    (hs : s.live now = true → ch.Holds s.proof) {qh : QHash}
    (hqh : ch.Remembers (canonLabels qname) qh) :
    (slotAnswer C qname qtype now s qh).1 = s.answer C qname qtype now ∧
      ch.Remembers (canonLabels qname) (slotAnswer C qname qtype now s qh).2 := by
  by_cases hlive : s.live now = true
  swap
  · simp [slotAnswer, AggSlot.answer, AggSlot.applies, hlive, hqh]
  by_cases hzone : nameInZone qname s.proof.zone = true
  swap
  · simp [slotAnswer, AggSlot.answer, AggSlot.applies, hlive, hzone, hqh]
  cases ch with
  | nsec c =>
    obtain ⟨-, owner, next, hd, -, -⟩ := hs hlive
    simp only [slotAnswer, AggSlot.answer, AggSlot.applies, hlive, hzone, hd, NsecProof.hasOwner,
      NsecProof.spans, spanAnswer, Bool.not_true, Bool.false_eq_true, if_false, Bool.and_true,
      if_true]
    exact ⟨trivial, trivial⟩
  | nsec3 iters salt c =>
    obtain ⟨-, oh, nh, hd, -, -⟩ := hs hlive
    have hhash : (qhashFor C qname iters salt qh).2.2 =
        nsec3HashName C.sha1 salt iters (canonLabels qname) := by
      unfold qhashFor
      split
      · split
        · exact nsec3HashRaw_eq _ _ _ hq
        · exact hqh _ rfl
      · exact nsec3HashRaw_eq _ _ _ hq
    simp only [slotAnswer, AggSlot.answer, AggSlot.applies, hlive, hzone, hd, NsecProof.hasOwner,
      NsecProof.spans, spanAnswer, hhash, nsec3HashRaw_eq _ _ _ hq, Bool.not_true,
      Bool.false_eq_true, if_false, Bool.and_true, if_true, true_and]
    intro r hr
    rwa [← some.inj hr]

/-- The scan takes the first slot that says anything, by induction over the slots: that the
remembered hash is the chain's is the invariant. -/
theorem aggLoop_eq (hq : qname.length ≤ 255) :
    ∀ (slots : List AggSlot) (qh : QHash),
      (∀ s ∈ slots, s.live now = true → ch.Holds s.proof) →
      ch.Remembers (canonLabels qname) qh →
      aggLoop C qname qtype now slots qh = slots.findSome? (AggSlot.answer C qname qtype now)
  | [], _, _, _ => rfl
  | s :: rest, qh, hslots, hqh => by
    obtain ⟨hfst, hsnd⟩ := @slotAnswer_spec C z ch qname qtype now hq s
      (hslots s mem_cons_self) qh hqh
    have ih := aggLoop_eq hq rest _ (fun t ht => hslots t (mem_cons_of_mem _ ht)) hsnd
    rw [aggLoop, findSome?_cons, ← hfst, ← ih]
    rcases slotAnswer C qname qtype now s qh with ⟨_ | v, qh'⟩ <;> rfl

/-- What one slot of the chain says is right for the chain. -/
theorem answer_denies (hq : qname.length ≤ 255) (hsep : ch.Separates (canonLabels qname))
    {s : AggSlot} (hs : s.live now = true → ch.Holds s.proof) {v : Bool}
    (h : s.answer C qname qtype now = some v) :
    z.apex <+: canonLabels qname ∧ ch.Denies (canonLabels qname) qtype v := by
  unfold AggSlot.answer at h
  by_cases happ : s.applies qname now = true
  swap
  · simp [happ] at h
  rw [if_pos happ] at h
  rw [AggSlot.applies, Bool.and_eq_true] at happ
  have hpre := canonLabels_prefix_of_nameInZone hq happ.2
  by_cases hown : s.proof.hasOwner C qname = true
  · -- the owner itself: the bitmap is that of `qname`
    rw [if_pos hown] at h
    by_cases hbit : bitmapHasType s.proof.bitmap qtype = true
    · simp [hbit] at h
    rw [if_neg hbit, some.injEq] at h
    subst h
    cases ch with
    | nsec c =>
      obtain ⟨hz, owner, next, hd, hg, hbm⟩ := hs happ.1
      simp only [NsecProof.hasOwner, hd, beq_iff_eq] at hown
      have heq : canonLabels qname = canonLabels owner := Std.LawfulEqOrd.eq_of_compare hown
      obtain ⟨n, hn, hkey⟩ := c.exists_node_of_gap hg
      rw [← heq] at hbm hkey
      exact ⟨hz ▸ hpre, hkey ▸ hn, fun ht => hbit (hbm.lists _ ht)⟩
    | nsec3 iters salt c =>
      obtain ⟨hz, oh, nh, hd, hg, hbm⟩ := hs happ.1
      simp only [NsecProof.hasOwner, hd, beq_iff_eq, nsec3HashRaw_eq _ _ _ hq] at hown
      obtain ⟨n, hn, hkey⟩ := c.exists_node_of_gap hg
      have hnq := hsep n hn (hkey.trans (Std.LawfulEqOrd.eq_of_compare hown).symm)
      exact ⟨hz ▸ hpre, hnq ▸ hn, fun ht => hbit ((hbm n hn hkey).lists _ (hnq ▸ ht))⟩
  · -- inside the span: no name of the chain has the key of `qname`
    rw [if_neg hown] at h
    by_cases hin : s.proof.spans C qname = true
    swap
    · simp [hin] at h
    rw [if_pos hin, some.injEq] at h
    subst h
    cases ch with
    | nsec c =>
      obtain ⟨hz, owner, next, hd, hg, -⟩ := hs happ.1
      simp only [NsecProof.spans, hd] at hin
      exact ⟨hz ▸ hpre, c.not_node_of_inSpan (n := canonLabels qname) hg hin⟩
    | nsec3 iters salt c =>
      obtain ⟨hz, oh, nh, hd, hg, -⟩ := hs happ.1
      simp only [NsecProof.spans, hd, nsec3HashRaw_eq _ _ _ hq] at hin
      exact ⟨hz ▸ hpre, c.not_node_of_inSpan hg hin⟩

theorem answer_eq_true_iff {s : AggSlot} : s.answer C qname qtype now = some true ↔
    s.applies qname now = true ∧ s.proof.hasOwner C qname = false ∧
      s.proof.spans C qname = true := by
  unfold AggSlot.answer
  cases s.applies qname now <;> cases s.proof.hasOwner C qname <;> simp

theorem answer_eq_false_iff {s : AggSlot} : s.answer C qname qtype now = some false ↔
    s.applies qname now = true ∧ s.proof.hasOwner C qname = true ∧
      bitmapHasType s.proof.bitmap qtype = false := by
  unfold AggSlot.answer
  cases s.applies qname now <;> cases s.proof.hasOwner C qname <;> simp

/-- A name the chain does not link does not exist exactly when nothing the chain is silent about is
in the way. -/
theorem lookup_nxdomain_iff_of_denies {q : Name} {t : Nat}
    (h : z.apex <+: q ∧ ch.Denies q t true) :
    z.lookup q t = .nxdomain ↔
      z.cut q = none ∧ ¬ z.emptyNonTerminal q ∧ z.nodeExists (z.wildcard q) = false := by
  obtain ⟨hpre, hn⟩ := h
  rw [z.lookup_eq_nxdomain_iff hpre]
  refine and_congr_right fun hcut => and_congr_left fun _ => ?_
  have hnode : ¬ (z.isOwner q = true) := fun ho => hn <| by
    have hauth : z.Authoritative q := fun p hp _ => z.cut_eq_none_iff.mp hcut p hp
    cases ch with
    | nsec c => exact ⟨ho, hauth⟩
    | nsec3 iters salt c => exact ⟨hpre, z.nodeExists_of_isOwner ho, hauth⟩
  simp [Zone.emptyNonTerminal, hnode]

theorem lookup_nodata_iff_of_denies {q : Name} {t : Nat}
    (h : z.apex <+: q ∧ ch.Denies q t false) :
    z.lookup q t = .nodata ↔
      (z.isCut q = true → t = DS) ∧ (t = ANY → z.types q = []) ∧
        CNAME ∉ z.types q := by
  obtain ⟨hpre, hn, ht⟩ := h
  have hnode : z.Authoritative q ∧ z.nodeExists q = true := by
    cases ch with
    | nsec c => exact ⟨hn.2, z.nodeExists_of_isOwner hn.1⟩
    | nsec3 iters salt c => exact ⟨hn.2.2, hn.2.1⟩
  rw [z.lookup_eq_nodata_iff hpre hnode.1 hnode.2]
  refine and_congr_right fun hcut => and_congr_right fun _ => ?_
  simp [z.not_mem_types_of_not_mem_denialTypes hcut ht]

theorem ZoneChain.denies_unique {q : Name} {t : Nat} {v w : Bool} (hv : ch.Denies q t v)
    (hw : ch.Denies q t w) : v = w := by
  cases v <;> cases w
  · rfl
  · exact absurd hv.1 hw
  · exact absurd hw.1 hv
  · rfl

/-- All slots of one chain agree, so the answer is what any of them says. -/
theorem aggressiveNsecAnswer_eq_some_iff (hq : qname.length ≤ 255)
    (hsep : ch.Separates (canonLabels qname)) {slots : List AggSlot}
    (hslots : ∀ s ∈ slots, s.live now = true → ch.Holds s.proof) {enabled v : Bool} :
    aggressiveNsecAnswer C enabled slots qname qtype now = some v ↔
      enabled = true ∧ ∃ s ∈ slots, s.answer C qname qtype now = some v := by
  have hnone : ch.Remembers (canonLabels qname) none := by
    cases ch with
    | nsec c => trivial
    | nsec3 iters salt c => exact fun r hr => absurd hr (by simp)
  unfold aggressiveNsecAnswer
  rw [aggLoop_eq hq slots none hslots hnone]
  cases enabled with
  | false => simp
  | true =>
    simp only [Bool.not_true, Bool.false_eq_true, if_false, true_and]
    constructor
    · exact fun h => exists_of_findSome?_eq_some h
    · rintro ⟨s, hs, ha⟩
      obtain ⟨w, hw⟩ := isSome_iff_exists.mp
        (findSome?_isSome_iff.mpr ⟨s, hs, isSome_of_eq_some ha⟩)
      obtain ⟨s', hs', ha'⟩ := exists_of_findSome?_eq_some hw
      have hv := (answer_denies hq hsep (hslots s hs) ha).2
      have hw' := (answer_denies hq hsep (hslots s' hs') ha').2
      rw [hw, ch.denies_unique hw' hv]

end Scan

/-! ## A small zone -/

/-- The zone `b` with an address at one child `l`. -/
def sampleZone (l : Text) : Zone where
  apex := [lit "b"]
  rrs := [([lit "b"], SOA), ([lit "b"], NS), ([lit "b", l], RRType.A)]
  below := by simp
  soa := by simp

/-- The span from the child back to the apex, with the child's address in its bitmap. -/
def sampleSlot (l : Text) : AggSlot :=
  ⟨⟨lit "b", .nsec (l ++ dot :: lit "b") (lit "b"), [0, 1, 0x40]⟩, 60, true⟩

theorem sampleZone_isCut (l : Text) (n : Name) : (sampleZone l).isCut n = false := by
  by_cases h : n = [lit "b"]
  · simp [Zone.isCut, sampleZone, h]
  · simp [Zone.isCut, Zone.types, sampleZone, filter_cons, Ne.symm h, NS, RRType.A]

/-- The NSEC chain of the zone. -/
def sampleChain (l : Text) : Chain (id : Name → Name) (sampleZone l).NsecNode where
  keys := [[lit "b"], [lit "b", l]]
  increasing := by
    refine pairwise_pair.mpr ?_
    rfl
  mem_iff k := by
    have hauth : (sampleZone l).Authoritative k := fun p _ _ => sampleZone_isCut l p
    constructor
    · intro hk
      refine ⟨k, ⟨?_, hauth⟩, rfl⟩
      rcases mem_pair.mp hk with rfl | rfl <;> simp [Zone.isOwner, sampleZone]
    · rintro ⟨n, ⟨ho, _⟩, rfl⟩
      simp only [Zone.isOwner, sampleZone, any_cons, any_nil, Bool.or_eq_true,
        decide_eq_true_eq, Bool.or_false] at ho
      rcases ho with h | h | h <;> simp [← h]

theorem sampleBitmap_eq (t : Nat) : bitmapHasType [0, 1, 0x40] t = decide (t = RRType.A) := by
  by_cases ht : t < 8
  · exact (by decide : ∀ t < 8, bitmapHasType [0, 1, 0x40] t = decide (t = RRType.A)) t ht
  · have hA : ¬ t = RRType.A := by simp only [RRType.A]; omega
    simp [bitmapHasType, bitmapLoop, byteAt, hA]
    omega

theorem sampleChain_holds (C : Crypto) {l : Text}
    (hl : canonLabels (l ++ dot :: lit "b") = [lit "b", l]) :
    (ZoneChain.nsec (sampleChain l) : ZoneChain C (sampleZone l)).Holds (sampleSlot l).proof := by
  refine ⟨rfl, l ++ dot :: lit "b", lit "b", rfl, ?_, ?_⟩
  · rw [hl]
    simp [sampleChain, gaps, show canonLabels (lit "b") = [lit "b"] from rfl]
  · rw [hl]
    have hd : (sampleZone l).denialTypes [lit "b", l] = [RRType.A] := by
      rw [Zone.denialTypes, if_neg (by simp [sampleZone_isCut])]
      simp [Zone.types, sampleZone]
    constructor
    · intro t ht
      rw [hd, mem_singleton] at ht
      simp [sampleSlot, sampleBitmap_eq, ht]
    · intro t ht
      rw [hd, mem_singleton]
      simp only [sampleSlot, sampleBitmap_eq, decide_eq_true_eq] at ht
      exact .inl ht

/-! ## Soundness -/

/-- **When a synthesised answer is the zone's own.** With every live slot taken from one correct
chain of the zone, an NXDOMAIN is right exactly when, for a name inside a span, no zone cut lies at
or above it, it is no empty non-terminal and there is no wildcard to expand; a NODATA is right
exactly when, for the owner of a record without the type's bit, it owns no CNAME, the query is not
for ANY at a name that owns records, and it is no zone cut (unless the DS is asked for). The scan
checks none of these. -/
theorem aggressive_sound_iff (C : Crypto) (z : Zone) (ch : ZoneChain C z) (enabled : Bool)
    (slots : List AggSlot) (qname : Text) (qtype now : Nat) (hq : qname.length ≤ 255)
    (hslots : ∀ s ∈ slots, s.live now = true → ch.Holds s.proof)
    (hsep : ch.Separates (canonLabels qname)) :
    ((aggressiveNsecAnswer C enabled slots qname qtype now = some true →
        z.lookup (canonLabels qname) qtype = .nxdomain) ∧
      (aggressiveNsecAnswer C enabled slots qname qtype now = some false →
        z.lookup (canonLabels qname) qtype = .nodata)) ↔
    (enabled = true → ∀ s ∈ slots, s.applies qname now = true →
      (s.proof.hasOwner C qname = false → s.proof.spans C qname = true →
        z.cut (canonLabels qname) = none ∧ ¬ z.emptyNonTerminal (canonLabels qname) ∧
          z.nodeExists (z.wildcard (canonLabels qname)) = false) ∧
      (s.proof.hasOwner C qname = true → bitmapHasType s.proof.bitmap qtype = false →
        (z.isCut (canonLabels qname) = true → qtype = DS) ∧
          (qtype = ANY → z.types (canonLabels qname) = []) ∧
          CNAME ∉ z.types (canonLabels qname))) := by
  rw [aggressiveNsecAnswer_eq_some_iff hq hsep hslots,
    aggressiveNsecAnswer_eq_some_iff hq hsep hslots]
  -- both sides ask the same of each slot
  have hdenies : ∀ {v}, ∀ s ∈ slots, s.answer C qname qtype now = some v →
      z.apex <+: canonLabels qname ∧ ch.Denies (canonLabels qname) qtype v :=
    fun s hs => answer_denies hq hsep (hslots s hs)
  constructor
  · intro h he s hs happ
    constructor
    · intro hown hin
      have ha := (@answer_eq_true_iff C qname qtype now s).mpr ⟨happ, hown, hin⟩
      exact (lookup_nxdomain_iff_of_denies (hdenies s hs ha)).mp (h.1 ⟨he, s, hs, ha⟩)
    · intro hown hbit
      have ha := answer_eq_false_iff.mpr ⟨happ, hown, hbit⟩
      exact (lookup_nodata_iff_of_denies (hdenies s hs ha)).mp (h.2 ⟨he, s, hs, ha⟩)
  · intro h
    constructor
    · rintro ⟨he, s, hs, ha⟩
      obtain ⟨happ, hown, hin⟩ := answer_eq_true_iff.mp ha
      exact (lookup_nxdomain_iff_of_denies (hdenies s hs ha)).mpr ((h he s hs happ).1 hown hin)
    · rintro ⟨he, s, hs, ha⟩
      obtain ⟨happ, hown, hbit⟩ := answer_eq_false_iff.mp ha
      exact (lookup_nodata_iff_of_denies (hdenies s hs ha)).mpr ((h he s hs happ).2 hown hbit)

/-- The zone `b` with an address at `a.b`: the span behind `a.b` denies `q.b`, and so does the
zone. -/
theorem aggressive_sound_at_q :
    (sampleZone (lit "a")).lookup (canonLabels (lit "q.b")) RRType.A = .nxdomain := by
  have hslots : ∀ s ∈ [sampleSlot (lit "a")], s.live 0 = true →
      (ZoneChain.nsec (sampleChain (lit "a")) : ZoneChain .sample _).Holds s.proof := by
    intro s hs _
    rw [mem_singleton.mp hs]
    exact sampleChain_holds .sample (by decide)
  have hiff := aggressive_sound_iff .sample _ (.nsec (sampleChain (lit "a"))) true
    [sampleSlot (lit "a")] (lit "q.b") RRType.A 0 (by decide) hslots trivial
  refine (hiff.mpr fun _ s hs _ => ?_).1 (by decide)
  rw [mem_singleton.mp hs]
  exact ⟨fun _ _ => ⟨by decide, by unfold Zone.emptyNonTerminal; decide, by decide⟩,
    nofun⟩

/-- **A wildcard is denied**: in the zone `b` with an address at `*.b`, the span behind `*.b`
answers NXDOMAIN for `q.b`, which the zone answers from the wildcard. -/
theorem wildcard_denied :
    (ZoneChain.nsec (sampleChain (lit "*")) : ZoneChain .sample (sampleZone (lit "*"))).Holds
        (sampleSlot (lit "*")).proof ∧
      (sampleSlot (lit "*")).live 0 = true ∧
      aggressiveNsecAnswer .sample true [sampleSlot (lit "*")] (lit "q.b") RRType.A 0 = some true ∧
      (sampleZone (lit "*")).lookup (canonLabels (lit "q.b")) RRType.A = .answer :=
  ⟨sampleChain_holds .sample (by decide), by decide, by decide, by decide⟩

end SimpleDns.Resolver
