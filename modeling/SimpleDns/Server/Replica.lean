import SimpleDns.Server.View
import SimpleDns.Wire.Labels

/-!
# The zone of a secondary

A secondary keeps the addresses of an owner as one value `ttl|ip|ip..` under a `zone:` key
(`xfr_apply_one_diff`, `dns_server.c:9351-9414`). `Replica` says that such a store shows what the
primary shows.

* `Group` is the stored form of a list of addresses. It reads back (`Group.groupValues`,
  `Group.groupAddresses`) as long as it fits the buffers (`Fits`).
* **`Replica.applyOneDiff`**: the diff of an edit takes a replica of the zone before the edit to one
  after it.
-/

namespace SimpleDns.Server

open Wire Lib List

/-! ## Groups -/

/-- The texts are addresses of the family. -/
def Texts (f : Family) (vals : List Text) : Prop :=
  ∀ v ∈ vals, ∃ a : Address, a.family = f ∧ a.text = v

/-- The stored form of the addresses of one owner: no key for none. -/
inductive Group : Option Cell → List Text → Prop
  | empty : Group none []
  | stored {ttl : Nat} {life : Option Nat} {vals : List Text} (short : ttl < 2 ^ 32)
      (ne_nil : vals ≠ []) : Group (some ⟨decimal ttl ++ vals.flatMap fun v => 124 :: v, life⟩) vals

section Groups

variable {f : Family} {vals : List Text} {c : Option Cell}

theorem Texts.bar_notMem (h : Texts f vals) : ∀ v ∈ vals, 124 ∉ v := by
  intro v hv hmem
  obtain ⟨a, -, rfl⟩ := h v hv
  exact (isAddressChar_spec (Address.isAddressChar_of_mem_text hmem)).2.2.1 rfl

theorem Texts.ne_nil (h : Texts f vals) : ∀ v ∈ vals, v ≠ [] := by
  intro v hv
  obtain ⟨a, -, rfl⟩ := h v hv
  exact a.text_ne_nil

theorem Fits.length_le {ttl : Nat} (h : Fits ↑vals) (httl : ttl < 2 ^ 32) :
    (decimal ttl ++ vals.flatMap fun v => 124 :: v).length ≤ 1023 := by
  have hsum : (vals.map fun t => ((124 : UInt8) :: t).length).sum ≤ 1013 := h.2
  have hdec := length_serial_le httl
  rw [length_append, length_flatMap]
  omega

theorem strtok_group (ttl : Nat) (h : Texts f vals) :
    strtok 124 (decimal ttl ++ vals.flatMap fun v => 124 :: v) = decimal ttl :: vals := by
  rw [← intercalate_eq_flatMap]
  refine strtok_intercalate ?_ ?_
  · rintro t (_ | ⟨_, ht⟩)
    · exact notMem_decimal (by decide) ttl
    · exact h.bar_notMem t ht
  · rintro t (_ | ⟨_, ht⟩)
    · exact numeral_ne_nil 10 ttl
    · exact h.ne_nil t ht

/-- What the secondary reads before it edits. -/
theorem Group.groupValues (hc : Group c vals) (h : Texts f vals) (hfits : Fits ↑vals) :
    groupValues ((c.map fun c => safeStrcpy c.value 1024).getD []) = vals := by
  cases hc with
  | empty => rfl
  | stored httl hne =>
    have hcard : vals.length ≤ 64 := hfits.1
    have hsafe : ∀ v ∈ vals, safeStrcpy v 256 = v := fun v hv => by
      obtain ⟨a, -, rfl⟩ := h v hv
      exact take_of_length_le (a.length_text_le.trans (by decide))
    rw [Option.map_some, Option.getD_some, safeStrcpy,
      take_of_length_le (hfits.length_le httl), Server.groupValues, strtok_group _ h,
      tail_cons, take_of_length_le hcard, map_congr_left hsafe, map_id']

theorem filterMap_texts (h : Texts f vals) :
    vals.filterMap (fun v => (f.pton v).map f.ntop) = vals := by
  induction vals with
  | nil => rfl
  | cons v vs ih =>
    obtain ⟨a, rfl, rfl⟩ := h v mem_cons_self
    rw [filterMap_cons_some (b := a.text) (by rw [a.pton_text]; rfl),
      ih fun w hw => h w (mem_cons_of_mem _ hw)]

/-- What the secondary serves. -/
theorem Group.groupAddresses (hc : Group c vals) (h : Texts f vals) :
    groupAddresses f c = vals := by
  cases hc with
  | empty => rfl
  | @stored ttl life vals httl hne =>
    obtain ⟨v, vs, rfl⟩ := exists_cons_of_ne_nil hne
    have hafter : afterBar (decimal ttl ++ (v :: vs).flatMap fun v => 124 :: v) =
        [124].intercalate (v :: vs) := by
      rw [afterBar, if_pos (by simp), intercalate_eq_flatMap]
      have hbar : (124 : UInt8) ∉ decimal ttl := notMem_decimal (by decide) ttl
      exact congrArg tail (takeWhile_ne_append hbar _).2
    rw [Server.groupAddresses, hafter, strtok_intercalate h.bar_notMem h.ne_nil, filterMap_texts h]

end Groups

/-! ## Replicas -/

/-- The addresses and pointers a primary shows. -/
structure Content where
  addresses : Family → Text → Multiset Text
  pointers : Text → Set Text

/-- What a store shows of a zone. -/
def zoneContent (z : Text) (s : Store) : Content := ⟨heldAddresses z s, heldPointers z s⟩

/-- The store of a secondary shows the content: every address under a `zone:` key, none leased or
registered there, and the values within the buffers. -/
structure Replica (z : Text) (m : Content) (s : Store) : Prop where
  content : zoneContent z s = m
  group : ∀ f n, ∃ vals, Texts f vals ∧ Group (s (zkey z f.typeName n)) vals
  noLease : ∀ (f : Family) n, s (dkey z f.typeName n) = none
  noRegistration : ∀ (f : Family) n, s (skey z f.typeName n) = none
  fits : ∀ f n, Fits (m.addresses f n)

/-- The diff of an edit. -/
def Edit.diff (e : Edit) : XfrDiff :=
  ⟨e.op.code, e.name, e.address.family.rrtype, defaultTtl, e.address.text⟩

/-- The edit on the values of its owner. -/
def Edit.onValues (e : Edit) (vals : List Text) : List Text :=
  match e.op with
  | .add => vals ++ [e.address.text]
  | .delete => vals.erase e.address.text

/-- The edit on the content of a zone. -/
def Edit.onContent (m : Content) (e : Edit) : Content := { m with addresses := e.on m.addresses }

section Apply

variable {z : Text} {m : Content} {s : Store} {e : Edit} {f : Family} {vals : List Text}

/-- Without leases and registrations the `zone:` keys are all there is. -/
theorem heldAddresses_of_group (hlease : ∀ (f : Family) n, s (dkey z f.typeName n) = none)
    (hreg : ∀ (f : Family) n, s (skey z f.typeName n) = none) (f : Family) (n : Text) :
    heldAddresses z s f n = ↑(groupAddresses f (s (zkey z f.typeName n))) := by
  rw [heldAddresses, hlease, hreg]
  simp only [leasedAddresses, nil_append]
  rw [show groupAddresses f none = [] from rfl, append_nil]

/-- The values of an owner, as they are stored and as the content lists them. -/
theorem Replica.values (h : Replica z m s) (f : Family) (n : Text) :
    ∃ vals, Texts f vals ∧ Group (s (zkey z f.typeName n)) vals ∧ m.addresses f n = ↑vals := by
  obtain ⟨vals, htexts, hgroup⟩ := h.group f n
  refine ⟨vals, htexts, hgroup, ?_⟩
  rw [← h.content]
  exact (heldAddresses_of_group h.noLease h.noRegistration f n).trans
    (congrArg _ (hgroup.groupAddresses htexts))

theorem eqCI_texts {v w : Text} (hv : ∃ a : Address, a.family = f ∧ a.text = v)
    (hw : ∃ a : Address, a.family = f ∧ a.text = w) : eqCI v w = decide (v = w) := by
  obtain ⟨a, -, rfl⟩ := hv
  obtain ⟨b, -, rfl⟩ := hw
  have ha : strlower a.text = a.text := Family.strlower_ntop ..
  have hb : strlower b.text = b.text := Family.strlower_ntop ..
  rw [eqCI, ha, hb]
  exact Bool.eq_iff_iff.mpr (by simp)

theorem eraseP_eqCI {w : Text} (ht : Texts f vals)
    (hw : ∃ a : Address, a.family = f ∧ a.text = w) :
    vals.eraseP (eqCI · w) = vals.erase w := by
  induction vals with
  | nil => rfl
  | cons v vs ih =>
    have ih := ih fun u hu => ht u (mem_cons_of_mem _ hu)
    have hv := eqCI_texts (ht v mem_cons_self) hw
    by_cases h : v = w
    · rw [eraseP_cons_of_pos (by simp [h]), h, erase_cons_head]
    · rw [eraseP_cons_of_neg (by simp [hv, h]), erase_cons_tail (by simpa using h), ih]

/-- The values after an edit. -/
theorem editValues_edit (ht : Texts e.address.family vals)
    (hfresh : e.op = .add → e.address.text ∉ vals) (hroom : e.op = .add → vals.length < 64) :
    editValues e.op.code e.address.text vals = e.onValues vals := by
  have hself : ∃ a : Address, a.family = e.address.family ∧ a.text = e.address.text :=
    ⟨e.address, rfl, rfl⟩
  unfold Edit.onValues
  cases hop : e.op with
  | add =>
    have hany : vals.any (eqCI · e.address.text) = false := by
      rw [any_eq_false]
      intro v hv
      rw [eqCI_texts (ht v hv) hself]
      simpa using fun heq : v = e.address.text => hfresh hop (heq ▸ hv)
    have hcopy : safeStrcpy e.address.text 256 = e.address.text :=
      take_of_length_le (e.address.length_text_le.trans (by decide))
    have hlen : ¬(vals.any (eqCI · e.address.text) = true ∨ vals.length ≥ 64) := by
      rw [hany]
      have := hroom hop
      simp
      omega
    rw [EditOp.code, editValues, if_pos rfl, if_neg hlen, hcopy]
  | delete =>
    have hne : opDel ≠ opAdd := by decide
    rw [EditOp.code, editValues, if_neg hne]
    exact eraseP_eqCI ht hself

theorem Texts.onValues (ht : Texts e.address.family vals) :
    Texts e.address.family (e.onValues vals) := by
  intro v hv
  unfold Edit.onValues at hv
  split at hv
  · obtain hv | hv := mem_append.mp hv
    · exact ht v hv
    · exact ⟨e.address, rfl, (mem_singleton.mp hv).symm⟩
  · exact ht v (mem_of_mem_erase hv)

theorem coe_onValues {ms : Family → Text → Multiset Text}
    (h : ms e.address.family e.name = ↑vals) :
    e.on ms e.address.family e.name = ↑(e.onValues vals) := by
  simp only [Edit.on, and_self, if_true, h, Edit.onValues]
  cases e.op with
  | add =>
    rw [Multiset.cons_coe, Multiset.coe_eq_coe]
    exact (perm_append_singleton ..).symm
  | delete =>
    rw [Multiset.coe_erase, Multiset.coe_eq_coe, lawful_beq_subsingleton instBEqOfDecidableEq]

/-- What a diff leaves under its key. -/
theorem group_of_values {ttl : Nat} (httl : ttl < 2 ^ 32) (hfits : Fits ↑vals) :
    Group (if vals = [] then none else some (leaseCell (groupText ttl vals) 0)) vals := by
  by_cases hne : vals = []
  · rw [if_pos hne, hne]
    exact .empty
  · rw [if_neg hne, groupText, safeStrcpy, take_of_length_le (hfits.length_le httl)]
    exact .stored httl hne

theorem groupTtl_lt {cur : Text} {ttl : Nat} (h : groupTtl cur = some ttl) : ttl < 2 ^ 32 := by
  obtain ⟨t, -, rfl⟩ := Option.map_eq_some_iff.mp h
  have := Int.emod_lt_of_pos (strtol 10 t) (by decide : (0 : Int) < 2 ^ 32)
  omega

theorem newTtl_lt (op : UInt8) (cur : Text) :
    (if op = opAdd ∧ defaultTtl ≠ 0 then defaultTtl
      else (groupTtl cur).getD (ttlOr defaultTtl)) < 2 ^ 32 := by
  split
  · decide
  · cases h : groupTtl cur with
    | none => decide
    | some ttl => exact groupTtl_lt h

/-- The diff of an edit writes the edited values of its owner. -/
theorem xfrApplyOneDiff_edit (hz : z.length ≤ 255) (hgood : GoodEdit m.addresses e)
    (h : Replica z m s) :
    ∃ c vals, xfrApplyOneDiff z s e.diff =
        Function.update s (zkey z e.address.family.typeName e.name) c ∧
      Texts e.address.family vals ∧ Group c vals ∧
      e.on m.addresses e.address.family e.name = ↑vals := by
  obtain ⟨vals, htexts, hgroup, hm⟩ := h.values e.address.family e.name
  have hfits : Fits ↑vals := hm ▸ h.fits ..
  have hfits' := hgood.fits
  rw [coe_onValues hm] at hfits'
  have hedit : editValues e.op.code e.address.text vals = e.onValues vals := by
    refine editValues_edit htexts (fun hop hmem => hgood.fresh hop (by rw [hm]; exact hmem)) ?_
    intro hop
    have hcard : (e.onValues vals).length ≤ 64 := hfits'.1
    simp only [Edit.onValues, hop, length_append, length_singleton] at hcard
    exact hcard
  have hkey : zkey (z.take 255) ((type2str e.address.family.rrtype).take 16) (e.name.take 255) =
      zkey z e.address.family.typeName e.name := by
    have htype : (type2str e.address.family.rrtype).take 16 = e.address.family.typeName := by
      cases e.address.family <;> decide
    rw [take_of_length_le hz, take_of_length_le hgood.owner.short, htype]
  have hmulti : ¬(e.address.family.rrtype ≠ RRType.A ∧ e.address.family.rrtype ≠ RRType.AAAA ∧
      e.address.family.rrtype ≠ RRType.NS) := by
    cases e.address.family <;> decide
  have hcur : groupValues ((vkGet s (zkey z e.address.family.typeName e.name) 1024).getD []) =
      vals := hgroup.groupValues htexts hfits
  simp only [xfrApplyOneDiff, Edit.diff, hkey, if_neg hmulti, hcur, hedit]
  generalize hnew : (if e.op.code = opAdd ∧ defaultTtl ≠ 0 then defaultTtl else
    (groupTtl ((vkGet s (zkey z e.address.family.typeName e.name) 1024).getD [])).getD
      (ttlOr defaultTtl)) = ttl
  have httl : ttl < 2 ^ 32 := by
    rw [← hnew]
    exact newTtl_lt ..
  refine ⟨_, e.onValues vals, ?_, htexts.onValues, group_of_values httl hfits', coe_onValues hm⟩
  split
  · rfl
  · rfl

/-- A replica with the values of one owner rewritten. -/
theorem Replica.update {n : Text} {c : Option Cell} (h : Replica z m s) (ht : Texts f vals)
    (hc : Group c vals) (hfits : Fits ↑vals) :
    Replica z ⟨fun g k => if g = f ∧ k = n then ↑vals else m.addresses g k, m.pointers⟩
      (Function.update s (zkey z f.typeName n) c) := by
  have hkept : ∀ ns ∈ namespaces, ns ≠ lit "zone" → ∀ (g : Family) k,
      Function.update s (zkey z f.typeName n) c (recordKey ns z g.typeName k) =
        s (recordKey ns z g.typeName k) := fun ns hns hne g k =>
    Function.update_of_ne (addressKey_ne hns (by decide) hne z g f k n) ..
  have hlease : ∀ (g : Family) k,
      Function.update s (zkey z f.typeName n) c (dkey z g.typeName k) = none :=
    fun g k => (hkept _ (by decide) (by decide) g k).trans (h.noLease g k)
  have hreg : ∀ (g : Family) k,
      Function.update s (zkey z f.typeName n) c (skey z g.typeName k) = none :=
    fun g k => (hkept _ (by decide) (by decide) g k).trans (h.noRegistration g k)
  have hother : ∀ g k, ¬(g = f ∧ k = n) →
      Function.update s (zkey z f.typeName n) c (zkey z g.typeName k) =
        s (zkey z g.typeName k) :=
    fun g k hne => Function.update_of_ne (fun heq => hne ((addressKey_inj (by decide)).mp heq)) ..
  refine ⟨?_, ?_, hlease, hreg, ?_⟩
  · have hp : heldPointers z s = m.pointers := congrArg Content.pointers h.content
    rw [zoneContent, zkey, heldPointers_update (by decide), hp, ← zkey, Content.mk.injEq]
    refine ⟨?_, rfl⟩
    funext g k
    rw [heldAddresses_of_group hlease hreg]
    by_cases hk : g = f ∧ k = n
    · obtain ⟨rfl, rfl⟩ := hk
      rw [Function.update_self, hc.groupAddresses ht, if_pos ⟨rfl, rfl⟩]
    · rw [hother g k hk, if_neg hk, ← heldAddresses_of_group h.noLease h.noRegistration,
        ← h.content]
      rfl
  · intro g k
    by_cases hk : g = f ∧ k = n
    · obtain ⟨rfl, rfl⟩ := hk
      rw [Function.update_self]
      exact ⟨vals, ht, hc⟩
    · rw [hother g k hk]
      exact h.group g k
  · intro g k
    dsimp only
    split
    · exact hfits
    · exact h.fits g k

/-- **One diff**: a replica of the zone before the edit becomes one of the zone after it. -/
theorem Replica.applyOneDiff (h : Replica z m s) (hz : z.length ≤ 255)
    (hgood : GoodEdit m.addresses e) :
    Replica z (e.onContent m) (xfrApplyOneDiff z s e.diff) := by
  obtain ⟨c, vals, hs, htexts, hgroup, hm⟩ := xfrApplyOneDiff_edit hz hgood h
  have hcontent : e.onContent m =
      ⟨fun g k => if g = e.address.family ∧ k = e.name then ↑vals else m.addresses g k,
        m.pointers⟩ := by
    rw [Edit.onContent, Content.mk.injEq]
    refine ⟨?_, rfl⟩
    funext g k
    by_cases hk : g = e.address.family ∧ k = e.name
    · rw [if_pos hk, hk.1, hk.2, hm]
    · rw [if_neg hk, Edit.on, if_neg hk]
  rw [hs, hcontent]
  exact h.update htexts hgroup (hm ▸ hgood.fits)

/-- **The diffs of a list of edits**, each good where it is applied. -/
theorem Replica.applyDiffs {es : List Edit} (h : Replica z m s) (hz : z.length ≤ 255)
    (hgood : GoodEdits m.addresses es) :
    Replica z (es.foldl Edit.onContent m) ((es.map Edit.diff).foldl (xfrApplyOneDiff z) s) := by
  induction es generalizing m s with
  | nil => exact h
  | cons e es ih => exact ih (h.applyOneDiff hz hgood.1) hgood.2

theorem foldl_onContent (es : List Edit) (m : Content) :
    es.foldl Edit.onContent m = ⟨es.foldl (fun ms e => e.on ms) m.addresses, m.pointers⟩ := by
  induction es generalizing m with
  | nil => rfl
  | cons e es ih => exact ih _

end Apply

end SimpleDns.Server
