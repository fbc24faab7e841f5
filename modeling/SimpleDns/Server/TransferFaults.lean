import SimpleDns.Server.Increment

/-!
# Applying a transfer while commands fail (`dns_server.c:9270-9414`)

`xfr_apply` and `xfr_apply_diffs` ignore what `vk_list_keys`, `vk_del`, `vk_get` and `vk_set`
return, and `xfr_set_serial` runs at their end in any case. Here every command may fail on its own:
a failed write is not carried out, a failed read finds nothing (`XfrFaults`). Without failures the
functions are those of `Transfer.lean` (`applyUnder_never`).

* `Transfer.Applied`: a full transfer leaves in each key of the zone what it has for it; each diff
  leaves the store that the diffs so far make.
* **`serial_truthful_iff`**: the serial is the master's only over an applied transfer exactly when
  the failures are harmless. `Transfer.Harmless` says which ones are, key by key and diff by diff.
* `serial_without_records`: one refused write, and the serial says that nothing is missing.
-/

namespace SimpleDns.Server

open Wire Lib List Option

/-! ## Failing commands -/

/-- Which commands of a call fail. `del i` is the deletion of the `i`-th listed key, `set i` the
`i`-th write of `xfr_apply` or the write of the `i`-th diff, `get i` the read of the `i`-th diff. -/
structure XfrFaults where
  list : Bool
  del : Nat → Bool
  get : Nat → Bool
  set : Nat → Bool
  serial : Bool

/-- No command fails. -/
def XfrFaults.never : XfrFaults := ⟨false, fun _ => false, fun _ => false, fun _ => false, false⟩

/-- `xfr_set_serial`: without its `SET` the counter stays, the zone table follows. -/
def xfrSetSerialUnder (fails : Bool) (S : Settings) (st : State) (zone : Text) (serial : Nat) :
    State :=
  if fails then { xfrSetSerial S st zone serial with counter := st.counter }
  else xfrSetSerial S st zone serial

/-- The writes of `xfr_apply` in order; `heads` as in `xfrWriteAll`. -/
def xfrSets (zone : Text) : List XfrRec → List XfrRec → List (Write Text Cell)
  | [], _ => []
  | r :: rs, heads =>
    let key := zkey (zone.take 255) ((type2str r.type).take 16) (r.name.take 255)
    if heads.any (·.joins r) then xfrSets zone rs heads
    else if r.grouped then
      (key, some (leaseCell (groupText r.ttl (r.val :: (rs.filter r.joins).map (·.val))) 0)) ::
        xfrSets zone rs (r :: heads)
    else
      (key, some (leaseCell (safeStrcpy (decimal r.ttl ++ [124] ++ r.val) 1024) 0)) ::
        xfrSets zone rs heads

variable (F : XfrFaults) (zone : Text)

/-- `xfr_apply`; `keys` is what `vk_list_keys` lists. -/
def xfrApplyUnder (keys : List Text) (S : Settings) (st : State) (zone : Text) (recs : List XfrRec)
    (serial : Nat) : State :=
  let old := if F.list then [] else keys
  let writes := performed F.del (old.map fun k => (k, none)) ++
    performed F.set (xfrSets zone recs [])
  xfrSetSerialUnder F.serial S { st with store := applyWrites st.store writes } zone serial

/-- The key of a diff. -/
def XfrDiff.key (d : XfrDiff) : Text :=
  zkey (zone.take 255) ((type2str d.type).take 16) (d.name.take 255)

/-- What `xfr_apply_one_diff` leaves in the key, from the value it has read. -/
def XfrDiff.cell (d : XfrDiff) (cur : Text) : Option Cell :=
  if d.type ≠ RRType.A ∧ d.type ≠ RRType.AAAA ∧ d.type ≠ RRType.NS then
    if d.op = opAdd then some (leaseCell (safeStrcpy (decimal d.ttl ++ [124] ++ d.val) 1024) 0)
    else none
  else
    let vals := editValues d.op d.val (groupValues cur)
    let ttl := if d.op = opAdd ∧ d.ttl ≠ 0 then d.ttl
      else (groupTtl cur).getD (ttlOr d.ttl)
    if vals = [] then none else some (leaseCell (groupText ttl vals) 0)

/-- `cur`. -/
def XfrDiff.current (s : Store) (d : XfrDiff) : Text :=
  (vkGet s (d.key zone) 1024).getD []

/-- `xfr_apply_one_diff` for the `i`-th diff. -/
def xfrApplyOneDiffUnder (i : Nat) (s : Store) (d : XfrDiff) : Store :=
  let cur := if F.get i then [] else d.current zone s
  if F.set i then s else Function.update s (d.key zone) (d.cell cur)

/-- The loop of `xfr_apply_diffs` from the `i`-th diff on. -/
def xfrDiffLoop (F : XfrFaults) (zone : Text) : Nat → Store → List XfrDiff → Store
  | _, s, [] => s
  | i, s, d :: ds => xfrDiffLoop F zone (i + 1) (xfrApplyOneDiffUnder F zone i s d) ds

/-- `xfr_apply_diffs`. -/
def xfrApplyDiffsUnder (S : Settings) (st : State) (zone : Text) (diffs : List XfrDiff)
    (serial : Nat) : State :=
  xfrSetSerialUnder F.serial S { st with store := xfrDiffLoop F zone 0 st.store diffs } zone serial

/-! ## Without failures -/

theorem xfrWriteAll_eq_applyWrites (zone : Text) (recs heads : List XfrRec) (s : Store) :
    xfrWriteAll zone recs heads s = applyWrites s (xfrSets zone recs heads) := by
  induction recs generalizing heads s with
  | nil => rfl
  | cons r rs ih =>
    rw [xfrWriteAll, xfrSets]
    split
    · exact ih heads s
    · split
      · exact ih _ _
      · exact ih _ _

theorem xfrApplyOneDiff_eq_update (zone : Text) (s : Store) (d : XfrDiff) :
    xfrApplyOneDiff zone s d = Function.update s (d.key zone) (d.cell (d.current zone s)) := by
  unfold xfrApplyOneDiff XfrDiff.cell XfrDiff.current XfrDiff.key vkSet vkDel
  dsimp only
  split
  · split <;> rfl
  · split <;> rfl

/-- The keys of a zone. -/
def zonePrefix : Text := lit "zone:" ++ zone.take 255 ++ lit ":"

theorem xfrClear_apply (zone : Text) (s : Store) (k : Text) :
    xfrClear zone s k = if zonePrefix zone <+: k then none else s k :=
  if_congr isPrefixOf_iff_prefix rfl rfl

/-- Of the deletions of keys, the last one at a key. -/
theorem lastWrite_deletions {ws : List (Write Text Cell)} (h : ∀ w ∈ ws, w.2 = none) (k : Text)
    [Decidable (∃ w ∈ ws, w.1 = k)] :
    lastWrite k ws = if ∃ w ∈ ws, w.1 = k then some none else none := by
  cases hlast : lastWrite k ws with
  | none =>
    rw [if_neg]
    rintro ⟨w, hw, hk⟩
    exact lastWrite_eq_none_iff.mp hlast w hw hk
  | some v =>
    have hmem := mem_of_lastWrite hlast
    obtain rfl : v = none := h _ hmem
    rw [if_pos ⟨_, hmem, rfl⟩]

/-! ## Transfers -/

/-- What `xfr_pull` applies. -/
inductive Transfer
  | full (recs : List XfrRec)
  | diffs (ds : List XfrDiff)
deriving DecidableEq, Repr

/-- The transfer is applied while commands fail. -/
def Transfer.applyUnder (keys : List Text) (S : Settings) (st : State) (zone : Text)
    (serial : Nat) :
    Transfer → State
  | .full recs => xfrApplyUnder F keys S st zone recs serial
  | .diffs ds => xfrApplyDiffsUnder F S st zone ds serial

/-- Valkey lists the keys of the zone. -/
def Listed (s : Store) (keys : List Text) : Prop :=
  ∀ k, k ∈ keys ↔ zonePrefix zone <+: k ∧ (s k).isSome = true

variable {S : Settings} {st : State} {zone : Text} {keys : List Text}

/-- **Without failures** this is the application of `Transfer.lean`. -/
theorem applyUnder_never (hkeys : Listed zone st.store keys) (serial : Nat) (t : Transfer) :
    t.applyUnder .never keys S st zone serial = match t with
      | .full recs => xfrApply S st zone recs serial
      | .diffs ds => xfrApplyDiffs S st zone ds serial := by
  cases t with
  | full recs =>
    have hclear : xfrClear zone st.store =
        applyWrites st.store (keys.map fun k => (k, none)) := by
      funext k
      have hdel : lastWrite k (keys.map fun k => ((k, none) : Write Text Cell)) =
          if k ∈ keys then some none else none := by
        rw [lastWrite_deletions (by simp)]
        simp
      rw [applyWrites_apply, hdel, xfrClear_apply]
      by_cases hpre : zonePrefix zone <+: k
      · rw [if_pos hpre]
        by_cases hmem : k ∈ keys
        · rw [if_pos hmem, getD_some]
        · have hnone : st.store k = none := by
            rw [← not_isSome_iff_eq_none]
            exact fun h => hmem ((hkeys k).mpr ⟨hpre, h⟩)
          rw [if_neg hmem, getD_none, hnone]
      · rw [if_neg hpre, if_neg fun h => hpre ((hkeys k).mp h).1, getD_none]
    simp [Transfer.applyUnder, xfrApplyUnder, XfrFaults.never, performed, applyWrites_append,
      xfrSetSerialUnder, xfrApply, xfrWriteAll_eq_applyWrites, hclear]
  | diffs ds =>
    have hloop : ∀ i s, xfrDiffLoop .never zone i s ds = ds.foldl (xfrApplyOneDiff zone) s := by
      intro i s
      induction ds generalizing i s with
      | nil => rfl
      | cons d ds ih =>
        rw [xfrDiffLoop, foldl_cons, xfrApplyOneDiff_eq_update]
        exact ih _ _
    rw [Transfer.applyUnder, xfrApplyDiffsUnder, hloop]
    rfl

/-- The transfer took place: each key of the zone holds what the full transfer has for it; behind
each diff the store is what the diffs so far make of it. -/
def Transfer.Applied (keys : List Text) (S : Settings) (st : State) (zone : Text) (serial : Nat) :
    Transfer → Prop
  | .full recs => ∀ k, zonePrefix zone <+: k →
      (xfrApplyUnder F keys S st zone recs serial).store k =
        (xfrApply S st zone recs serial).store k
  | .diffs ds => ∀ n ≤ ds.length, (xfrApplyDiffsUnder F S st zone (ds.take n) serial).store =
      (xfrApplyDiffs S st zone (ds.take n) serial).store

/-- The deletion of a key happens. -/
def XfrFaults.deletes (keys : List Text) (k : Text) : Bool :=
  !F.list && keys.zipIdx.any fun p => p.1 == k && !F.del p.2

theorem XfrFaults.deletes_iff (F : XfrFaults) (keys : List Text) (k : Text) :
    F.deletes keys k = true ↔ F.list = false ∧ ∃ i, keys[i]? = some k ∧ F.del i = false := by
  simp only [deletes, Bool.and_eq_true, Bool.not_eq_true', List.any_eq_true, beq_iff_eq,
    Prod.exists, mem_zipIdx_iff_getElem?]
  refine and_congr_right fun _ => ⟨?_, ?_⟩
  · rintro ⟨_, i, hi, rfl, hok⟩
    exact ⟨i, hi, hok⟩
  · rintro ⟨i, hi, hok⟩
    exact ⟨k, i, hi, rfl, hok⟩

/-- The failures leave the key as the transfer has it. A key the transfer does not write is absent
or deleted; for a key it writes, the last write that happens is the last one, or none happens and
the old value, which is the same, is not deleted. -/
def HarmlessAt (keys : List Text) (s : Store) (sets : List (Write Text Cell)) (k : Text) : Prop :=
  match lastWrite k sets with
  | none => s k = none ∨ F.deletes keys k = true
  | some v =>
    lastWrite k (performed F.set sets) = some v ∨
      lastWrite k (performed F.set sets) = none ∧ s k = v ∧ F.deletes keys k = false

/-- The failures leave each diff from the `i`-th on its effect. A write that fails would not have
changed its key; a read that fails does not change what is written. -/
def DiffsHarmless (F : XfrFaults) (zone : Text) : Nat → Store → List XfrDiff → Prop
  | _, _, [] => True
  | i, s, d :: ds =>
    (if F.set i then d.cell (d.current zone s) = s (d.key zone)
      else F.get i = true → d.cell [] = d.cell (d.current zone s)) ∧
      DiffsHarmless F zone (i + 1) (xfrApplyOneDiff zone s d) ds

/-- The failures are harmless. -/
def Transfer.Harmless (keys : List Text) (s : Store) (zone : Text) : Transfer → Prop
  | .full recs => ∀ k, zonePrefix zone <+: k → HarmlessAt F keys s (xfrSets zone recs []) k
  | .diffs ds => DiffsHarmless F zone 0 s ds

/-! ## Full transfers -/

@[simp] theorem store_xfrSetSerialUnder (fails : Bool) (S : Settings) (st : State) (zone : Text)
    (serial : Nat) : (xfrSetSerialUnder fails S st zone serial).store = st.store := by
  unfold xfrSetSerialUnder
  split <;> rfl

/-- The last deletion of a key that happens. -/
theorem lastWrite_performed_deletions (F : XfrFaults) (keys : List Text) (k : Text) :
    lastWrite k (performed F.del ((if F.list then [] else keys).map
        fun k => ((k, none) : Write Text Cell))) =
      if F.deletes keys k then some none else none := by
  have hnone : ∀ w ∈ performed F.del ((if F.list then [] else keys).map
      fun k => ((k, none) : Write Text Cell)), w.2 = none := by
    intro w hw
    obtain ⟨i, hi, -⟩ := mem_performed.mp hw
    rw [getElem?_map, map_eq_some_iff] at hi
    obtain ⟨k', -, rfl⟩ := hi
    rfl
  classical
  rw [lastWrite_deletions hnone]
  refine if_congr ?_ rfl rfl
  rw [F.deletes_iff]
  constructor
  · rintro ⟨w, hw, rfl⟩
    obtain ⟨i, hi, hok⟩ := mem_performed.mp hw
    rw [getElem?_map, map_eq_some_iff] at hi
    obtain ⟨k', hk', rfl⟩ := hi
    cases hlist : F.list with
    | true => simp [hlist] at hk'
    | false =>
      rw [hlist, if_neg Bool.false_ne_true] at hk'
      exact ⟨rfl, i, hk', hok⟩
  · rintro ⟨hlist, i, hi, hok⟩
    refine ⟨(k, none), mem_performed.mpr ⟨i, ?_, hok⟩, rfl⟩
    rw [hlist, if_neg Bool.false_ne_true, getElem?_map, hi]
    rfl

theorem isSome_of_mem_xfrSets {recs heads : List XfrRec} {w : Write Text Cell}
    (h : w ∈ xfrSets zone recs heads) : w.2.isSome = true := by
  induction recs generalizing heads with
  | nil => cases h
  | cons r rs ih =>
    rw [xfrSets] at h
    split at h
    · exact ih h
    · split at h <;> obtain rfl | h := mem_cons.mp h
      · rfl
      · exact ih h
      · rfl
      · exact ih h

/-- What a key holds behind `xfr_apply` is what the transfer has for it iff the failures are
harmless at the key. -/
theorem applied_at_iff (F : XfrFaults) (recs : List XfrRec) (serial : Nat) {k : Text}
    (hk : zonePrefix zone <+: k) : (xfrApplyUnder F keys S st zone recs serial).store k =
        (xfrApply S st zone recs serial).store k ↔
      HarmlessAt F keys st.store (xfrSets zone recs []) k := by
  have hclean : (xfrApply S st zone recs serial).store k =
      (lastWrite k (xfrSets zone recs [])).getD none := by
    have hcleared : xfrClear zone st.store k = none := by rw [xfrClear_apply, if_pos hk]
    change xfrWriteAll zone recs [] (xfrClear zone st.store) k = _
    rw [xfrWriteAll_eq_applyWrites, applyWrites_apply, hcleared]
  have hsub : lastWrite k (xfrSets zone recs []) = none →
      lastWrite k (performed F.set (xfrSets zone recs [])) = none := by
    intro h
    rw [lastWrite_eq_none_iff] at h ⊢
    intro w hw
    obtain ⟨i, hi, -⟩ := mem_performed.mp hw
    exact h w (mem_of_getElem? hi)
  have hunder : (xfrApplyUnder F keys S st zone recs serial).store k =
      ((lastWrite k (performed F.set (xfrSets zone recs []))).or
        (if F.deletes keys k then some none else none)).getD (st.store k) := by
    rw [xfrApplyUnder, store_xfrSetSerialUnder, ← lastWrite_performed_deletions, ← lastWrite_append]
    exact applyWrites_apply ..
  rw [hclean, hunder, HarmlessAt]
  cases hlast : lastWrite k (xfrSets zone recs []) with
  | none =>
    rw [hsub hlast, none_or, getD_none]
    cases F.deletes keys k with
    | true => simp
    | false => simp
  | some v =>
    rw [getD_some]
    cases hdone : lastWrite k (performed F.set (xfrSets zone recs [])) with
    | some w => simp
    | none =>
      have hsome : v.isSome = true := isSome_of_mem_xfrSets (mem_of_lastWrite hlast)
      obtain ⟨c, rfl⟩ := isSome_iff_exists.mp hsome
      cases F.deletes keys k with
      | true => simp
      | false => simp

/-! ## Differences -/

/-- One diff has its effect iff its failures are harmless. -/
theorem xfrApplyOneDiffUnder_eq_iff (F : XfrFaults) (zone : Text) (i : Nat) (s : Store)
    (d : XfrDiff) :
    xfrApplyOneDiffUnder F zone i s d = xfrApplyOneDiff zone s d ↔
      if F.set i then d.cell (d.current zone s) = s (d.key zone)
      else F.get i = true → d.cell [] = d.cell (d.current zone s) := by
  rw [xfrApplyOneDiff_eq_update, xfrApplyOneDiffUnder]
  cases F.set i with
  | true =>
    simp only [if_true]
    rw [eq_comm, Function.update_eq_self_iff]
  | false =>
    simp only [Bool.false_eq_true, if_false]
    cases F.get i with
    | true =>
      simp only [if_true, forall_const]
      exact Function.update_injective s (d.key zone) |>.eq_iff
    | false => simp

/-- The store behind each diff from the `i`-th on is the clean one iff each diff has its effect. -/
theorem diffsHarmless_iff (F : XfrFaults) (zone : Text) (ds : List XfrDiff) (i : Nat) (s : Store) :
    (∀ n ≤ ds.length, xfrDiffLoop F zone i s (ds.take n) =
        (ds.take n).foldl (xfrApplyOneDiff zone) s) ↔ DiffsHarmless F zone i s ds := by
  induction ds generalizing i s with
  | nil => simp [DiffsHarmless, xfrDiffLoop]
  | cons d ds ih =>
    rw [DiffsHarmless, ← xfrApplyOneDiffUnder_eq_iff, ← ih]
    constructor
    · intro h
      have hone : xfrApplyOneDiffUnder F zone i s d = xfrApplyOneDiff zone s d :=
        h 1 (Nat.succ_le_succ (Nat.zero_le _))
      refine ⟨hone, fun n hn => ?_⟩
      have hnext := h (n + 1) (Nat.succ_le_succ hn)
      rwa [take_succ_cons, xfrDiffLoop, foldl_cons, hone] at hnext
    · rintro ⟨hone, hrest⟩ n hn
      cases n with
      | zero => rfl
      | succ n =>
        rw [take_succ_cons, xfrDiffLoop, foldl_cons, hone]
        exact hrest n (Nat.le_of_succ_le_succ hn)

/-! ## The serial -/

theorem applied_iff_harmless (F : XfrFaults) (serial : Nat) (t : Transfer) :
    t.Applied F keys S st zone serial ↔ t.Harmless F keys st.store zone := by
  cases t with
  | full recs =>
    exact forall_congr' fun k => forall_congr' fun hk => applied_at_iff F recs serial hk
  | diffs ds =>
    rw [Transfer.Harmless, ← diffsHarmless_iff]
    refine forall_congr' fun n => forall_congr' fun _ => ?_
    rw [xfrApplyDiffsUnder, store_xfrSetSerialUnder]
    rfl

/-- The zone table has the serial, whatever failed. -/
theorem xfrGetSerial_xfrSetSerialUnder (hzone : ∃ e ∈ st.zones, eqCI e.name zone = true)
    (fails : Bool) (serial : Nat) :
    xfrGetSerial (xfrSetSerialUnder fails S st zone serial) zone = serial := by
  have hzones : (xfrSetSerialUnder fails S st zone serial).zones = st.zones.map fun z =>
      if eqCI z.name zone then { z with soaSerial := serial } else z := by
    unfold xfrSetSerialUnder
    split <;> rfl
  rw [xfrGetSerial, hzones]
  clear hzones
  generalize st.zones = zones at hzone
  induction zones with
  | nil => simp at hzone
  | cons e es ih =>
    by_cases he : eqCI e.name zone = true
    · simp [he]
    · simp only [map_cons, he, Bool.false_eq_true, if_false, not_false_eq_true,
        find?_cons_of_neg]
      refine ih ?_
      obtain ⟨e', hmem, he'⟩ := hzone
      obtain rfl | hmem := mem_cons.mp hmem
      · exact absurd he' he
      · exact ⟨e', hmem, he'⟩

/-- **The serial tells the truth exactly when the failures are harmless**: it is always the master's
behind the application, whatever of the transfer took place. -/
theorem serial_truthful_iff {S : Settings} {st : State} {zone : Text}
    (hzone : ∃ e ∈ st.zones, eqCI e.name zone = true) (F : XfrFaults) (keys : List Text)
    (serial : Nat) (t : Transfer) :
    (xfrGetSerial (t.applyUnder F keys S st zone serial) zone = serial →
        t.Applied F keys S st zone serial) ↔ t.Harmless F keys st.store zone := by
  have hserial : xfrGetSerial (t.applyUnder F keys S st zone serial) zone = serial := by
    cases t with
    | full recs | diffs ds => exact xfrGetSerial_xfrSetSerialUnder (by exact hzone) F.serial serial
  rw [forall_prop_of_true hserial]
  exact applied_iff_harmless F serial t

/-- A record list with one address at `b.z`, and a failed `DEL` at `b.z` itself. -/
theorem serial_truthful_rewritten :
    (Transfer.full [⟨lit "b.z", RRType.A, 60, lit "192.0.2.2"⟩]).Applied
      { XfrFaults.never with del := fun i => i == 1 } [lit "zone:z:A:a.z", lit "zone:z:A:b.z"]
      sampleSettings { sampleState with
        store := vkSet (vkSet sampleState.store (lit "zone:z:A:a.z") (lit "60|192.0.2.1") 0)
          (lit "zone:z:A:b.z") (lit "60|192.0.2.1") 0 } (lit "z") 2 := by
  refine (serial_truthful_iff ⟨⟨lit "z", 1, true⟩, by decide, by decide⟩ _ _ 2 _).mpr ?_
    (by decide +kernel)
  intro k _
  have hsets : xfrSets (lit "z") [⟨lit "b.z", RRType.A, 60, lit "192.0.2.2"⟩] [] =
      [(lit "zone:z:A:b.z", some ⟨lit "60|192.0.2.2", none⟩)] := by decide +kernel
  rw [hsets]
  by_cases hb : k = lit "zone:z:A:b.z"
  · -- the write behind the failed deletion happens
    subst hb
    exact .inl (by decide +kernel)
  by_cases ha : k = lit "zone:z:A:a.z"
  · subst ha
    exact .inr (by decide +kernel)
  · have hother : lastWrite k [(lit "zone:z:A:b.z", some (Cell.mk (lit "60|192.0.2.2") none))] =
        none := lastWrite_eq_none_iff.mpr (by simpa using Ne.symm hb)
    rw [HarmlessAt, hother]
    exact .inl ((vkSet_ne hb).trans (vkSet_ne ha))

/-- **One refused write**: the only record of the transfer is not stored, and the serial says that
the zone is the master's. -/
theorem serial_without_records :
    let st' := (Transfer.full [⟨lit "b.z", RRType.A, 60, lit "192.0.2.2"⟩]).applyUnder
      { XfrFaults.never with set := fun i => i == 0 } [] sampleSettings sampleState (lit "z") 2
    xfrGetSerial st' (lit "z") = 2 ∧ st'.store (lit "zone:z:A:b.z") = none ∧
      (xfrApply sampleSettings sampleState (lit "z")
        [⟨lit "b.z", RRType.A, 60, lit "192.0.2.2"⟩] 2).store (lit "zone:z:A:b.z") =
          some ⟨lit "60|192.0.2.2", none⟩ := by
  refine ⟨?_, ?_, ?_⟩
  · decide +kernel
  · decide +kernel
  · decide +kernel

end SimpleDns.Server
