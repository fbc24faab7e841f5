import SimpleDns.Lib.TwoStage
import SimpleDns.Server.Rollover

/-!
# One activity of the rollover engine

What a tick, a reload or a start leaves behind when it runs to its end with nothing between its
operations. The stored entries of a role stand for a two-stage rollover of key sets (`Stored`), and
after a load the memory is that rollover's image (`Quiet`). From a quiet state every activity ends
in a quiet state, and a tick moves each role by at most one `Roll.Step` whose hold times are those
the settings give (`wp_rolloverTick`). Reads of settings may fail throughout; reads of the key and
phase entries may not.
-/

namespace SimpleDns.Server

open Lib Wire RollProg List Option Function
open Prog (wp_bind)

variable {E : KeyEnv} {fails : KeyEntry → Prop} {s : KeyState}

/-! ## Reading the store -/

/-- What is stored under an entry. -/
def KeyEnv.read (E : KeyEnv) (s : Store) (e : KeyEntry) : Option Text :=
  (s (e.key E.zone)).map (·.value)

theorem vkGet_key (s : Store) (e : KeyEntry) (n : Nat) :
    vkGet s (e.key E.zone) n = (E.read s e).map (safeStrcpy · n) := by
  rw [vkGet, KeyEnv.read, Option.map_map]
  rfl

@[simp] theorem read_vkSet (s : Store) (e e' : KeyEntry) (v : Text) :
    E.read (vkSet s (e.key E.zone) v 0) e' = if e' = e then some v else E.read s e' := by
  unfold KeyEnv.read
  split
  · rename_i h
    rw [h, vkSet_self]
    rfl
  · rename_i h
    rw [vkSet_ne ((KeyEntry.key_injective E.zone).ne h)]

@[simp] theorem read_vkDel (s : Store) (e e' : KeyEntry) :
    E.read (vkDel s (e.key E.zone)) e' = if e' = e then none else E.read s e' := by
  unfold KeyEnv.read
  split
  · rename_i h
    rw [h, vkDel_self]
    rfl
  · rename_i h
    rw [vkDel_ne ((KeyEntry.key_injective E.zone).ne h)]

@[simp] theorem read_none (e : KeyEntry) : E.read (fun _ => none) e = none := rfl

/-! ## The operations -/

section Operations

variable {Q : Unit → KeyState → Prop}

variable {e : KeyEntry}

theorem wp_get {n : Nat} {Q : Option Text → KeyState → Prop} :
    (get e n).wp (E.exec fails) Q s ↔ ∀ v, E.Gives fails s.store e n v → Q v s := by
  constructor
  · intro h v hv
    exact h v s ⟨rfl, hv⟩
  · rintro h v _ ⟨rfl, hv⟩
    exact h v hv

/-- A read that cannot fail. -/
theorem wp_get_stored {n : Nat} {Q : Option Text → KeyState → Prop} (he : ¬ fails e) :
    (get e n).wp (E.exec fails) Q s ↔ Q ((E.read s.store e).map (safeStrcpy · n)) s := by
  rw [wp_get, ← vkGet_key]
  constructor
  · intro h
    exact h _ (.inl rfl)
  · rintro h v (rfl | ⟨hf, -⟩)
    · exact h
    · exact absurd hf he

theorem wp_time {Q : Nat → KeyState → Prop} :
    time.wp (E.exec fails) Q s ↔ Q s.clock s := by
  constructor
  · intro h
    exact h _ _ ⟨rfl, rfl⟩
  · rintro h _ _ ⟨rfl, rfl⟩
    exact h

variable {a : KeyAlg}

theorem wp_keygen {Q : Option Text → KeyState → Prop} :
    (keygen a).wp (E.exec fails) Q s ↔ ∀ v, (∀ p, v = some p → E.Good p) → Q v s := by
  constructor
  · intro h v hv
    exact h v s ⟨rfl, hv⟩
  · rintro h v _ ⟨rfl, hv⟩
    exact h v hv

variable {r : KeyRole}

theorem wp_loaded {Q : Option PrivateKey → KeyState → Prop} :
    (loaded r a).wp (E.exec fails) Q s ↔ Q ((s.mem r).key a) s := by
  constructor
  · intro h
    exact h _ _ ⟨rfl, rfl⟩
  · rintro h _ _ ⟨rfl, rfl⟩
    exact h

theorem wp_look {Q : RoleView → KeyState → Prop} : (look r).wp (E.exec fails) Q s ↔
      Q ⟨(s.mem r).phase, (s.mem r).since, (s.mem r).created, (s.mem .zsk).phase = .none⟩ s := by
  constructor
  · intro h
    exact h _ _ ⟨rfl, rfl⟩
  · rintro h _ _ ⟨rfl, rfl⟩
    exact h

theorem wp_set {v : Text} : (set e v).wp (E.exec fails) Q s ↔
    Q () { s with store := vkSet s.store (e.key E.zone) v 0 } :=
  ⟨fun h => h _ _ rfl, fun h _ _ ht => ht ▸ h⟩

theorem wp_txn {cmds : List KeyCmd} : (txn cmds).wp (E.exec fails) Q s ↔
    Q () { s with store := cmds.foldl (KeyCmd.apply E.zone) s.store } :=
  ⟨fun h => h _ _ rfl, fun h _ _ ht => ht ▸ h⟩

theorem wp_setKey {k : Option PrivateKey} : (setKey r a k).wp (E.exec fails) Q s ↔
      Q () (s.modify r fun m => { m with key := update m.key a k }) :=
  ⟨fun h => h _ _ rfl, fun h _ _ ht => ht ▸ h⟩

theorem wp_setTag {t : Nat} : (setTag r a t).wp (E.exec fails) Q s ↔
      Q () (s.modify r fun m => { m with tag := update m.tag a t }) :=
  ⟨fun h => h _ _ rfl, fun h _ _ ht => ht ▸ h⟩

theorem wp_setCreated {t : Int} : (setCreated r t).wp (E.exec fails) Q s ↔
    Q () (s.modify r fun m => { m with created := t }) :=
  ⟨fun h => h _ _ rfl, fun h _ _ ht => ht ▸ h⟩

theorem wp_install {i : Incoming} : (install r i).wp (E.exec fails) Q s ↔
    Q () (s.modify r fun m =>
      { m with next := i.key, nextTag := i.tag, phase := i.phase, since := i.since }) :=
  ⟨fun h => h _ _ rfl, fun h _ _ ht => ht ▸ h⟩

theorem wp_clear : clear.wp (E.exec fails) Q s ↔
    Q () { s with mem := fun r => { s.mem r with key := fun _ => none } } :=
  ⟨fun h => h _ _ rfl, fun h _ _ ht => ht ▸ h⟩

end Operations

/-! ## Key sets -/

/-- A PEM text that reads as a key. -/
abbrev KeyEnv.Pem (E : KeyEnv) := { p : Text // E.Good p }

/-- One key for each algorithm, as PEM. -/
abbrev KeyEnv.KeySet (E : KeyEnv) := KeyAlg → E.Pem

/-- The set of two keys. -/
def KeyEnv.KeySet.of (p p' : E.Pem) : E.KeySet
  | .p256 => p
  | .ed25519 => p'

/-- The key in a PEM text. -/
def KeyEnv.key (E : KeyEnv) (p : E.Pem) : PrivateKey := (E.readPem p.1).get p.2.read

@[simp] theorem readPem_pem (p : E.Pem) : E.readPem p.1 = some (E.key p) :=
  (some_get p.2.read).symm

@[simp] theorem safeStrcpy_pem (p : E.Pem) : safeStrcpy p.1 maxPem = p.1 :=
  take_of_length_le (by have := p.2.short; omega)

@[simp] theorem usablePem_pem (p : E.Pem) : usablePem (some p.1) = some p.1 := by
  simp [usablePem, filter_some, p.2.long]

@[simp] theorem filled_pem (p : E.Pem) : filled (some p.1) = some p.1 := by
  have hne : p.1 ≠ [] := by
    intro h
    have := p.2.long
    simp [h] at this
  simp [filled, filter_some, hne]

/-! ## The stored phase -/

/-- What is stored of a stage. -/
def stageText (r : KeyRole) : Stage E.KeySet → Option Text
  | .idle => none
  | .first t _ => some (phaseText r .first t)
  | .second t _ => some (phaseText r .second t)

/-- The phase of a stage. -/
def stagePhase : Stage E.KeySet → Phase
  | .idle => .none
  | .first _ _ => .first
  | .second _ _ => .second

theorem stagePhase_eq_none_iff {x : Roll E.KeySet} :
    stagePhase x.stage = .none ↔ x.next? = none := by
  obtain ⟨c, _ | _ | _⟩ := x <;> simp [stagePhase, Roll.next?]

/-- The start of a stage, `0` for none. -/
def stageSince : Stage E.KeySet → Nat
  | .idle => 0
  | .first t _ => t
  | .second t _ => t

/-- The range of `time_t`. -/
def maxTime : Nat := 2 ^ 63

theorem scanPhase_text {w : Text} (hw : w ≠ []) (hlen : w.length < 15) (hbar : bar ∉ w) (t : Nat) :
    scanPhase (w ++ [bar] ++ decimal t) = (w, (t : Int)) := by
  have htake : ((w ++ [bar] ++ decimal t).take 15).takeWhile (· ≠ bar) = w := by
    obtain ⟨n, hn⟩ : ∃ n, 15 - w.length = n + 1 := ⟨14 - w.length, by omega⟩
    rw [append_assoc, take_append, take_of_length_le hlen.le, hn]
    exact (takeWhile_ne_append hbar _).1
  obtain ⟨c, w, rfl⟩ := exists_cons_of_ne_nil hw
  rw [scanPhase, htake]
  simp [atoi_decimal]

variable {r : KeyRole}

theorem length_phaseText_lt {p : Phase} {t : Nat} (ht : t < maxTime) :
    (phaseText r p t).length < 64 := by
  have hdec : (decimal t).length ≤ 19 :=
    length_numeral_le (by decide) (by decide) (ht.trans_le (by decide))
  have hword : (r.phaseWord p).length ≤ 7 := by cases r <;> cases p <;> decide
  simp only [phaseText, length_append, length_singleton]
  omega

/-- **The stored phase reads back.** -/
theorem readPhase_stageText (r : KeyRole) (g : Stage E.KeySet) (hg : stageSince g < maxTime) :
    r.readPhase ((stageText r g).map (safeStrcpy · 64)) = (stagePhase g, (stageSince g : Int)) := by
  have hread : ∀ p : Phase, p ≠ .none → ∀ t < maxTime,
      r.readPhase (some (safeStrcpy (phaseText r p t) 64)) = (p, (t : Int)) := by
    intro p hp t ht
    have hcopy : safeStrcpy (phaseText r p t) 64 = phaseText r p t :=
      take_of_length_le (by have := length_phaseText_lt (r := r) (p := p) ht; omega)
    have hfill : filled (some (phaseText r p t)) = some (phaseText r p t) := by
      simp [filled, filter_some, phaseText]
    have hscan : scanPhase (phaseText r p t) = (r.phaseWord p, (t : Int)) := by
      refine scanPhase_text ?_ ?_ ?_ t
      · cases r <;> cases p <;> first | exact absurd rfl hp | decide
      · cases r <;> cases p <;> decide
      · cases r <;> cases p <;> decide
    have hof : r.phaseOf (r.phaseWord p) = p := by
      cases r <;> cases p <;> first | exact absurd rfl hp | decide
    rw [KeyRole.readPhase, hcopy, hfill]
    simp only [hscan, hof]
  cases g with
  | idle => rfl
  | first t n => exact hread .first (by decide) t hg
  | second t n => exact hread .second (by decide) t hg

/-! ## What store and memory hold -/

/-- The store holds this state of the role's rollover. -/
structure Stored (E : KeyEnv) (r : KeyRole) (x : Roll E.KeySet) (s : Store) : Prop where
  current : ∀ a, E.read s (.current r a) = some (x.cur a).1
  next : ∀ a, E.read s (.next r a) = x.next?.map fun n => (n a).1
  rollover : E.read s (.rollover r) = stageText r x.stage
  since_lt : stageSince x.stage < maxTime

/-- The memory of a role that was loaded from this state. -/
def loadedMem (E : KeyEnv) (r : KeyRole) (x : Roll E.KeySet) (created : Int) : RoleMem where
  key a := some (E.key (x.cur a))
  tag a := initTag a (E.key (x.cur a))
  next a := x.next?.map fun n => E.key (n a)
  nextTag a := (x.next?.map fun n => (E.key (n a)).tag r.flags a).getD 0
  phase := stagePhase x.stage
  since := stageSince x.stage
  created := created

/-- The current keys of a role are loaded. -/
structure CurrentIn (E : KeyEnv) (x : Roll E.KeySet) (m : RoleMem) : Prop where
  key : ∀ a, m.key a = some (E.key (x.cur a))
  tag : ∀ a, m.tag a = initTag a (E.key (x.cur a))

/-- Entries and clock are as before. -/
structure Unchanged (E : KeyEnv) (P : KeyEntry → Prop) (s s' : KeyState) : Prop where
  read : ∀ e, P e → E.read s'.store e = E.read s.store e
  clock : s'.clock = s.clock

/-- **Between two activities** store and memory agree on the state of both rollovers. -/
structure Quiet (E : KeyEnv) (x : KeyRole → Roll E.KeySet) (s : KeyState) : Prop where
  stored : ∀ r, Stored E r (x r) s.store
  loaded : ∀ r, ∃ created, s.mem r = loadedMem E r (x r) created
  clock_lt : s.clock < maxTime

section Facts

variable {P : KeyEntry → Prop} {s s' s'' : KeyState} {r : KeyRole} {x : Roll E.KeySet}

theorem Unchanged.refl (s : KeyState) : Unchanged E P s s := ⟨fun _ _ => rfl, rfl⟩

theorem Unchanged.trans (h : Unchanged E P s s') (h' : Unchanged E P s' s'') :
    Unchanged E P s s'' :=
  ⟨fun e he => (h'.read e he).trans (h.read e he), h'.clock.trans h.clock⟩

theorem Unchanged.mono {P' : KeyEntry → Prop} (h : Unchanged E P s s') (hP : ∀ e, P' e → P e) :
    Unchanged E P' s s' :=
  ⟨fun e he => h.read e (hP e he), h.clock⟩

/-- Writing an entry leaves the others. -/
theorem Unchanged.set {e : KeyEntry} {v : Text} (he : ¬ P e) :
    Unchanged E P s { s with store := vkSet s.store (e.key E.zone) v 0 } := by
  refine ⟨fun e' he' => ?_, rfl⟩
  rw [read_vkSet, if_neg]
  rintro rfl
  exact he he'

theorem Unchanged.txn {cmds : List KeyCmd} (h : ∀ c ∈ cmds, ¬ P c.entry) :
    Unchanged E P s { s with store := cmds.foldl (KeyCmd.apply E.zone) s.store } := by
  refine ⟨fun e he => ?_, rfl⟩
  -- the commands one by one, each on the store the previous one left
  generalize s.store = st
  induction cmds generalizing st with
  | nil => rfl
  | cons c cmds ih =>
    have hne : e ≠ c.entry := by
      rintro rfl
      exact h c mem_cons_self he
    have hstep : E.read (KeyCmd.apply E.zone st c) e = E.read st e := by
      cases c with
      | set e' v => exact (read_vkSet ..).trans (if_neg hne)
      | del e' => exact (read_vkDel ..).trans (if_neg hne)
    exact (ih (fun c hc => h c (mem_cons_of_mem _ hc)) _).trans hstep

theorem Unchanged.modify {f : RoleMem → RoleMem} : Unchanged E P s (s.modify r f) :=
  ⟨fun _ _ => rfl, rfl⟩

theorem Stored.of_unchanged (h : Stored E r x s.store) (hs : Unchanged E P s s')
    (hP : ∀ e, e.IsKey → e.role = r → P e) : Stored E r x s'.store where
  current a := (hs.read _ (hP (.current r a) trivial rfl)).trans (h.current a)
  next a := (hs.read _ (hP (.next r a) trivial rfl)).trans (h.next a)
  rollover := (hs.read _ (hP (.rollover r) trivial rfl)).trans h.rollover
  since_lt := h.since_lt

/-- The state of a role's rollover is loaded beside its current keys. -/
theorem CurrentIn.loadedMem_eq {m : RoleMem} (h : CurrentIn E x m) (c : Int) :
    { loadedMem E r x c with key := m.key, tag := m.tag } = loadedMem E r x c := by
  rw [funext h.key, funext h.tag]
  rfl

/-- Writing an entry that is neither a key nor a phase. -/
theorem Quiet.set {x : KeyRole → Roll E.KeySet} (h : Quiet E x s) {e : KeyEntry} (he : ¬ e.IsKey)
    (v : Text) : Quiet E x { s with store := vkSet s.store (e.key E.zone) v 0 } where
  stored r := (h.stored r).of_unchanged (P := KeyEntry.IsKey) (.set he) fun _ hk _ => hk
  loaded := h.loaded
  clock_lt := h.clock_lt

theorem Quiet.currentIn {x : KeyRole → Roll E.KeySet} (h : Quiet E x s) (r : KeyRole) :
    CurrentIn E (x r) (s.mem r) := by
  obtain ⟨c, hc⟩ := h.loaded r
  rw [hc]
  exact ⟨fun _ => rfl, fun _ => rfl⟩

end Facts

/-! ## Loading -/

section Loading

variable {r : KeyRole} {a : KeyAlg} {x : Roll E.KeySet} {Q : Unit → KeyState → Prop}

@[simp] theorem modify_mem_self (s : KeyState) (r : KeyRole) (f : RoleMem → RoleMem) :
    (s.modify r f).mem r = f (s.mem r) :=
  update_self ..

theorem modify_mem_ne {r' : KeyRole} {f : RoleMem → RoleMem} (h : r' ≠ r) :
    (s.modify r f).mem r' = s.mem r' :=
  update_of_ne h ..

/-- A stored key is loaded with the tag of a zone-signing key. -/
theorem wp_dnssecInitKey {p : E.Pem} (hp : E.read s.store (.current r a) = some p.1)
    (hf : ¬ fails (.current r a))
    (hQ : Q () ((s.modify r fun m =>
      { m with key := update m.key a (some (E.key p)) }).modify r fun m =>
        { m with tag := update m.tag a (initTag a (E.key p)) })) :
    (dnssecInitKey E r a).wp (E.exec fails) Q s := by
  rw [dnssecInitKey, wp_bind, adoptPem, wp_bind, wp_get_stored hf, hp]
  simp only [map_some, safeStrcpy_pem, usablePem_pem, Prog.wp_pure]
  rw [parsePem, wp_bind, readPem_pem, wp_setKey, wp_bind, wp_loaded]
  simp only [modify_mem_self, update_self]
  rwa [wp_setTag]

theorem wp_loadCreated
    (hQ : ∀ c s', Unchanged E (· ≠ .created r) s s' →
      s'.mem = (s.modify r fun m => { m with created := c }).mem → Q () s') :
    (loadCreated r).wp (E.exec fails) Q s := by
  rw [loadCreated, wp_bind, wp_get]
  intro v _
  cases filled v with
  | some v =>
    rw [wp_setCreated]
    exact hQ _ _ .modify rfl
  | none =>
    rw [wp_bind, wp_time, wp_bind, wp_setCreated, wp_set]
    exact hQ _ _ (.trans .modify (.set fun h => h rfl)) rfl

theorem wp_dnssecLoadExisting {p : E.Pem} {Q : Option (PrivateKey × Nat) → KeyState → Prop}
    (hp : E.read s.store (.next r a) = some p.1) (hf : ¬ fails (.next r a)) :
    (dnssecLoadExisting E r a).wp (E.exec fails) Q s ↔
      Q (some (E.key p, (E.key p).tag r.flags a)) s := by
  rw [dnssecLoadExisting, wp_bind, wp_get_stored hf, hp]
  simp [safeStrcpy_pem, usablePem_pem, readPem_pem, Prog.wp_pure]

/-- The state of a rollover is loaded as it is stored. -/
theorem wp_rolloverLoad (hs : Stored E r x s.store) (hf : ∀ e, fails e → ¬ e.IsKey)
    (hQ : ∀ c s', Unchanged E (· ≠ .created r) s s' →
      s'.mem = (s.modify r fun m =>
        { loadedMem E r x c with key := m.key, tag := m.tag }).mem → Q () s') :
    (rolloverLoad E r).wp (E.exec fails) Q s := by
  have hroll : ¬ fails (.rollover r) := fun h => hf _ h trivial
  have hnext : ∀ a, ¬ fails (.next r a) := fun a h => hf _ h trivial
  rw [rolloverLoad]
  refine Prog.wp_bind.mpr (wp_loadCreated fun c t ht hmem => ?_)
  have hst : Stored E r x t.store := hs.of_unchanged ht (by rintro _ h - rfl; exact h)
  have hphase : r.readPhase ((E.read t.store (.rollover r)).map (safeStrcpy · 64)) =
      (stagePhase x.stage, (stageSince x.stage : Int)) := by
    rw [hst.rollover]
    exact readPhase_stageText r x.stage hst.since_lt
  -- what is installed leaves the memory as it is loaded from the stored state
  have hdone : ∀ i : Incoming, (∀ a, i.key a = (loadedMem E r x c).next a) →
      (∀ a, i.tag a = (loadedMem E r x c).nextTag a) → i.phase = stagePhase x.stage →
      i.since = stageSince x.stage → (install r i).wp (E.exec fails) Q t := by
    rintro ⟨key, tag, phase, since⟩ hkey htag hph hsi
    obtain rfl := funext hkey
    obtain rfl := funext htag
    obtain rfl : phase = _ := hph
    obtain rfl : since = _ := hsi
    rw [wp_install]
    refine hQ c _ (.trans ht .modify) ?_
    simp only [KeyState.modify, hmem, update_self, update_idem]
    rfl
  rw [wp_bind, wp_get_stored hroll, hphase]
  cases hn : x.next? with
  | none =>
    have hidle := stagePhase_eq_none_iff.mpr hn
    rw [if_pos hidle]
    refine hdone _ (fun _ => ?_) (fun _ => ?_) hidle.symm rfl
    · simp only [loadedMem, hn, map_none]
    · simp only [loadedMem, hn, map_none, getD_none]
  | some n =>
    have hread : ∀ a, E.read t.store (.next r a) = some (n a).1 := by
      intro a
      rw [hst.next a, hn, map_some]
    rw [if_neg fun h => by simp [stagePhase_eq_none_iff.mp h] at hn, wp_bind,
      wp_dnssecLoadExisting (hread .p256) (hnext .p256), wp_bind,
      wp_dnssecLoadExisting (hread .ed25519) (hnext .ed25519)]
    refine hdone _ ?_ ?_ rfl rfl
    · rintro (_ | _) <;> simp [incoming, loadedMem, hn]
    · rintro (_ | _) <;> simp [incoming, loadedMem, hn]

end Loading

/-- The entries that loading does not write. -/
def KeyEntry.IsDurable (e : KeyEntry) : Prop := e.IsKey ∨ e.IsHold

section Zone

variable {x : KeyRole → Roll E.KeySet} {Q : Unit → KeyState → Prop}

theorem Unchanged.durable {r : KeyRole} {s' : KeyState} (h : Unchanged E (· ≠ .created r) s s') :
    Unchanged E KeyEntry.IsDurable s s' := by
  refine h.mono ?_
  rintro _ (hk | hk) rfl <;> exact hk

variable (hf : ∀ e, fails e → ¬ e.IsKey)

include hf

theorem wp_zoneRolloverLoad (hs : ∀ r, Stored E r (x r) s.store)
    (hcur : ∀ r, CurrentIn E (x r) (s.mem r)) (hclock : s.clock < maxTime)
    (hQ : ∀ s', Quiet E x s' → Unchanged E KeyEntry.IsDurable s s' → Q () s') :
    (zoneRolloverLoad E).wp (E.exec fails) Q s := by
  rw [zoneRolloverLoad]
  refine Prog.wp_bind.mpr (wp_rolloverLoad (hs .zsk) hf fun c t ht hmem => ?_)
  have hst : ∀ r, Stored E r (x r) t.store := fun r =>
    (hs r).of_unchanged ht.durable fun _ hk _ => .inl hk
  refine wp_rolloverLoad (hst .ksk) hf fun c' u hu hmem' => ?_
  have hall := ht.durable.trans hu.durable
  refine hQ u ⟨fun r => (hs r).of_unchanged hall fun _ hk _ => .inl hk, fun r => ?_,
    hall.clock ▸ hclock⟩ hall
  cases r with
  | zsk =>
    refine ⟨c, ?_⟩
    rw [hmem', modify_mem_ne (by decide), hmem, modify_mem_self]
    exact (hcur .zsk).loadedMem_eq c
  | ksk =>
    refine ⟨c', ?_⟩
    rw [hmem', modify_mem_self, hmem, modify_mem_ne (by decide)]
    exact (hcur .ksk).loadedMem_eq c'

section

variable (hs : ∀ r, Stored E r (x r) s.store) (hclock : s.clock < maxTime)
  (hQ : ∀ s', Quiet E x s' → Unchanged E KeyEntry.IsDurable s s' → Q () s')

include hs hclock hQ

/-- **Loading a zone** brings memory and store together, whatever the memory was. -/
theorem wp_zoneDnssecInit : (zoneDnssecInit E).wp (E.exec fails) Q s := by
  have hcur : ∀ r a, ¬ fails (.current r a) := fun r a h => hf _ h trivial
  -- the loads of the current keys leave store and clock
  have hload : ∀ t : KeyState, t.store = s.store → t.clock = s.clock →
      (∀ r, CurrentIn E (x r) (t.mem r)) → (zoneRolloverLoad E).wp (E.exec fails) Q t := by
    intro t hstore htime hin
    refine wp_zoneRolloverLoad hf (hstore ▸ hs) hin (htime ▸ hclock) fun s' hq hu => hQ s' hq ?_
    exact ⟨fun e he => hstore ▸ hu.read e he, hu.clock.trans htime⟩
  rw [zoneDnssecInit]
  refine Prog.wp_bind.mpr (wp_dnssecInitKey ((hs .zsk).current .p256) (hcur _ _) ?_)
  refine Prog.wp_bind.mpr (wp_dnssecInitKey ((hs .zsk).current .ed25519) (hcur _ _) ?_)
  refine Prog.wp_bind.mpr (wp_dnssecInitKey ((hs .ksk).current .p256) (hcur _ _) ?_)
  refine Prog.wp_bind.mpr (wp_dnssecInitKey ((hs .ksk).current .ed25519) (hcur _ _) ?_)
  refine hload _ rfl rfl ?_
  rintro (_ | _)
  · constructor <;> rintro (_ | _) <;> simp [KeyState.modify]
  · constructor <;> rintro (_ | _) <;> simp [KeyState.modify]

theorem wp_zoneDnssecReload : (zoneDnssecReload E).wp (E.exec fails) Q s := by
  rw [zoneDnssecReload, wp_bind, wp_clear]
  exact wp_zoneDnssecInit hf hs hclock fun s' hq hu => hQ s' hq ⟨hu.read, hu.clock⟩

end

end Zone

/-! ## Settings -/

/-- The values `roll_cfg` can return. -/
def KeyEnv.CfgGives (E : KeyEnv) (fails : KeyEntry → Prop) (s : Store) (r : KeyRole) (k : Knob)
    (v : Int) : Prop :=
  ∃ own shared, E.Gives fails s (.zoneConfig r k) 64 own ∧ E.Gives fails s (.config r k) 64 shared ∧
    v = ((filled own <|> filled shared).map atoi).getD k.default

theorem wp_rollCfg {k : Knob} {Q : Int → KeyState → Prop}
    (hQ : ∀ v, E.CfgGives fails s.store r k v → Q v s) : (rollCfg r k).wp (E.exec fails) Q s := by
  rw [rollCfg, wp_bind, wp_get]
  intro own hown
  cases ho : filled own with
  | some v =>
    refine hQ _ ⟨own, _, hown, .inl rfl, ?_⟩
    rw [ho]
    rfl
  | none =>
    rw [wp_bind, wp_get]
    intro shared hshared
    cases hs : filled shared with
    | some v | none =>
      refine hQ _ ⟨own, shared, hown, hshared, ?_⟩
      rw [ho, hs]
      rfl

/-- The holds are at least these, whatever reads fail. -/
structure Floors (E : KeyEnv) (fails : KeyEntry → Prop) (h₁ h₂ : KeyRole → Int) (s : Store) :
    Prop where
  publish : ∀ r v, E.CfgGives fails s r .publishHold v → h₁ r ≤ v
  commit : ∀ r v, E.CfgGives fails s r .commitHold v → h₂ r ≤ v

theorem KeyEnv.CfgGives.of_unchanged {s' : KeyState} {k : Knob} {v : Int}
    (h : E.CfgGives fails s'.store r k v) (hs : Unchanged E KeyEntry.IsHold s s')
    (hk : (KeyEntry.zoneConfig r k).IsHold ∧ (KeyEntry.config r k).IsHold) :
    E.CfgGives fails s.store r k v := by
  obtain ⟨own, shared, hown, hshared, hv⟩ := h
  have hread : ∀ e : KeyEntry, e.IsHold → ∀ v, E.Gives fails s'.store e 64 v →
      E.Gives fails s.store e 64 v := by
    intro e he v hv
    rwa [KeyEnv.Gives, vkGet_key, ← hs.read e he, ← vkGet_key]
  exact ⟨own, shared, hread _ hk.1 _ hown, hread _ hk.2 _ hshared, hv⟩

theorem Floors.of_unchanged {h₁ h₂ : KeyRole → Int} {s' : KeyState}
    (h : Floors E fails h₁ h₂ s.store) (hs : Unchanged E KeyEntry.IsHold s s') :
    Floors E fails h₁ h₂ s'.store where
  publish r v hv := h.publish r v (hv.of_unchanged hs ⟨trivial, trivial⟩)
  commit r v hv := h.commit r v (hv.of_unchanged hs ⟨trivial, trivial⟩)

/-! ## The engine -/

section Engine

variable {x : KeyRole → Roll E.KeySet} {r : KeyRole} {Q : Unit → KeyState → Prop}

/-- The entries a transaction of the role leaves alone. -/
def KeyEntry.IsOutside (r : KeyRole) (e : KeyEntry) : Prop := e.role ≠ r ∨ e.IsHold

variable {y : Roll E.KeySet} {s' : KeyState}

/-- A transaction of one role, and the load behind it: the other role is as before. -/
theorem Quiet.stored_of_txn (h : Quiet E x s) (hs : Unchanged E (KeyEntry.IsOutside r) s s')
    (hy : Stored E r y s'.store) (r' : KeyRole) :
    Stored E r' (update x r y r') s'.store := by
  by_cases hr : r' = r
  · subst hr
    rwa [update_self]
  · rw [update_of_ne hr]
    refine (h.stored r').of_unchanged hs ?_
    rintro e - rfl
    exact .inl hr

theorem Unchanged.hold {s'' : KeyState} (h : Unchanged E (KeyEntry.IsOutside r) s s')
    (h' : Unchanged E KeyEntry.IsDurable s' s'') : Unchanged E KeyEntry.IsHold s s'' :=
  (h.mono fun _ he => .inr he).trans (h'.mono fun _ he => .inr he)

/-- What one role's part of `rollover_tick` does: a step of the two-stage replacement. -/
def Stepped (E : KeyEnv) (h₁ h₂ : KeyRole → Int) (x : KeyRole → Roll E.KeySet) (r : KeyRole)
    (s s' : KeyState) : Prop :=
  ∃ y, Roll.Step (h₁ r) (h₂ r) s.clock (x r) y ∧ Quiet E (update x r y) s' ∧
    Unchanged E KeyEntry.IsHold s s'

variable {h₁ h₂ : KeyRole → Int}

theorem Stepped.stay (hq : Quiet E x s) : Stepped E h₁ h₂ x r s s :=
  ⟨x r, .stay _, by rwa [update_eq_self], .refl s⟩

/-- Recording the handled request. -/
theorem Stepped.set (h : Stepped E h₁ h₂ x r s s') (v : Text) : Stepped E h₁ h₂ x r s
      { s' with store := vkSet s'.store ((KeyEntry.seen r).key E.zone) v 0 } := by
  obtain ⟨y, hy, hq, hu⟩ := h
  exact ⟨y, hy, hq.set id v, hu.trans (.set id)⟩

variable (hf : ∀ e, fails e → ¬ e.IsKey) (hq : Quiet E x s)

include hf hq

section

variable {cmds : List KeyCmd} (hcmds : ∀ c ∈ cmds, ¬ KeyEntry.IsOutside r c.entry)
  (hy : Stored E r y (cmds.foldl (KeyCmd.apply E.zone) s.store))

include hcmds hy

/-- A transaction that keeps the current keys, and the load behind it. -/
theorem wp_txn_load (hcur : y.cur = (x r).cur)
    (hQ : ∀ s', Quiet E (update x r y) s' → Unchanged E KeyEntry.IsHold s s' → Q () s') :
    (txn cmds >>= fun _ => zoneRolloverLoad E).wp (E.exec fails) Q s := by
  rw [wp_bind, wp_txn]
  have hout := Unchanged.txn (E := E) (s := s) hcmds
  refine wp_zoneRolloverLoad hf (hq.stored_of_txn hout hy) (fun r' => ?_) hq.clock_lt
    fun s' hq' hu => hQ s' hq' (hout.hold hu)
  by_cases hr : r' = r
  · subst hr
    rw [update_self]
    refine ⟨fun a => ?_, fun a => ?_⟩
    · rw [hcur]
      exact (hq.currentIn r').key a
    · rw [hcur]
      exact (hq.currentIn r').tag a
  · rw [update_of_ne hr]
    exact hq.currentIn r'

/-- A transaction, and the reload of the zone behind it. -/
theorem wp_txn_reload
    (hQ : ∀ s', Quiet E (update x r y) s' → Unchanged E KeyEntry.IsHold s s' → Q () s') :
    (txn cmds >>= fun _ => zoneDnssecReload E).wp (E.exec fails) Q s := by
  rw [wp_bind, wp_txn]
  have hout := Unchanged.txn (E := E) (s := s) hcmds
  exact wp_zoneDnssecReload hf (hq.stored_of_txn hout hy) hq.clock_lt
    fun s' hq' hu => hQ s' hq' (hout.hold hu)

end

theorem wp_rolloverStart (hstay : Q () s)
    (hQ : ∀ n s', Quiet E (update x r ⟨(x r).cur, .first s.clock n⟩) s' →
      Unchanged E KeyEntry.IsHold s s' → Q () s') :
    (rolloverStart E r).wp (E.exec fails) Q s := by
  rw [rolloverStart, wp_bind, wp_keygen]
  rintro (_ | p₁) hp₁
  · exact hstay
  rw [wp_bind, wp_keygen]
  rintro (_ | p₂) hp₂
  · exact hstay
  rw [wp_bind, wp_time]
  let n : E.KeySet := KeyEnv.KeySet.of ⟨p₁, hp₁ p₁ rfl⟩ ⟨p₂, hp₂ p₂ rfl⟩
  refine wp_txn_load (r := r) (y := ⟨(x r).cur, .first s.clock n⟩) hf hq ?_ ?_ rfl (hQ n)
  · simp [KeyCmd.entry, KeyEntry.IsOutside, KeyEntry.role, KeyEntry.IsHold]
  · refine ⟨fun a => ?_, ?_, ?_, hq.clock_lt⟩
    · simpa [KeyCmd.apply] using (hq.stored r).current a
    · rintro (_ | _) <;> simp [KeyCmd.apply, Roll.next?, n, KeyEnv.KeySet.of]
    · simp [KeyCmd.apply, stageText]

theorem wp_rolloverAdvance {t : Nat} {n : E.KeySet} (hx : (x r).stage = .first t n)
    (hQ : ∀ s', Quiet E (update x r ⟨(x r).cur, .second s.clock n⟩) s' →
      Unchanged E KeyEntry.IsHold s s' → Q () s') :
    (rolloverAdvance E r).wp (E.exec fails) Q s := by
  rw [rolloverAdvance, wp_bind, wp_time]
  refine wp_txn_load (r := r) (y := ⟨(x r).cur, .second s.clock n⟩) hf hq ?_ ?_ rfl hQ
  · simp [KeyCmd.entry, KeyEntry.IsOutside, KeyEntry.role, KeyEntry.IsHold]
  · refine ⟨fun a => ?_, fun a => ?_, ?_, hq.clock_lt⟩
    · simpa [KeyCmd.apply] using (hq.stored r).current a
    · simpa [KeyCmd.apply, Roll.next?, hx] using (hq.stored r).next a
    · simp [KeyCmd.apply, stageText]

/-- **The end of a rollover**, where both incoming keys are read: they become the current keys. -/
theorem wp_rolloverFinish {t : Nat} {n : E.KeySet} (hx : (x r).stage = .second t n)
    (hQ : ∀ s', Quiet E (update x r ⟨n, .idle⟩) s' →
      Unchanged E KeyEntry.IsHold s s' → Q () s') :
    (rolloverFinish E r).wp (E.exec fails) Q s := by
  have hnext : ∀ a, ¬ fails (.next r a) := fun a h => hf _ h trivial
  have hread : ∀ a, E.read s.store (.next r a) = some (n a).1 := by
    intro a
    rw [(hq.stored r).next a]
    simp [Roll.next?, hx]
  rw [rolloverFinish, wp_bind, wp_get_stored (hnext _), hread, wp_bind,
    wp_get_stored (hnext _), hread, wp_bind, wp_time]
  simp only [map_some, safeStrcpy_pem, promote, filled_pem]
  refine wp_txn_reload (r := r) (y := ⟨n, .idle⟩) hf hq ?_ ?_ hQ
  · simp [KeyCmd.entry, KeyEntry.IsOutside, KeyEntry.role, KeyEntry.IsHold]
  · refine ⟨?_, ?_, ?_, Nat.two_pow_pos 63⟩
    · rintro (_ | _) <;> simp [KeyCmd.apply]
    · rintro (_ | _) <;> simp [KeyCmd.apply, Roll.next?]
    · simp [KeyCmd.apply, stageText]

theorem wp_tickIdle {v : RoleView} {now : Nat} (hx : (x r).stage = .idle) :
    (tickIdle E r v now).wp (E.exec fails) (fun _ s' => Stepped E h₁ h₂ x r s s') s := by
  rw [tickIdle]
  refine Prog.wp_bind.mpr (wp_rollCfg fun req _ => ?_)
  rw [wp_bind, wp_get]
  intro seen _
  refine Prog.wp_bind.mpr (wp_rollCfg fun validity _ => ?_)
  have hstart : (rolloverStart E r).wp (E.exec fails) (fun _ s' => Stepped E h₁ h₂ x r s s') s := by
    refine wp_rolloverStart hf hq (.stay hq) fun n s' hq' hu => ⟨_, ?_, hq', hu⟩
    have hxr : x r = ⟨(x r).cur, .idle⟩ := by rw [← hx]
    rw [hxr]
    exact .start _ n
  dsimp only
  split
  · refine Prog.wp_seq hstart fun _ s' hs' => ?_
    split
    · rw [wp_set]
      exact hs'.set _
    · exact hs'
  · exact .stay hq

/-- **One role's part of a tick** is a step of the two-stage replacement. -/
theorem wp_tickRole (hh : Floors E fails h₁ h₂ s.store) :
    (tickRole E r s.clock).wp (E.exec fails) (fun _ s' => Stepped E h₁ h₂ x r s s') s := by
  obtain ⟨c, hmem⟩ := hq.loaded r
  rw [tickRole, wp_bind, wp_look, hmem]
  have hxr : x r = ⟨(x r).cur, (x r).stage⟩ := rfl
  cases hx : (x r).stage with
  | idle =>
    simp only [loadedMem, hx, stagePhase]
    exact wp_tickIdle hf hq hx
  | first t n =>
    simp only [loadedMem, hx, stagePhase, stageSince]
    refine Prog.wp_bind.mpr (wp_rollCfg fun hold hhold => ?_)
    split
    · refine wp_rolloverAdvance hf hq hx fun s' hq' hu => ⟨_, ?_, hq', hu⟩
      have := hh.publish r hold hhold
      rw [hxr, hx]
      exact .advance _ n (by omega)
    · exact .stay hq
  | second t n =>
    simp only [loadedMem, hx, stagePhase, stageSince]
    refine Prog.wp_bind.mpr (wp_rollCfg fun hold hhold => ?_)
    split
    · refine wp_rolloverFinish hf hq hx fun s' hq' hu => ⟨_, ?_, hq', hu⟩
      have := hh.commit r hold hhold
      rw [hxr, hx]
      exact .finish _ n (by omega)
    · exact .stay hq

/-- **A tick** is at most one step of each rollover, and leaves store and memory together. -/
theorem wp_rolloverTick (hh : Floors E fails h₁ h₂ s.store) :
    (rolloverTick E).wp (E.exec fails) (fun _ s' => ∃ y,
      (∀ r, Roll.Step (h₁ r) (h₂ r) s.clock (x r) (y r)) ∧ Quiet E y s' ∧
        Unchanged E KeyEntry.IsHold s s') s := by
  rw [rolloverTick, wp_bind, wp_time]
  refine Prog.wp_seq (wp_tickRole (r := .zsk) hf hq hh) ?_
  rintro _ t ⟨y, hy, hq', hu⟩
  have hksk := wp_tickRole (r := .ksk) hf hq' (hh.of_unchanged hu)
  rw [hu.clock] at hksk
  refine Prog.wp_mono hksk ?_
  rintro _ s' ⟨z, hz, hq'', hu'⟩
  rw [hu.clock] at hz
  refine ⟨_, ?_, hq'', hu.trans hu'⟩
  rintro (_ | _)
  · simpa using hy
  · simpa using hz

end Engine

end SimpleDns.Server
