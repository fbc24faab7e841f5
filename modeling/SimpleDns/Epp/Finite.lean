import SimpleDns.Epp.Run

/-!
# Runs on a store of finitely many keys

`Shelf` is a registry that computes: a list of keys with their cells, the clock, and whether every
command so far could be sent. An operation answers as Valkey does, a listing is in the order of the
list, and each reading of the clock lets some seconds pass.

* **`exec_choose`**: what a shelf answers is an answer of the environment, with no fault and, as
  long as `sent` holds, no command that is too long.
* **`history_play`**: a play of frames and ticks on a shelf is a run.
-/

namespace SimpleDns.Epp

open Wire Lib Server List

/-! ## Cells -/

/-- The store of a list of cells. -/
def storeOf (cells : List (Text × Cell)) : Store := fun k => cells.lookup k

/-- The list with another cell at a key, or with none. -/
def putCell (cells : List (Text × Cell)) (key : Text) (c : Option Cell) : List (Text × Cell) :=
  c.toList.map (fun c => (key, c)) ++ cells.filter fun x => x.1 != key

variable {cells : List (Text × Cell)} {k : Text}

theorem lookup_filter_ne {key : Text} (h : k ≠ key) :
    (cells.filter fun x => x.1 != key).lookup k = cells.lookup k := by
  induction cells with
  | nil => rfl
  | cons x cells ih =>
    by_cases hx : x.1 = key
    · have hk : (k == x.1) = false := beq_eq_false_iff_ne.mpr fun heq => h (heq.trans hx)
      rw [filter_cons_of_neg (by simp [hx]), ih]
      obtain ⟨x₁, x₂⟩ := x
      rw [lookup_cons, hk]
    · rw [filter_cons_of_pos (by simp [hx])]
      obtain ⟨x₁, x₂⟩ := x
      rw [lookup_cons, lookup_cons, ih]

theorem lookup_filter_self {key : Text} : (cells.filter fun x => x.1 != key).lookup key = none := by
  rw [lookup_eq_none_iff]
  intro x hx
  have hne := (mem_filter.mp hx).2
  rw [bne_iff_ne] at hne
  exact bne_iff_ne.mpr fun heq => hne heq.symm

theorem storeOf_putCell (cells : List (Text × Cell)) (key : Text) (c : Option Cell) :
    storeOf (putCell cells key c) = Function.update (storeOf cells) key c := by
  funext k
  unfold storeOf putCell
  by_cases hk : k = key
  · subst hk
    rw [Function.update_self]
    cases c with
    | none => exact lookup_filter_self
    | some c => exact lookup_cons_self
  · rw [Function.update_of_ne hk]
    have hbeq : (k == key) = false := beq_eq_false_iff_ne.mpr hk
    cases c with
    | none => exact lookup_filter_ne hk
    | some c =>
      change lookup k ((key, c) :: cells.filter fun x => x.1 != key) = _
      rw [lookup_cons, hbeq]
      exact lookup_filter_ne hk

/-- A command on the cells. -/
def Cmd.onCells (cells : List (Text × Cell)) : Cmd → List (Text × Cell)
  | set key val => putCell cells key (some (leaseCell val 0))
  | del key => putCell cells key none
  | incr key => putCell cells key (incrCell (storeOf cells key))

theorem storeOf_onCells (cells : List (Text × Cell)) (c : Cmd) :
    storeOf (c.onCells cells) = c.apply (storeOf cells) := by
  cases c with
  | set key val | del key | incr key => exact storeOf_putCell _ _ _

theorem storeOf_foldl (cmds : List Cmd) (cells : List (Text × Cell)) :
    storeOf (cmds.foldl Cmd.onCells cells) = cmds.foldl Cmd.apply (storeOf cells) := by
  induction cmds generalizing cells with
  | nil => rfl
  | cons c cmds ih => rw [foldl_cons, foldl_cons, ih, storeOf_onCells]

theorem storeOf_isSome : (storeOf cells k).isSome ↔ k ∈ cells.map Prod.fst := by
  unfold storeOf
  induction cells with
  | nil => simp
  | cons x cells ih =>
    obtain ⟨x₁, x₂⟩ := x
    by_cases hk : k = x₁
    · subst hk
      simp
    · have hbeq : (k == x₁) = false := beq_eq_false_iff_ne.mpr hk
      rw [lookup_cons, hbeq, map_cons, mem_cons, ih]
      exact ⟨.inr, fun h => h.resolve_left hk⟩

/-- A key that starts like none of the list is not there. -/
theorem storeOf_eq_none {start : Text} (hk : start <+: k) (h : ∀ x ∈ cells, ¬ start <+: x.1) :
    storeOf cells k = none := by
  rw [← Option.not_isSome_iff_eq_none, storeOf_isSome]
  intro hmem
  obtain ⟨x, hx, rfl⟩ := mem_map.mp hmem
  exact h x hx hk

/-! ## Shelves -/

/-- A registry that computes. -/
structure Shelf where
  cells : List (Text × Cell)
  clock : Nat
  roid : UInt32
  sent : Bool
deriving DecidableEq, Repr

def Shelf.db (f : Shelf) : Db := ⟨storeOf f.cells, f.clock, f.roid⟩

/-- Commands as one transaction: all of them if they can be sent. -/
def Shelf.write (f : Shelf) (cmds : List Cmd) : Bool × Shelf :=
  if ∀ c ∈ cmds, fitsCommand c.args then
    (true, { f with cells := cmds.foldl Cmd.onCells f.cells })
  else (false, { f with sent := false })

/-- The keys that start with a text. -/
def Shelf.list (f : Shelf) (start : Text) (maxkeys : Nat) : List Text :=
  (((f.cells.map Prod.fst).filter start.isPrefixOf).map fun k => safeStrcpy k 256).take maxkeys

/-- The answers of a shelf, where the clock moves on by `pass` seconds at each reading. -/
def Shelf.choose (pass : Nat) (f : Shelf) : (o : Op) → o.Res × Shelf
  | .get key olen => (vkGet (storeOf f.cells) key olen, f)
  | .set key val => f.write [.set key val]
  | .del key => f.write [.del key]
  | .incr key => f.write [.incr key]
  | .scan start maxkeys => (some (f.list start maxkeys), f)
  | .commit cmds => f.write cmds
  | .time => (f.clock + pass, { f with clock := f.clock + pass })
  | .random => (replicate 16 7, f)
  | .roid => (f.roid + 1, { f with roid := f.roid + 1 })

theorem Shelf.list_lists (f : Shelf) (start : Text) (maxkeys : Nat) :
    Lists f.db.keys start maxkeys (f.list start maxkeys) := by
  refine ⟨(f.cells.map Prod.fst).filter start.isPrefixOf, fun k => ?_, rfl⟩
  rw [mem_filter, isPrefixOf_iff_prefix, and_comm]
  exact and_congr_right fun _ => storeOf_isSome.symm

variable {long : Prop} {pass : Nat}

variable {f : Shelf}

theorem Shelf.sent_write {cmds : List Cmd} (h : (f.write cmds).2.sent = true) :
    f.sent = true ∧ (∀ c ∈ cmds, fitsCommand c.args) ∧
      f.write cmds = (true, { f with cells := cmds.foldl Cmd.onCells f.cells }) := by
  unfold Shelf.write at h ⊢
  by_cases hfits : ∀ c ∈ cmds, fitsCommand c.args
  · rw [if_pos hfits] at h
    exact ⟨h, hfits, if_pos hfits⟩
  · rw [if_neg hfits] at h
    cases h

/-- Commands that were sent. -/
theorem Shelf.exec_write {cmds : List Cmd} (h : (f.write cmds).2.sent = true) :
    ∃ k, Epp.Write (working long) cmds f.db.keys (f.write cmds).1 k ∧
      (f.write cmds).2.db = { f.db with keys := k } := by
  obtain ⟨-, hfits, heq⟩ := Shelf.sent_write h
  rw [heq]
  refine ⟨_, .done hfits, ?_⟩
  simp only [Shelf.db, storeOf_foldl]

theorem Shelf.sent_choose {o : Op} (h : (f.choose pass o).2.sent = true) : f.sent = true := by
  cases o with
  | set key val | del key | incr key | commit cmds => exact (Shelf.sent_write h).1
  | get | scan | time | random | roid => exact h

/-- **What a shelf answers is an answer of the environment.** -/
theorem exec_choose {o : Op} (h : (f.choose pass o).2.sent = true) :
    exec (working long) f.db o (f.choose pass o).1 (f.choose pass o).2.db := by
  cases o with
  | get key olen => exact ⟨rfl, .inl rfl⟩
  | set key val | del key | incr key | commit cmds => exact Shelf.exec_write h
  | scan start maxkeys => exact ⟨rfl, .inl ⟨_, f.list_lists start maxkeys, rfl⟩⟩
  | time => exact ⟨Nat.le_add_right _ _, rfl⟩
  | random | roid => exact ⟨rfl, rfl⟩

theorem Shelf.exec_eval {α : Type} {p : E α} (h : (p.eval (Shelf.choose pass) f).2.sent = true) :
    f.sent = true ∧ p.Exec (exec (working long)) f.db (p.eval (Shelf.choose pass) f).1
      (p.eval (Shelf.choose pass) f).2.db :=
  Prog.exec_eval_abs (Shelf.choose pass) Shelf.db (fun f => f.sent = true)
    (fun _ _ => Shelf.sent_choose) (fun _ _ => exec_choose) p f h

/-! ## Plays -/

/-- A shelf and the sessions. -/
structure Stage where
  shelf : Shelf
  sess : Nat → Session

def Stage.world (g : Stage) : World := ⟨g.shelf.db, g.sess⟩

/-- One action, with the seconds that pass at each reading of the clock. -/
def Stage.play (g : Stage) (pass : Nat) : Action → Stage
  | .frame i xml =>
    let r := (eppDispatch (g.sess i) xml).eval (Shelf.choose pass) g.shelf
    ⟨r.2, Function.update g.sess i r.1.next⟩
  | .tick => ⟨(eppRgpTickScan.eval (Shelf.choose pass) g.shelf).2, g.sess⟩
  | .drop i => ⟨g.shelf, Function.update g.sess i .fresh⟩

variable {g : Stage} {a : Action}

theorem Stage.sent_play (h : (g.play pass a).shelf.sent = true) : g.shelf.sent = true := by
  cases a with
  | frame i xml | tick =>
    have hexec : _ ∧ Prog.Exec (exec (working True)) _ _ _ _ := Shelf.exec_eval h
    exact hexec.1
  | drop i => exact h

theorem Stage.step_play (h : (g.play pass a).shelf.sent = true) :
    Step long a g.world (g.play pass a).world := by
  cases a with
  | frame i xml => exact .frame (Shelf.exec_eval h).2
  | tick => exact .tick (Shelf.exec_eval h).2
  | drop i => exact .drop i _

/-- Actions one after another. -/
def Stage.playAll (g : Stage) : List (Nat × Action) → Stage
  | [] => g
  | a :: as => (g.play a.1 a.2).playAll as

/-- What was done in a play. -/
def Stage.record (g : Stage) : List (Nat × Action) → List (Did Action World)
  | [] => []
  | a :: as => ⟨a.2, g.world, (g.play a.1 a.2).world⟩ :: (g.play a.1 a.2).record as

variable {as : List (Nat × Action)}

theorem Stage.sent_playAll (h : (g.playAll as).shelf.sent = true) : g.shelf.sent = true := by
  induction as generalizing g with
  | nil => exact h
  | cons a as ih => exact Stage.sent_play (ih h)

theorem Stage.history_playAll {init : World} {evs : List (Did Action World)}
    (h : (g.playAll as).shelf.sent = true) (hrun : History (Step long) init evs g.world) :
    History (Step long) init (evs ++ g.record as) (g.playAll as).world := by
  induction as generalizing g evs with
  | nil =>
    rwa [Stage.record, append_nil]
  | cons a as ih =>
    have h : ((g.play a.1 a.2).playAll as).shelf.sent = true := h
    have hrest := ih h (hrun.snoc (Stage.step_play (Stage.sent_playAll h)))
    rwa [append_assoc, singleton_append] at hrest

/-- **A play is a run.** -/
theorem history_play (as : List (Nat × Action)) (h : (g.playAll as).shelf.sent = true) :
    History (Step long) g.world (g.record as) (g.playAll as).world := by
  have hnil : History (Step long) g.world [] g.world := .nil
  exact Stage.history_playAll h hnil

/-- The last action of a play is on record. -/
theorem Stage.mem_record_last (g : Stage) (as : List (Nat × Action)) (pass : Nat) (a : Action) :
    (⟨a, (g.playAll as).world, ((g.playAll as).play pass a).world⟩ : Did Action World) ∈
      g.record (as ++ [(pass, a)]) := by
  induction as generalizing g with
  | nil => exact mem_cons_self
  | cons b as ih => exact mem_cons_of_mem _ (ih _)

/-- **A play with one more action is a run.** -/
theorem history_play_snoc (as : List (Nat × Action)) (pass : Nat) (a : Action)
    (h : ((g.playAll as).play pass a).shelf.sent = true) :
    History (Step long) g.world
      (g.record as ++ [⟨a, (g.playAll as).world, ((g.playAll as).play pass a).world⟩])
      ((g.playAll as).play pass a).world :=
  (history_play as (Stage.sent_play h)).snoc (Stage.step_play h)

/-! ## Frames -/

/-- A frame with one command. -/
def frameOf (cmd : Bytes) : Bytes := element (lit "epp") (element (lit "command") cmd)

/-- A frame with one operation on one object. -/
def objectFrame (verb : Verb) (obj : Obj) (q : Bytes) : Bytes :=
  frameOf (element verb.text (element (obj.text ++ [colon] ++ verb.text) q))

/-- A login. -/
def loginFrame (clid pw : Text) : Bytes :=
  frameOf (element (lit "login") (element (lit "clID") clid ++ element (lit "pw") pw))

/-- A frame with a step of a transfer. -/
def transferFrame (op : Text) (q : Bytes) : Bytes :=
  frameOf (lit "<transfer op=\"" ++ op ++ lit "\">" ++ element (lit "domain:transfer") q ++
    lit "</transfer>")

/-- A store in which the registrars `a` and `b` have the password `p`. -/
def passwordCells : List (Text × Cell) :=
  [(lit "config:eppd_registrar_pw:a", ⟨lit "p", none⟩),
    (lit "config:eppd_registrar_pw:b", ⟨lit "p", none⟩)]

/-- Nobody is logged in, and there are no objects. -/
def emptyStage : Stage := ⟨⟨passwordCells, 5, 0, true⟩, fun _ => .fresh⟩

theorem emptyStage_named : emptyStage.world.Named := nofun

theorem emptyStage_object (o : Obj) (id : Text) : emptyStage.world.db.keys (o.key id) = none :=
  storeOf_eq_none (o.key_start id) (by decide)

end SimpleDns.Epp
