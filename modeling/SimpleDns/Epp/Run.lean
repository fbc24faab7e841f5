import SimpleDns.Epp.Outcome
import SimpleDns.Lib.History

/-!
# Runs of the registry

Any number of connections, each with its session, send frames one after another, and the timer ticks
in between. A connection can end at any time, and another one then takes its number.

* `Step`: one frame, one tick, or the end of a connection.
* **`Step.db`**: a step is a request with its effect, a tick, or quiet.
* `Published.object`, `Retracted.object`, `Republished.object`: delegations are kept apart from the
  objects.
* `read_setStore`: what is stored can be read back.
-/

namespace SimpleDns.Epp

open Wire Lib Server List Function

variable {long : Prop}

/-! ## Worlds -/

/-- The registry and the sessions of the connections. -/
structure World where
  db : Db
  sess : Nat → Session

/-- A zeroed session. -/
def Session.fresh : Session := ⟨default, false⟩

/-- The session behind an answer: a connection that is closed gives way to another one. -/
def Dispatched.next (r : Dispatched) : Session :=
  if r.close ∨ r.reply = .silent then .fresh else r.sess

/-- What can happen next. -/
inductive Action
  | frame (i : Nat) (xml : Bytes)
  | tick
  | drop (i : Nat)
deriving DecidableEq, Repr

/-- One step of `handle_session`, of `epp_rgp_tick_loop`, or the end of a connection. -/
inductive Step (long : Prop) : Action → World → World → Prop
  | frame {i : Nat} {xml : Bytes} {w : World} {r : Dispatched} {db : Db}
      (h : (eppDispatch (w.sess i) xml).Exec (exec (working long)) w.db r db) :
      Step long (.frame i xml) w ⟨db, update w.sess i r.next⟩
  | tick {w : World} {db : Db} (h : eppRgpTickScan.Exec (exec (working long)) w.db () db) :
      Step long .tick w { w with db := db }
  | drop (i : Nat) (w : World) :
      Step long (.drop i) w { w with sess := update w.sess i .fresh }

variable {a : Action} {w w' : World}

/-- **What a step does to the registry.** -/
theorem Step.db (h : Step long a w w') : Quiet w.db w'.db ∨
      (∃ i xml req, a = .frame i xml ∧ (w.sess i).loggedIn = true ∧ requestOf xml = some req ∧
        Does long (w.sess i) req w.db w'.db) ∨
      a = .tick ∧ Ticked w.db w'.db := by
  cases h with
  | @frame i xml w r db h =>
    generalize hs : r.sess = sess
    have hout := h.post outcome_eppDispatch
    rw [hs] at hout
    cases hout with
    | quiet hq => exact .inl hq
    | login => exact .inl (.refl _)
    | request hin hreq hdoes => exact .inr (.inl ⟨_, _, _, rfl, hin, hreq, hdoes⟩)
  | tick h => exact .inr (.inr ⟨rfl, h.post ticked_eppRgpTickScan⟩)
  | drop => exact .inl (.refl _)

theorem Step.clock (h : Step long a w w') : w.db.clock ≤ w'.db.clock := by
  rcases h.db with hq | ⟨_, _, _, _, _, _, hdoes⟩ | ⟨-, htick⟩
  · exact hq.clock
  · exact hdoes.clock
  · exact htick.clock

/-- Who is logged in has a name. -/
def World.Named (w : World) : Prop := ∀ i, (w.sess i).loggedIn = true → (w.sess i).clid.text ≠ []

theorem World.Named.update {db : Db} {i : Nat} {sess : Session} (h : w.Named)
    (hs : sess.loggedIn = true → sess.clid.text ≠ []) :
    World.Named ⟨db, update w.sess i sess⟩ := by
  intro j
  dsimp only
  by_cases hj : j = i
  · subst hj
    rwa [update_self]
  · rw [update_of_ne hj]
    exact h j

/-- A login needs a name, and no other frame changes a session. -/
theorem Step.named (h : Step long a w w') (hw : w.Named) : w'.Named := by
  cases h with
  | @frame i xml w r db h =>
    refine hw.update ?_
    unfold Dispatched.next
    split
    · exact nofun
    · generalize hs : r.sess = sess
      have hout := h.post outcome_eppDispatch
      rw [hs] at hout
      cases hout with
      | quiet => exact hw i
      | login hne => exact fun _ => hne
      | request => exact hw i
  | tick => exact hw
  | drop => exact hw.update nofun

/-! ## Objects and their keys -/

theorem Obj.key_start (o : Obj) (id : Text) : lit "epp:" <+: o.key id := by
  cases o with
  | domain | host | contact | org => exact ⟨_, rfl⟩

/-- The first octets of a key tell the kind of its object. -/
theorem Obj.take_key (o : Obj) (id : Text) : (o.key id).take 5 = (lit "epp:" ++ o.text).take 5 := by
  cases o with
  | domain | host | contact | org => exact take_append_of_le_length (by decide)

variable {o : Obj} {id : Text}

/-- **Every object has its own key.** -/
theorem Obj.key_inj {o' : Obj} {id' : Text} (h : o.key id = o'.key id') : o = o' ∧ id = id' := by
  have hkind : (lit "epp:" ++ o.text).take 5 = (lit "epp:" ++ o'.text).take 5 := by
    rw [← o.take_key id, ← o'.take_key id', h]
  have ho : o = o' := by
    revert hkind
    cases o <;> cases o' <;> decide
  subst ho
  refine ⟨rfl, ?_⟩
  cases o <;> exact append_cancel_left h

/-- Objects of two kinds have two keys. -/
theorem Obj.key_ne (o o' : Obj) (h : o ≠ o') (id id' : Text) : o.key id ≠ o'.key id' :=
  fun heq => h (Obj.key_inj heq).1

theorem Obj.key_ne_key (o : Obj) {id' : Text} (h : id ≠ id') : o.key id ≠ o.key id' :=
  fun heq => h (Obj.key_inj heq).2

/-- No object is in a poll queue. -/
theorem Obj.not_pollKeys (o : Obj) (id : Text) : ¬ pollKeys <+: o.key id := by
  rintro ⟨rest, hrest⟩
  have htake := o.take_key id
  rw [← hrest, take_append_of_le_length (by decide)] at htake
  revert htake
  cases o <;> decide

variable {s t : Store}

theorem sponsorOf_congr (h : t (o.key id) = s (o.key id)) :
    sponsorOf t o id = sponsorOf s o id := by
  cases o with
  | domain | host | contact | org =>
    simp only [Obj.key] at h
    simp only [sponsorOf, readDomain, readHost, readContact, readOrg, vkGet, h]

theorem sponsorOf_eq_none (h : s (o.key id) = none) : sponsorOf s o id = none := by
  have hempty : sponsorOf (fun _ => none) o id = none := by
    cases o <;> rfl
  rw [← hempty]
  exact sponsorOf_congr h

variable {name : Text}

theorem readDomain_congr (h : t (domainKey name) = s (domainKey name)) :
    readDomain t name = readDomain s name := by
  simp only [readDomain, vkGet, h]

theorem readDomain_eq_none (h : s (domainKey name) = none) : readDomain s name = none :=
  Option.map_eq_none_iff.mp (sponsorOf_eq_none (o := .domain) h)

/-! ## What is stored can be read back -/

variable {raw : Bytes}

theorem vkGet_vkSet {key : Text} (hlen : raw.length ≤ 4096) :
    vkGet (vkSet s key (hexEnc raw) 0) key vkcBuf = some (hexEnc raw) := by
  rw [vkGet, vkSet_self, Option.map_some]
  refine congrArg some (take_of_length_le ?_)
  change (hexEnc raw).length ≤ 65535
  rw [length_hexEnc]
  omega

/-- An object that was sent is read back, and one that was not leaves the store. -/
theorem read_setStore {α : Type} {ofItems : List Item → α} {cap : Nat} (hcap : 1 ≤ cap ∧ cap ≤ 4096)
    {items : List Item} {a : α} (hitems : ofItems items = a) (henc : tlvBuild cap items = some raw)
    {key : Text} : (vkGet (setStore s key (hexEnc raw)) key vkcBuf).bind (ofBlob ofItems cap) =
        some a ∨
      ¬ fitsCommand (Cmd.set key (hexEnc raw)).args ∧ setStore s key (hexEnc raw) = s := by
  unfold setStore
  split
  · rw [vkGet_vkSet ((length_tlvBuild henc hcap.1).trans hcap.2)]
    exact .inl (decodes_tlvBuild hcap.1 hitems henc).2
  · exact .inr ⟨‹_›, rfl⟩

/-! ## What a transaction leaves alone -/

/-- The key of a command. -/
def Cmd.key : Cmd → Text
  | set key _ => key
  | del key => key
  | incr key => key

variable {c : Cmd} {k : Text}

theorem Cmd.apply_ne (h : k ≠ c.key) : c.apply s k = s k := by
  cases c with
  | set key val => exact vkSet_ne h
  | del key => exact vkDel_ne h
  | incr key => exact update_of_ne h _ _

theorem foldl_apply_ne {cmds : List Cmd} (h : ∀ c ∈ cmds, k ≠ c.key) :
    cmds.foldl Cmd.apply s k = s k := by
  induction cmds generalizing s with
  | nil => rfl
  | cons c cmds ih =>
    rw [foldl_cons, ih fun c hc => h c (mem_cons_of_mem _ hc)]
    exact Cmd.apply_ne (h c mem_cons_self)

theorem commitStore_ne {cmds : List Cmd} (h : ∀ c ∈ cmds, k ≠ c.key) :
    commitStore s cmds k = s k := by
  unfold commitStore
  split
  · exact foldl_apply_ne h
  · rfl

/-- The keys a publication in a zone writes. -/
inductive PublishKey (s : Store) (zone name : Text) (ns : List Text) : Text → Prop
  | ns : PublishKey s zone name ns (zkey zone (lit "NS") name)
  | ds : PublishKey s zone name ns (zkey zone (lit "DS") name)
  | v4 {n : Text} (hn : n ∈ ns) (hin : nameInZone n zone = true) :
      PublishKey s zone name ns (zkey zone (lit "A") n)
  | v6 {n : Text} (hn : n ∈ ns) (hin : nameInZone n zone = true) :
      PublishKey s zone name ns (zkey zone (lit "AAAA") n)
  | serial : PublishKey s zone name ns (serialKeyOf s zone)

theorem glueOf_key {zone ns : Text} (h : c ∈ glueOf s zone ns) : nameInZone ns zone = true ∧
      (c.key = zkey zone (lit "A") ns ∨ c.key = zkey zone (lit "AAAA") ns) := by
  unfold glueOf at h
  split at h
  · rename_i hin
    refine ⟨hin, ?_⟩
    split at h
    · cases h
    · rcases mem_append.mp h with h | h
      · obtain ⟨v, -, rfl⟩ := mem_map.mp h
        exact .inl rfl
      · obtain ⟨v, -, rfl⟩ := mem_map.mp h
        exact .inr rfl
  · cases h

theorem publishKey_of_mem {ns : Slots (CString 256)} {ds : Slots Ds} {out : List Text}
    (h : c ∈ publishAt s name ns ds out) : ∃ zone, parentFrom s name out = some zone ∧
      PublishKey s zone name (ns.list.map CString.text) c.key := by
  unfold publishAt at h
  cases hparent : parentFrom s name out with
  | none =>
    rw [hparent] at h
    cases h
  | some zone =>
    rw [hparent] at h
    refine ⟨zone, rfl, ?_⟩
    simp only [publishIn, publishCmds, mem_append, mem_cons, not_mem_nil, or_false,
      mem_flatMap] at h
    rcases h with ((rfl | rfl) | ⟨n, hn, hglue⟩) | rfl
    · exact .ns
    · split
      · exact .ds
      · exact .ds
    · obtain ⟨hin, hkey | hkey⟩ := glueOf_key hglue
      · rw [hkey]
        exact .v4 (mem_map_of_mem hn) hin
      · rw [hkey]
        exact .v6 (mem_map_of_mem hn) hin
    · exact .serial

theorem take_serialKeyOf (s : Store) (zone : Text) : (serialKeyOf s zone).take 1 = lit "c" := by
  unfold serialKeyOf
  split
  · rfl
  · rfl

/-- Keys of zones and counters do not start like those of objects. -/
theorem PublishKey.ne_object {zone k' : Text} {ns : List Text} (h : PublishKey s zone name ns k')
    (hk : lit "epp:" <+: k) : k ≠ k' := by
  rintro rfl
  have hhead : k.take 1 = lit "e" := by
    obtain ⟨rest, rfl⟩ := hk
    rfl
  have hzone : ∀ type n, k ≠ zkey zone type n := by
    rintro type n rfl
    exact absurd (show lit "z" = _ from hhead) (by decide)
  generalize hk' : k = k' at h
  cases h with
  | ns | ds | v4 | v6 => exact hzone _ _ hk'
  | serial =>
    subst hk'
    exact absurd ((take_serialKeyOf _ _).symm.trans hhead) (by decide)

theorem Published.object {ns : Slots (CString 256)} {ds : Slots Ds}
    (h : Published long name ns ds s t) (hk : lit "epp:" <+: k) : t k = s k := by
  obtain ⟨out, -, -, rfl⟩ := h
  refine commitStore_ne fun c hc => ?_
  obtain ⟨zone, -, hkey⟩ := publishKey_of_mem hc
  exact hkey.ne_object hk

theorem publishKey_of_mem_retract {out : List Text} (h : c ∈ retractAt s name out) :
    ∃ zone, parentFrom s name out = some zone ∧ PublishKey s zone name [] c.key := by
  unfold retractAt at h
  cases hparent : parentFrom s name out with
  | none =>
    rw [hparent] at h
    cases h
  | some zone =>
    rw [hparent] at h
    refine ⟨zone, rfl, ?_⟩
    simp only [mem_cons, not_mem_nil, or_false] at h
    rcases h with rfl | rfl | rfl
    · exact .ns
    · exact .ds
    · exact .serial

theorem Retracted.object (h : Retracted long name s t) (hk : lit "epp:" <+: k) : t k = s k := by
  obtain ⟨out, -, -, rfl⟩ := h
  refine commitStore_ne fun c hc => ?_
  obtain ⟨zone, -, hkey⟩ := publishKey_of_mem_retract hc
  exact hkey.ne_object hk

theorem Republished.object {names : List Text} (h : Republished long names s t)
    (hk : lit "epp:" <+: k) : t k = s k := by
  induction h with
  | nil => rfl
  | skip _ _ ih => exact ih
  | cons _ hpub _ ih => exact ih.trans (hpub.object hk)

theorem StoredAnd.object {publish : Prop} {d : Domain} (h : StoredAnd long publish name d raw s t)
    (hk : lit "epp:" <+: k) : t k = setStore s (domainKey name) (hexEnc raw) k := by
  by_cases hp : publish
  · exact (h.2.1 hp).object hk
  · rw [h.2.2 hp]

end SimpleDns.Epp
