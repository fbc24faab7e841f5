import SimpleDns.Epp.Dispatch

/-!
# What the shared programs of `eppd` do with a store that works

Rules for the operations where nothing fails (`working`), and from them what the programs that
every handler uses do. `Sent` notes of each write that it was sent, where no command is too long.

* `Quiet s t`: at most keys of the poll queues differ, and the clock did not go back.
* `wp_findParentZone`, `wp_eppPublishDomain`, `wp_eppRetractDomain`: the zone is chosen from a
  listing of the zone table, and one transaction is committed, unless a command of it is too long.
* `wp_withObject`, `wp_withSponsored`, `wp_storeThen`, `wp_unlessExists`: frames of the handlers.
-/

namespace SimpleDns.Epp

open Wire Lib Server List

/-- No operation fails, but those of commands that are too long if there are any. -/
def working (long : Prop) : Faults := ⟨False, long⟩

/-- The commands could be sent, unless there are some that are too long. -/
def Sent (long : Prop) (cmds : List Cmd) : Prop := long ∨ ∀ c ∈ cmds, fitsCommand c.args

/-- With a store that works, every run of the program from `s` ends in `Q`. -/
abbrev Ends (long : Prop) {α : Type} (p : E α) (Q : α → Db → Prop) (s : Db) : Prop :=
  p.wp (exec (working long)) Q s

variable {long : Prop} {s : Db}

section Rules

variable {α β : Type} {p p' : E α}

theorem wp_bind {f : α → E β} {Q : β → Db → Prop} :
    Ends long (p >>= f) Q s ↔ Ends long p (fun a t => Ends long (f a) Q t) s :=
  Prog.wp_bind

/-- A branch, with its condition known on either side. -/
theorem wp_ite {c : Prop} [Decidable c] {Q : α → Db → Prop} (h : c → Ends long p Q s)
    (h' : ¬ c → Ends long p' Q s) : Ends long (if c then p else p') Q s := by
  split
  · exact h ‹_›
  · exact h' ‹_›

theorem wp_pure_ite {c : Prop} [Decidable c] {a b : α} {Q : α → Db → Prop} :
    Ends long (if c then pure a else pure b) Q s ↔ Q (if c then a else b) s := by
  split
  · exact Iff.rfl
  · exact Iff.rfl

end Rules

/-! ## Operations -/

section Operations

variable {key : Text}

theorem wp_get {n : Nat} {Q : Option Text → Db → Prop} :
    Ends long (E.get key n) Q s ↔ Q (vkGet s.keys key n) s := by
  constructor
  · intro h
    exact h _ _ ⟨rfl, .inl rfl⟩
  · rintro h r t ⟨rfl, rfl | ⟨hf, -⟩⟩
    · exact h
    · exact hf.elim

variable {Q : Bool → Db → Prop}

/-- Commands are performed if they fit, and else leave the store. -/
theorem wp_commit {cmds : List Cmd} : Ends long (E.commit cmds) Q s ↔
      ((∀ c ∈ cmds, fitsCommand c.args) →
        Q true { s with keys := cmds.foldl Cmd.apply s.keys }) ∧
      ((¬ ∀ c ∈ cmds, fitsCommand c.args) → long → Q false s) := by
  constructor
  · intro h
    exact ⟨fun hf => h _ _ ⟨_, .done hf, rfl⟩, fun hf hl => h _ _ ⟨_, .long hl hf, rfl⟩⟩
  · rintro ⟨hdone, hlong⟩ r t ⟨k, hw, rfl⟩
    cases hw with
    | done hf => exact hdone hf
    | long hl hf => exact hlong hf hl
    | lost hf | unheard hf _ => exact hf.elim

theorem forall_write {c : Cmd} :
    (∀ r t, (∃ k, Write (working long) [c] s.keys r k ∧ t = { s with keys := k }) → Q r t) ↔
      (fitsCommand c.args → Q true { s with keys := c.apply s.keys }) ∧
        (¬ fitsCommand c.args → long → Q false s) := by
  have h : Ends long (E.commit [c]) Q s ↔ _ := wp_commit
  rwa [forall_mem_singleton] at h

theorem wp_set {val : Text} : Ends long (E.set key val) Q s ↔
      (fitsCommand (Cmd.set key val).args → Q true { s with keys := vkSet s.keys key val 0 }) ∧
      (¬ fitsCommand (Cmd.set key val).args → long → Q false s) :=
  forall_write

/-- What a `SET` leaves: the store is as it was if the command is too long. -/
def setStore (s : Store) (key val : Text) : Store :=
  if fitsCommand (Cmd.set key val).args then vkSet s key val 0 else s

/-- A `SET` whose result is not looked at. -/
theorem wp_set_then {val : Text} {α : Type} {k : E α} {Q : α → Db → Prop}
    (h : Sent long [.set key val] → Ends long k Q { s with keys := setStore s.keys key val }) :
    Ends long (do let _ ← E.set key val; k) Q s := by
  rw [wp_bind, wp_set]
  unfold setStore at h
  constructor
  · intro hf
    rw [if_pos hf] at h
    exact h (.inr (forall_mem_singleton.mpr hf))
  · intro hf hl
    rw [if_neg hf] at h
    exact h (.inl hl)

/-- A `DEL` of a key of ordinary length is always sent. -/
theorem fitsCommand_del (h : key.length < 1000) : fitsCommand (Cmd.del key).args := by
  have hdec : (decimal key.length).length ≤ 3 := length_numeral_le (by decide) (by decide) h
  have hhead : ([42] ++ decimal 2 ++ crlf ++ bulkArg (lit "DEL")).length = 13 := by decide
  have hcrlf : crlf.length = 2 := rfl
  unfold fitsCommand commandOctets Cmd.args
  simp only [length_append, flatMap_cons, flatMap_nil, append_nil,
    length_cons, length_nil, bulkArg, Nat.zero_add, Nat.reduceAdd] at hhead ⊢
  omega

theorem wp_del : Ends long (E.del key) Q s ↔
      (fitsCommand (Cmd.del key).args → Q true { s with keys := vkDel s.keys key }) ∧
      (¬ fitsCommand (Cmd.del key).args → long → Q false s) :=
  forall_write

theorem wp_scan {start : Text} {n : Nat} {Q : Option (List Text) → Db → Prop} :
    Ends long (E.scan start n) Q s ↔
      ∀ out, Lists s.keys start n out → Q (some out) s := by
  constructor
  · intro h out hout
    exact h _ _ ⟨rfl, .inl ⟨out, hout, rfl⟩⟩
  · rintro h r t ⟨rfl, ⟨out, hout, rfl⟩ | ⟨hf, -⟩⟩
    · exact h out hout
    · exact hf.elim

theorem wp_time {Q : Nat → Db → Prop} :
    Ends long E.time Q s ↔ ∀ r, s.clock ≤ r → Q r { s with clock := r } := by
  constructor
  · intro h r hr
    exact h _ _ ⟨hr, rfl⟩
  · rintro h r t ⟨hr, rfl⟩
    exact h r hr

end Operations

/-! ## Quiet programs -/

/-- The start of every key of the poll queues and their counters. -/
def pollKeys : Text := lit "epp:poll"

/-- At most keys of the poll queues differ, and the clock did not go back. -/
structure Quiet (s t : Db) : Prop where
  keys : ∀ k, ¬ pollKeys <+: k → t.keys k = s.keys k
  clock : s.clock ≤ t.clock

theorem Quiet.refl (s : Db) : Quiet s s := ⟨fun _ _ => rfl, le_refl _⟩

theorem Quiet.trans {s t u : Db} (h : Quiet s t) (h' : Quiet t u) : Quiet s u :=
  ⟨fun k hk => (h'.keys k hk).trans (h.keys k hk), h.clock.trans h'.clock⟩

/-- The seconds of a configuration key. -/
def cfgSecs (s : Store) (key : Text) (defval : Int) : Int :=
  match vkGet s key 32 with
  | some v => if v.isEmpty then defval else atol v
  | none => defval

theorem wp_eppCfgSecs {key : Text} {defval : Int} {Q : Int → Db → Prop}
    (h : Q (cfgSecs s.keys key defval) s) : Ends long (eppCfgSecs key defval) Q s := by
  rw [eppCfgSecs, wp_bind, wp_get]
  unfold cfgSecs at h
  cases hget : vkGet s.keys key 32 with
  | none => rwa [hget] at h
  | some v =>
    rw [hget] at h
    exact wp_pure_ite.mpr h

theorem wp_now32 {Q : UInt32 → Db → Prop}
    (h : ∀ r, s.clock ≤ r → Q (UInt32.ofNat r) { s with clock := r }) :
    Ends long now32 Q s := by
  rwa [now32, wp_bind, wp_time]

theorem wp_eppGenAuthinfo {Q : CString 256 → Db → Prop} (h : ∀ a, Q a s) :
    Ends long eppGenAuthinfo Q s := by
  rw [eppGenAuthinfo, wp_bind]
  rintro r _ ⟨-, rfl⟩
  exact h _

theorem wp_eppGenRoid {suffix : String} {Q : CString 32 → Db → Prop}
    (h : ∀ a, Q a { s with roid := s.roid + 1 }) :
    Ends long (eppGenRoid suffix) Q s := by
  rw [eppGenRoid, wp_bind]
  rintro _ _ ⟨rfl, rfl⟩
  exact h _

/-- A message in a queue is quiet. -/
theorem wp_eppPollEnqueue {clid msg objtype objid cpState cpOperation cpWho cpReason resdata : Text}
    {Q : Unit → Db → Prop} (h : ∀ t, Quiet s t → Q () t) :
    Ends long (eppPollEnqueue clid msg objtype objid cpState cpOperation cpWho cpReason resdata)
      Q s := by
  have hseq : pollKeys <+: lit "epp:pollseq:" ++ clid :=
    (by decide : pollKeys <+: lit "epp:pollseq:").trans (prefix_append _ _)
  have hmsg : pollKeys <+: lit "epp:poll:" ++ clid ++ lit ":0" := by
    rw [append_assoc]
    exact (by decide : pollKeys <+: lit "epp:poll:").trans (prefix_append _ _)
  unfold eppPollEnqueue
  split
  · exact h s (.refl s)
  · rw [wp_bind]
    refine forall_write.mpr ⟨fun _ => ?_, fun _ _ => h s (.refl s)⟩
    have hcount : ∀ x, ¬ pollKeys <+: x →
        (Cmd.incr (lit "epp:pollseq:" ++ clid)).apply s.keys x = s.keys x := by
      intro x hx
      refine Function.update_of_ne ?_ _ _
      rintro rfl
      exact hx hseq
    refine Prog.wp_pure.mpr ?_
    rw [if_pos rfl, wp_bind, wp_time]
    intro now hnow
    have htime : Quiet s { s with
        keys := (Cmd.incr (lit "epp:pollseq:" ++ clid)).apply s.keys, clock := now } :=
      ⟨hcount, hnow⟩
    dsimp only
    split
    · exact h _ htime
    · rw [wp_bind, wp_set]
      refine ⟨fun _ => h _ ⟨fun x hx => ?_, hnow⟩, fun _ _ => h _ htime⟩
      have hne : x ≠ lit "epp:poll:" ++ clid ++ lit ":0" := by
        rintro rfl
        exact hx hmsg
      exact (vkSet_ne hne).trans (hcount x hx)

/-! ## Publishing -/

/-- The parent zone a listing of the zone table gives. -/
def parentFrom (s : Store) (name : Text) (out : List Text) : Option Text :=
  let best := parentLoop name out []
  if best.isEmpty then (vkGet s (lit "config:zone_name") 256).filter fun z => !z.isEmpty
  else some best

/-- A listing of the zone table. -/
def ZoneTable (s : Store) (out : List Text) : Prop := Lists s (lit "zone_table:") 64 out

theorem wp_findParentZone {name : Text} {Q : Option Text → Db → Prop}
    (h : ∀ out, ZoneTable s.keys out → Q (parentFrom s.keys name out) s) :
    Ends long (findParentZone name) Q s := by
  rw [findParentZone, wp_bind, wp_scan]
  intro out hout
  have hq := h out hout
  unfold parentFrom at hq
  dsimp only [Option.getD_some] at hq ⊢
  split
  · rename_i hbest
    rw [if_pos hbest] at hq
    rwa [wp_bind, wp_get]
  · rename_i hbest
    rwa [if_neg hbest] at hq

/-- The serial counter of a zone. -/
def serialKeyOf (s : Store) (zn : Text) : Text :=
  if zn.isEmpty || eqCI zn ((vkGet s (lit "config:zone_name") 256).getD []) then
    lit "config:zone_serial"
  else lit "config:zone:" ++ zn ++ lit ":serial"

theorem wp_eppSerialKey {zn : Text} {Q : Text → Db → Prop} (h : Q (serialKeyOf s.keys zn) s) :
    Ends long (eppSerialKey zn) Q s := by
  rw [eppSerialKey, wp_bind, wp_get]
  exact wp_pure_ite.mpr h

/-- The stored host of a name. -/
def readHost (s : Store) (name : Text) : Option Host :=
  (vkGet s (hostKey name) vkcBuf).bind Host.ofBlob

/-- The glue commands of one name server. -/
def glueOf (s : Store) (zone ns : Text) : List Cmd :=
  if nameInZone ns zone then
    match readHost s ns with
    | none => []
    | some h => (v4Value h).toList.map (Cmd.set (zkey zone (lit "A") ns)) ++
        (v6Value h).toList.map (Cmd.set (zkey zone (lit "AAAA") ns))
  else []

theorem wp_glueFor {zone ns : Text} {Q : List Cmd → Db → Prop} (h : Q (glueOf s.keys zone ns) s) :
    Ends long (glueFor zone ns) Q s := by
  unfold glueFor
  unfold glueOf at h
  split
  · rename_i hin
    rw [if_pos hin] at h
    rw [wp_bind, wp_get]
    unfold readHost at h
    cases hread : (vkGet s.keys (hostKey ns) vkcBuf).bind Host.ofBlob with
    | none | some host =>
      rwa [hread] at h
  · rename_i hin
    rwa [if_neg hin] at h

theorem wp_glueLoop {zone : Text} {ns : List (CString 256)} {Q : List Cmd → Db → Prop}
    (h : Q (ns.flatMap fun n => glueOf s.keys zone n.text) s) :
    Ends long (glueLoop zone ns) Q s := by
  induction ns generalizing Q with
  | nil => exact h
  | cons n ns ih =>
    rw [glueLoop, wp_bind]
    refine wp_glueFor ?_
    rw [wp_bind]
    exact ih h

/-- What a transaction leaves: its commands, or nothing if one is too long. -/
def commitStore (s : Store) (cmds : List Cmd) : Store :=
  if ∀ c ∈ cmds, fitsCommand c.args then cmds.foldl Cmd.apply s else s

theorem wp_commit_store {cmds : List Cmd} {Q : Unit → Db → Prop}
    (h : Sent long cmds → Q () { s with keys := commitStore s.keys cmds }) :
    Ends long (do let _ ← E.commit cmds; pure () : E Unit) Q s := by
  rw [wp_bind, wp_commit]
  unfold commitStore at h
  constructor
  · intro hf
    rw [if_pos hf] at h
    exact h (.inr hf)
  · intro hf hl
    rw [if_neg hf] at h
    exact h (.inl hl)

/-- The commands that publish a domain in a zone. -/
def publishIn (s : Store) (zone name : Text) (ns : Slots (CString 256)) (ds : Slots Ds) :
    List Cmd :=
  publishCmds zone name ns ds (ns.list.flatMap fun n => glueOf s zone n.text) (serialKeyOf s zone)

/-- The commands of `epp_publish_domain`, with a listing of the zone table. -/
def publishAt (s : Store) (name : Text) (ns : Slots (CString 256)) (ds : Slots Ds)
    (out : List Text) : List Cmd :=
  match parentFrom s name out with
  | none => []
  | some zone => publishIn s zone name ns ds

/-- **Publishing** commits one transaction in the parent zone. -/
theorem wp_eppPublishDomain {name : Text} {ns : Slots (CString 256)} {ds : Slots Ds}
    {Q : Unit → Db → Prop}
    (h : ∀ out, ZoneTable s.keys out → Sent long (publishAt s.keys name ns ds out) →
      Q () { s with keys := commitStore s.keys (publishAt s.keys name ns ds out) }) :
    Ends long (eppPublishDomain name ns ds) Q s := by
  rw [eppPublishDomain, wp_bind]
  refine wp_findParentZone fun out hout => ?_
  have hq := h out hout
  unfold publishAt at hq
  cases hparent : parentFrom s.keys name out with
  | none =>
    rw [hparent] at hq
    exact hq (.inr nofun)
  | some zone =>
    rw [hparent] at hq
    rw [wp_bind]
    refine wp_glueLoop ?_
    rw [wp_bind]
    exact wp_eppSerialKey (wp_commit_store hq)

/-- The commands of `epp_retract_domain`, with a listing of the zone table. -/
def retractAt (s : Store) (name : Text) (out : List Text) : List Cmd :=
  match parentFrom s name out with
  | none => []
  | some zone => [.del (zkey zone (lit "NS") name), .del (zkey zone (lit "DS") name),
      .incr (serialKeyOf s zone)]

/-- **Retracting** commits one transaction in the parent zone. -/
theorem wp_eppRetractDomain {name : Text} {Q : Unit → Db → Prop}
    (h : ∀ out, ZoneTable s.keys out → Sent long (retractAt s.keys name out) →
      Q () { s with keys := commitStore s.keys (retractAt s.keys name out) }) :
    Ends long (eppRetractDomain name) Q s := by
  rw [eppRetractDomain, wp_bind]
  refine wp_findParentZone fun out hout => ?_
  have hq := h out hout
  unfold retractAt at hq
  cases hparent : parentFrom s.keys name out with
  | none =>
    rw [hparent] at hq
    exact hq (.inr nofun)
  | some zone =>
    rw [hparent] at hq
    rw [wp_bind]
    exact wp_eppSerialKey (wp_commit_store hq)

/-! ## The frames of the handlers -/

section Frames

variable {Q : Answer → Db → Prop}

theorem wp_completed {extra : Text} (h : ∀ a, Q a s) :
    Ends long (completed extra) Q s :=
  h _

theorem wp_plain {code : Nat} {msg : String} (h : ∀ a, Q a s) :
    Ends long (plain code msg) Q s :=
  h _

/-- Every error answer satisfies the postcondition in this state. -/
def Refusable (Q : Answer → Db → Prop) (s : Db) : Prop :=
  ∀ code msg, 2000 ≤ code → Q (.result code msg []) s

theorem wp_withName {range : Bytes} {tag : Text} {cap : Nat} {k : Text → E Answer}
    (hr : Refusable Q s)
    (h : ∀ t, requiredText range tag cap = some t → Ends long (k t) Q s) :
    Ends long (withName range tag cap k) Q s := by
  unfold withName
  split
  · exact h _ ‹_›
  · exact hr _ _ (by decide)

variable {key : Text}

theorem wp_withObject {α : Type} {ofBlob : Text → Option α} {k : α → E Answer} (hr : Refusable Q s)
    (h : ∀ a, (vkGet s.keys key vkcBuf).bind ofBlob = some a → Ends long (k a) Q s) :
    Ends long (withObject ofBlob key k) Q s := by
  rw [withObject, wp_bind, wp_get]
  cases hget : vkGet s.keys key vkcBuf with
  | none => exact hr _ _ (by decide)
  | some blob =>
    dsimp only
    cases hdec : ofBlob blob with
    | none => exact hr _ _ (by decide)
    | some a =>
      refine h a ?_
      rwa [hget]

/-- **The sponsor check**: an object gets past it if the session sponsors it or it has no
sponsor. -/
theorem wp_withSponsored {α : Type} {sess : Session} {ofBlob : Text → Option α}
    {clid : α → CString 64} {k : α → E Answer} (hr : Refusable Q s)
    (h : ∀ a, (vkGet s.keys key vkcBuf).bind ofBlob = some a → sess.sponsors (clid a) = true →
      Ends long (k a) Q s) :
    Ends long (withSponsored sess ofBlob clid key k) Q s := by
  refine wp_withObject hr fun a ha => ?_
  split
  · exact h a ha ‹_›
  · exact hr _ _ (by decide)

variable {k : E Answer}

theorem wp_unlessStatus {status : Slots (CString 32)} {flag : String} (hr : Refusable Q s)
    (h : Ends long k Q s) :
    Ends long (unlessStatus status flag k) Q s := by
  unfold unlessStatus
  split
  · exact hr _ _ (by decide)
  · exact h

theorem wp_unlessExists (hr : Refusable Q s)
    (h : s.keys key = none → Ends long k Q s) :
    Ends long (unlessExists key k) Q s := by
  rw [unlessExists, wp_bind, wp_get]
  cases hkey : s.keys key with
  | none =>
    simp only [vkGet, hkey]
    exact h hkey
  | some c =>
    simp only [vkGet, hkey]
    exact hr _ _ (by decide)

theorem wp_storeThen {raw : Option Bytes} (hr : Refusable Q s)
    (h : ∀ r, raw = some r → Sent long [.set key (hexEnc r)] →
      Ends long k Q { s with keys := setStore s.keys key (hexEnc r) }) :
    Ends long (storeThen key raw k) Q s := by
  unfold storeThen
  split
  · exact hr _ _ (by decide)
  · exact wp_set_then (h _ rfl)

end Frames

end SimpleDns.Epp
