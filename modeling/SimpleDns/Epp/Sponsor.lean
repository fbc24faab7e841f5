import SimpleDns.Epp.Finite
import SimpleDns.Epp.Objects

/-!
# Who changes an object

An object is changed by its sponsor, is created, moves in a transfer, or ages in a tick.

* `Permitted`: the reasons a change can have, judged in the world before it.
* `Sound`: every object has a sponsor, and every pending transfer somebody who asked for it.
* **`changes_permitted`**: in a run from a sound registry every change is permitted and every object
  has a sponsor, as long as the `hostAttr` elements of a create name hosts of the session.
* **`host_changed_by_another`**: without that, a create changes the host of another registrar.
-/

namespace SimpleDns.Epp

open Wire Lib Server Option List

variable {long : Prop}

/-- A reason for a change of an object. -/
inductive Permitted (w : World) : Action → Obj → Text → Prop
  | creation {a : Action} {o : Obj} {id : Text} (h : w.db.keys (o.key id) = none) :
      Permitted w a o id
  | sponsor {i : Nat} {xml : Bytes} {o : Obj} {id : Text} (hin : (w.sess i).loggedIn = true)
      (h : sponsorOf w.db.keys o id = some (w.sess i).clid) : Permitted w (.frame i xml) o id
  | transfer {i : Nat} {xml q : Bytes} {op t : Text} (hin : (w.sess i).loggedIn = true)
      (hreq : requestOf xml = some (.transfer op q))
      (hname : requiredText q (lit "domain:name") 256 = some t) :
      Permitted w (.frame i xml) .domain (strlower t)
  | tick {id : Text} : Permitted w .tick .domain id

/-- Every object has a sponsor with a name. -/
def Sponsored (s : Store) : Prop :=
  ∀ (o : Obj) (id : Text), s (o.key id) ≠ none →
    ∃ c, sponsorOf s o id = some c ∧ c.text ≠ []

/-- Every object has a sponsor, and every pending transfer somebody who asked for it. -/
structure Sound (s : Store) : Prop where
  sponsored : Sponsored s
  requested : ∀ n d, readDomain s n = some d → d.pending = true → d.transferReid.text ≠ []

/-- The sponsor of a stored object has a name. -/
theorem Sponsored.named {s : Store} {o : Obj} {id : Text} {c : CString 64} (h : Sponsored s)
    (hc : sponsorOf s o id = some c) : c.text ≠ [] := by
  have hkey : s (o.key id) ≠ none := by
    intro hnone
    rw [sponsorOf_eq_none hnone] at hc
    cases hc
  obtain ⟨c', hc', hne⟩ := h o id hkey
  obtain rfl := some.inj (hc.symm.trans hc')
  exact hne

/-! ## Steps -/

section Steps

variable {sess : Session} {req : Request} {s u : Store} {lo hi : Nat}

/-- A session gets past the check of a sponsor with a name only as that sponsor. -/
theorem eq_of_sponsors {c : CString 64} (h : sess.sponsors c = true) (hc : c.text ≠ []) :
    c = sess.clid := by
  rw [Session.sponsors, Bool.or_eq_true, List.isEmpty_iff, beq_iff_eq] at h
  exact h.resolve_left hc

theorem Touch.sponsored {o : Obj} {id : Text} (h : Touch sess s u o id req) (hs : Sound s)
    (hname : sess.clid.text ≠ []) (hkey : u (o.key id) ≠ none) :
    ∃ c, sponsorOf u o id = some c ∧ c.text ≠ [] := by
  cases h with
  | same h =>
    rw [sponsorOf_congr h]
    exact hs.sponsored o id (h ▸ hkey)
  | created _ h => exact ⟨_, h, hname⟩
  | changed hold _ h => exact ⟨_, h.resolve_left hkey, hs.sponsored.named hold⟩
  | transferred ho _ _ hold h =>
    subst ho
    rcases h with h | ⟨hpending, h⟩
    · exact ⟨_, h, hs.sponsored.named (o := .domain) (congrArg (Option.map Domain.clid) hold)⟩
    · exact ⟨_, h, hs.requested _ _ hold hpending⟩

theorem DomainTouch.reid_named {n : Text} {d : Domain} (h : DomainTouch sess lo hi s u n req)
    (hs : Sound s) (hname : sess.clid.text ≠ []) (hread : readDomain u n = some d)
    (hpending : d.pending = true) : d.transferReid.text ≠ [] := by
  cases h with
  | same h => exact hs.requested n d ((readDomain_congr h).symm.trans hread) hpending
  | created _ hread' _ htransfer =>
    obtain rfl := some.inj (hread'.symm.trans hread)
    rw [Domain.pending, htransfer] at hpending
    cases hpending
  | kept hold _ hread' hsame =>
    obtain rfl := some.inj (hread'.symm.trans hread)
    rw [hsame.reid]
    exact hs.requested n _ hold (hsame.pending.symm.trans hpending)
  | purged _ _ hgone => cases (readDomain_eq_none hgone).symm.trans hread
  | transferred _ _ _ h hread' =>
    obtain rfl := some.inj (hread'.symm.trans hread)
    cases h with
    | request => exact hname
    | cancel | reject | approve => cases hpending

theorem Does.sound {s t : Db} (h : Does long sess req s t) (hown : OwnHosts sess s.keys req)
    (hname : sess.clid.text ≠ []) (hs : Sound s.keys) : Sound t.keys where
  sponsored o id := (h.object hown o id).sponsored hs hname
  requested n _ := (h.domain n).reid_named hs hname

theorem TickStep.sound {window : Int} (h : TickStep window lo hi s u) (hs : Sound s) : Sound u where
  sponsored o id hkey := by
    by_cases ho : o = .domain
    · subst ho
      cases h.domain id with
      | same h =>
        rw [sponsorOf_congr (o := .domain) h]
        exact hs.sponsored .domain id (h ▸ hkey)
      | purged h => exact absurd h hkey
      | kept hold hread hsame =>
        refine ⟨_, congrArg (Option.map Domain.clid) hread, ?_⟩
        rw [hsame.clid]
        exact hs.sponsored.named (o := .domain) (congrArg (Option.map Domain.clid) hold)
      | approved _ _ hold hpending _ hread hclid _ =>
        refine ⟨_, congrArg (Option.map Domain.clid) hread, ?_⟩
        rw [hclid]
        exact hs.requested id _ hold hpending
    · have hsame := h.object ho id
      rw [sponsorOf_congr hsame]
      exact hs.sponsored o id (hsame ▸ hkey)
  requested n d hread hpending := by
    cases h.domain n with
    | same h => exact hs.requested n d ((readDomain_congr h).symm.trans hread) hpending
    | purged h => cases (readDomain_eq_none h).symm.trans hread
    | kept hold hread' hsame =>
      obtain rfl := some.inj (hread'.symm.trans hread)
      rw [hsame.reid]
      exact hs.requested n _ hold (hsame.pending.symm.trans hpending)
    | approved _ _ _ _ _ hread' _ hdone =>
      obtain rfl := some.inj (hread'.symm.trans hread)
      rw [hdone] at hpending
      cases hpending

/-- A quiet step changes no object. -/
theorem Quiet.object {s t : Db} (h : Quiet s t) (o : Obj) (id : Text) :
    t.keys (o.key id) = s.keys (o.key id) :=
  h.keys _ (o.not_pollKeys id)

end Steps

/-! ## Runs -/

/-- Every `hostAttr` of a `domain:create` in the frame names a stored host of the session. -/
def OwnHostsIn (w : World) : Action → Prop
  | .frame i xml => ∀ req ∈ requestOf xml, OwnHosts (w.sess i) w.db.keys req
  | _ => True

theorem Step.sound {a : Action} {w w' : World} (h : Step long a w w') (hown : OwnHostsIn w a)
    (hw : w.Named ∧ Sound w.db.keys) : w'.Named ∧ Sound w'.db.keys := by
  refine ⟨h.named hw.1, ?_⟩
  rcases h.db with hq | ⟨i, xml, req, rfl, hin, hreq, hdoes⟩ | ⟨rfl, htick⟩
  · refine ⟨fun o id hkey => ?_, fun n d hread => ?_⟩
    · rw [sponsorOf_congr (hq.object o id)]
      exact hw.2.sponsored o id (hq.object o id ▸ hkey)
    · exact hw.2.requested n d ((readDomain_congr (hq.object .domain n)).symm.trans hread)
  · exact hdoes.sound (hown req hreq) (hw.1 i hin) hw.2
  · exact htick.inv hw.2 fun hstep => hstep.sound

/-- A change has a reason. -/
theorem Step.permitted {a : Action} {w w' : World} (h : Step long a w w') (hown : OwnHostsIn w a)
    (hs : Sound w.db.keys) {o : Obj} {id : Text}
    (hne : w'.db.keys (o.key id) ≠ w.db.keys (o.key id)) : Permitted w a o id := by
  rcases h.db with hq | ⟨i, xml, req, rfl, hin, hreq, hdoes⟩ | ⟨rfl, htick⟩
  · exact absurd (hq.object o id) hne
  · cases hdoes.object (hown req hreq) o id with
    | same h => exact absurd h hne
    | created hnew _ => exact .creation hnew
    | changed hold hsponsor _ =>
      refine .sponsor hin ?_
      rw [hold, eq_of_sponsors hsponsor (hs.sponsored.named hold)]
    | transferred ho hname hid _ _ =>
      subst ho hid
      exact .transfer hin hreq hname
  · by_cases ho : o = .domain
    · subst ho
      exact .tick
    · have hsame : w'.db.keys (o.key id) = w.db.keys (o.key id) :=
        htick.inv (P := fun s => s (o.key id) = w.db.keys (o.key id)) rfl
          fun hstep => (hstep.object ho id).trans
      exact absurd hsame hne

/-- **Only the sponsor changes an object**, where creates store hosts of the session only. -/
theorem changes_permitted {init w : World} {evs : List (Did Action World)}
    (h : History (Step long) init evs w) (hnamed : init.Named) (hsound : Sound init.db.keys)
    (hown : ∀ e ∈ evs, OwnHostsIn e.before e.label) :
    Sponsored w.db.keys ∧ ∀ e ∈ evs, ∀ (o : Obj) (id : Text),
      e.after.db.keys (o.key id) ≠ e.before.db.keys (o.key id) →
        Permitted e.before e.label o id := by
  have hkeep : ∀ e ∈ evs, Step long e.label e.before e.after →
      e.before.Named ∧ Sound e.before.db.keys → e.after.Named ∧ Sound e.after.db.keys :=
    fun e he hstep => hstep.sound (hown e he)
  have hinit : init.Named ∧ Sound init.db.keys := ⟨hnamed, hsound⟩
  refine ⟨(h.inv (I := fun w => w.Named ∧ Sound w.db.keys) hinit hkeep).2.sponsored,
    fun e he o id hne => ?_⟩
  have hbefore := h.inv_before (I := fun w => w.Named ∧ Sound w.db.keys) hinit hkeep he
  exact (h.step_of_mem he).permitted (hown e he) hbefore.2 hne

/-! ## Two registrars and a host -/

/-- A host without addresses. -/
def hostFrame : Bytes := objectFrame .create .host (element (lit "host:name") (lit "n"))

/-- A domain with an inline name server that has an address. -/
def inlineQuery : Bytes :=
  element (lit "domain:name") (lit "d") ++
    element (lit "domain:ns") (element (lit "domain:hostAttr")
      (element (lit "domain:hostName") (lit "n") ++
        element (lit "domain:hostAddr") (lit "1.1.1.1")))

def inlineFrame : Bytes := objectFrame .create .domain inlineQuery

/-- The registrar `a` makes the host and then delegates to it. -/
def ownPlay : List (Nat × Action) :=
  [(0, .frame 0 (loginFrame (lit "a") (lit "p"))), (0, .frame 0 hostFrame),
    (0, .frame 0 inlineFrame)]

/-- The registrar `a` makes the host, and `b` logs in. -/
def foreignPlay : List (Nat × Action) :=
  [(0, .frame 0 (loginFrame (lit "a") (lit "p"))), (0, .frame 0 hostFrame),
    (0, .frame 1 (loginFrame (lit "b") (lit "p")))]

theorem sound_emptyStage : Sound emptyStage.world.db.keys where
  sponsored o id hkey := absurd (emptyStage_object o id) hkey
  requested n d hread := by
    cases (readDomain_eq_none (emptyStage_object .domain n)).symm.trans hread

/-- **A create changes the host of another registrar.** -/
theorem host_changed_by_another :
    ∃ (init w : World) (evs : List (Did Action World)), History (Step True) init evs w ∧
      init.Named ∧ Sound init.db.keys ∧ ∃ e ∈ evs, ∃ (o : Obj) (id : Text),
        e.after.db.keys (o.key id) ≠ e.before.db.keys (o.key id) ∧
          ¬ Permitted e.before e.label o id := by
  refine ⟨_, _, _, history_play (foreignPlay ++ [(0, .frame 1 inlineFrame)]) (by decide +kernel),
    emptyStage_named, sound_emptyStage, _, Stage.mem_record_last _ _ _ _, .host, lit "n",
    by decide +kernel, fun hperm => ?_⟩
  have hrun : sponsorOf (emptyStage.playAll foreignPlay).world.db.keys .host (lit "n") =
        some (.copy (lit "a")) ∧
      ((emptyStage.playAll foreignPlay).world.sess 1).clid = .copy (lit "b") ∧
      (CString.copy (lit "a") : CString 64) ≠ .copy (lit "b") := by
    decide +kernel
  obtain ⟨hsponsor, hsess, hab⟩ := hrun
  generalize (emptyStage.playAll foreignPlay).world = w at hsponsor hsess hperm
  cases hperm with
  | creation hnew =>
    rw [sponsorOf_eq_none hnew] at hsponsor
    cases hsponsor
  | sponsor _ h => exact hab ((some.inj (hsponsor.symm.trans h)).trans hsess)

theorem own_host_changes_permitted :
    Sponsored (emptyStage.playAll ownPlay).world.db.keys ∧
      ∀ e ∈ emptyStage.record ownPlay, ∀ (o : Obj) (id : Text),
        e.after.db.keys (o.key id) ≠ e.before.db.keys (o.key id) →
          Permitted e.before e.label o id := by
  have hrun : requestOf (loginFrame (lit "a") (lit "p")) = none ∧
      requestOf hostFrame = some (.object .create .host
        (element (lit "create") (element (lit "host:create") (element (lit "host:name") (lit "n"))))
        (element (lit "host:name") (lit "n"))) ∧
      requestOf inlineFrame = some (.object .create .domain
        (element (lit "create") (element (lit "domain:create") inlineQuery)) inlineQuery) ∧
      ∀ x ∈ hostAttrs inlineQuery,
        sponsorOf (storeOf (emptyStage.playAll (ownPlay.take 2)).shelf.cells) .host x.1 =
          some ((emptyStage.playAll (ownPlay.take 2)).sess 0).clid := by
    decide +kernel
  obtain ⟨hlogin, hhost, hinline, hown⟩ := hrun
  have hplay : History (Step True) emptyStage.world _ _ := history_play ownPlay (by decide +kernel)
  refine changes_permitted hplay emptyStage_named sound_emptyStage fun e he => ?_
  simp only [ownPlay, Stage.record, mem_cons, not_mem_nil, or_false] at he
  rcases he with rfl | rfl | rfl
  · intro req hreq
    rw [hlogin] at hreq
    cases hreq
  · intro req hreq
    rw [hhost] at hreq
    cases hreq
    trivial
  · intro req hreq
    rw [hinline] at hreq
    cases hreq
    exact hown

end SimpleDns.Epp
