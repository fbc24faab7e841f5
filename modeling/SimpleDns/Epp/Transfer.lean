import SimpleDns.Epp.Finite
import SimpleDns.Epp.Objects

/-!
# Transfers

The sponsor of a domain changes on a request of the new one, which the old one approves or leaves
unanswered for the pending window.

* `Moving`: a domain of one registrar with a request of another one.
* `Requested`, `Approved`, `Overdue`: the ends of a transfer, as steps of a run.
* **`sponsor_change_requested`**: a change of sponsor was requested by the new sponsor, the request
  has been pending since, and the step is the approval or a tick behind the window.
* **`approved_within_window`**: a window of `2 ^ 32` seconds is cut to none.
-/

namespace SimpleDns.Epp

open Wire Lib Server List Option

variable {long : Prop}

/-- The domain of a name is sponsored by `a`, and `b` has asked for it at the time `r`. -/
def Moving (n : Text) (a b : CString 64) (r : UInt32) (s : Store) : Prop :=
  ∃ d, readDomain s n = some d ∧ d.clid = a ∧ d.pending = true ∧ d.transferReid = b ∧
    d.transferRedate = r

/-- A session of `b` asks for the domain with its authInfo at the time `at_`, and nothing prohibits
a transfer. -/
def Requested (n : Text) (b : CString 64) (at_ : Nat) (e : Did Action World) : Prop :=
  ∃ i xml q t d, e.label = .frame i xml ∧
    (e.before.sess i).loggedIn = true ∧ (e.before.sess i).clid = b ∧
    requestOf xml = some (.transfer (lit "request") q) ∧
    requiredText q (lit "domain:name") 256 = some t ∧ n = strlower t ∧
    readDomain e.before.db.keys n = some d ∧ presented q = some d.authinfo.text ∧
    d.transferProhibited = false ∧ e.before.db.clock ≤ at_ ∧ at_ ≤ e.after.db.clock

/-- A session of `a` approves the transfer of the domain. -/
def Approved (n : Text) (a : CString 64) (e : Did Action World) : Prop :=
  ∃ i xml q t, e.label = .frame i xml ∧
    (e.before.sess i).loggedIn = true ∧ (e.before.sess i).clid = a ∧
    requestOf xml = some (.transfer (lit "approve") q) ∧
    requiredText q (lit "domain:name") 256 = some t ∧ n = strlower t

/-- A tick at a time behind the pending window of a request made at the time `at_`. -/
def Overdue (at_ : Nat) (e : Did Action World) : Prop :=
  e.label = .tick ∧ ∃ now : Nat, e.before.db.clock ≤ now ∧ now ≤ e.after.db.clock ∧
    (at_ : Int) + pendingWindow e.before.db.keys < now

/-! ## Steps -/

section Steps

variable {n : Text} {a b : CString 64} {r : UInt32} {s u : Store}

theorem Moving.congr (hkey : u (domainKey n) = s (domainKey n)) :
    Moving n a b r u ↔ Moving n a b r s := by
  unfold Moving
  rw [readDomain_congr hkey]

theorem not_moving_of_none (h : u (domainKey n) = none) : ¬ Moving n a b r u := by
  rintro ⟨d, hread, -⟩
  cases (readDomain_eq_none h).symm.trans hread

theorem not_moving_of_settled {d : Domain} (hread : readDomain u n = some d)
    (hdone : d.pending = false) : ¬ Moving n a b r u := by
  rintro ⟨d', hread', -, hpending, -⟩
  obtain rfl := some.inj (hread.symm.trans hread')
  exact absurd hpending (by simp [hdone])

/-- Where sponsor and transfer are kept, so is the request. -/
theorem Moving.of_kept {d d' : Domain} (hold : readDomain s n = some d)
    (hread : readDomain u n = some d') (hsame : SameTransfer d d') (h : Moving n a b r u) :
    Moving n a b r s := by
  obtain ⟨x, hx, hxclid, hxpending, hxreid, hxredate⟩ := h
  obtain rfl := some.inj (hread.symm.trans hx)
  exact ⟨d, hold, hsame.clid.symm.trans hxclid, hsame.pending.symm.trans hxpending,
    hsame.reid.symm.trans hxreid, hsame.redate.symm.trans hxredate⟩

theorem TickTouch.moving {window : Int} {lo hi : Nat} (h : TickTouch window lo hi s u n)
    (hs : ¬ Moving n a b r s) : ¬ Moving n a b r u := by
  cases h with
  | same h => exact mt (Moving.congr h).mp hs
  | purged h => exact not_moving_of_none h
  | kept hold hread hsame => exact mt (Moving.of_kept hold hread hsame) hs
  | approved _ _ _ _ _ hread _ hdone => exact not_moving_of_settled hread hdone

/-- **A domain starts to move with a request.** -/
theorem Step.requested {l : Action} {w w' : World} (h : Step long l w w')
    (hbefore : ¬ Moving n a b r w.db.keys) (hafter : Moving n a b r w'.db.keys) :
    ∃ at_, Requested n b at_ ⟨l, w, w'⟩ ∧ r = UInt32.ofNat at_ := by
  rcases h.db with hq | ⟨i, xml, req, rfl, hin, hreq, hdoes⟩ | ⟨rfl, htick⟩
  · exact absurd ((Moving.congr (hq.keys _ (Obj.domain.not_pollKeys n))).mp hafter) hbefore
  · cases hdoes.domain n with
    | same h => exact absurd ((Moving.congr h).mp hafter) hbefore
    | created _ hread _ htransfer =>
      refine absurd hafter (not_moving_of_settled hread ?_)
      rw [Domain.pending, htransfer]
      rfl
    | kept hold _ hread hsame => exact absurd (Moving.of_kept hold hread hsame hafter) hbefore
    | purged _ _ h => exact absurd hafter (not_moving_of_none h)
    | @transferred op q t d d' hname hn hold h hread =>
      cases h with
      | @request pw now _ hallowed hpw haccepts hlo hhi =>
        obtain ⟨d', hread', -, -, hreid, hredate⟩ := hafter
        obtain rfl := some.inj (hread.symm.trans hread')
        have hauth : d.authinfo.text = pw := by
          rw [Domain.accepts, Bool.and_eq_true, beq_iff_eq] at haccepts
          exact haccepts.2
        exact ⟨now, ⟨i, xml, q, t, d, rfl, hin, hreid, hreq, hname, hn, hold, hauth ▸ hpw,
          hallowed, hlo, hhi⟩, hredate.symm⟩
      | cancel | reject | approve => exact absurd hafter (not_moving_of_settled hread rfl)
  · have hstill : ¬ Moving n a b r w'.db.keys :=
      htick.inv (P := fun s => ¬ Moving n a b r s) hbefore fun hstep => (hstep.domain n).moving
    exact absurd hafter hstill

/-- Where a tick has got with a domain that is `d` before it: gone, aged or handed over. -/
inductive TickedTo (window : Int) (lo hi : Nat) (n : Text) (d : Domain) (u : Store) : Prop
  | gone (h : readDomain u n = none)
  | aged {d' : Domain} (hread : readDomain u n = some d') (hsame : SameTransfer d d')
  | handedOver {d' : Domain} {now : Nat} (hlo : lo ≤ now) (hhi : now ≤ hi)
      (hpending : d.pending = true) (hover : toU32 window < UInt32.ofNat now - d.transferRedate)
      (hread : readDomain u n = some d') (hclid : d'.clid = d.transferReid)
      (hdone : d'.pending = false)

theorem TickTouch.tickedTo {window : Int} {lo hi : Nat} {d : Domain}
    (h : TickTouch window lo hi s u n) (hs : TickedTo window lo hi n d s) :
    TickedTo window lo hi n d u := by
  cases h with
  | same h =>
    have hread' := readDomain_congr h
    cases hs with
    | gone h => exact .gone (hread'.trans h)
    | aged hread hsame => exact .aged (hread'.trans hread) hsame
    | handedOver hlo hhi hpending hover hread hclid hdone =>
      exact .handedOver hlo hhi hpending hover (hread'.trans hread) hclid hdone
  | purged h =>
    exact .gone (readDomain_eq_none h)
  | kept hold hread hsame =>
    cases hs with
    | gone h => cases h.symm.trans hold
    | aged hread' hsame' =>
      obtain rfl := some.inj (hread'.symm.trans hold)
      exact .aged hread (hsame'.trans hsame)
    | handedOver hlo hhi hpending hover hread' hclid' hdone =>
      obtain rfl := some.inj (hread'.symm.trans hold)
      exact .handedOver hlo hhi hpending hover hread (hsame.clid.trans hclid')
        (hsame.pending.trans hdone)
  | approved hlo hhi hold hpending hover hread hclid hdone =>
    cases hs with
    | gone h => cases h.symm.trans hold
    | aged hread' hsame =>
      obtain rfl := some.inj (hread'.symm.trans hold)
      rw [hsame.redate] at hover
      exact .handedOver hlo hhi (hsame.pending.symm.trans hpending) hover hread
        (hclid.trans hsame.reid) hdone
    | handedOver _ _ _ _ hread' _ hdone' =>
      -- a domain is handed over once
      obtain rfl := some.inj (hread'.symm.trans hold)
      exact absurd hpending (by simp [hdone'])

/-- **A sponsor changes where the domain was moving to the new one**, by approval or in a tick. -/
theorem Step.handedOver {l : Action} {w w' : World} (h : Step long l w w')
    (hold : sponsorOf w.db.keys .domain n = some a) (hnew : sponsorOf w'.db.keys .domain n = some b)
    (hab : a ≠ b) :
    ∃ r, Moving n a b r w.db.keys ∧ (Approved n a ⟨l, w, w'⟩ ∨
      l = .tick ∧ ∃ now, w.db.clock ≤ now ∧ now ≤ w'.db.clock ∧
        toU32 (pendingWindow w.db.keys) < UInt32.ofNat now - r) := by
  obtain ⟨d, hd, hda⟩ := map_eq_some_iff.mp hold
  obtain ⟨d', hd', hdb⟩ := map_eq_some_iff.mp hnew
  subst hda hdb
  have hmoved : w'.db.keys (domainKey n) ≠ w.db.keys (domainKey n) := fun h => by
    have hsame := readDomain_congr h
    rw [hd, hd'] at hsame
    exact hab (congrArg Domain.clid (some.inj hsame)).symm
  rcases h.db with hq | ⟨i, xml, req, rfl, hin, hreq, hdoes⟩ | ⟨rfl, htick⟩
  · exact absurd (hq.keys _ (Obj.domain.not_pollKeys n)) hmoved
  · cases hdoes.domain n with
    | same h => exact absurd h hmoved
    | created hnone => cases (readDomain_eq_none hnone).symm.trans hd
    | kept hx _ hx' hsame =>
      obtain rfl := some.inj (hd.symm.trans hx)
      obtain rfl := some.inj (hd'.symm.trans hx')
      exact absurd hsame.clid.symm hab
    | purged _ _ hgone => cases (readDomain_eq_none hgone).symm.trans hd'
    | transferred hname hn hx h hx' =>
      obtain rfl := some.inj (hd.symm.trans hx)
      obtain rfl := some.inj (hd'.symm.trans hx')
      cases h with
      | request | cancel | reject => exact absurd rfl hab
      | approve hpending hlosing =>
        exact ⟨_, ⟨d, hd, rfl, hpending, rfl, rfl⟩,
          .inl ⟨i, xml, _, _, rfl, hin, hlosing, hreq, hname, hn⟩⟩
  · have hto : TickedTo (pendingWindow w.db.keys) w.db.clock w'.db.clock n d w'.db.keys :=
      htick.inv (.aged hd (.refl d)) fun hstep => (hstep.domain n).tickedTo
    cases hto with
    | gone h => cases h.symm.trans hd'
    | aged hx hsame =>
      obtain rfl := some.inj (hd'.symm.trans hx)
      exact absurd hsame.clid.symm hab
    | handedOver hlo hhi hpending hover hx hclid _ =>
      obtain rfl := some.inj (hd'.symm.trans hx)
      exact ⟨_, ⟨d, hd, rfl, hpending, hclid.symm, rfl⟩, .inr ⟨rfl, _, hlo, hhi, hover⟩⟩

end Steps

/-! ## Runs -/

/-- A window below `2 ^ 32` that is over in `uint32_t` is over. -/
theorem lt_of_toU32_lt {window : Int} {at_ now : Nat} (hwindow : window < 2 ^ 32) (h : at_ ≤ now)
    (hover : toU32 window < UInt32.ofNat now - UInt32.ofNat at_) : (at_ : Int) + window < now := by
  have hlt := UInt32.lt_iff_toNat_lt.mp hover
  rw [toU32, UInt32.toNat_sub, UInt32.toNat_ofNat', UInt32.toNat_ofNat', UInt32.toNat_ofNat'] at hlt
  omega

/-- **A change of sponsor was requested and is due**, where the pending window fits `uint32_t`. -/
theorem sponsor_change_requested {init w : World} {pre post : List (Did Action World)}
    {e : Did Action World} (h : History (Step long) init (pre ++ e :: post) w) {n : Text}
    {a b : CString 64} (hinit : ∀ r, ¬ Moving n a b r init.db.keys)
    (hwindow : pendingWindow e.before.db.keys < 2 ^ 32)
    (hold : sponsorOf e.before.db.keys .domain n = some a)
    (hnew : sponsorOf e.after.db.keys .domain n = some b) (hab : a ≠ b) :
    ∃ early req mid at_ r, pre = early ++ req :: mid ∧ Requested n b at_ req ∧
      (∀ e' ∈ mid, Moving n a b r e'.before.db.keys ∧ Moving n a b r e'.after.db.keys) ∧
      (Approved n a e ∨ Overdue at_ e) := by
  have hstep := h.step_of_mem (mem_append_right _ mem_cons_self)
  obtain ⟨r, hmoving, hcause⟩ := hstep.handedOver hold hnew hab
  have hpre := h.upto
  obtain ⟨early, req, mid, rfl, hbefore, hafter, hmid⟩ :=
    hpre.since (P := fun w => Moving n a b r w.db.keys) (hinit r) hmoving
  have hmem : req ∈ early ++ req :: mid := mem_append_right _ mem_cons_self
  obtain ⟨at_, hreq, rfl⟩ := (hpre.step_of_mem hmem).requested hbefore hafter
  refine ⟨early, req, mid, at_, _, rfl, hreq, hmid, hcause.imp_right ?_⟩
  rintro ⟨htick, now, hlo, hhi, hover⟩
  refine ⟨htick, now, hlo, hhi, lt_of_toU32_lt hwindow ?_ hover⟩
  -- the request came before the tick, and so did its time
  obtain ⟨_, _, _, _, _, _, _, _, _, _, _, _, _, _, _, hat⟩ := hreq
  have hclock := hpre.le (f := fun w => w.db.clock) Step.clock hmem
  exact (hat.trans hclock).trans hlo

/-! ## Two registrars and a domain -/

/-- A domain and the authInfo that the shelf draws for it. -/
def namedQuery : Bytes :=
  element (lit "domain:name") (lit "d") ++
    element (lit "domain:authInfo") 
      (element (lit "domain:pw") (lit "07070707070707070707070707070707"))

/-- The registrar `a` makes a domain, and `b` asks for it. -/
def requestPlay : List (Nat × Action) :=
  [(0, .frame 0 (loginFrame (lit "a") (lit "p"))),
    (0, .frame 0 (objectFrame .create .domain namedQuery)),
    (0, .frame 1 (loginFrame (lit "b") (lit "p"))),
    (0, .frame 1 (transferFrame (lit "request") namedQuery))]

/-- A registry with a pending window of `2 ^ 32` seconds. -/
def windowStage : Stage :=
  ⟨⟨(lit "config:eppd_transfer_pending_secs", ⟨lit "4294967296", none⟩) :: passwordCells, 5, 0,
    true⟩, fun _ => .fresh⟩

/-- **A window of `2 ^ 32` seconds is cut to none**: the tick one second behind the request hands
the domain over. -/
theorem approved_within_window :
    ∃ (init w : World) (pre : List (Did Action World)) (e : Did Action World) (n : Text)
      (a b : CString 64), History (Step True) init (pre ++ [e]) w ∧
      (∀ n' a' b' r, ¬ Moving n' a' b' r init.db.keys) ∧
      sponsorOf e.before.db.keys .domain n = some a ∧ sponsorOf e.after.db.keys .domain n = some b ∧
      a ≠ b ∧ a.text ≠ [] ∧
      ¬ ∃ early req mid at_ r, pre = early ++ req :: mid ∧ Requested n b at_ req ∧
        (∀ e' ∈ mid, Moving n a b r e'.before.db.keys ∧ Moving n a b r e'.after.db.keys) ∧
        (Approved n a e ∨ Overdue at_ e) := by
  refine ⟨_, _, _, _, lit "d", .copy (lit "a"), .copy (lit "b"),
    history_play_snoc (g := windowStage) requestPlay 1 .tick (by decide +kernel), fun n a b r => ?_,
    by decide +kernel, by decide +kernel, by decide, by decide, ?_⟩
  · exact not_moving_of_none (storeOf_eq_none (Obj.domain.key_start n) (by decide))
  · rintro ⟨_, _, _, at_, _, -, -, -, ⟨_, _, _, _, hlabel, -⟩ | ⟨-, now, -, hnow, hover⟩⟩
    · cases hlabel
    · have hwindow : pendingWindow (windowStage.playAll requestPlay).world.db.keys = 2 ^ 32 ∧
          ((windowStage.playAll requestPlay).play 1 .tick).world.db.clock < 2 ^ 32 := by
        decide +kernel
      obtain ⟨hwindow, hclock⟩ := hwindow
      dsimp only at hover hnow
      rw [hwindow] at hover
      omega

/-- The registrar `a` approves. -/
def approval : Did Action World :=
  ⟨.frame 0 (transferFrame (lit "approve") namedQuery), (emptyStage.playAll requestPlay).world,
    ((emptyStage.playAll requestPlay).play 0
      (.frame 0 (transferFrame (lit "approve") namedQuery))).world⟩

theorem approval_requested :
    sponsorOf approval.after.db.keys .domain (lit "d") = some (.copy (lit "b")) ∧
    ∃ early req mid at_ r, emptyStage.record requestPlay = early ++ req :: mid ∧
      Requested (lit "d") (.copy (lit "b")) at_ req ∧
      (∀ e' ∈ mid, Moving (lit "d") (.copy (lit "a")) (.copy (lit "b")) r e'.before.db.keys ∧
        Moving (lit "d") (.copy (lit "a")) (.copy (lit "b")) r e'.after.db.keys) ∧
      (Approved (lit "d") (.copy (lit "a")) approval ∨ Overdue at_ approval) := by
  have hnew : sponsorOf approval.after.db.keys .domain (lit "d") = some (.copy (lit "b")) := by
    decide +kernel
  have hplay : History (Step True) emptyStage.world (emptyStage.record requestPlay ++ [approval])
      approval.after := history_play_snoc requestPlay _ _ (by decide +kernel)
  refine ⟨hnew, sponsor_change_requested hplay (fun r => ?_) (by decide +kernel)
    (by decide +kernel) hnew (by decide)⟩
  exact not_moving_of_none (emptyStage_object .domain (lit "d"))

end SimpleDns.Epp
