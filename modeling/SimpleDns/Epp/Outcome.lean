import SimpleDns.Epp.DomainEffect

/-!
# What a frame and a tick can do

With a store that works, a frame is a login, a request with its effect, or leaves everything but the
poll queues. A tick goes through a listing of the domain keys and ages one domain after the other.

* **`outcome_eppDispatch`**: the outcome of a frame.
* **`ticked_eppRgpTickScan`**: the outcome of a tick.
-/

namespace SimpleDns.Epp

open Wire Lib Server List Option
open Prog (wp_mono)

variable {long : Prop} {sess : Session} {cmd q : Bytes} {s : Db}

/-! ## The request of a frame -/

/-- The request of a `<command>` element. -/
def requestIn (cmd : Bytes) : Option Request :=
  match child cmd (lit "transfer") with
  | some t => (child t.content (lit "domain:transfer")).map fun dt =>
      .transfer (attrExtract t.openTag (lit "op") 16) dt.content
  | none =>
    if (child cmd (lit "poll")).isSome then none
    else (findVerb cmd [.check, .info, .create, .update, .delete, .renew]).bind fun v =>
      (findObj v.1 v.2 [.domain, .host, .contact, .org]).map fun o => .object v.1 o.1 cmd o.2

/-- The request of a frame; a `<hello>`, a logout and a login are none. -/
def requestOf (xml : Bytes) : Option Request :=
  (child xml (lit "epp")).bind fun epp =>
    if (child epp.content (lit "hello")).isSome then none
    else (child epp.content (lit "command")).bind fun cmd =>
      if (child cmd.content (lit "logout")).isSome ∨ (child cmd.content (lit "login")).isSome then
        none
      else requestIn cmd.content

/-! ## Handlers that only read -/

section Reading

variable {Q : Answer → Db → Prop}

theorem wp_eppDomainCheck (h : ∀ a, Q a s) :
    Ends long (eppDomainCheck cmd q) Q s := by
  refine wp_withName (fun _ _ _ => h _) fun t _ => ?_
  rw [wp_bind, wp_get]
  split
  · exact wp_completed h
  · rw [wp_bind]
    refine wp_configText fun currency => ?_
    rw [wp_bind]
    exact wp_configText fun fee => wp_completed h

theorem wp_eppDomainInfo (h : ∀ a, Q a s) :
    Ends long (eppDomainInfo sess q) Q s := by
  refine wp_withName (fun _ _ _ => h _) fun t _ => wp_withObject (fun _ _ _ => h _) fun d _ => ?_
  split
  · exact h _
  · exact wp_completed h

theorem wp_eppPollCount {clid : Text} {Q : Nat → Db → Prop} (h : ∀ n, Q n s) :
    Ends long (eppPollCount clid) Q s := by
  rw [eppPollCount, wp_bind, wp_scan]
  exact fun _ _ => h _

theorem wp_eppPollOldest {clid : Text} {Q : Option (PollMsg × Int) → Db → Prop} (h : ∀ r, Q r s) :
    Ends long (eppPollOldest clid) Q s := by
  rw [eppPollOldest, wp_bind, wp_scan]
  intro out _
  refine wp_ite (fun _ => h _) fun _ => ?_
  rw [wp_bind, wp_get]
  exact h _

/-- An acknowledgement deletes a message, and a poll request only reads. -/
theorem wp_eppHandlePoll {op msgid : Text} :
    Ends long (eppHandlePoll sess op msgid) (fun _ t => Quiet s t) s := by
  have hkey : pollKeys <+: pollStart sess.clid.text ++ msgid := by
    rw [pollStart, append_assoc, append_assoc]
    exact (by decide : pollKeys <+: lit "epp:poll:").trans (prefix_append _ _)
  unfold eppHandlePoll
  refine wp_ite (fun _ => ?_) fun _ => wp_ite (fun _ => ?_) fun _ => .refl s
  · refine wp_ite (fun _ => .refl s) fun _ => ?_
    rw [wp_bind, wp_get]
    refine wp_ite (fun _ => ?_) fun _ => .refl s
    rw [wp_bind, wp_del]
    refine ⟨fun _ => ?_, fun _ _ => ?_⟩
    · rw [wp_bind]
      refine wp_eppPollCount fun n => wp_completed fun _ => ⟨fun k hk => vkDel_ne ?_, le_refl _⟩
      rintro rfl
      exact hk hkey
    · rw [wp_bind]
      exact wp_eppPollCount fun n => wp_completed fun _ => .refl s
  · rw [wp_bind]
    refine wp_eppPollOldest fun r => ?_
    split
    · exact .refl s
    · rw [wp_bind]
      exact wp_eppPollCount fun n => .refl s

end Reading

/-! ## Frames -/

/-- **Every entry of the handler table has the effect of its request.** -/
theorem does_handler (verb : Verb) (obj : Obj) :
    Handles long sess (.object verb obj cmd q) (handler sess cmd q verb obj) s := by
  have hrefl : ∀ {req : Request}, Answer → Does long sess req s s := fun _ => .refl
  cases verb with
  | check =>
    cases obj with
    | domain => exact wp_eppDomainCheck hrefl
    | host | contact | org =>
      refine wp_withName refusable_does fun _ _ => ?_
      rw [checkObject, wp_bind, wp_get]
      exact wp_completed hrefl
  | info =>
    cases obj with
    | domain => exact wp_eppDomainInfo hrefl
    | host | contact | org =>
      exact wp_withName refusable_does fun _ _ =>
        wp_withObject refusable_does fun _ _ => wp_completed hrefl
  | create =>
    cases obj with
    | domain => exact does_eppDomainCreate
    | host => exact does_eppHostCreate
    | contact => exact does_eppContactCreate
    | org => exact does_eppOrgCreate
  | update =>
    cases obj with
    | domain => exact does_eppDomainUpdate
    | host => exact does_eppHostUpdate
    | contact => exact does_eppContactUpdate
    | org => exact does_eppOrgUpdate
  | delete =>
    cases obj with
    | domain => exact does_eppDomainDelete
    | host => exact does_eppHostDelete
    | contact => exact does_eppContactDelete
    | org => exact does_eppOrgDelete
  | renew =>
    cases obj with
    | domain => exact does_eppDomainRenew
    | host => exact .refl
    | contact => exact .refl
    | org => exact .refl

/-- What a frame does: the session and the state behind it. -/
inductive Outcome (long : Prop) (sess : Session) (xml : Bytes) (s : Db) : Session → Db → Prop
  | quiet {t : Db} (h : Quiet s t) : Outcome long sess xml s sess t
  | login {clid : CString 64} (h : clid.text ≠ []) : Outcome long sess xml s ⟨clid, true⟩ s
  | request {req : Request} {t : Db} (hin : sess.loggedIn = true) (hreq : requestOf xml = some req)
      (h : Does long sess req s t) : Outcome long sess xml s sess t

/-- What a `<command>` that is no login does. -/
theorem outcome_eppHandleCommand {xml : Bytes} (hxml : requestOf xml = requestIn cmd) :
    Ends long (eppHandleCommand sess cmd) (fun _ t => Outcome long sess xml s sess t)
      s := by
  have hquiet : Outcome long sess xml s sess s := .quiet (.refl s)
  unfold eppHandleCommand
  refine wp_ite (fun _ => hquiet) fun hin => ?_
  have hin : sess.loggedIn = true := by simpa using hin
  unfold requestIn at hxml
  cases htransfer : child cmd (lit "transfer") with
  | some t =>
    rw [htransfer] at hxml
    dsimp only at hxml ⊢
    unfold eppDomainTransfer
    cases hdt : child t.content (lit "domain:transfer") with
    | none => exact hquiet
    | some dt =>
      rw [hdt] at hxml
      have hdoes : ∀ {t'}, Does long sess _ s t' → Outcome long sess xml s sess t' :=
        .request hin hxml
      refine wp_withName (fun _ _ _ => hquiet) fun n hn =>
        wp_withObject (fun _ _ _ => hquiet) fun d hd => ?_
      refine wp_ite (fun _ => ?_) fun _ => wp_ite (fun hop => ?_) fun _ =>
        wp_ite (fun hop => ?_) fun _ => hquiet
      · unfold transferQuery
        exact wp_ite (fun _ => hquiet) fun _ => wp_ite (fun _ => hquiet) fun _ =>
          wp_completed fun _ => hquiet
      · rw [hop] at hdoes
        exact wp_mono (does_transferRequest hn hd) fun _ _ => hdoes
      · exact wp_mono (does_transferSettle hop hn hd) fun _ _ => hdoes
  | none =>
    rw [htransfer] at hxml
    cases hpoll : child cmd (lit "poll") with
    | some p => exact wp_mono wp_eppHandlePoll fun _ _ => .quiet
    | none =>
      rw [hpoll] at hxml
      dsimp only [isSome_none] at hxml ⊢
      rw [if_neg (by decide)] at hxml
      split
      · exact hquiet
      · rename_i verb range hverb
        rw [hverb, bind_some] at hxml
        split
        · exact hquiet
        · rename_i obj q hobj
          rw [hobj, map_some] at hxml
          exact wp_mono (does_handler verb obj) fun _ _ => .request hin hxml

/-- **What a frame does.** -/
theorem outcome_eppDispatch {xml : Bytes} :
    Ends long (eppDispatch sess xml) (fun r t => Outcome long sess xml s r.sess t)
      s := by
  have hquiet : Outcome long sess xml s sess s := .quiet (.refl s)
  unfold eppDispatch
  cases hepp : child xml (lit "epp") with
  | none => exact hquiet
  | some epp =>
    refine wp_ite (fun _ => hquiet) fun hhello => ?_
    cases hcmd : child epp.content (lit "command") with
    | none => exact hquiet
    | some cmd =>
      refine wp_ite (fun _ => hquiet) fun hlogout => ?_
      cases hlogin : child cmd.content (lit "login") with
      | some login =>
        rw [wp_bind]
        unfold eppHandleLogin
        split
        · exact hquiet
        · rename_i clid hclid
          split
          · exact hquiet
          · rw [wp_bind, wp_get]
            refine wp_ite (fun _ => ?_) fun _ => hquiet
            obtain ⟨hlen, hnul, hne⟩ := length_requiredText (by decide) hclid
            refine .login ?_
            rwa [CString.text_copy hnul hlen]
      | none =>
        rw [wp_bind]
        refine outcome_eppHandleCommand ?_
        rw [requestOf, hepp, bind_some, if_neg hhello, hcmd, bind_some, hlogin,
          if_neg (by simpa using hlogout)]

/-! ## Ticks -/

/-- The pending window that is configured. -/
def pendingWindow (s : Store) : Int :=
  cfgSecs s (lit "config:eppd_transfer_pending_secs") (5 * 86400)

/-- What time does to the grace periods of a domain. -/
inductive Aged (now : UInt32) (d : Domain) : Domain → Prop
  | same : Aged now d d
  | renewed {til : UInt32} (hrgp : d.rgpState ≠ .redemption) (hdue : d.exdate ≤ now) :
      Aged now d
        { d with exdate := d.exdate + yearSecs, rgpState := .autorenew, rgpUntil := til }
  | ended (hrgp : d.rgpState = .add ∨ d.rgpState = .autorenew ∨ d.rgpState = .transfer)
      (hdue : d.rgpUntil ≤ now) : Aged now d { d with rgpState := .none, rgpUntil := 0 }

/-- What a tick does to the domain of one name. -/
inductive Tick (window : Int) (lo hi : Nat) (name : Text) (s : Store) : Store → Prop
  | none : Tick window lo hi name s s
  | purge {d : Domain} {now : Nat} (hlo : lo ≤ now) (hhi : now ≤ hi)
      (hread : readDomain s name = some d) (hred : d.rgpState = .redemption)
      (hdue : d.rgpUntil ≤ UInt32.ofNat now) : Tick window lo hi name s (vkDel s (domainKey name))
  | store {d d' : Domain} {now : Nat} {raw : Bytes} (hlo : lo ≤ now) (hhi : now ≤ hi)
      (hread : readDomain s name = some d) (haged : Aged (UInt32.ofNat now) d d')
      (henc : d'.encode = some raw) :
      Tick window lo hi name s (setStore s (domainKey name) (hexEnc raw))
  | approve {d d' : Domain} {now : Nat} {til : UInt32} {raw : Bytes} (hlo : lo ≤ now)
      (hhi : now ≤ hi) (hread : readDomain s name = some d)
      (haged : Aged (UInt32.ofNat now) d d') (hpending : d'.pending = true)
      (hover : toU32 window < UInt32.ofNat now - d'.transferRedate)
      (henc : (d'.handOver "serverApproved" til).encode = some raw) :
      Tick window lo hi name s (setStore s (domainKey name) (hexEnc raw))

theorem Tick.mono {window : Int} {lo hi lo' hi' : Nat} {name : Text} {s t : Store}
    (h : Tick window lo hi name s t) (hlo : lo' ≤ lo) (hhi : hi ≤ hi') :
    Tick window lo' hi' name s t := by
  cases h with
  | none => exact .none
  | purge h₁ h₂ h₃ h₄ h₅ => exact .purge (hlo.trans h₁) (h₂.trans hhi) h₃ h₄ h₅
  | store h₁ h₂ h₃ h₄ h₅ => exact .store (hlo.trans h₁) (h₂.trans hhi) h₃ h₄ h₅
  | approve h₁ h₂ h₃ h₄ h₅ h₆ h₇ => exact .approve (hlo.trans h₁) (h₂.trans hhi) h₃ h₄ h₅ h₆ h₇

theorem setStore_ne {s : Store} {key val k : Text} (h : k ≠ key) : setStore s key val k = s k := by
  unfold setStore
  split
  · exact vkSet_ne h
  · rfl

/-- A tick on one name touches its key only. -/
theorem Tick.other {window : Int} {lo hi : Nat} {name k : Text} {s t : Store}
    (h : Tick window lo hi name s t) (hk : k ≠ domainKey name) : t k = s k := by
  cases h with
  | none => rfl
  | purge => exact vkDel_ne hk
  | store | approve => exact setStore_ne hk

/-- One name of a sweep, up to the poll queues. -/
def TickStep (window : Int) (lo hi : Nat) (s t : Store) : Prop :=
  ∃ name u, Tick window lo hi name s u ∧ ∀ k, ¬ pollKeys <+: k → t k = u k

/-- A tick: names one after another, between two times. -/
structure Ticked (s t : Db) : Prop where
  steps : Relation.ReflTransGen (TickStep (pendingWindow s.keys) s.clock t.clock) s.keys t.keys
  clock : s.clock ≤ t.clock

/-- What every visit keeps, a tick keeps. -/
theorem Ticked.inv {P : Store → Prop} {s t : Db} (h : Ticked s t) (hs : P s.keys)
    (hstep : ∀ {u v}, TickStep (pendingWindow s.keys) s.clock t.clock u v → P u → P v) :
    P t.keys := by
  obtain ⟨hsteps, -⟩ := h
  generalize t.keys = v at hsteps
  induction hsteps with
  | refl => exact hs
  | tail _ hvisit ih => exact hstep hvisit ih

section Sweep

variable {name : Text} {d : Domain} {now : UInt32}

theorem wp_tickRenew {Q : Domain × Bool → Db → Prop}
    (h : ∀ d' c, Aged now d d' → (c = false → d' = d) → Q (d', c) s) :
    Ends long (tickRenew d now) Q s := by
  unfold tickRenew
  refine wp_ite (fun hdue => ?_) fun _ => wp_ite (fun hdue => ?_) fun _ => ?_
  · rw [wp_bind]
    exact wp_eppCfgSecs (h _ _ (.renewed hdue.1 hdue.2) nofun)
  · exact h _ _ (.ended hdue.1 hdue.2) nofun
  · exact h _ _ .same fun _ => rfl

theorem wp_tickTransfer {changed : Bool} {Q : Domain × Bool → Db → Prop} (h : Q (d, changed) s)
    (happrove : ∀ til t, d.pending = true →
      toU32 (pendingWindow s.keys) < now - d.transferRedate → Quiet s t →
      Q (d.handOver "serverApproved" til, true) t) :
    Ends long (tickTransfer name now d changed) Q s := by
  unfold tickTransfer
  refine wp_ite (fun hpending => ?_) fun _ => h
  rw [wp_bind]
  refine wp_eppCfgSecs (wp_ite (fun hover => ?_) fun _ => h)
  rw [wp_bind]
  refine wp_eppCfgSecs ?_
  rw [wp_bind]
  refine wp_eppPollEnqueue fun t ht => ?_
  rw [wp_bind]
  exact wp_eppPollEnqueue fun u hu => happrove _ u hpending hover (ht.trans hu)

/-- Stores that agree at a key agree there behind the same write. -/
theorem agree_update {s t : Store} {k : Text} (h : t k = s k) (key : Text) (c : Option Cell) :
    Function.update t key c k = Function.update s key c k := by
  rw [Function.update_apply, Function.update_apply, h]

/-- One name was visited. -/
structure TickedOne (name : Text) (s t : Db) : Prop where
  clock : s.clock ≤ t.clock
  tick : ∃ u, Tick (pendingWindow s.keys) s.clock t.clock name s.keys u ∧
    ∀ k, ¬ pollKeys <+: k → t.keys k = u k

/-- The end of a visit: the domain is stored if it has changed. -/
theorem wp_tickStore {x : Domain} {c : Bool} {t : Db} (hclock : s.clock ≤ t.clock)
    (hkeys : ∀ k, ¬ pollKeys <+: k → t.keys k = s.keys k)
    (h : ∀ raw, c = true → x.encode = some raw → Tick (pendingWindow s.keys) s.clock t.clock name
      s.keys (setStore s.keys (domainKey name) (hexEnc raw))) :
    Ends long (tickStore (domainKey name) x c) (fun _ u => TickedOne name s u)
      t := by
  have hsame : TickedOne name s t := ⟨hclock, _, .none, hkeys⟩
  unfold tickStore
  refine wp_ite (fun hc => ?_) fun _ => hsame
  split
  · exact hsame
  · rename_i raw henc
    refine wp_set_then fun _ => ⟨hclock, _, h raw hc henc, fun k hk => ?_⟩
    unfold setStore
    split
    · exact agree_update (hkeys k hk) _ _
    · exact hkeys k hk

/-- The domain of one key. -/
theorem wp_eppRgpTickOne :
    Ends long (eppRgpTickOne (domainKey name)) (fun _ t => TickedOne name s t)
      s := by
  rw [eppRgpTickOne, wp_bind, wp_get]
  cases hread : (vkGet s.keys (domainKey name) vkcBuf).bind Domain.ofBlob with
  | none => exact ⟨le_refl _, _, .none, fun _ _ => rfl⟩
  | some d =>
    rw [wp_bind]
    refine wp_now32 fun now hnow => ?_
    refine wp_ite (fun hdue => ?_) fun _ => ?_
    · rw [wp_bind]
      refine wp_eppPollEnqueue fun t ht => ?_
      rw [wp_bind, wp_del]
      refine ⟨fun _ => ?_, fun _ _ => ⟨hnow.trans ht.clock, _, .none, ht.keys⟩⟩
      exact ⟨hnow.trans ht.clock, _, .purge hnow ht.clock hread hdue.1 hdue.2,
        fun k hk => agree_update (ht.keys k hk) _ _⟩
    · rw [wp_bind]
      refine wp_tickRenew fun d' c haged _ => ?_
      rw [wp_bind]
      refine wp_tickTransfer ?_ fun til t hpending hover ht => ?_
      · exact wp_tickStore hnow (fun _ _ => rfl) fun raw _ henc =>
          .store hnow (le_refl _) hread haged henc
      · exact wp_tickStore (hnow.trans ht.clock) ht.keys fun raw _ henc =>
          .approve hnow ht.clock hread haged hpending hover henc

end Sweep

/-- The configured window is not touched. -/
theorem TickedOne.pendingWindow_eq {name : Text} {s t : Db} (h : TickedOne name s t) :
    pendingWindow t.keys = pendingWindow s.keys := by
  obtain ⟨u, htick, hkeys⟩ := h.tick
  have hne : lit "config:eppd_transfer_pending_secs" ≠ domainKey name := by
    intro heq
    have hhead := congrArg (take 1) heq
    rw [domainKey, take_append_of_le_length (by decide)] at hhead
    cases hhead
  have hcell := (hkeys _ (by decide)).trans (htick.other hne)
  unfold pendingWindow cfgSecs vkGet
  rw [hcell]

/-- The keys of a listing start as it says. -/
theorem Lists.start {s : Store} {start : Text} {n : Nat} {out : List Text}
    (h : Lists s start n out) (hlen : start.length ≤ 255) {k : Text} (hk : k ∈ out) :
    start <+: k := by
  obtain ⟨all, hall, rfl⟩ := h
  obtain ⟨k', hk', rfl⟩ := mem_map.mp (mem_of_mem_take hk)
  obtain ⟨rest, rfl⟩ := ((hall k').mp hk').1
  rw [safeStrcpy, take_append, take_of_length_le hlen]
  exact prefix_append _ _

theorem wp_tickLoop {keys : List Text} (hkeys : ∀ k ∈ keys, lit "epp:domain:" <+: k) :
    Ends long (tickLoop keys) (fun _ t => Ticked s t) s := by
  induction keys generalizing s with
  | nil => exact ⟨.refl, le_refl _⟩
  | cons k keys ih =>
    obtain ⟨name, rfl⟩ := hkeys k mem_cons_self
    rw [tickLoop, wp_bind]
    refine wp_mono wp_eppRgpTickOne fun _ t ht => ?_
    refine wp_mono (ih fun k hk => hkeys k (mem_cons_of_mem _ hk)) fun _ u hu => ?_
    obtain ⟨v, htick, hagree⟩ := ht.tick
    refine ⟨.head ⟨name, v, htick.mono (le_refl _) hu.clock, hagree⟩ ?_, ht.clock.trans hu.clock⟩
    refine Relation.ReflTransGen.mono (fun x y => ?_) _ _ hu.steps
    rintro ⟨n, w, hw, hxy⟩
    rw [ht.pendingWindow_eq] at hw
    exact ⟨n, w, hw.mono ht.clock (le_refl _), hxy⟩

/-- **What a tick does.** -/
theorem ticked_eppRgpTickScan :
    Ends long eppRgpTickScan (fun _ t => Ticked s t) s := by
  rw [eppRgpTickScan, wp_bind, wp_scan]
  intro out hout
  exact wp_tickLoop fun k hk => hout.start (by decide) hk

end SimpleDns.Epp
