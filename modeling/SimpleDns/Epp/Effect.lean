import SimpleDns.Epp.Ops

/-!
# What one command can do

`Effect sess lo hi s req t`: with a store that works, the request `req` of the session, between the
times `lo` and `hi`, takes the store `s` to `t`. Its guards are what the handler has
checked in `s`. The lemmas `does_*` give it for each handler, up to the poll queues, and what is
shown later about runs is shown by cases on it.

* `Republished`: the domains that use a host are published again, one transaction each.
* `AttrHosts`: the hosts of `hostAttr` elements are stored, whoever sponsors them.
* `Updated`: what an update can make of a domain.
-/

namespace SimpleDns.Epp

open Wire Lib Server

/-! ## Stored objects -/

/-- The stored domain of a name. -/
def readDomain (s : Store) (name : Text) : Option Domain :=
  (vkGet s (domainKey name) vkcBuf).bind Domain.ofBlob

/-- The stored contact of an identifier. -/
def readContact (s : Store) (id : Text) : Option Contact :=
  (vkGet s (contactKey id) vkcBuf).bind Contact.ofBlob

/-- The stored organisation of an identifier. -/
def readOrg (s : Store) (id : Text) : Option Org :=
  (vkGet s (orgKey id) vkcBuf).bind Org.ofBlob

/-- The key of an object. -/
def Obj.key : Obj → Text → Text
  | domain => domainKey
  | host => hostKey
  | contact => contactKey
  | org => orgKey

/-- The sponsor of a stored object. -/
def sponsorOf (s : Store) : Obj → Text → Option (CString 64)
  | .domain, id => (readDomain s id).map Domain.clid
  | .host, id => (readHost s id).map Host.clid
  | .contact, id => (readContact s id).map Contact.clid
  | .org, id => (readOrg s id).map Org.clid

/-- The octets of an object with a sponsor. -/
def Obj.Encodes (c : CString 64) (raw : Bytes) : Obj → Prop
  | domain => ∃ d : Domain, d.encode = some raw ∧ d.clid = c
  | host => ∃ h : Host, h.encode = some raw ∧ h.clid = c
  | contact => ∃ x : Contact, x.encode = some raw ∧ x.clid = c
  | org => ∃ x : Org, x.encode = some raw ∧ x.clid = c

/-- The identifier of the object that a command names. -/
def Obj.named (q : Bytes) : Obj → Option Text
  | domain => (requiredText q (lit "domain:name") 256).map strlower
  | host => (requiredText q (lit "host:name") 256).map strlower
  | contact => requiredText q (lit "contact:id") 64
  | org => requiredText q (lit "org:id") 64

/-! ## Publications -/

/-- A transaction took one store to the other. -/
def Committed (long : Prop) (cmds : List Cmd) (s t : Store) : Prop :=
  Sent long cmds ∧ t = commitStore s cmds

/-- `epp_publish_domain` took one store to the other. -/
def Published (long : Prop) (name : Text) (ns : Slots (CString 256)) (ds : Slots Ds)
    (s t : Store) : Prop :=
  ∃ out, ZoneTable s out ∧ Committed long (publishAt s name ns ds out) s t

/-- `epp_retract_domain` took one store to the other. -/
def Retracted (long : Prop) (name : Text) (s t : Store) : Prop :=
  ∃ out, ZoneTable s out ∧ Committed long (retractAt s name out) s t

/-- The loop of `epp_republish_host_glue` took one store to the other. -/
inductive Republished (long : Prop) : List Text → Store → Store → Prop
  | nil (s : Store) : Republished long [] s s
  | skip {name : Text} {names : List Text} {s t : Store} (hread : readDomain s name = none)
      (h : Republished long names s t) : Republished long (name :: names) s t
  | cons {name : Text} {names : List Text} {s m t : Store} {d : Domain}
      (hread : readDomain s name = some d) (hpub : Published long name d.ns d.ds s m)
      (h : Republished long names m t) : Republished long (name :: names) s t

/-- The names of stored domains that list a host, from a listing of the domains. -/
def usersOf (s : Store) (hostname : Text) (out : List Text) : List Text :=
  (out.filter fun k => match (vkGet s k vkcBuf).bind Domain.ofBlob with
    | some d => d.ns.list.any fun n => eqCI n.text hostname
    | none => false).map fun k => k.drop (lit "epp:domain:").length

/-! ## Hosts of a create -/

/-- The name servers that the loop of `epp_domain_parse_ns` can meet, with the element of each that
is a `hostAttr`. The loop ends earlier at a `hostObj` that does not exist. -/
def serverLoop : Nat → Bytes → Nat → List (Text × Option Bytes)
  | 0, _, _ => []
  | fuel + 1, range, n =>
    if n < eppMaxArr then
      match child range (lit "domain:hostObj") with
      | some obj =>
        (strlower (textIn obj.content 256), none) :: serverLoop fuel obj.rest (n + 1)
      | none =>
        match child range (lit "domain:hostAttr") with
        | some attr =>
          let hn := strlower (optionalText attr.content (lit "domain:hostName") 256)
          if hn.isEmpty then serverLoop fuel attr.rest n
          else (hn, some attr.content) :: serverLoop fuel attr.rest (n + 1)
        | none => []
    else []

/-- The name servers of a `domain:create`. -/
def servers (q : Bytes) : List (Text × Option Bytes) :=
  match child q (lit "domain:ns") with
  | none => []
  | some sec => serverLoop (sec.content.length + 1) sec.content 0

/-- The `hostAttr` elements among some name servers. -/
def attrsOf (l : List (Text × Option Bytes)) : List (Text × Bytes) :=
  l.filterMap fun x => x.2.map fun attr => (x.1, attr)

/-- The hosts that a `domain:create` stores on the way. -/
def hostAttrs (q : Bytes) : List (Text × Bytes) := attrsOf (servers q)

/-- The names of the name servers of a `domain:create`. -/
def serverNames (q : Bytes) : List Text := (servers q).map Prod.fst

/-- The DS entries of a `domain:create`. -/
def createDs (cmd : Bytes) : Slots Ds :=
  match extensionBlock cmd (lit "secDNS:create") with
  | some b => eppParseDsBlock b.content
  | none => default

/-- The host a `hostAttr` element makes of a stored blob. -/
def attrHost (blob : Text) (attr : Bytes) : Host :=
  (Host.ofItems (blobItems 4096 blob).1).addAddrs (children attr (lit "domain:hostAddr"))

/-- Hosts of `hostAttr` elements were stored, up to some element. -/
inductive AttrHosts : List (Text × Bytes) → Store → Store → Prop
  | stop (l : List (Text × Bytes)) (s : Store) : AttrHosts l s s
  | same {hn : Text} {attr : Bytes} {l : List (Text × Bytes)} {s t : Store}
      (h : AttrHosts l s t) : AttrHosts ((hn, attr) :: l) s t
  | known {hn : Text} {attr : Bytes} {l : List (Text × Bytes)} {s t : Store} {blob : Text}
      {raw : Bytes} (hget : vkGet s (hostKey hn) vkcBuf = some blob)
      (henc : (attrHost blob attr).encode = some raw)
      (h : AttrHosts l (setStore s (hostKey hn) (hexEnc raw)) t) :
      AttrHosts ((hn, attr) :: l) s t
  | fresh {hn : Text} {attr : Bytes} {l : List (Text × Bytes)} {s t : Store} {x : Host}
      {raw : Bytes} (hnew : s (hostKey hn) = none) (henc : x.encode = some raw)
      (hclid : x.clid = default) (h : AttrHosts l (setStore s (hostKey hn) (hexEnc raw)) t) :
      AttrHosts ((hn, attr) :: l) s t

/-! ## Changed domains -/

/-- The name servers in the `<add>` or `<rem>` of a `domain:update`. -/
def listedNs (q : Bytes) (part : String) : List Text :=
  match (child q (lit part)).bind fun f => child f.content (lit "domain:ns") with
  | some ns => (children ns.content (lit "domain:hostObj")).map fun f =>
      strlower (textIn f.content 256)
  | none => []

/-- The `<rem>` names the name server. -/
def Removes (q : Bytes) (n : CString 256) : Prop :=
  ∃ x ∈ listedNs q "rem", eqCI n.text x = true

/-- An update that says something about the delegation. -/
def TouchesDelegation (cmd q : Bytes) : Prop :=
  listedNs q "add" ≠ [] ∨ listedNs q "rem" ≠ [] ∨
    (extensionBlock cmd (lit "secDNS:update")).isSome ∨ restoreRequested cmd

/-- What an update makes of a stored domain: sponsor, dates and transfer stay, a redemption can
only be ended, name servers and DS entries stay unless the change is noted, and the name servers are
old ones and added ones. -/
structure Updated (cmd q : Bytes) (d : Domain) (e : Edit) : Prop where
  clid : e.domain.clid = d.clid
  exdate : e.domain.exdate = d.exdate
  transferReid : e.domain.transferReid = d.transferReid
  transferRedate : e.domain.transferRedate = d.transferRedate
  transferStatus : e.domain.transferStatus = d.transferStatus
  delegation : e.changed = false → e.domain.ns = d.ns ∧ e.domain.ds = d.ds
  rgp : e.domain.rgpState = d.rgpState ∨
    (d.rgpState = .redemption ∧ e.domain.rgpState = .none ∧ e.changed = true)
  added : ∀ n ∈ e.domain.ns.list, n ∈ d.ns.list ∨ n.text ∈ listedNs q "add"
  kept : ∀ n ∈ d.ns.list, ¬ Removes q n → n ∈ e.domain.ns.list
  touches : e.changed = true → TouchesDelegation cmd q

/-- The name server of a name is stored as a host. -/
def Known (s : Store) (x : Text) : Prop := (vkGet s (hostKey x) 16).isSome

/-- A domain without name servers gets one: the `<add>` names a stored host, and the `<rem>` none of
the added ones. -/
def Gains (s : Store) (q : Bytes) (d : Domain) : Prop :=
  d.ns.list = [] ∧ (∃ x ∈ listedNs q "add", Known s x) ∧
    ∀ x ∈ listedNs q "add", ∀ y ∈ listedNs q "rem", eqCI x y = false

/-- The domain is stored, and published if there is something to publish. -/
def StoredAnd (long publish : Prop) (name : Text) (d : Domain) (raw : Bytes) (s t : Store) :
    Prop :=
  Sent long [.set (domainKey name) (hexEnc raw)] ∧
    (publish → Published long name d.ns d.ds (setStore s (domainKey name) (hexEnc raw)) t) ∧
    (¬ publish → t = setStore s (domainKey name) (hexEnc raw))

/-- The password a transfer request presents. -/
def presented (q : Bytes) : Option Text :=
  (child q (lit "domain:authInfo")).bind fun auth =>
    (child auth.content (lit "domain:pw")).bind fun f => textOf f.content 256

/-! ## Commands -/

/-- A command that names an object: an operation of the handler table, or a transfer. -/
inductive Request
  | object (verb : Verb) (obj : Obj) (cmd q : Bytes)
  | transfer (op : Text) (q : Bytes)
deriving DecidableEq, Repr

/-- What a transfer command makes of the domain it names. -/
inductive Transfers (sess : Session) (lo hi : Nat) (q : Bytes) (d : Domain) : Text → Domain → Prop
  | request {pw : Text} {now : Nat} (hpending : d.pending = false)
      (hallowed : d.transferProhibited = false) (hpw : presented q = some pw)
      (haccepts : d.accepts pw = true) (hlo : lo ≤ now) (hhi : now ≤ hi) :
      Transfers sess lo hi q d (lit "request") (d.request sess.clid (UInt32.ofNat now))
  | cancel (hpending : d.pending = true) (hgaining : sess.clid = d.transferReid) :
      Transfers sess lo hi q d (lit "cancel")
        { d with transferStatus := .copy (lit "clientCancelled") }
  | reject (hpending : d.pending = true) (hlosing : sess.clid = d.clid) (hsome : d.clid.text ≠ []) :
      Transfers sess lo hi q d (lit "reject")
        { d with transferStatus := .copy (lit "clientRejected") }
  | approve {til : UInt32} (hpending : d.pending = true) (hlosing : sess.clid = d.clid)
      (hsome : d.clid.text ≠ []) :
      Transfers sess lo hi q d (lit "approve") (d.handOver "clientApproved" til)

theorem Transfers.mono {sess : Session} {lo hi hi' : Nat} {q : Bytes} {d d' : Domain} {op : Text}
    (h : Transfers sess lo hi q d op d') (hle : hi ≤ hi') : Transfers sess lo hi' q d op d' := by
  cases h with
  | request a b c d e f => exact .request a b c d e (f.trans hle)
  | cancel a b => exact .cancel a b
  | reject a b c => exact .reject a b c
  | approve a b c => exact .approve a b c

/-- What a command of a session does to the store. -/
inductive Effect (long : Prop) (sess : Session) (lo hi : Nat) (s : Store) : Request → Store → Prop
  | none {r : Request} : Effect long sess lo hi s r s
  | domainCreate {cmd q : Bytes} {t : Text} {d : Domain} {raw : Bytes} {m u : Store}
      (hname : requiredText q (lit "domain:name") 256 = some t)
      (hnew : s (domainKey (strlower t)) = Option.none) (hattrs : AttrHosts (hostAttrs q) s m)
      (hclid : d.clid = sess.clid) (htransfer : d.transferStatus = default)
      (hrgp : d.rgpState = .add) (hns : d.ns.list.map CString.text = serverNames q)
      (hds : d.ds = createDs cmd) (henc : d.encode = some raw)
      (hstore : StoredAnd long (¬ (d.ns.list = [] ∧ d.ds.list = [])) (strlower t) d raw m u) :
      Effect long sess lo hi s (.object .create .domain cmd q) u
  | domainRefused {cmd q : Bytes} {t : Text} {m : Store}
      (hname : requiredText q (lit "domain:name") 256 = some t)
      (hnew : s (domainKey (strlower t)) = Option.none) (hattrs : AttrHosts (hostAttrs q) s m) :
      Effect long sess lo hi s (.object .create .domain cmd q) m
  | domainUpdate {cmd q : Bytes} {t : Text} {d : Domain} {e : Edit} {raw : Bytes} {u : Store}
      (hname : requiredText q (lit "domain:name") 256 = some t)
      (hread : readDomain s (strlower t) = some d) (hsponsor : sess.sponsors d.clid = true)
      (hupd : Updated cmd q d e) (hgains : Gains s q d → e.domain.ns.list ≠ [])
      (hrestore : restoreRequested cmd = true → e.domain.rgpState ≠ .redemption)
      (henc : e.domain.encode = some raw)
      (hstore : StoredAnd long (e.changed = true) (strlower t) e.domain raw s u) :
      Effect long sess lo hi s (.object .update .domain cmd q) u
  | domainPurge {cmd q : Bytes} {t : Text} {d : Domain} {u : Store}
      (hname : requiredText q (lit "domain:name") 256 = some t)
      (hread : readDomain s (strlower t) = some d) (hsponsor : sess.sponsors d.clid = true)
      (hpending : d.pending = false) (hret : Retracted long (strlower t) s u) :
      Effect long sess lo hi s (.object .delete .domain cmd q) (vkDel u (domainKey (strlower t)))
  | domainRedeem {cmd q : Bytes} {t : Text} {d : Domain} {til : UInt32} {raw : Bytes} {u : Store}
      (hname : requiredText q (lit "domain:name") 256 = some t)
      (hread : readDomain s (strlower t) = some d) (hsponsor : sess.sponsors d.clid = true)
      (hpending : d.pending = false)
      (henc : { d with rgpState := .redemption, rgpUntil := til }.encode = some raw)
      (hsent : Sent long [.set (domainKey (strlower t)) (hexEnc raw)])
      (hret : Retracted long (strlower t) (setStore s (domainKey (strlower t)) (hexEnc raw)) u) :
      Effect long sess lo hi s (.object .delete .domain cmd q) u
  | domainRenew {cmd q : Bytes} {t : Text} {d : Domain} {ex : UInt32} {raw : Bytes}
      (hname : requiredText q (lit "domain:name") 256 = some t)
      (hread : readDomain s (strlower t) = some d) (hsponsor : sess.sponsors d.clid = true)
      (henc : { d with exdate := ex, rgpState := .none, rgpUntil := 0 }.encode = some raw) :
      Effect long sess lo hi s (.object .renew .domain cmd q)
        (setStore s (domainKey (strlower t)) (hexEnc raw))
  | transfer {op : Text} {q : Bytes} {t : Text} {d d' : Domain} {raw : Bytes}
      (hname : requiredText q (lit "domain:name") 256 = some t)
      (hread : readDomain s (strlower t) = some d) (h : Transfers sess lo hi q d op d')
      (henc : d'.encode = some raw) :
      Effect long sess lo hi s (.transfer op q) (setStore s (domainKey (strlower t)) (hexEnc raw))
  | objectCreate {o : Obj} {cmd q : Bytes} {id : Text} {raw : Bytes} (ho : o ≠ .domain)
      (hname : o.named q = some id) (hnew : s (o.key id) = Option.none)
      (henc : o.Encodes sess.clid raw) :
      Effect long sess lo hi s (.object .create o cmd q) (setStore s (o.key id) (hexEnc raw))
  | objectUpdate {o : Obj} {cmd q : Bytes} {id : Text} {c : CString 64} {raw : Bytes}
      (ho : o ≠ .domain) (hname : o.named q = some id) (hread : sponsorOf s o id = some c)
      (hsponsor : sess.sponsors c = true) (henc : o.Encodes c raw) :
      Effect long sess lo hi s (.object .update o cmd q) (setStore s (o.key id) (hexEnc raw))
  | objectDelete {o : Obj} {cmd q : Bytes} {id : Text} {c : CString 64} (ho : o ≠ .domain)
      (hname : o.named q = some id) (hread : sponsorOf s o id = some c)
      (hsponsor : sess.sponsors c = true) :
      Effect long sess lo hi s (.object .delete o cmd q) (vkDel s (o.key id))
  | hostUpdate {cmd q : Bytes} {t : Text} {h : Host} {raw : Bytes} {out : List Text} {u : Store}
      (hname : requiredText q (lit "host:name") 256 = some t)
      (hread : readHost s (strlower t) = some h) (hsponsor : sess.sponsors h.clid = true)
      (henc : ((h.updateAdd q).updateRem q).encode = some raw)
      (hlist : Lists (setStore s (hostKey (strlower t)) (hexEnc raw)) (lit "epp:domain:") 512 out)
      (hpub : Republished long
        (usersOf (setStore s (hostKey (strlower t)) (hexEnc raw)) (strlower t) out)
        (setStore s (hostKey (strlower t)) (hexEnc raw)) u) :
      Effect long sess lo hi s (.object .update .host cmd q) u

/-- An effect has room for more time. -/
theorem Effect.mono {long : Prop} {sess : Session} {req : Request} {lo hi hi' : Nat} {s t : Store}
    (h : Effect long sess lo hi s req t) (hle : hi ≤ hi') : Effect long sess lo hi' s req t := by
  cases h with
  | none => exact .none
  | domainCreate a b c d e f g i j k => exact .domainCreate a b c d e f g i j k
  | domainRefused a b c => exact .domainRefused a b c
  | domainUpdate a b c d e f g i => exact .domainUpdate a b c d e f g i
  | domainPurge a b c d e => exact .domainPurge a b c d e
  | domainRedeem a b c d e f g => exact .domainRedeem a b c d e f g
  | domainRenew a b c d => exact .domainRenew a b c d
  | transfer a b c d => exact .transfer a b (c.mono hle) d
  | objectCreate a b c d => exact .objectCreate a b c d
  | objectUpdate a b c d e => exact .objectUpdate a b c d e
  | objectDelete a b c d => exact .objectDelete a b c d
  | hostUpdate a b c d e f => exact .hostUpdate a b c d e f

/-- A handler took one state to the other: the store by an effect, up to the poll queues, and the
clock did not go back. -/
structure Does (long : Prop) (sess : Session) (req : Request) (s t : Db) : Prop where
  effect : ∃ u, Effect long sess s.clock t.clock s.keys req u ∧
    ∀ k, ¬ pollKeys <+: k → t.keys k = u k
  clock : s.clock ≤ t.clock

variable {long : Prop} {sess : Session} {req : Request} {cmd q : Bytes} {s : Db}

theorem Does.refl : Does long sess req s s := ⟨⟨_, .none, fun _ _ => rfl⟩, le_refl _⟩

/-- From the parts of the second state. -/
theorem Does.of {u : Store} {c : Nat} {r : UInt32} (h : Effect long sess s.clock c s.keys req u)
    (hc : s.clock ≤ c) : Does long sess req s ⟨u, c, r⟩ :=
  ⟨⟨u, h, fun _ _ => rfl⟩, hc⟩

/-- Quiet programs behind an effect. -/
theorem Does.quiet {t t' : Db} (h : Does long sess req s t) (hq : Quiet t t') :
    Does long sess req s t' := by
  obtain ⟨u, he, hk⟩ := h.effect
  exact ⟨⟨u, he.mono hq.clock, fun k hp => (hq.keys k hp).trans (hk k hp)⟩, h.clock.trans hq.clock⟩

/-- All a program does is an effect of the request. -/
abbrev Handles (long : Prop) (sess : Session) (req : Request) (p : E Answer) (s : Db) : Prop :=
  Ends long p (fun _ t => Does long sess req s t) s

theorem refusable_does : Refusable (fun _ t => Does long sess req s t) s := fun _ _ _ => .refl

/-! ## Reading programs -/

theorem wp_hostLoop {hostname : Text} {keys : List Text} {Q : List Text → Db → Prop}
    (h : Q (keys.filter fun k => match (vkGet s.keys k vkcBuf).bind Domain.ofBlob with
      | some d => d.ns.list.any fun n => eqCI n.text hostname
      | none => false) s) :
    Ends long (hostLoop hostname keys) Q s := by
  induction keys generalizing Q with
  | nil => exact h
  | cons key keys ih =>
    rw [hostLoop, wp_bind, wp_get, wp_bind]
    refine ih ?_
    rw [List.filter_cons] at h
    cases hread : (vkGet s.keys key vkcBuf).bind Domain.ofBlob with
    | none | some d =>
      simp only [hread] at h
      exact h

theorem wp_eppHostInUse {hostname : Text} {Q : List Text → Db → Prop}
    (h : ∀ out, Lists s.keys (lit "epp:domain:") 512 out → Q (usersOf s.keys hostname out) s) :
    Ends long (eppHostInUse hostname) Q s := by
  rw [eppHostInUse, wp_bind, wp_scan]
  intro out hout
  rw [wp_bind]
  exact wp_hostLoop (h out hout)

theorem wp_contactLoop {id : Text} {keys : List Text} {Q : Bool → Db → Prop} (h : ∀ b, Q b s) :
    Ends long (contactLoop id keys) Q s := by
  induction keys with
  | nil => exact h _
  | cons key keys ih =>
    rw [contactLoop, wp_bind, wp_get]
    split
    · split
      · exact h _
      · exact ih
    · exact ih

theorem wp_republishLoop {names : List Text} {Q : Unit → Db → Prop}
    (h : ∀ u, Republished long names s.keys u → Q () { s with keys := u }) :
    Ends long (republishLoop names) Q s := by
  induction names generalizing s with
  | nil => exact h _ (.nil _)
  | cons name names ih =>
    rw [republishLoop, wp_bind, wp_get]
    cases hread : (vkGet s.keys (domainKey name) vkcBuf).bind Domain.ofBlob with
    | none => exact ih fun u hu => h u (.skip hread hu)
    | some d =>
      rw [wp_bind]
      refine wp_eppPublishDomain fun out hout hsent => ?_
      exact ih fun u hu => h u (.cons hread ⟨out, hout, hsent, rfl⟩ hu)

/-! ## Hosts -/

theorem Host.clid_addAddrs (h : Host) (fs : List Found) : (h.addAddrs fs).clid = h.clid := by
  induction fs generalizing h with
  | nil => rfl
  | cons f fs ih =>
    rw [Host.addAddrs]
    split
    · rw [ih, Host.addAddr]
      split
      · rfl
      · split <;> rfl
    · rfl

section Objects

variable {o : Obj} {id : Text} {c : CString 64} (ho : o ≠ .domain) (hname : o.named q = some id)

include ho hname

/-- The end of a create: the object gets its identifier and its date, and is stored. -/
theorem does_stamped {pre : String} {enc : CString 32 → UInt32 → Option Bytes}
    {extra : CString 32 → UInt32 → Text} (hnew : s.keys (o.key id) = none)
    (henc : ∀ roid now raw, enc roid now = some raw → o.Encodes sess.clid raw) :
    Handles long sess (.object .create o cmd q) (do
      let roid ← eppGenRoid pre
      let now ← now32
      storeThen (o.key id) (enc roid now) (completed (extra roid now))) s := by
  refine wp_bind.mpr (wp_eppGenRoid fun roid => ?_)
  rw [wp_bind]
  refine wp_now32 fun now hnow => ?_
  refine wp_storeThen (fun _ _ _ => .of .none hnow) fun raw hraw _ => ?_
  exact wp_completed fun _ => .of (.objectCreate ho hname hnew (henc _ _ _ hraw)) hnow

variable (hread : sponsorOf s.keys o id = some c) (hsponsor : sess.sponsors c = true)

include hread hsponsor

theorem does_stored {enc : Option Bytes} {extra : Text}
    (henc : ∀ raw, enc = some raw → o.Encodes c raw) :
    Handles long sess (.object .update o cmd q) (storeThen (o.key id) enc (completed extra)) s := by
  refine wp_storeThen refusable_does fun raw hraw _ => ?_
  exact wp_completed fun _ => .of (.objectUpdate ho hname hread hsponsor (henc raw hraw))
    (le_refl _)

theorem does_deleted {extra : Text} :
    Handles long sess (.object .delete o cmd q) (do
      let _ ← E.del (o.key id)
      completed extra) s := by
  refine wp_bind.mpr (wp_del.mpr ⟨fun _ => wp_completed fun _ => .of ?_ (le_refl _),
    fun _ _ => wp_completed fun _ => .refl⟩)
  exact .objectDelete ho hname hread hsponsor

end Objects

theorem does_eppHostCreate :
    Handles long sess (.object .create .host cmd q) (eppHostCreate sess q) s := by
  refine wp_withName refusable_does fun t ht => wp_unlessExists refusable_does fun hnew => ?_
  refine does_stamped (o := .host) nofun (congrArg (Option.map strlower) ht) hnew ?_
  exact fun _ _ _ hraw => ⟨_, hraw, Host.clid_addAddrs _ _⟩

theorem does_eppHostUpdate :
    Handles long sess (.object .update .host cmd q) (eppHostUpdate sess q) s := by
  refine wp_withName refusable_does fun t ht =>
    wp_withSponsored refusable_does fun h hread hsp =>
      wp_unlessStatus refusable_does (wp_storeThen refusable_does fun raw hraw _ => ?_)
  rw [wp_bind, eppRepublishHostGlue, wp_bind]
  refine wp_eppHostInUse fun out hout => wp_republishLoop fun u hu => ?_
  exact wp_completed fun _ => .of (.hostUpdate ht hread hsp hraw hout hu) (le_refl _)

theorem does_eppHostDelete :
    Handles long sess (.object .delete .host cmd q) (eppHostDelete sess q) s := by
  refine wp_withName refusable_does fun t ht =>
    wp_withSponsored refusable_does fun h hread hsp => wp_unlessStatus refusable_does ?_
  rw [wp_bind]
  refine wp_eppHostInUse fun out hout => ?_
  split
  · exact does_deleted (o := .host) nofun (congrArg (Option.map strlower) ht)
      (congrArg (Option.map Host.clid) hread) hsp
  · exact wp_plain fun _ => .refl

/-! ## Contacts and organisations -/

theorem does_eppContactCreate :
    Handles long sess (.object .create .contact cmd q) (eppContactCreate sess q) s := by
  refine wp_withName refusable_does fun id hid => wp_unlessExists refusable_does fun hnew => ?_
  rw [wp_bind]
  refine wp_eppGenAuthinfo fun authinfo => ?_
  exact does_stamped (o := .contact) nofun hid hnew fun _ _ _ hraw => ⟨_, hraw, rfl⟩

theorem does_eppContactUpdate :
    Handles long sess (.object .update .contact cmd q) (eppContactUpdate sess q) s := by
  refine wp_withName refusable_does fun id hid =>
    wp_withSponsored refusable_does fun c hread hsp => ?_
  have hstored : ∀ c' : Contact, c'.clid = c.clid →
      Handles long sess (.object .update .contact cmd q)
        (storeThen (contactKey id) c'.encode (completed [])) s := fun c' hclid =>
    does_stored (o := .contact) nofun hid (congrArg (Option.map Contact.clid) hread) hsp
      fun _ hraw => ⟨c', hraw, hclid⟩
  split
  · exact hstored _ rfl
  · split
    · rw [wp_bind]
      exact wp_eppGenAuthinfo fun authinfo => hstored _ rfl
    · exact hstored _ rfl

theorem does_eppContactDelete :
    Handles long sess (.object .delete .contact cmd q) (eppContactDelete sess q) s := by
  refine wp_withName refusable_does fun id hid =>
    wp_withSponsored refusable_does fun c hread hsp => ?_
  rw [wp_bind, eppContactInUse, wp_bind, wp_scan]
  refine fun out _ => wp_contactLoop fun used => ?_
  split
  · exact wp_plain fun _ => .refl
  · exact does_deleted (o := .contact) nofun hid (congrArg (Option.map Contact.clid) hread) hsp

theorem does_eppOrgCreate :
    Handles long sess (.object .create .org cmd q) (eppOrgCreate sess q) s := by
  refine wp_withName refusable_does fun id hid => wp_unlessExists refusable_does fun hnew => ?_
  exact does_stamped (o := .org) nofun hid hnew fun _ _ _ hraw => ⟨_, hraw, rfl⟩

theorem Org.clid_update (o : Org) (q : Bytes) :
    (((o.updateAdd q).updateRem q).updateChg q).clid = o.clid := by
  have hadd : (o.updateAdd q).clid = o.clid := by
    unfold Org.updateAdd
    split <;> rfl
  have hrem : ∀ o : Org, (o.updateRem q).clid = o.clid := by
    intro o
    unfold Org.updateRem
    split <;> rfl
  have hchg : ∀ o : Org, (o.updateChg q).clid = o.clid := by
    intro o
    unfold Org.updateChg
    split <;> rfl
  rw [hchg, hrem, hadd]

theorem does_eppOrgUpdate :
    Handles long sess (.object .update .org cmd q) (eppOrgUpdate sess q) s := by
  refine wp_withName refusable_does fun id hid =>
    wp_withSponsored refusable_does fun o hread hsp => wp_unlessStatus refusable_does ?_
  exact does_stored (o := .org) nofun hid (congrArg (Option.map Org.clid) hread) hsp
    fun _ hraw => ⟨_, hraw, Org.clid_update _ _⟩

theorem does_eppOrgDelete :
    Handles long sess (.object .delete .org cmd q) (eppOrgDelete sess q) s := by
  refine wp_withName refusable_does fun id hid =>
    wp_withSponsored refusable_does fun o hread hsp => wp_unlessStatus refusable_does ?_
  exact does_deleted (o := .org) nofun hid (congrArg (Option.map Org.clid) hread) hsp

end SimpleDns.Epp
