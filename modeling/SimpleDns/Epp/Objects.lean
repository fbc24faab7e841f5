import SimpleDns.Epp.Run

/-!
# What a step does to one object

The effects of requests and ticks, seen from the key of one object.

* **`Effect.domain`**: what a request does to one domain, with the transfer of it.
* **`Effect.object`**: what a request does to any object, where the `hostAttr` elements of a create
  name hosts of the session.
* `Tick.domain`: what a tick does to one domain.
-/

namespace SimpleDns.Epp

open Wire Lib Server List Option

variable {long : Prop} {sess : Session} {req : Request} {lo hi : Nat} {s u : Store}

/-! ## Storing and deleting -/

variable {d : Domain} {raw : Bytes} {n : Text}

/-- A domain that was sent is there, and one that was not leaves the store. -/
theorem readDomain_setStore (henc : d.encode = some raw) :
    readDomain (setStore s (domainKey n) (hexEnc raw)) n = some d ∨
      ¬ fitsCommand (Cmd.set (domainKey n) (hexEnc raw)).args ∧
        setStore s (domainKey n) (hexEnc raw) = s :=
  read_setStore (by decide) d.ofItems_items henc

variable {c : CString 64}

theorem sponsorOf_setStore (o : Obj) (id : Text) (henc : o.Encodes c raw) :
    sponsorOf (setStore s (o.key id) (hexEnc raw)) o id = some c ∨
      setStore s (o.key id) (hexEnc raw) = s := by
  cases o with
  | domain =>
    obtain ⟨d, henc, rfl⟩ := henc
    exact (readDomain_setStore henc).imp (congrArg (Option.map Domain.clid)) And.right
  | host =>
    obtain ⟨h, henc, rfl⟩ := henc
    exact (read_setStore (by decide) h.ofItems_items henc).imp (congrArg (Option.map Host.clid))
      And.right
  | contact =>
    obtain ⟨x, henc, rfl⟩ := henc
    exact (read_setStore (by decide) x.ofItems_items henc).imp (congrArg (Option.map Contact.clid))
      And.right
  | org =>
    obtain ⟨x, henc, rfl⟩ := henc
    exact (read_setStore (by decide) x.ofItems_items henc).imp (congrArg (Option.map Org.clid))
      And.right

/-! ## Hosts of a create -/

variable {l : List (Text × Bytes)}

theorem AttrHosts.other {k : Text} (h : AttrHosts l s u) (hk : ∀ hn, k ≠ hostKey hn) :
    u k = s k := by
  induction h with
  | stop => rfl
  | same _ ih => exact ih
  | known _ _ _ ih | fresh _ _ _ _ ih => exact ih.trans (setStore_ne (hk _))

/-- A `hostAttr` keeps the sponsor of a host that decodes. -/
theorem clid_attrHost {blob : Text} {attr : Bytes} {h : Host} (hdec : Host.ofBlob blob = some h) :
    (attrHost blob attr).clid = h.clid := by
  rw [attrHost, Host.clid_addAddrs]
  rw [Host.ofBlob, ofBlob] at hdec
  split at hdec
  · rw [some.inj hdec]
  · cases hdec

/-- Where every `hostAttr` names a host of the sponsor `c`, hosts change with their sponsor kept. -/
theorem AttrHosts.sponsored (h : AttrHosts l s u) (hown : ∀ x ∈ l, sponsorOf s .host x.1 = some c)
    (id : Text) : u (hostKey id) = s (hostKey id) ∨
      sponsorOf s .host id = some c ∧ sponsorOf u .host id = some c := by
  induction h with
  | stop => exact .inl rfl
  | same _ ih => exact ih fun x hx => hown x (mem_cons_of_mem _ hx)
  | @known hn attr l s t blob raw hget henc h ih =>
    -- the host keeps its sponsor, so the others still have theirs
    have hhn : sponsorOf s .host hn = some c := hown _ mem_cons_self
    obtain ⟨x, hx, hclid⟩ := map_eq_some_iff.mp hhn
    rw [readHost, hget, bind_some] at hx
    have hset : ∀ id', sponsorOf (setStore s (hostKey hn) (hexEnc raw)) .host id' =
        sponsorOf s .host id' := by
      intro id'
      by_cases hid : id' = hn
      · subst hid
        have henc' : Obj.host.Encodes c raw := ⟨_, henc, (clid_attrHost hx).trans hclid⟩
        rcases sponsorOf_setStore .host id' henc' with hnew | hsame
        · exact hnew.trans hhn.symm
        · exact congrArg (sponsorOf · .host id') hsame
      · exact sponsorOf_congr (setStore_ne (Obj.host.key_ne_key hid))
    have hrest := ih fun x hx => (hset x.1).trans (hown x (mem_cons_of_mem _ hx))
    rw [hset] at hrest
    by_cases hid : id = hn
    · subst hid
      refine .inr ⟨hhn, ?_⟩
      rcases hrest with hkey | ⟨-, hnew⟩
      · exact (sponsorOf_congr (o := .host) hkey).trans ((hset id).trans hhn)
      · exact hnew
    · exact hrest.imp_left fun hkey => hkey.trans (setStore_ne (Obj.host.key_ne_key hid))
  | @fresh hn attr l s t x raw hnew henc hclid h ih =>
    have hhn : sponsorOf s .host hn = some c := hown _ mem_cons_self
    obtain ⟨x, hx, -⟩ := map_eq_some_iff.mp hhn
    rw [readHost, vkGet, hnew] at hx
    cases hx

/-! ## One domain -/

/-- Sponsor and transfer are kept. -/
structure SameTransfer (d d' : Domain) : Prop where
  clid : d'.clid = d.clid
  reid : d'.transferReid = d.transferReid
  redate : d'.transferRedate = d.transferRedate
  status : d'.transferStatus = d.transferStatus

theorem SameTransfer.refl (d : Domain) : SameTransfer d d := ⟨rfl, rfl, rfl, rfl⟩

theorem SameTransfer.trans {d₁ d₂ d₃ : Domain} (h : SameTransfer d₁ d₂) (h' : SameTransfer d₂ d₃) :
    SameTransfer d₁ d₃ :=
  ⟨h'.clid.trans h.clid, h'.reid.trans h.reid, h'.redate.trans h.redate, h'.status.trans h.status⟩

theorem SameTransfer.pending {d d' : Domain} (h : SameTransfer d d') : d'.pending = d.pending := by
  rw [Domain.pending, h.status, Domain.pending]

/-- What a request does to the domain of one name. -/
inductive DomainTouch (sess : Session) (lo hi : Nat) (s u : Store) (n : Text) : Request → Prop
  | same {req : Request} (h : u (domainKey n) = s (domainKey n)) : DomainTouch sess lo hi s u n req
  | created {cmd q : Bytes} {d : Domain} (hnew : s (domainKey n) = none)
      (hread : readDomain u n = some d) (hclid : d.clid = sess.clid)
      (htransfer : d.transferStatus = default) :
      DomainTouch sess lo hi s u n (.object .create .domain cmd q)
  | kept {verb : Verb} {cmd q : Bytes} {d d' : Domain} (hold : readDomain s n = some d)
      (hsponsor : sess.sponsors d.clid = true) (hread : readDomain u n = some d')
      (hsame : SameTransfer d d') : DomainTouch sess lo hi s u n (.object verb .domain cmd q)
  | purged {cmd q : Bytes} {d : Domain} (hold : readDomain s n = some d)
      (hsponsor : sess.sponsors d.clid = true) (hread : u (domainKey n) = none) :
      DomainTouch sess lo hi s u n (.object .delete .domain cmd q)
  | transferred {op : Text} {q : Bytes} {t : Text} {d d' : Domain}
      (hname : requiredText q (lit "domain:name") 256 = some t) (hn : n = strlower t)
      (hold : readDomain s n = some d) (h : Transfers sess lo hi q d op d')
      (hread : readDomain u n = some d') : DomainTouch sess lo hi s u n (.transfer op q)

variable {u' : Store}

/-- Another store with the same cell of the domain. -/
theorem DomainTouch.congr (h : DomainTouch sess lo hi s u n req)
    (hkey : u' (domainKey n) = u (domainKey n)) : DomainTouch sess lo hi s u' n req := by
  have hread' := readDomain_congr hkey
  cases h with
  | same h => exact .same (hkey.trans h)
  | created hnew hread hclid htransfer =>
    exact .created hnew (hread'.trans hread) hclid htransfer
  | kept hold hsponsor hread hsame => exact .kept hold hsponsor (hread'.trans hread) hsame
  | purged hold hsponsor hread => exact .purged hold hsponsor (hkey.trans hread)
  | transferred hname hn hold h hread => exact .transferred hname hn hold h (hread'.trans hread)

/-- A domain is stored: the others stay, and so does this one if it was not sent. -/
theorem domainTouch_store {n' : Text} {m : Store} (hm : m (domainKey n) = s (domainKey n))
    (hu : ∀ k, lit "epp:" <+: k → u k = setStore m (domainKey n') (hexEnc raw) k)
    (henc : d.encode = some raw)
    (h : n = n' → readDomain u n = some d → DomainTouch sess lo hi s u n req) :
    DomainTouch sess lo hi s u n req := by
  have hkey := hu (domainKey n) (Obj.domain.key_start n)
  by_cases hn : n = n'
  · subst hn
    rcases readDomain_setStore (s := m) (n := n) henc with hread | ⟨-, hsame⟩
    · exact h rfl ((readDomain_congr hkey).trans hread)
    · rw [hsame] at hkey
      exact .same (hkey.trans hm)
  · exact .same ((hkey.trans (setStore_ne (Obj.domain.key_ne_key hn))).trans hm)

/-- **What a request does to one domain.** -/
theorem Effect.domain (h : Effect long sess lo hi s req u) (n : Text) :
    DomainTouch sess lo hi s u n req := by
  have hstart := Obj.domain.key_start n
  have hother : ∀ {o : Obj}, o ≠ .domain → ∀ id, domainKey n ≠ o.key id :=
    fun ho => Obj.key_ne .domain _ ho.symm n
  have hhost : ∀ hn, domainKey n ≠ hostKey hn := hother (o := .host) nofun
  cases h with
  | none => exact .same rfl
  | domainCreate _ hnew hattrs hclid htransfer _ _ _ henc hstore =>
    refine domainTouch_store (hattrs.other hhost) (fun k => hstore.object) henc fun hn hread => ?_
    subst hn
    exact .created hnew hread hclid htransfer
  | domainRefused _ _ hattrs => exact .same (hattrs.other hhost)
  | domainUpdate hname hread hsponsor hupd _ _ henc hstore =>
    refine domainTouch_store rfl (fun k => hstore.object) henc fun hn hnew => ?_
    subst hn
    exact .kept hread hsponsor hnew
      ⟨hupd.clid, hupd.transferReid, hupd.transferRedate, hupd.transferStatus⟩
  | @domainPurge cmd q t d u hname hread hsponsor hpending hret =>
    by_cases hn : n = strlower t
    · subst hn
      exact .purged hread hsponsor (vkDel_self _ _)
    · exact .same ((vkDel_ne (Obj.domain.key_ne_key hn)).trans (hret.object hstart))
  | domainRedeem hname hread hsponsor _ henc _ hret =>
    refine domainTouch_store rfl (fun k => hret.object) henc fun hn hnew => ?_
    subst hn
    exact .kept hread hsponsor hnew ⟨rfl, rfl, rfl, rfl⟩
  | domainRenew hname hread hsponsor henc =>
    refine domainTouch_store rfl (fun _ _ => rfl) henc fun hn hnew => ?_
    subst hn
    exact .kept hread hsponsor hnew ⟨rfl, rfl, rfl, rfl⟩
  | transfer hname hread h henc =>
    refine domainTouch_store rfl (fun _ _ => rfl) henc fun hn hnew => ?_
    exact .transferred hname hn (hn ▸ hread) h hnew
  | objectCreate ho | objectUpdate ho => exact .same (setStore_ne (hother ho _))
  | objectDelete ho => exact .same (vkDel_ne (hother ho _))
  | hostUpdate _ _ _ _ _ hpub =>
    exact .same ((hpub.object hstart).trans (setStore_ne (hother (o := .host) nofun _)))

/-! ## Any object -/

/-- What a request does to one object. -/
inductive Touch (sess : Session) (s u : Store) (o : Obj) (id : Text) : Request → Prop
  | same {req : Request} (h : u (o.key id) = s (o.key id)) : Touch sess s u o id req
  | created {req : Request} (hnew : s (o.key id) = none)
      (h : sponsorOf u o id = some sess.clid) : Touch sess s u o id req
  | changed {req : Request} {c : CString 64} (hold : sponsorOf s o id = some c)
      (hsponsor : sess.sponsors c = true) (h : u (o.key id) = none ∨ sponsorOf u o id = some c) :
      Touch sess s u o id req
  | transferred {op : Text} {q : Bytes} {t : Text} {d : Domain} (ho : o = .domain)
      (hname : requiredText q (lit "domain:name") 256 = some t) (hid : id = strlower t)
      (hold : readDomain s id = some d)
      (h : sponsorOf u o id = some d.clid ∨
        d.pending = true ∧ sponsorOf u o id = some d.transferReid) :
      Touch sess s u o id (.transfer op q)

/-- Every `hostAttr` of a `domain:create` names a stored host of the session. -/
def OwnHosts (sess : Session) (s : Store) : Request → Prop
  | .object .create .domain _ q =>
    ∀ x ∈ hostAttrs q, sponsorOf s .host x.1 = some sess.clid
  | _ => True

variable {o : Obj} {id : Text}

/-- Another store with the same cell of the object. -/
theorem Touch.congr (h : Touch sess s u o id req) (hkey : u' (o.key id) = u (o.key id)) :
    Touch sess s u' o id req := by
  have hsp := sponsorOf_congr hkey
  cases h with
  | same h => exact .same (hkey.trans h)
  | created hnew h => exact .created hnew (hsp.trans h)
  | changed hold hsponsor h =>
    exact .changed hold hsponsor (h.imp hkey.trans hsp.trans)
  | transferred ho hname hid hold h =>
    exact .transferred ho hname hid hold (h.imp hsp.trans (And.imp_right hsp.trans))

theorem DomainTouch.touch (h : DomainTouch sess lo hi s u n req) :
    Touch sess s u .domain n req := by
  cases h with
  | same h => exact .same h
  | created hnew hread hclid => exact .created hnew (by rw [sponsorOf, hread, ← hclid]; rfl)
  | kept hold hsponsor hread hsame =>
    refine .changed (by rw [sponsorOf, hold]; rfl) hsponsor (.inr ?_)
    rw [sponsorOf, hread, ← hsame.clid]
    rfl
  | purged hold hsponsor hread =>
    exact .changed (by rw [sponsorOf, hold]; rfl) hsponsor (.inl hread)
  | transferred hname hn hold h hread =>
    refine .transferred rfl hname hn hold ?_
    rw [sponsorOf, hread]
    cases h with
    | request | cancel | reject => exact .inl rfl
    | approve hpending => exact .inr ⟨hpending, rfl⟩

/-- An object is stored: the others stay, and so does this one if it was not sent. -/
theorem touch_store (o' : Obj) (id' : Text)
    (hu : ∀ k, lit "epp:" <+: k → u k = setStore s (o'.key id') (hexEnc raw) k)
    (henc : o'.Encodes c raw)
    (h : o = o' → id = id' → sponsorOf u o id = some c → Touch sess s u o id req) :
    Touch sess s u o id req := by
  have hkey := hu (o.key id) (o.key_start id)
  by_cases hsame : o = o' ∧ id = id'
  · obtain ⟨rfl, rfl⟩ := hsame
    rcases sponsorOf_setStore o id henc with hread | hleft
    · exact h rfl rfl ((sponsorOf_congr hkey).trans hread)
    · rw [hleft] at hkey
      exact .same hkey
  · exact .same (hkey.trans (setStore_ne fun heq => hsame (Obj.key_inj heq)))

/-- An object is deleted. -/
theorem touch_delete (o' : Obj) (id' : Text) (hold : sponsorOf s o' id' = some c)
    (hsponsor : sess.sponsors c = true) : Touch sess s (vkDel s (o'.key id')) o id req := by
  by_cases hsame : o = o' ∧ id = id'
  · obtain ⟨rfl, rfl⟩ := hsame
    exact .changed hold hsponsor (.inl (vkDel_self _ _))
  · exact .same (vkDel_ne fun heq => hsame (Obj.key_inj heq))

/-- The hosts of a create, where it names hosts of the session. -/
theorem touch_attrs (h : AttrHosts l s u) (hown : ∀ x ∈ l, sponsorOf s .host x.1 = some sess.clid) :
    Touch sess s u o id req := by
  by_cases ho : o = .host
  · subst ho
    rcases h.sponsored hown id with hsame | ⟨hold, hnew⟩
    · exact .same hsame
    · exact .changed hold (by simp [Session.sponsors]) (.inr hnew)
  · exact .same (h.other fun hn => Obj.key_ne o .host ho id hn)

theorem Host.clid_remAddrs (h : Host) (fs : List Found) : (h.remAddrs fs).clid = h.clid := by
  unfold Host.remAddrs
  induction fs generalizing h with
  | nil => rfl
  | cons f fs ih => exact ih _

theorem Host.clid_update (h : Host) (q : Bytes) :
    ((h.updateAdd q).updateRem q).clid = h.clid := by
  unfold Host.updateRem Host.updateAdd
  split <;> split <;> simp [Host.clid_remAddrs, Host.clid_addAddrs]

/-- **What a request does to any object.** -/
theorem Effect.object (h : Effect long sess lo hi s req u) (hown : OwnHosts sess s req) (o : Obj)
    (id : Text) : Touch sess s u o id req := by
  by_cases ho : o = .domain
  · subst ho
    exact (h.domain id).touch
  have hdomain : ∀ n, o.key id ≠ domainKey n := Obj.key_ne o .domain ho id
  cases h with
  | none => exact .same rfl
  | domainCreate _ _ hattrs _ _ _ _ _ _ hstore =>
    have hkey := (hstore.object (o.key_start id)).trans (setStore_ne (hdomain _))
    exact (touch_attrs hattrs hown).congr hkey
  | domainRefused _ _ hattrs => exact touch_attrs hattrs hown
  | domainUpdate _ _ _ _ _ _ _ hstore =>
    exact .same ((hstore.object (o.key_start id)).trans (setStore_ne (hdomain _)))
  | domainPurge _ _ _ _ hret =>
    exact .same ((vkDel_ne (hdomain _)).trans (hret.object (o.key_start id)))
  | domainRedeem _ _ _ _ _ _ hret =>
    exact .same ((hret.object (o.key_start id)).trans (setStore_ne (hdomain _)))
  | domainRenew | transfer => exact .same (setStore_ne (hdomain _))
  | hostUpdate hname hread hsponsor henc hlist hpub =>
    refine touch_store .host _ (fun k => hpub.object)
      ⟨_, henc, Host.clid_update _ _⟩ fun ho hid h => ?_
    subst ho hid
    exact .changed (congrArg (Option.map Host.clid) hread) hsponsor (.inr h)
  | objectCreate _ _ hnew henc =>
    refine touch_store _ _ (fun _ _ => rfl) henc fun ho hid h => ?_
    subst ho hid
    exact .created hnew h
  | objectUpdate _ _ hread hsponsor henc =>
    refine touch_store _ _ (fun _ _ => rfl) henc fun ho hid h => ?_
    subst ho hid
    exact .changed hread hsponsor (.inr h)
  | objectDelete _ _ hread hsponsor => exact touch_delete _ _ hread hsponsor

/-! ## Requests -/

theorem Does.domain {s t : Db} (h : Does long sess req s t) (n : Text) :
    DomainTouch sess s.clock t.clock s.keys t.keys n req := by
  obtain ⟨u, heff, hkeys⟩ := h.effect
  exact (heff.domain n).congr (hkeys _ (Obj.domain.not_pollKeys n))

theorem Does.object {s t : Db} (h : Does long sess req s t) (hown : OwnHosts sess s.keys req)
    (o : Obj) (id : Text) : Touch sess s.keys t.keys o id req := by
  obtain ⟨u, heff, hkeys⟩ := h.effect
  exact (heff.object hown o id).congr (hkeys _ (o.not_pollKeys id))

/-! ## Ticks -/

/-- What one visit of a tick does to one domain. -/
inductive TickTouch (window : Int) (lo hi : Nat) (s u : Store) (n : Text) : Prop
  | same (h : u (domainKey n) = s (domainKey n))
  | purged (h : u (domainKey n) = none)
  | kept {d d' : Domain} (hold : readDomain s n = some d) (hread : readDomain u n = some d')
      (hsame : SameTransfer d d')
  | approved {d d' : Domain} {now : Nat} (hlo : lo ≤ now) (hhi : now ≤ hi)
      (hold : readDomain s n = some d) (hpending : d.pending = true)
      (hover : toU32 window < UInt32.ofNat now - d.transferRedate)
      (hread : readDomain u n = some d') (hclid : d'.clid = d.transferReid)
      (hdone : d'.pending = false)

/-- Ageing leaves the sponsor and the transfer. -/
theorem Aged.kept {now : UInt32} {d' : Domain} (h : Aged now d d') : SameTransfer d d' := by
  cases h with
  | same | renewed | ended => exact ⟨rfl, rfl, rfl, rfl⟩

variable {window : Int}

/-- **What a visit of a tick does to one domain.** -/
theorem Tick.domain {name : Text} (h : Tick window lo hi name s u) (n : Text) :
    TickTouch window lo hi s u n := by
  by_cases hn : n = name
  · subst hn
    cases h with
    | none => exact .same rfl
    | purge => exact .purged (vkDel_self _ _)
    | store hlo hhi hold haged henc =>
      rcases readDomain_setStore henc with hread | ⟨-, hsame⟩
      · exact .kept hold hread haged.kept
      · exact .same (congrFun hsame _)
    | approve hlo hhi hold haged hpending hover henc =>
      rcases readDomain_setStore henc with hread | ⟨-, hsame⟩
      · rw [haged.kept.redate] at hover
        rw [haged.kept.pending] at hpending
        exact .approved hlo hhi hold hpending hover hread haged.kept.reid rfl
      · exact .same (congrFun hsame _)
  · exact .same (h.other (Obj.domain.key_ne_key hn))

theorem TickTouch.congr (h : TickTouch window lo hi s u n)
    (hkey : u' (domainKey n) = u (domainKey n)) : TickTouch window lo hi s u' n := by
  have hread' := readDomain_congr hkey
  cases h with
  | same h => exact .same (hkey.trans h)
  | purged h => exact .purged (hkey.trans h)
  | kept hold hread hsame => exact .kept hold (hread'.trans hread) hsame
  | approved hlo hhi hold hpending hover hread hclid hdone =>
    exact .approved hlo hhi hold hpending hover (hread'.trans hread) hclid hdone

theorem TickStep.domain (h : TickStep window lo hi s u) (n : Text) :
    TickTouch window lo hi s u n := by
  obtain ⟨name, v, htick, hkeys⟩ := h
  exact (htick.domain n).congr (hkeys _ (Obj.domain.not_pollKeys n))

/-- A visit leaves every other object. -/
theorem TickStep.object (h : TickStep window lo hi s u) (ho : o ≠ .domain) (id : Text) :
    u (o.key id) = s (o.key id) := by
  obtain ⟨name, v, htick, hkeys⟩ := h
  exact (hkeys _ (o.not_pollKeys id)).trans (htick.other (Obj.key_ne o .domain ho id name))

end SimpleDns.Epp
