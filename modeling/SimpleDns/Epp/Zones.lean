import SimpleDns.Epp.Finite
import SimpleDns.Epp.Objects
import SimpleDns.Server.View

/-!
# What requests write into zones

Outside the objects and the poll queues a request writes the delegations of the domains it is about:
NS and DS at the name of the domain, A and AAAA at name servers in the zone, and the serial.

* `Delegates`: the domains a request publishes or retracts, with name servers they can have.
* **`Effect.zone`**, **`Step.zone`**: what changes elsewhere belongs to such a domain.
* `SameZones`: no request changes the zone table, so the parent zone of a name stays.
* **`operator_data_kept`**: a record of the operator stays as long as no request is about a domain
  or a name server at its owner name.
* **`apex_overwritten`**: a domain with the name of the zone replaces its name servers.
-/

namespace SimpleDns.Epp

open Wire Lib Server List

variable {long : Prop}

/-! ## The zones of a store -/

/-- The stores have the same zones. -/
def SameZones (s t : Store) : Prop :=
  ∀ k, lit "zone_table:" <+: k ∨ k = lit "config:zone_name" → t k = s k

section SameZones

variable {s t : Store}

theorem SameZones.zoneTable (h : SameZones s t) {out : List Text} :
    ZoneTable t out ↔ ZoneTable s out := by
  unfold ZoneTable Lists
  refine exists_congr fun all => and_congr_left fun _ => forall_congr' fun k => ?_
  refine iff_congr Iff.rfl (and_congr_right fun hk => ?_)
  rw [h k (.inl hk)]

theorem SameZones.primary (h : SameZones s t) :
    vkGet t (lit "config:zone_name") 256 = vkGet s (lit "config:zone_name") 256 := by
  unfold vkGet
  rw [h _ (.inr rfl)]

theorem SameZones.parentFrom (h : SameZones s t) (name : Text) (out : List Text) :
    parentFrom t name out = parentFrom s name out := by
  unfold Epp.parentFrom
  rw [h.primary]

theorem SameZones.serialKeyOf (h : SameZones s t) (zone : Text) :
    serialKeyOf t zone = serialKeyOf s zone := by
  unfold Epp.serialKeyOf
  rw [h.primary]

end SameZones

/-- No key of a delegation or of a counter says what zones there are. -/
theorem PublishKey.not_zones {s : Store} {zone name k : Text} {ns : List Text}
    (h : PublishKey s zone name ns k) :
    ¬ (lit "zone_table:" <+: k ∨ k = lit "config:zone_name") := by
  have hzone : ∀ type n, ¬ (lit "zone_table:" <+: zkey zone type n ∨
      zkey zone type n = lit "config:zone_name") := by
    rintro type n (⟨rest, h⟩ | h)
    · exact absurd (congrArg (take 5) h) (by decide : lit "zone_" ≠ lit "zone:")
    · exact absurd (congrArg (take 5) h) (by decide : lit "zone:" ≠ lit "confi")
  cases h with
  | ns | ds | v4 | v6 => exact hzone _ _
  | serial =>
    rintro (⟨rest, h⟩ | h)
    · exact absurd ((congrArg (take 1) h).trans (take_serialKeyOf _ _))
        (by decide : lit "z" ≠ lit "c")
    · unfold serialKeyOf at h
      split at h
      · cases h
      · exact absurd (congrArg (take 12) h) (by decide : lit "config:zone:" ≠
          lit "config:zone_")

/-- Only objects and delegations differ. -/
theorem sameZones_of_writes {s t : Store} (h : ∀ k, ¬ lit "epp:" <+: k → t k ≠ s k →
    ∃ s' zone name ns, PublishKey s' zone name ns k) : SameZones s t := by
  intro k hk
  by_contra hne
  have hepp : ¬ lit "epp:" <+: k := by
    rintro ⟨rest, rfl⟩
    rcases hk with ⟨rest', h'⟩ | h'
    · exact absurd (congrArg (take 1) h') (by decide : lit "z" ≠ lit "e")
    · exact absurd (congrArg (take 1) h') (by decide : lit "e" ≠ lit "c")
  obtain ⟨s', zone, name, ns, hkey⟩ := h k hepp hne
  exact hkey.not_zones hk

/-! ## Publications -/

/-- Publishing a domain in one of its possible parent zones writes the key. -/
def WritesIn (s : Store) (name : Text) (ns : List Text) (k : Text) : Prop :=
  ∃ out zone, ZoneTable s out ∧ parentFrom s name out = some zone ∧ PublishKey s zone name ns k

section Publications

variable {s t u : Store} {name k : Text} {ns ns' : List Text}

theorem PublishKey.mono {zone : Text} (h : PublishKey t zone name ns k)
    (hns : ∀ n ∈ ns, n ∈ ns') (hst : SameZones s t) : PublishKey s zone name ns' k := by
  cases h with
  | ns => exact .ns
  | ds => exact .ds
  | v4 hn hin => exact .v4 (hns _ hn) hin
  | v6 hn hin => exact .v6 (hns _ hn) hin
  | serial =>
    rw [hst.serialKeyOf]
    exact .serial

theorem WritesIn.mono (h : WritesIn s name ns k) (hns : ∀ n ∈ ns, n ∈ ns') :
    WritesIn s name ns' k := by
  obtain ⟨out, zone, hout, hzone, hkey⟩ := h
  exact ⟨out, zone, hout, hzone, hkey.mono hns fun _ _ => rfl⟩

theorem WritesIn.congr (h : WritesIn t name ns k) (hst : SameZones s t) : WritesIn s name ns k := by
  obtain ⟨out, zone, hout, hzone, hkey⟩ := h
  exact ⟨out, zone, hst.zoneTable.mp hout, (hst.parentFrom _ _).symm.trans hzone,
    hkey.mono (fun _ hn => hn) hst⟩

theorem Published.zone {nss : Slots (CString 256)} {ds : Slots Ds}
    (h : Published long name nss ds s t) (hne : t k ≠ s k) :
    WritesIn s name (nss.list.map CString.text) k := by
  obtain ⟨out, hout, -, rfl⟩ := h
  by_contra hno
  refine hne (commitStore_ne fun c hc => ?_)
  obtain ⟨zone, hzone, hkey⟩ := publishKey_of_mem hc
  rintro rfl
  exact hno ⟨out, zone, hout, hzone, hkey⟩

theorem Retracted.zone (h : Retracted long name s t) (hne : t k ≠ s k) : WritesIn s name [] k := by
  obtain ⟨out, hout, -, rfl⟩ := h
  by_contra hno
  refine hne (commitStore_ne fun c hc => ?_)
  obtain ⟨zone, hzone, hkey⟩ := publishKey_of_mem_retract hc
  rintro rfl
  exact hno ⟨out, zone, hout, hzone, hkey⟩

/-- Domains that are published again: the changed keys are those of one of them. -/
theorem Republished.zone {names : List Text} (h : Republished long names s t) (hne : t k ≠ s k) :
    ∃ name ∈ names, ∃ d, readDomain s name = some d ∧
      WritesIn s name (d.ns.list.map CString.text) k := by
  induction h with
  | nil => exact absurd rfl hne
  | skip _ _ ih =>
    obtain ⟨name, hname, h⟩ := ih hne
    exact ⟨name, mem_cons_of_mem _ hname, h⟩
  | @cons name names s m t d hread hpub _ ih =>
    by_cases hm : m k = s k
    · obtain ⟨name', hname, d', hread', hw⟩ := ih (hm ▸ hne)
      have hsame : SameZones s m := sameZones_of_writes fun _ _ hne => by
        obtain ⟨_, zone, _, _, hkey⟩ := hpub.zone hne
        exact ⟨_, zone, _, _, hkey⟩
      refine ⟨name', mem_cons_of_mem _ hname, d', ?_, hw.congr hsame⟩
      exact (readDomain_congr (hpub.object (Obj.domain.key_start name'))).symm.trans hread'
    · exact ⟨name, mem_cons_self, d, hread, hpub.zone hm⟩

/-- A key that is not of an object. -/
theorem ne_objectKey (hk : ¬ lit "epp:" <+: k) (o : Obj) (id : Text) : k ≠ o.key id := by
  rintro rfl
  exact hk (o.key_start id)

theorem setStore_zone (hk : ¬ lit "epp:" <+: k) (o : Obj) (id val : Text) :
    setStore s (o.key id) val k = s k :=
  setStore_ne (ne_objectKey hk o id)

theorem AttrHosts.zone {l : List (Text × Bytes)} (h : AttrHosts l s t)
    (hk : ¬ lit "epp:" <+: k) : t k = s k :=
  h.other fun hn => ne_objectKey hk .host hn

theorem sameZones_of_objects (h : ∀ k, ¬ lit "epp:" <+: k → t k = s k) : SameZones s t :=
  sameZones_of_writes fun k hk hne => absurd (h k hk) hne

theorem sameZones_setStore (s : Store) (o : Obj) (id val : Text) :
    SameZones s (setStore s (o.key id) val) :=
  sameZones_of_objects fun _ hk => setStore_zone hk o id val

/-- A domain that is stored in front of its publication. -/
theorem StoredAnd.zone {publish : Prop} {d : Domain} {raw : Bytes}
    (h : StoredAnd long publish name d raw s t) (hk : ¬ lit "epp:" <+: k) (hne : t k ≠ s k) :
    WritesIn s name (d.ns.list.map CString.text) k := by
  have hset : setStore s (domainKey name) (hexEnc raw) k = s k := setStore_zone hk .domain name _
  by_cases hp : publish
  · exact ((h.2.1 hp).zone (hset ▸ hne)).congr (sameZones_setStore s .domain name _)
  · rw [h.2.2 hp, hset] at hne
    exact absurd rfl hne

end Publications

/-! ## Requests -/

/-- The domains whose delegation a request can write, with the name servers they can have then. -/
inductive Delegates (s : Store) : Request → Text → List Text → Prop
  | create {cmd q : Bytes} {t : Text} (hname : requiredText q (lit "domain:name") 256 = some t) :
      Delegates s (.object .create .domain cmd q) (strlower t) (serverNames q)
  | update {cmd q : Bytes} {t : Text} {d : Domain}
      (hname : requiredText q (lit "domain:name") 256 = some t)
      (hread : readDomain s (strlower t) = some d) :
      Delegates s (.object .update .domain cmd q) (strlower t)
        (d.ns.list.map CString.text ++ listedNs q "add")
  | delete {cmd q : Bytes} {t : Text} (hname : requiredText q (lit "domain:name") 256 = some t) :
      Delegates s (.object .delete .domain cmd q) (strlower t) []
  | host {cmd q : Bytes} {t name : Text} {d : Domain}
      (hname : requiredText q (lit "host:name") 256 = some t)
      (hread : readDomain s name = some d)
      (huses : ∃ n ∈ d.ns.list, eqCI n.text (strlower t) = true) :
      Delegates s (.object .update .host cmd q) name (d.ns.list.map CString.text)

/-- The names in use are those of stored domains that list the host. -/
theorem mem_usersOf {s : Store} {hostname name : Text} {out : List Text}
    (hlist : Lists s (lit "epp:domain:") 512 out) (h : name ∈ usersOf s hostname out) :
    ∃ d, readDomain s name = some d ∧ ∃ n ∈ d.ns.list, eqCI n.text hostname = true := by
  obtain ⟨key, hkey, rfl⟩ := mem_map.mp h
  obtain ⟨hmem, huses⟩ := mem_filter.mp hkey
  obtain ⟨rest, rfl⟩ := hlist.start (by decide) hmem
  rw [drop_left]
  split at huses
  · rename_i d hd
    exact ⟨d, hd, any_eq_true.mp huses⟩
  · cases huses

section Requests

variable {sess : Session} {req : Request} {s u : Store} {lo hi : Nat} {k : Text}

/-- **What a request changes outside the objects belongs to a domain it is about.** -/
theorem Effect.zone (h : Effect long sess lo hi s req u) (hk : ¬ lit "epp:" <+: k)
    (hne : u k ≠ s k) : ∃ name ns, Delegates s req name ns ∧ WritesIn s name ns k := by
  have hset : ∀ (o : Obj) (id val : Text), setStore s (o.key id) val k = s k :=
    fun o id val => setStore_zone hk o id val
  have hdel : ∀ (t : Store) (o : Obj) (id : Text), vkDel t (o.key id) k = t k :=
    fun t o id => vkDel_ne (ne_objectKey hk o id)
  cases h with
  | none => exact absurd rfl hne
  | @domainCreate cmd q t d raw m u hname hnew hattrs _ _ _ hns _ _ hstore =>
    have hm : SameZones s m := sameZones_of_objects fun _ hk => hattrs.zone hk
    have hw := (hstore.zone hk (hattrs.zone hk ▸ hne)).congr hm
    rw [hns] at hw
    exact ⟨_, _, .create hname, hw⟩
  | domainRefused _ _ hattrs => exact absurd (hattrs.zone hk) hne
  | @domainUpdate cmd q t d e raw u hname hread _ hupd _ _ _ hstore =>
    refine ⟨_, _, .update hname hread, (hstore.zone hk hne).mono fun x hx => ?_⟩
    obtain ⟨n, hn, rfl⟩ := mem_map.mp hx
    rw [mem_append]
    exact (hupd.added n hn).imp_left mem_map_of_mem
  | domainPurge hname _ _ _ hret =>
    have hne := (hdel _ .domain _).symm.trans_ne hne
    exact ⟨_, _, .delete hname, hret.zone hne⟩
  | domainRedeem hname _ _ _ _ _ hret =>
    have hw := hret.zone ((hset .domain _ _).symm ▸ hne)
    exact ⟨_, _, .delete hname, hw.congr (sameZones_setStore s .domain _ _)⟩
  | domainRenew | transfer => exact absurd (hset .domain _ _) hne
  | objectCreate | objectUpdate => exact absurd (hset _ _ _) hne
  | objectDelete => exact absurd (hdel _ _ _) hne
  | @hostUpdate cmd q t h raw out u hname _ _ _ hlist hpub =>
    obtain ⟨name, hmem, d, hread, hw⟩ := hpub.zone ((hset .host _ _).symm ▸ hne)
    obtain ⟨d', hread', huses⟩ := mem_usersOf hlist hmem
    obtain rfl := Option.some.inj (hread'.symm.trans hread)
    have hkey : setStore s (hostKey (strlower t)) (hexEnc raw) (domainKey name) =
        s (domainKey name) := setStore_ne (Obj.key_ne .domain .host (by decide) _ _)
    exact ⟨name, _, .host hname ((readDomain_congr hkey).symm.trans hread) huses,
      hw.congr (sameZones_setStore s .host _ _)⟩

theorem not_pollKeys_of_zone (hk : ¬ lit "epp:" <+: k) : ¬ pollKeys <+: k :=
  fun h => hk ((by decide : lit "epp:" <+: pollKeys).trans h)

theorem Does.zone {s t : Db} (h : Does long sess req s t) (hk : ¬ lit "epp:" <+: k)
    (hne : t.keys k ≠ s.keys k) : ∃ name ns, Delegates s.keys req name ns ∧
      WritesIn s.keys name ns k := by
  obtain ⟨u, heff, hkeys⟩ := h.effect
  rw [hkeys _ (not_pollKeys_of_zone hk)] at hne
  exact heff.zone hk hne

/-- A tick changes objects and queues only. -/
theorem TickStep.zone {window : Int} (h : TickStep window lo hi s u) (hk : ¬ lit "epp:" <+: k) :
    u k = s k := by
  obtain ⟨name, v, htick, hkeys⟩ := h
  exact (hkeys _ (not_pollKeys_of_zone hk)).trans (htick.other (ne_objectKey hk .domain name))

/-- **What a step changes outside the objects belongs to a domain of a request.** -/
theorem Step.zone {a : Action} {w w' : World} (h : Step long a w w') (hk : ¬ lit "epp:" <+: k)
    (hne : w'.db.keys k ≠ w.db.keys k) :
    ∃ i xml req name ns, a = .frame i xml ∧ (w.sess i).loggedIn = true ∧
      requestOf xml = some req ∧ Delegates w.db.keys req name ns ∧
      WritesIn w.db.keys name ns k := by
  rcases h.db with hq | ⟨i, xml, req, rfl, hin, hreq, hdoes⟩ | ⟨rfl, htick⟩
  · exact absurd (hq.keys _ (not_pollKeys_of_zone hk)) hne
  · obtain ⟨name, ns, hdel, hw⟩ := hdoes.zone hk hne
    exact ⟨i, xml, req, name, ns, rfl, hin, hreq, hdel, hw⟩
  · have hsame : w'.db.keys k = w.db.keys k :=
      htick.inv (P := fun s => s k = w.db.keys k) rfl fun hstep h => (hstep.zone hk).trans h
    exact absurd hsame hne

end Requests

/-! ## Runs -/

/-- A request publishes or retracts a domain that may have the key; of the keys of `PublishKey` the
serial's is no `zone:` key. -/
def Republishes (w : World) (k : Text) : Action → Prop
  | .frame _ xml => ∃ req ∈ requestOf xml, ∃ name ns, Delegates w.db.keys req name ns ∧
      WritesIn w.db.keys name ns k
  | _ => False

/-- **Records of the operator are kept**, where no request is about a domain or a name server at the
owner name. -/
theorem operator_data_kept {init w : World} {evs : List (Did Action World)}
    (h : History (Step long) init evs w) {k : Text} (hzone : lit "zone:" <+: k)
    (hfree : ∀ e ∈ evs, ¬ Republishes e.before k e.label) : w.db.keys k = init.db.keys k := by
  have hk : ¬ lit "epp:" <+: k := by
    rintro ⟨rest, rfl⟩
    obtain ⟨rest', h'⟩ := hzone
    exact absurd (congrArg (take 1) h') (by decide : lit "z" ≠ lit "e")
  refine h.inv (I := fun w => w.db.keys k = init.db.keys k) rfl fun e he hstep hbefore => ?_
  by_contra hne
  rw [← hbefore] at hne
  obtain ⟨i, xml, req, name, ns, hlabel, -, hreq, hdel, hw⟩ := hstep.zone hk hne
  refine hfree e he ?_
  rw [hlabel]
  exact ⟨req, hreq, name, ns, hdel, hw⟩

/-! ## A zone of the operator -/

/-- The zone `z` with a name server and an address of the operator. -/
def operatorStage : Stage :=
  ⟨⟨(lit "config:zone_name", ⟨lit "z", none⟩) ::
    (zkey (lit "z") (lit "NS") (lit "z"), ⟨lit "3600|o.z", none⟩) ::
    (zkey (lit "z") (lit "A") (lit "o.z"), ⟨lit "3600|1.1.1.1", none⟩) :: passwordCells, 5,
      0, true⟩,
    fun _ => .fresh⟩

theorem operatorStage_object (o : Obj) (id : Text) :
    operatorStage.world.db.keys (o.key id) = none :=
  storeOf_eq_none (o.key_start id) (by decide)

/-- A domain with an inline name server that has no address. -/
def delegatedQuery (name : Text) : Bytes :=
  element (lit "domain:name") name ++
    element (lit "domain:ns")
      (element (lit "domain:hostAttr") (element (lit "domain:hostName") (lit "n")))

/-- The registrar `a` makes the domain. -/
def delegatedPlay (name : Text) : List (Nat × Action) :=
  [(0, .frame 0 (loginFrame (lit "a") (lit "p"))),
    (0, .frame 0 (objectFrame .create .domain (delegatedQuery name)))]

/-- **A domain with the name of the zone replaces the name servers of the zone.** -/
theorem apex_overwritten :
    ∃ (init w : World) (evs : List (Did Action World)) (k : Text), History (Step True) init evs w ∧
      lit "zone:" <+: k ∧ (init.db.keys k).isSome ∧
      (∀ (o : Obj) (id : Text), init.db.keys (o.key id) = none) ∧
      w.db.keys k ≠ init.db.keys k := by
  refine ⟨_, _, _, zkey (lit "z") (lit "NS") (lit "z"),
    history_play (g := operatorStage) (delegatedPlay (lit "z")) ?_, ?_, ?_,
      operatorStage_object, ?_⟩
  all_goals decide +kernel

/-- Without a zone table every name is in the primary zone. -/
theorem parentFrom_of_no_table {s : Store} {out : List Text} (h : ZoneTable s out)
    (hs : ∀ k, lit "zone_table:" <+: k → s k = none) (name : Text) :
    parentFrom s name out = (vkGet s (lit "config:zone_name") 256).filter fun z => !z.isEmpty := by
  obtain ⟨all, hall, rfl⟩ := h
  have hnil : all = [] := by
    refine eq_nil_iff_forall_not_mem.mpr fun k hk => ?_
    obtain ⟨hstart, hsome⟩ := (hall k).mp hk
    rw [hs k hstart] at hsome
    cases hsome
  rw [hnil]
  rfl

theorem other_domain_keeps_address :
    (operatorStage.playAll (delegatedPlay (lit "d.z"))).world.db.keys
        (zkey (lit "z") (lit "A") (lit "o.z")) =
      operatorStage.world.db.keys (zkey (lit "z") (lit "A") (lit "o.z")) := by
  have hrun : requestOf (loginFrame (lit "a") (lit "p")) = none ∧
      requestOf (objectFrame .create .domain (delegatedQuery (lit "d.z"))) =
        some (.object .create .domain (element (lit "create")
          (element (lit "domain:create") (delegatedQuery (lit "d.z"))))
            (delegatedQuery (lit "d.z"))) ∧
      serverNames (delegatedQuery (lit "d.z")) = [lit "n"] ∧
      vkGet (operatorStage.play 0 (.frame 0 (loginFrame (lit "a") (lit "p")))).world.db.keys
        (lit "config:zone_name") 256 = some (lit "z") ∧
      ∀ x ∈ (operatorStage.play 0 (.frame 0 (loginFrame (lit "a") (lit "p")))).shelf.cells,
        ¬ lit "zone_table:" <+: x.1 := by
    decide +kernel
  obtain ⟨hlogin, hcreate, hns, hprimary, htable⟩ := hrun
  have hplay : History (Step True) operatorStage.world _ _ :=
    history_play (delegatedPlay (lit "d.z")) (by decide +kernel)
  refine operator_data_kept hplay (by decide) fun e he => ?_
  simp only [delegatedPlay, Stage.record, mem_cons, not_mem_nil, or_false] at he
  rcases he with rfl | rfl
  · rintro ⟨req, hreq, -⟩
    rw [hlogin] at hreq
    cases hreq
  · rintro ⟨req, hreq, name, ns, hdel, out, zone, hout, hzone, hkey⟩
    rw [hcreate] at hreq
    cases hreq
    rw [parentFrom_of_no_table hout fun k hk => storeOf_eq_none hk htable, hprimary] at hzone
    obtain rfl : zone = lit "z" := (Option.some.inj hzone).symm
    cases hdel with
    | create hname =>
      rw [hns] at hkey
      generalize hk : zkey (lit "z") (lit "A") (lit "o.z") = k at hkey
      cases hkey with
      | ns | ds => exact absurd hk (by simp [zkey, recordKey, lit])
      | v4 hn | v6 hn =>
        obtain rfl := mem_singleton.mp hn
        cases hk
      | serial =>
        exact absurd ((congrArg (take 1) hk).trans (take_serialKeyOf _ _)) (by decide)

end SimpleDns.Epp
