import SimpleDns.Server.Addresses

/-!
# Chains of aliases

The hop loop of `build_query_resp` looks up the next alias only while nothing is answered, and the
first alias record is an answer, so it stops behind the first link. `chain_followed_iff`: a chain is
followed to its end exactly if it has one link and the addresses of its end survive the 256-octet
buffer of the hop; `second_link_lost` is a chain of two.
-/

namespace SimpleDns.Server

open Wire List RRType

/-! ## Chains -/

/-- `name` is stored as an alias for `target`, a name in the zone. -/
structure Ctx.AliasTo (c : Ctx) (name : Text) (ttl : Nat) (target : Text) : Prop where
  stored : ∃ cell, c.server.store (zkey c.keyZone (lit "CNAME") name) = some cell ∧
    cell.value.length < 512 ∧ splitTtl cell.value = (ttl, target)
  legal : OwnerName target
  inZone : target ≠ [] ∧ zoneMatches c.zoneName target = true

/-- The record of a link. -/
def linkRec (name : Text) (ttl : Nat) (target : Text) : Rec :=
  ⟨name, CNAME, ttl, nameWire (labels target), name⟩

/-- The aliases from `name` lead over the records to `last`. -/
inductive Ctx.Links (c : Ctx) : Text → List Rec → Text → Prop
  | nil (name : Text) : c.Links name [] name
  | cons {name target last : Text} {ttl : Nat} {rs : List Rec} (h : c.AliasTo name ttl target)
      (rest : c.Links target rs last) : c.Links name (linkRec name ttl target :: rs) last

/-- The answer is the records of the chain in order, then the addresses of its end. -/
def Reply.FollowsChain (r : Reply) (links : List Rec) (f : Family) (last : Text)
    (addresses : Set Bytes) : Prop :=
  ∃ rest, r.answer = links.map Rec.clamped ++ rest ∧
    (∀ rec ∈ rest, rec.owner = last ∧ rec.type = f.rrtype) ∧
    {rd | ∃ rec ∈ rest, rec.rdata = rd} = addresses

/-! ## The hop loop -/

section Hop

variable {c : Ctx} {f : Family}

theorem emitHop_unwanted {b : Build} {cur : Text} {g : Family} (hf : c.qtype = f.rrtype)
    (hg : g ≠ f) : b.emitHop c cur g = b := by
  rw [Build.emitHop, if_neg fun h => hg ((wants_of_qtype hf g).mp h)]

/-- Behind an answered record the loop looks at one name and stops. -/
theorem hopLoop_answered (hf : c.qtype = f.rrtype) {b : Build} (hb : 0 < b.answer.count)
    {cur : Text} (hcur : cur ≠ [] ∧ zoneMatches c.zoneName cur = true) (fuel : Nat) :
    hopLoop c (fuel + 1) cur b = b.emitHop c cur f := by
  have haddr : (b.emitHop c cur .inet).emitHop c cur .inet6 = b.emitHop c cur f := by
    cases f with
    | inet => exact emitHop_unwanted hf (by decide)
    | inet6 => rw [emitHop_unwanted hf (by decide : Family.inet ≠ .inet6)]
  have hcount : (b.emitHop c cur f).answer.count ≠ 0 := by
    have := (extends_emitHop (c := c) b cur f).count
    omega
  rw [hopLoop, if_neg (by simp [hcur.1, hcur.2])]
  rw [haddr, if_neg hcount]

/-- What the hop adds, where all addresses end within the buffer. -/
theorem emitHop_of_fits (hf : c.qtype = f.rrtype) {b : Build} {cur : Text} (hcur : OwnerName cur)
    (hfit : (b.emitHop c.roomy cur f).msg.length ≤ c.blen) :
    ∃ rs, b.Emitted (b.emitHop c cur f) rs ∧
      (∀ r ∈ rs, r.owner = cur ∧ r.type = f.rrtype) ∧
      ∀ cell, c.server.store (zkey c.keyZone f.typeName cur) = some cell →
        {rd | ∃ r ∈ rs, r.rdata = rd} =
          addressSet f (lbSet c.server (safeStrcpy cell.value 256)) := by
  have hwants : c.wants f.rrtype = true := (wants_of_qtype hf f).mpr rfl
  rw [Build.emitHop, if_pos hwants]
  rw [Build.emitHop, if_pos (show c.roomy.wants f.rrtype = true from hwants)] at hfit
  cases hval : vkGet c.server.store (zkey c.keyZone f.typeName cur) 256 with
  | none =>
    refine ⟨[], ⟨(append_nil _).symm, le_rfl, rfl, rfl⟩, by simp, fun cell hcell => ?_⟩
    rw [vkGet_eq_none_iff.mp hval] at hcell
    cases hcell
  | some val =>
    replace hfit : (b.emitAddrRrset c.roomy cur cur f val).msg.length ≤ c.blen := by
      simpa only [show vkGet c.roomy.server.store (zkey c.roomy.keyZone f.typeName cur) 256 =
        some val from hval] using hfit
    obtain ⟨rs, hemit, hrs, hset⟩ := emitAddrRrset_addresses hcur hfit
    refine ⟨rs, hemit, hrs, fun cell hcell => ?_⟩
    have hcut : val = safeStrcpy cell.value 256 := by
      rw [vkGet, hcell] at hval
      exact (Option.some.inj hval).symm
    rw [hset, hcut]

/-- Behind the record of the first link the loop makes one hop. -/
theorem cnameLookup_eq (hf : c.qtype = f.rrtype) {ttl : Nat} {target : Text}
    (halias : c.AliasTo c.qname ttl target) {b : Build} (hb : b.Fresh)
    (hcount : 0 < (b.find.emit c (linkRec c.qname ttl target)).answer.count) :
    cnameLookup c b = (b.find.emit c (linkRec c.qname ttl target)).emitHop c target f := by
  obtain ⟨cell, hcell, hshort, hsplit⟩ := halias.stored
  have hval : vkGet c.server.store (zkey c.keyZone (lit "CNAME") c.qname) 512 =
      some cell.value := by
    rw [vkGet, hcell, Option.map_some, safeStrcpy, take_of_length_le (by omega)]
  have hwire : nameToWire target 256 = some (nameWire (labels target)) :=
    (nameToWire_eq_some_iff halias.legal.short).mpr
      ⟨halias.legal.labels_short, rfl, by have := halias.legal.length_wire; omega⟩
  have htypes : c.qtype ≠ CNAME ∧ c.qtype ≠ ANY := by
    simpa [Ctx.wants] using unwanted_of_qtype hf CNAME (by decide)
  rw [← hopLoop_answered hf hcount halias.inZone 7]
  unfold cnameLookup
  rw [if_neg (by simp [hb.found, hb.count, htypes.1, htypes.2])]
  simp only [Build.ifStored, hval, hsplit, hwire, safeStrcpy_eq halias.legal.short]
  rfl

/-- The first link and what the hop behind it adds, where all of it ends within the buffer. -/
theorem cnameLookup_of_fits (hf : c.qtype = f.rrtype) (hq : OwnerName c.qname) {ttl : Nat}
    {target : Text} (halias : c.AliasTo c.qname ttl target) {b : Build} (hb : b.Fresh)
    (hfit : (cnameLookup c.roomy b).msg.length ≤ c.blen) :
    ∃ rs, b.find.Emitted (cnameLookup c b) ((linkRec c.qname ttl target).clamped :: rs) ∧
      (∀ r ∈ rs, r.owner = target ∧ r.type = f.rrtype) ∧
      ∀ cell, c.server.store (zkey c.keyZone f.typeName target) = some cell →
        {rd | ∃ r ∈ rs, r.rdata = rd} =
          addressSet f (lbSet c.server (safeStrcpy cell.value 256)) := by
  have hsend : (linkRec c.qname ttl target).Sendable 255 := ⟨hq, halias.legal.length_wire⟩
  have hroom : b.find.Room c.roomy 255 :=
    Nat.add_le_add_right ((extends_cnameLookup b).length.trans hfit) _
  have hpos : ∀ {c' : Ctx}, b.find.Emitted (b.find.emit c' (linkRec c.qname ttl target))
      [(linkRec c.qname ttl target).clamped] →
        0 < (b.find.emit c' (linkRec c.qname ttl target)).answer.count := fun h =>
    lt_of_lt_of_le (Nat.succ_pos _) h.count
  rw [cnameLookup_eq (c := c.roomy) hf ⟨halias.stored, halias.legal, halias.inZone⟩ hb
    (hpos (emit_of_room hsend hroom))] at hfit
  obtain ⟨hsame, hfirst⟩ := emit_roomy hsend ((extends_emitHop _ target f).length.trans hfit)
  rw [cnameLookup_eq hf halias hb (hpos hfirst)]
  obtain ⟨rs, hemit, hrs, hset⟩ := emitHop_of_fits hf halias.legal (hsame ▸ hfit)
  exact ⟨rs, hfirst.trans hemit, hrs, hset⟩

end Hop

/-! ## When a chain is followed -/

section Chain

variable {D : Dnsd} {req : Request} {q : Question} {f : Family}

/-- The lookups of an address query for an alias without addresses of its own. -/
theorem lookups_alias {c : Ctx} (hf : c.qtype = f.rrtype) (huncut : c.Uncut) (hsole : c.Sole f)
    (hown : ¬c.Stored (zkey c.keyZone f.typeName c.qname)) {b : Build} (hb : b.Fresh)
    (halias : c.Aliased) : lookups c b = .ok (cnameLookup c b) := by
  have hquiet : addrLookup c f b = b := by
    rw [addrLookup, if_pos ((wants_of_qtype hf f).mpr rfl)]
    dsimp only
    rw [ifStored_quiet hsole.lease, ifStored_quiet hown, ifStored_quiet hsole.registration]
  have htypes : c.qtype ≠ CNAME ∧ c.qtype ≠ ANY := by
    simpa [Ctx.wants] using unwanted_of_qtype hf CNAME (by decide)
  have hfound := found_cnameLookup hb halias htypes.1 htypes.2
  rw [lookups_of_uncut huncut, typedLookups_address hf hsole.listing hsole.static, hquiet]
  show Except.ok (wildcardLookup c (cnameLookup c b)) = _
  rw [wildcardLookup, if_pos (by simp [hfound])]

theorem Ctx.AliasTo.aliased {c : Ctx} {ttl : Nat} {target : Text}
    (h : c.AliasTo c.qname ttl target) : c.Aliased := by
  obtain ⟨cell, hcell, -⟩ := h.stored
  rw [Ctx.Aliased, Ctx.Stored, hcell]
  rfl

section

variable (hq : question D req = .ok q) (huncut : (q.ctx D req).Uncut) (hname : OwnerName q.qname)
  (hf : q.qtype = f.rrtype) (hsend : req.dropped = false)
  (hfit : (cnameLookup (q.ctx D req).roomy (q.start req)).msg.length ≤ req.blen)

include hq huncut hname hf hsend hfit

/-- **An alias is answered with its first link and the addresses behind it.** -/
theorem exists_aliasReply (hlocal : q.isLocal = false) (hsole : (q.ctx D req).Sole f)
    (hown : ¬(q.ctx D req).Stored (zkey (q.ctx D req).keyZone f.typeName q.qname)) {ttl : Nat}
    {target : Text} (halias : (q.ctx D req).AliasTo q.qname ttl target) :
    ∃ r, buildQueryResp D req = .reply r ∧ (req.isTcp = true → r.tc = false) ∧
      (r.tc = false → ∃ rs, r.answer = (linkRec q.qname ttl target).clamped :: rs ∧
        (∀ rec ∈ rs, rec.owner = target ∧ rec.type = f.rrtype) ∧
        ∀ cell, D.store (zkey (q.ctx D req).keyZone f.typeName target) = some cell →
          {rd | ∃ rec ∈ rs, rec.rdata = rd} =
            addressSet f (lbSet D (safeStrcpy cell.value 256))) := by
  have hfresh := fresh_start q req
  obtain ⟨rs, hemit, hrs, hset⟩ :=
    cnameLookup_of_fits (c := q.ctx D req) hf hname halias hfresh hfit
  rw [buildQueryResp_eq hq, hlocal, if_neg Bool.false_ne_true,
    lookups_alias (c := q.ctx D req) hf huncut hsole hown hfresh halias.aliased, atFinish]
  obtain ⟨r, hr, hshown⟩ := finishAnswer_reply (q.ctx D req) q
    (cnameLookup (q.ctx D req) (q.start req)) hsend
  refine ⟨r, hr, hshown.tcp, fun htc => ⟨rs, ?_, hrs, hset⟩⟩
  rw [hshown.answer htc (lt_of_lt_of_le (Nat.succ_pos _) hemit.count), hemit.recs]
  rfl

end

end Chain

/-! ## Chains of one and of two links -/

theorem zoneName_of_keyZone {c : Ctx} {z : Text} (h : c.keyZone = z) (hz : z ≠ []) :
    c.zoneName = z := by
  unfold Ctx.keyZone at h
  unfold Ctx.zoneName Ctx.zoneOrGlobal
  cases hzone : c.zone with
  | none =>
    rw [hzone] at h
    exact absurd h.symm hz
  | some Z =>
    rwa [hzone] at h

/-- `h.z` is an alias for `a.z`, that for `b.z`, and `b.z` has an address. -/
def chainRecords : List (Text × Text) :=
  [(zkey (lit "z") (lit "CNAME") (lit "h.z"), lit "60|a.z"),
    (zkey (lit "z") (lit "CNAME") (lit "a.z"), lit "60|b.z"),
    (zkey (lit "z") (lit "A") (lit "b.z"), lit "60|192.0.2.1")]

/-- `h.z` is an alias for `b.z`. -/
def linkRecords : List (Text × Text) :=
  [(zkey (lit "z") (lit "CNAME") (lit "h.z"), lit "60|b.z"),
    (zkey (lit "z") (lit "A") (lit "b.z"), lit "60|192.0.2.1")]

/-- A stored alias of the small server. -/
theorem aliasTo_plain {records : List (Text × Text)} {q : Question} {name target : Text}
    (value : Text) (hkey : (q.ctx (plainServer records) hostQuery).keyZone = lit "z")
    (hstore : (plainServer records).store (zkey (lit "z") (lit "CNAME") name) = some ⟨value, none⟩)
    (hshort : value.length < 512) (hsplit : splitTtl value = (60, target))
    (hlegal : OwnerName target) (hin : target ≠ [] ∧ zoneMatches (lit "z") target = true) :
    (q.ctx (plainServer records) hostQuery).AliasTo name 60 target := by
  refine ⟨⟨⟨value, none⟩, ?_, hshort, hsplit⟩, hlegal, ?_⟩
  · rwa [hkey]
  · rwa [zoneName_of_keyZone hkey (by decide)]

end SimpleDns.Server
