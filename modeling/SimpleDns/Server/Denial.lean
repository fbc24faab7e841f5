import SimpleDns.Lib.Cyclic
import SimpleDns.Server.Wildcard

/-!
# Authenticated denial

A denial is one NSEC or NSEC3 record in the authority section, made up when the query is answered.
Its owner is the queried name (or its hash) and its next field is always the apex (or its hash): the
source calls this a simplification. `denial_content` is what such a record says, and which names of
the zone its span denies; `denial_covers_owner` is a span over a name that has an address.
-/

namespace SimpleDns.Server

open Wire Lib List RRType

/-! ## The apex comes first in canonical order -/

theorem compare_prefix_ne_lt {z x : List Text} (h : z <+: x) : compare x z ≠ .lt := by
  induction z generalizing x with
  | nil => cases x <;> exact nofun
  | cons l ls ih =>
    obtain ⟨t, rfl⟩ := h
    have htail := ih (prefix_append ls t)
    rwa [cons_append, List.compare_cons_cons, Std.ReflOrd.compare_self]

variable {zone : Text}

theorem canonLabels_prefix_of_zoneMatches {n : Text} (hn : n.length ≤ 255)
    (h : zoneMatches zone n = true) : canonLabels zone <+: canonLabels n := by
  unfold zoneMatches at h
  split at h
  · rename_i hlen
    refine canonLabels_prefix_of_suffix hn hlen.le ?_ (.inl hlen.symm)
    rwa [hlen, Nat.sub_self, drop_zero]
  · simp only [Bool.and_eq_true, decide_eq_true_eq, beq_iff_eq] at h
    obtain ⟨⟨hlt, hdot⟩, hci⟩ := h
    exact canonLabels_prefix_of_suffix hn (by omega) hci (.inr hdot)

/-- The span from a name of the zone to the apex holds the names of the zone behind it. -/
theorem inSpan_apex {owner n : Text} (ho : owner.length ≤ 255) (hn : n.length ≤ 255)
    (hzo : zoneMatches zone owner = true) (hzn : zoneMatches zone n = true) :
    inSpan canonNameCmp owner zone n = (canonNameCmp n owner == .gt) := by
  have hfirst : ∀ m : Text, m.length ≤ 255 → zoneMatches zone m = true →
      canonNameCmp m zone ≠ .lt := fun m hm hz =>
    compare_prefix_ne_lt (canonLabels_prefix_of_zoneMatches hm hz)
  simp [inSpan, hfirst owner ho hzo, hfirst n hn hzn]

/-! ## The queried name -/

/-- The zone of a query holds the queried name. -/
theorem zoneMatches_of_zoneFor {D : Dnsd} {q : Text} {Z : ServedZone} (h : D.zoneFor q = some Z) :
    zoneMatches Z.name q = true := by
  obtain ⟨i, hi, hZ⟩ := Option.bind_eq_some_iff.mp h
  obtain ⟨⟨j, len⟩, hloop, rfl⟩ := Option.map_eq_some_iff.mp hi
  obtain hbest | ⟨-, e, he, hm⟩ := zoneLoop_matches hloop
  · cases hbest
  · rw [Nat.sub_zero, getElem?_map, hZ] at he
    cases he
    exact hm

/-! ## The authority section -/

variable {b : Build} {c : Ctx} {rec : Rec}

/-- A record of the section is an old one or the one just emitted, up to its TTL. -/
theorem mem_authority_emitAuthority {dnssecOk : Bool} {r : Rec}
    (h : rec ∈ (b.emitAuthority c dnssecOk r).authority.recs) :
    rec ∈ b.authority.recs ∨ rec = { r with ttl := ttlClamp r.ttl } := by
  simp only [Build.emitAuthority, emitSection, Section.push] at h
  split at h
  · exact .inl h
  · obtain h | h := mem_append.mp h
    · exact .inl h
    · exact .inr (mem_singleton.mp h)

theorem authority_emitGlueFor (b : Build) (c : Ctx) (zone ns : Text) :
    (b.emitGlueFor c zone ns).authority = b.authority := by
  have hset : ∀ (rs : List Rec) (b : Build), (rs.foldl (·.emitGlue c) b).authority =
      b.authority := by
    intro rs
    induction rs with
    | nil => exact fun _ => rfl
    | cons r rs ih =>
      intro b
      rw [foldl_cons, ih]
      rfl
  have hrrset : ∀ (b : Build) (f : Family) (val : Text),
      (b.emitGlueRrset c ns f val).authority = b.authority := fun b f val => hset _ _
  unfold Build.emitGlueFor
  split
  · rfl
  · dsimp only
    split <;> split <;> simp only [hrrset]

theorem authority_glue (c : Ctx) (zone : Text) (names : List Text) (b : Build) :
    (names.foldl (·.emitGlueFor c zone) b).authority = b.authority := by
  induction names generalizing b with
  | nil => rfl
  | cons n ns ih => rw [foldl_cons, ih, authority_emitGlueFor]

/-- Only name servers are in the authority section. -/
def Build.Referring (b : Build) : Prop := ∀ r ∈ b.authority.recs, r.type = NS

theorem Build.Referring.emitAuthority {rs : List Rec} (hrs : ∀ r ∈ rs, r.type = NS)
    (hb : b.Referring) : (rs.foldl (·.emitAuthority c false) b).Referring := by
  induction rs generalizing b with
  | nil => exact hb
  | cons r rs ih =>
    refine ih (fun r hr => hrs r (mem_cons_of_mem _ hr)) fun r' hr' => ?_
    obtain hold | rfl := mem_authority_emitAuthority hr'
    · exact hb r' hold
    · exact hrs r mem_cons_self

theorem Build.Referring.delegation (hb : b.Referring) : (atFinish (delegation c b)).Referring := by
  unfold Server.delegation
  split
  · exact hb
  split
  · exact hb
  rename_i Z _ _ cut val _
  dsimp only
  split
  · rename_i dsval _
    have hds : b.find.Extends (fun _ => True) (b.find.emitAll c (dsRrset cut dsval)) :=
      extends_emitAll _ c fun _ _ => trivial
    intro r hr
    exact hb r (hds.authority ▸ hr)
  · intro r hr
    simp only [atFinish, authority_glue] at hr
    have hb' : Build.Referring { b with found := true, isReferral := true } := hb
    refine hb'.emitAuthority (fun r hr => ?_) r hr
    obtain ⟨ns, -, hns⟩ := mem_filterMap.mp hr
    obtain ⟨rd, -, rfl⟩ := Option.map_eq_some_iff.mp hns
    rfl

/-- **The lookups put nothing but name servers into the authority section.** -/
theorem Build.Referring.lookups (hb : b.Referring) : (atFinish (lookups c b)).Referring := by
  have hdel := hb.delegation (c := c)
  unfold Server.lookups
  cases hres : Server.delegation c b with
  | error b' =>
    rwa [hres] at hdel
  | ok b' =>
    rw [hres] at hdel
    have htyped := (extends_typedLookups (c := c) b').authority
    -- all lookups behind the delegation keep the section
    have hrest : (atFinish (typedLookups c b' >>= fun b =>
        pure (wildcardLookup c (cnameLookup c b)))).authority = b'.authority := by
      cases hty : typedLookups c b' with
      | error b₁ =>
        rwa [hty] at htyped
      | ok b₁ =>
        rw [hty] at htyped
        exact ((extends_wildcardLookup _).authority.trans (extends_cnameLookup b₁).authority).trans
          htyped
    intro r hr
    exact hdel r (hrest ▸ hr)

/-- The record `add_nsec_denial` or `add_nsec3_denial` emits, up to its TTL. -/
inductive Ctx.IsDenial (c : Ctx) (rec : Rec) : Prop
  | nsec (htype : rec.type = NSEC) (howner : rec.owner = c.qname)
      (hrd : nsecRdata c.zoneName = some rec.rdata)
  | nsec3 (htype : rec.type = NSEC3)
      (howner : rec.owner = nsec3Owner c.server.sha1 c.zoneName c.zoneOrGlobal.denial c.qname)
      (hrd : rec.rdata = nsec3Rdata c.server.sha1 c.zoneName c.zoneOrGlobal.denial c.qtype)

theorem mem_authority_deny (h : rec ∈ (b.deny c).authority.recs) :
    rec ∈ b.authority.recs ∨ rec.type = SOA ∨ c.IsDenial rec := by
  have hsoa : rec ∈ (b.addSoaAuthority c).authority.recs →
      rec ∈ b.authority.recs ∨ rec.type = SOA := by
    intro h
    unfold Build.addSoaAuthority at h
    dsimp only at h
    split at h
    · exact .inl h
    · obtain hold | rfl := mem_authority_emitAuthority h
      · exact .inl hold
      · exact .inr rfl
  have hsoa' : rec ∈ (b.addSoaAuthority c).authority.recs →
      rec ∈ b.authority.recs ∨ rec.type = SOA ∨ c.IsDenial rec :=
    fun h => (hsoa h).imp_right .inl
  unfold Build.deny at h
  split at h
  · unfold Build.addDenial at h
    dsimp only at h
    split at h
    · obtain hold | rfl := mem_authority_emitAuthority h
      · exact hsoa' hold
      · exact .inr (.inr (.nsec3 rfl rfl rfl))
    · split at h
      · exact hsoa' h
      · rename_i rd hrd
        obtain hold | rfl := mem_authority_emitAuthority h
        · exact hsoa' hold
        · exact .inr (.inr (.nsec rfl rfl hrd))
  · exact hsoa' h

variable {q : Question}

theorem mem_authority_finishAnswer {req : Request} {r : Reply}
    (h : finishAnswer c req q b = .reply r) (hrec : rec ∈ r.authority) :
    rec ∈ b.authority.recs ∨ rec.type = SOA ∨ c.IsDenial rec := by
  unfold finishAnswer at h
  split at h
  · cases h
  obtain rfl := QueryResult.reply.inj h
  simp only [Reply.withOpt] at hrec
  have hcut : ∀ slip : Bool, (if slip = true then b.cut q.fin else b).authority = b.authority := by
    intro slip
    split <;> rfl
  split at hrec
  · replace hrec := mem_of_cleared hrec
    obtain hold | hnew := mem_authority_deny hrec
    · rw [hcut] at hold
      exact .inl hold
    · exact .inr hnew
  · replace hrec := mem_of_cleared hrec
    rw [hcut] at hrec
    exact .inl hrec

/-- Every record of type NSEC or NSEC3 in the authority section is the denial. -/
theorem isDenial_of_mem {D : Dnsd} {req : Request} {r : Reply} (hq : question D req = .ok q)
    (hr : buildQueryResp D req = .reply r) (hrec : rec ∈ r.authority)
    (htype : rec.type = NSEC ∨ rec.type = NSEC3) : (q.ctx D req).IsDenial rec := by
  have hother : ∀ t ∈ [NS, SOA], rec.type ≠ t := by
    rcases htype with h | h <;> rw [h] <;> decide
  rw [buildQueryResp_eq hq] at hr
  split at hr
  · obtain rfl := QueryResult.reply.inj hr
    obtain hold | hsoa | hden := mem_authority_deny (b := q.start req) hrec
    · cases hold
    · exact absurd hsoa (hother _ (by simp))
    · exact hden
  · obtain hold | hsoa | hden := mem_authority_finishAnswer hr hrec
    · have hstart : (q.start req).Referring := fun _ hr => absurd hr not_mem_nil
      exact absurd (hstart.lookups rec hold) (hother _ (by simp))
    · exact absurd hsoa (hother _ (by simp))
    · exact hden

/-! ## What the record says -/

/-- The bitmap of every NSEC record has exactly the types the server serves. -/
theorem bitmapHasType_nsec (t : Nat) :
    bitmapHasType (0 :: labelWire (typeBitmap nsecTypes)) t = decide (t ∈ nsecTypes) := by
  have hbits : 0 :: labelWire (typeBitmap nsecTypes) =
      [0, 7, 0x66, 0x01, 0x80, 0x08, 0x40, 0x03, 0x80] := by decide
  rw [hbits]
  by_cases ht : t < 56
  · have hall : ∀ t < 56, bitmapHasType [0, 7, 0x66, 0x01, 0x80, 0x08, 0x40, 0x03, 0x80] t =
        decide (t ∈ nsecTypes) := by decide
    exact hall t ht
  · have hno : t ∉ nsecTypes := by
      intro hmem
      have hle : ∀ t ∈ nsecTypes, t < 56 := by decide
      exact ht (hle t hmem)
    simp [bitmapHasType, bitmapLoop, byteAt, hno]
    omega

/-- A name of the zone that owns a record. -/
structure Ctx.ZoneOwner (c : Ctx) (n : Text) : Prop where
  legal : OwnerName n
  inZone : zoneMatches c.keyZone n = true
  record : (c.at n).HasRecord

/-- The hash in the next field is the apex's, where the zone is configured in lower case. -/
theorem nextHash_eq (sha1 : Bytes → Bytes) (d : DenialFields) (h : strlower zone = zone) :
    nextHash sha1 zone d = nsec3HashRaw sha1 zone d.saltOctets d.iters := by
  have hcopy : strlower (safeStrcpy zone 256) = safeStrcpy zone 256 := by
    conv_rhs => rw [← h]
    exact map_take
  rw [nextHash, nsec3HashRaw, hcopy]

/-- **What a denial says.** An NSEC record leads from the queried name back to the apex and lists
the types the server serves, so that the names of the zone it denies are those behind the queried
one; an NSEC3 record leads from the hash of the queried name to the hash of the apex as it is
spelled in the configuration. -/
theorem denial_content {D : Dnsd} {req : Request} {q : Question} {r : Reply}
    (hq : question D req = .ok q) (hr : buildQueryResp D req = .reply r) {rec : Rec}
    (hrec : rec ∈ r.authority) :
    (rec.type = NSEC → rec.owner = q.qname ∧
      (∃ next bitmap, nameToWire (q.ctx D req).zoneName 512 = some next ∧
        rec.rdata = next ++ bitmap ∧ ∀ t, bitmapHasType bitmap t = true ↔ t ∈ nsecTypes) ∧
      ∀ Z, q.zone = some Z → ∀ n, (q.ctx D req).ZoneOwner n →
        (inSpan canonNameCmp rec.owner Z.name n = true ↔ canonNameCmp n q.qname = .gt)) ∧
    (rec.type = NSEC3 → ∃ d next bitmap, d = (q.ctx D req).zoneOrGlobal.denial ∧
      rec.owner = nsec3Owner D.sha1 (q.ctx D req).zoneName d q.qname ∧
      rec.rdata = [1, 0] ++ put16 d.iters ++ labelWire d.saltOctets ++ 20 :: next ++ bitmap ∧
      next = nextHash D.sha1 (q.ctx D req).zoneName d ∧
      (strlower (q.ctx D req).zoneName = (q.ctx D req).zoneName →
        next = nsec3HashRaw D.sha1 (q.ctx D req).zoneName d.saltOctets d.iters)) := by
  constructor
  · intro htype
    cases isDenial_of_mem hq hr hrec (.inl htype) with
    | nsec3 htype' => exact absurd (htype.symm.trans htype') (by decide)
    | nsec _ howner hrd =>
      refine ⟨howner, ?_, ?_⟩
      · unfold nsecRdata at hrd
        split at hrd
        · cases hrd
        · rename_i next hnext
          dsimp only at hrd
          split at hrd
          · cases hrd
          · refine ⟨next, _, hnext, (Option.some.inj hrd).symm, fun t => ?_⟩
            rw [bitmapHasType_nsec, decide_eq_true_eq]
      · intro Z hZ n hn
        obtain ⟨hname, hzone⟩ := question_ok hq
        have hin : zoneMatches Z.name q.qname = true := zoneMatches_of_zoneFor (hzone ▸ hZ)
        have hkey : zoneMatches Z.name n = true := by
          have hinZone := hn.inZone
          rwa [keyZone_ctx hZ] at hinZone
        rw [howner, Question.ctx, inSpan_apex (length_nameFromWire_le hname) hn.legal.short
          hin hkey,
          beq_iff_eq]
  · intro htype
    cases isDenial_of_mem hq hr hrec (.inr htype) with
    | nsec htype' => exact absurd (htype.symm.trans htype') (by decide)
    | nsec3 _ howner hrd => exact ⟨_, _, _, rfl, howner, hrd, rfl, nextHash_eq D.sha1 _⟩

/-! ## A span over a name with an address -/

/-- A query with an OPT record that has the DO bit. -/
def dnssecQuery (ls : List Text) (qtype : Nat) : Request :=
  { tcpQuery ls qtype with
    query := [0, 7, 1, 0, 0, 1, 0, 0, 0, 0, 0, 1] ++ nameWire ls ++ put16 qtype ++
      put16 RRClass.IN ++ 0 :: put16 OPT ++ put16 1232 ++ put32 0x8000 ++ put16 0 }

/-- A zone with an address at `b.z`. -/
def oneAddress : List (Text × Text) :=
  [(zkey (lit "z") (lit "A") (lit "b.z"), lit "60|192.0.2.2")]

/-- A query for the address of `a.z`. -/
def absentQuery : Request := dnssecQuery [lit "a", lit "z"] RRType.A

/-- The reply denies with one NSEC record from `a.z` to `z`. -/
theorem absentQuery_reply :
    ∃ q Z r rec, question (plainServer oneAddress) absentQuery = .ok q ∧ q.qname = lit "a.z" ∧
      q.qtype = RRType.A ∧ q.zone = some Z ∧ Z.name = lit "z" ∧
      buildQueryResp (plainServer oneAddress) absentQuery = .reply r ∧ rec ∈ r.authority ∧
      rec.type = NSEC ∧ rec.owner = lit "a.z" ∧
      rec.rdata = nameWire [lit "z"] ++ 0 :: labelWire (typeBitmap nsecTypes) := by
  obtain ⟨q, hq, hname, htype, Z, hZ, hzone⟩ :
      ∃ q, question (plainServer oneAddress) absentQuery = .ok q ∧ q.qname = lit "a.z" ∧
        q.qtype = RRType.A ∧ ∃ Z ∈ q.zone, Z.name = lit "z" := by decide +kernel
  obtain ⟨r, hr, rec, hrec, hrd⟩ :
      ∃ r, buildQueryResp (plainServer oneAddress) absentQuery = .reply r ∧
        ∃ rec ∈ r.authority, rec.type = NSEC ∧ rec.owner = lit "a.z" ∧
          rec.rdata = nameWire [lit "z"] ++ 0 :: labelWire (typeBitmap nsecTypes) := by
    decide +kernel
  exact ⟨q, Z, r, rec, hq, hname, htype, hZ, hzone, hr, hrec, hrd⟩

/-- The name with the address is an owner of the zone. -/
theorem zoneOwner_b {Z : ServedZone} (hZ : q.zone = some Z) (hzone : Z.name = lit "z") :
    (q.ctx (plainServer oneAddress) absentQuery).ZoneOwner (lit "b.z") := by
  have hkey : (q.ctx (plainServer oneAddress) absentQuery).keyZone = lit "z" := by
    rw [keyZone_ctx hZ, hzone]
  refine ⟨⟨by decide, by decide, _, rfl⟩, by rw [hkey]; decide, .inl ?_⟩
  refine owns_of_hasAddr (c := q.ctx (plainServer oneAddress) absentQuery) (f := .inet)
    (.inr (.inl ?_))
  rw [hkey]
  show ((plainServer oneAddress).store _).isSome = true
  decide +kernel

/-- **A denial whose span holds a name with an address, and whose bitmap has the denied type.** -/
theorem denial_covers_owner :
    ∃ q r rec bitmap, question (plainServer oneAddress) absentQuery = .ok q ∧
      buildQueryResp (plainServer oneAddress) absentQuery = .reply r ∧ rec ∈ r.authority ∧
      rec.type = NSEC ∧ rec.rdata = nameWire [lit "z"] ++ bitmap ∧
      (q.ctx (plainServer oneAddress) absentQuery).ZoneOwner (lit "b.z") ∧
      inSpan canonNameCmp rec.owner (lit "z") (lit "b.z") = true ∧
      bitmapHasType bitmap q.qtype = true := by
  obtain ⟨q, Z, r, rec, hq, -, htype, hZ, hzone, hr, hrec, hnsec, howner, hrd⟩ := absentQuery_reply
  refine ⟨q, r, rec, _, hq, hr, hrec, hnsec, hrd, zoneOwner_b hZ hzone, ?_, ?_⟩
  · rw [howner]
    decide +kernel
  · rw [htype]
    decide

/-- The record denies `b.z`, which comes behind the queried name. -/
theorem denial_content_at_a :
    ∃ q r rec, question (plainServer oneAddress) absentQuery = .ok q ∧
      buildQueryResp (plainServer oneAddress) absentQuery = .reply r ∧ rec ∈ r.authority ∧
      rec.owner = q.qname ∧ (inSpan canonNameCmp rec.owner (lit "z") (lit "b.z") = true ↔
        canonNameCmp (lit "b.z") q.qname = .gt) := by
  obtain ⟨q, Z, r, rec, hq, -, -, hZ, hzone, hr, hrec, hnsec, -⟩ := absentQuery_reply
  obtain ⟨howner, -, hspan⟩ := (denial_content hq hr hrec).1 hnsec
  have hb := hspan Z hZ (lit "b.z") (zoneOwner_b hZ hzone)
  rw [hzone] at hb
  exact ⟨q, r, rec, hq, hr, hrec, howner, hb⟩

end SimpleDns.Server
