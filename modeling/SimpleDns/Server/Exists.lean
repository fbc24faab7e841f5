import SimpleDns.Server.Finish

/-!
# When NXDOMAIN is answered

`nxdomain_iff` says for every query that is not below a zone cut when the rcode is NXDOMAIN: the
name lies in a locally served zone, or no lookup of the queried type, no alias and no wildcard finds
it. A name that owns records of other types only is among those (`txt_owner_denied`), and
`nxdomain_sound_iff` is the condition under which NXDOMAIN says that the name owns nothing.
-/

namespace SimpleDns.Server

open Wire List RRType

/-! ## Names that own records -/

/-- The types served from the zone namespace. -/
def zoneTypes : List Nat :=
  [NS, DS, RRType.A, AAAA, PTR] ++ provisionedTypes

/-- The keys under which the served records of a name lie. -/
def Ctx.servedKeys (c : Ctx) : List Text :=
  zoneTypes.map (fun t => zkey c.keyZone (type2str t) c.qname) ++
    [RRType.A, AAAA, PTR].map (fun t => dkey c.keyZone (type2str t) c.qname) ++
    [RRType.A, AAAA, SRV, TXT].map
      (fun t => skey c.keyZone (type2str t) c.qname)

/-- The name owns a record of some served type. -/
def Ctx.Owns (c : Ctx) : Prop := (∃ key ∈ c.servedKeys, c.Stored key) ∨ c.HasInstance

/-- What a lookup finds in the store, the name owns. -/
theorem owns_of_hasData {c : Ctx} {t : Nat} (h : c.HasData t) : c.Owns := by
  have hzone : ∀ t ∈ zoneTypes, c.Stored (zkey c.keyZone (type2str t) c.qname) → c.Owns :=
    fun t ht hs => .inl ⟨_, mem_append_left _
      (mem_append_left _ (mem_map_of_mem ht)), hs⟩
  have hddns : ∀ t ∈ [RRType.A, AAAA, PTR],
      c.Stored (dkey c.keyZone (type2str t) c.qname) → c.Owns :=
    fun t ht hs => .inl ⟨_, mem_append_left _
      (mem_append_right _ (mem_map_of_mem ht)), hs⟩
  have hsrp : ∀ t ∈ [RRType.A, AAAA, SRV, TXT],
      c.Stored (skey c.keyZone (type2str t) c.qname) → c.Owns :=
    fun t ht hs => .inl ⟨_, mem_append_right _ (mem_map_of_mem ht), hs⟩
  cases h with
  | ns h => exact hzone NS (by decide) h
  | addr f h =>
    cases f with
    | inet =>
      rcases h with h | h | h
      · exact hddns RRType.A (by decide) h
      · exact hzone RRType.A (by decide) h
      · exact hsrp RRType.A (by decide) h
    | inet6 =>
      rcases h with h | h | h
      · exact hddns AAAA (by decide) h
      · exact hzone AAAA (by decide) h
      · exact hsrp AAAA (by decide) h
  | ptr h =>
    rcases h with h | h | h
    · exact hddns PTR (by decide) h.stored
    · exact hzone PTR (by decide) h.stored
    · exact .inr h
  | srv h => exact hsrp SRV (by decide) h.stored
  | txt h => exact hsrp TXT (by decide) h.stored
  | provisioned _ ht h => exact hzone _ (mem_append_right _ ht) h

/-! ## NXDOMAIN -/

/-- The rcode of a response. -/
def QueryResult.rcode : QueryResult → Option Nat
  | .reply r => some r.rcode
  | _ => none

section Nxdomain

variable {D : Dnsd} {req : Request} {q : Question} (hq : question D req = .ok q)
  (huncut : (q.ctx D req).Uncut) (hname : OwnerName q.qname) (hblen : 4096 ≤ req.blen)

include hq huncut hname hblen

/-- **NXDOMAIN is answered for locally served names, and where nothing is found.** -/
theorem nxdomain_iff :
    (buildQueryResp D req).rcode = some rcodeNxDomain ↔
      q.isLocal = true ∨ (req.dropped = false ∧ ¬(q.ctx D req).Found) := by
  rw [buildQueryResp_eq hq]
  by_cases hlocal : q.isLocal = true
  · rw [if_pos hlocal]
    exact ⟨fun _ => .inl hlocal, fun _ => rfl⟩
  rw [if_neg hlocal]
  by_cases hdrop : req.dropped = true
  · have hres : ∀ b, finishAnswer (q.ctx D req) req q b = .drop := fun b => if_pos hdrop
    rw [hres]
    simp [QueryResult.rcode, hlocal, hdrop]
  have hsend : req.dropped = false := by simpa using hdrop
  obtain ⟨r, hr, hshown⟩ := finishAnswer_reply (q.ctx D req) q
    (atFinish (lookups (q.ctx D req) (q.start req))) hsend
  have hfresh := fresh_start q req
  have hroom := room_start hq hblen
  rw [hr]
  simp only [QueryResult.rcode, hshown.rcode, hlocal, hsend, rcodeNxDomain]
  by_cases hfound : (q.ctx D req).Found
  · have hhit := hit_lookups (c := q.ctx D req) hname hroom hfresh huncut hfound
    rw [if_neg]
    · simp [hfound]
    · rintro ⟨hcount, -, hf⟩
      rcases hhit with h | h
      · rw [hf] at h
        cases h
      · omega
  · rw [lookups_missed (c := q.ctx D req) hname hroom hfresh huncut hfound]
    simp [hfound, atFinish, Question.start, Section.empty]

/-- **When NXDOMAIN means that the name owns nothing.** -/
theorem nxdomain_sound_iff :
    ((buildQueryResp D req).rcode = some rcodeNxDomain → ¬(q.ctx D req).Owns) ↔
      ((q.ctx D req).Owns →
        q.isLocal = false ∧ (req.dropped = true ∨ (q.ctx D req).Found)) := by
  rw [nxdomain_iff hq huncut hname hblen]
  constructor
  · intro h howns
    have hno : ¬(q.isLocal = true ∨ (req.dropped = false ∧ ¬(q.ctx D req).Found)) :=
      fun hnx => h hnx howns
    rw [not_or, not_and, not_not] at hno
    refine ⟨Bool.not_eq_true _ ▸ hno.1, ?_⟩
    rcases hdrop : req.dropped with _ | _
    · exact .inr (hno.2 hdrop)
    · exact .inl rfl
  · rintro h (hlocal | ⟨hsend, hmissed⟩) howns
    · rw [(h howns).1] at hlocal
      cases hlocal
    · rcases (h howns).2 with hdrop | hfound
      · rw [hsend] at hdrop
        cases hdrop
      · exact hmissed hfound

end Nxdomain

/-! ## A name with other records -/

/-- The host `h.z` with one record. -/
def oneRecord (type value : Text) : Dnsd := plainServer [(zkey (lit "z") type (lit "h.z"), value)]

/-- A query for the host reaches the lookups, and its name owns the record. -/
theorem oneRecord_owns (type value : Text) (htype : type ∈ zoneTypes.map type2str)
    (hcut : zoneDelegationCut (oneRecord type value).store (lit "z") (lit "h.z") = none) :
    ∃ q, question (oneRecord type value) hostQuery = .ok q ∧
      (q.ctx (oneRecord type value) hostQuery).Uncut ∧ OwnerName q.qname ∧
      (q.ctx (oneRecord type value) hostQuery).Owns := by
  obtain ⟨q, hq, hname, -, hkey, huncut⟩ := hostQuery_reaches _ hcut
  obtain ⟨t, ht, rfl⟩ := mem_map.mp htype
  refine ⟨q, hq, huncut, by rw [hname]; exact ownerName_host,
    .inl ⟨zkey (lit "z") (type2str t) (lit "h.z"), ?_, ?_⟩⟩
  · have hqname : (q.ctx (oneRecord (type2str t) value) hostQuery).qname = lit "h.z" := hname
    unfold Ctx.servedKeys
    rw [show (q.ctx (oneRecord (type2str t) value) hostQuery).keyZone = lit "z" from hkey, hqname]
    exact mem_append_left _ (mem_append_left _ (mem_map_of_mem ht))
  · show ((oneRecord (type2str t) value).store _).isSome = true
    simp [oneRecord, plainServer]

/-- **A name with a text record only is denied to a query for its address.** -/
theorem txt_owner_denied :
    ∃ q, question (oneRecord (lit "TXT") (lit "60|hello")) hostQuery = .ok q ∧
      (q.ctx (oneRecord (lit "TXT") (lit "60|hello")) hostQuery).Uncut ∧ OwnerName q.qname ∧
      (buildQueryResp (oneRecord (lit "TXT") (lit "60|hello")) hostQuery).rcode =
        some rcodeNxDomain ∧
      (q.ctx (oneRecord (lit "TXT") (lit "60|hello")) hostQuery).Owns := by
  obtain ⟨q, hq, huncut, hname, howns⟩ :=
    oneRecord_owns (lit "TXT") (lit "60|hello") (by decide) (by decide +kernel)
  exact ⟨q, hq, huncut, hname, by decide +kernel, howns⟩

/-- The same query where the name has an address. -/
theorem nxdomain_sound_at_host :
    ∃ q, question (oneRecord (lit "A") (lit "60|192.0.2.1")) hostQuery = .ok q ∧
      (q.ctx (oneRecord (lit "A") (lit "60|192.0.2.1")) hostQuery).Owns ∧
      (((buildQueryResp (oneRecord (lit "A") (lit "60|192.0.2.1")) hostQuery).rcode =
          some rcodeNxDomain → ¬(q.ctx (oneRecord (lit "A") (lit "60|192.0.2.1")) hostQuery).Owns) ↔
        ((q.ctx (oneRecord (lit "A") (lit "60|192.0.2.1")) hostQuery).Owns →
          q.isLocal = false ∧ (hostQuery.dropped = true ∨
            (q.ctx (oneRecord (lit "A") (lit "60|192.0.2.1")) hostQuery).Found))) := by
  obtain ⟨q, hq, huncut, hname, howns⟩ :=
    oneRecord_owns (lit "A") (lit "60|192.0.2.1") (by decide) (by decide +kernel)
  exact ⟨q, hq, howns, nxdomain_sound_iff hq huncut hname (by decide)⟩

end SimpleDns.Server
