import SimpleDns.Server.Lookup

/-!
# From the lookups to the reply

* `room_start`: a response buffer of `BUF_SIZE` has room behind every question.
* `hit_lookups`: below no zone cut, the lookups find the name under `Ctx.Located`, at an alias or
  under a wildcard, and otherwise they leave the response as it is (`lookups_missed`).
* `finishAnswer_reply`: what of the response under construction a reply shows.
-/

namespace SimpleDns.Server

open Wire List Option RRType

/-! ## The question fits -/

/-- Where decoding a name from `base` resumes: behind a pointer, or behind the labels so far. -/
def ResumesBy (base olen pos : Nat) (out : Text) : Option Nat → Prop
  | some j => j ≤ base + olen + 2
  | none => pos ≤ base + out.length + 1 ∧ (out = [] → pos ≤ base)

theorem ResumesBy.le {base olen pos k : Nat} {out : Text} {jret : Option Nat}
    (h : ResumesBy base olen pos out jret) (hout : out.length < olen) (hk : k ≤ 2) :
    jret.getD (pos + k) ≤ base + olen + 2 := by
  cases jret with
  | some j => exact h
  | none =>
    have := h.1
    rw [getD_none]
    omega

/-- Decoding ends behind at most `olen + 2` octets. -/
theorem decodes_end_le {pkt : Bytes} {olen base : Nat} {fuel pos : Nat} {out : Text}
    {jret : Option Nat} {res : Text × Nat} (h : Decodes pkt olen res fuel pos out jret)
    (hres : ResumesBy base olen pos out jret) (hout : out.length < olen) :
    res.2 ≤ base + olen + 2 := by
  induction h with
  | stop eq =>
    rw [eq]
    exact hres.le hout (Nat.zero_le 2)
  | root _ _ eq =>
    rw [eq]
    exact hres.le hout (Nat.le_succ 1)
  | pointer _ _ _ _ _ ih => exact ih (hres.le hout le_rfl) hout
  | @label fuel pos out l jret _ _ ne_nil _ _ room _ ih =>
    -- the text grows by the label and a dot, the offset by the label and its length
    have hpos := length_pos_of_ne_nil ne_nil
    have hlen := length_append_label out l
    refine ih ?_ (by rw [hlen]; split <;> omega)
    cases jret with
    | some j => exact hres
    | none =>
      obtain ⟨hle, hfirst⟩ := hres
      refine ⟨?_, fun hnil => ?_⟩
      · rw [hlen]
        split
        · have := hfirst ‹_›
          omega
        · omega
      · rw [hnil, length_nil] at hlen
        omega

/-- The name of a question ends within 270 octets. -/
theorem nameFromWire_end_le {pkt : Bytes} {name : Text} {after : Nat}
    (h : nameFromWire pkt 12 256 = some (name, after)) : after ≤ 270 := by
  obtain ⟨res, hres, heq⟩ := map_eq_some_iff.mp h
  obtain ⟨-, rfl⟩ := Prod.mk.inj heq
  have hstart : ResumesBy 12 256 12 [] none := ⟨by simp, fun _ => le_rfl⟩
  exact decodes_end_le (.of_nameLoop hres) hstart (by decide)

variable {req : Request}

/-- What a question that reaches the lookups has passed. -/
theorem question_ok {D : Dnsd} {q : Question} (h : question D req = .ok q) :
    nameFromWire req.query 12 256 = some (q.qname, q.after) ∧ q.zone = D.zoneFor q.qname := by
  unfold question at h
  dsimp only at h
  split at h
  · cases h
  split at h
  · cases h
  split at h
  · cases h
  rename_i qname after hname
  split at h
  · cases h
  split at h
  · cases h
  split at h
  · cases h
  split at h
  · cases h
  split at h
  · rename_i Z hZ
    split at h
    · cases h
    · obtain rfl := Except.ok.inj h
      exact ⟨hname, hZ.symm⟩
  · rename_i hZ
    split at h
    · obtain rfl := Except.ok.inj h
      exact ⟨hname, hZ.symm⟩
    · split at h <;> cases h

section Start

variable {D : Dnsd} {req : Request} {q : Question}

theorem length_start_le (h : question D req = .ok q) : (q.start req).msg.length ≤ 274 := by
  have hafter := nameFromWire_end_le (question_ok h).1
  have hslice := length_slice_le req.query 12 (q.after - 12 + 4)
  simp only [Question.start, Question.octets, length_append, length_replicate]
  omega

/-- **A buffer of `BUF_SIZE` octets has room for a signed record behind every question.** -/
theorem room_start (h : question D req = .ok q) (hblen : 4096 ≤ req.blen) :
    (q.start req).Room (q.ctx D req) 512 :=
  (Nat.add_le_add_right (length_start_le h) _).trans (le_trans (by decide) hblen)

end Start

/-! ## The alias and the wildcard -/

/-- Nothing has been found or answered. -/
structure Build.Fresh (b : Build) : Prop where
  found : b.found = false
  count : b.answer.count = 0

theorem fresh_start (q : Question) (req : Request) : (q.start req).Fresh := ⟨rfl, rfl⟩

/-- The name is an alias. -/
def Ctx.Aliased (c : Ctx) : Prop := c.Stored (zkey c.keyZone (lit "CNAME") c.qname)

/-- The wildcard one label up has addresses of a queried type. -/
def Ctx.Wildcarded (c : Ctx) : Prop :=
  dot ∈ c.qname ∧ ∃ f : Family, c.wants f.rrtype = true ∧
    c.Stored (zkey c.keyZone f.typeName (wildcardName c.qname))

section Rest

variable {c : Ctx}

theorem extends_emitHop (b : Build) (cur : Text) (f : Family) :
    b.Extends Rec.Own (b.emitHop c cur f) := by
  unfold Build.emitHop
  split
  · split
    · exact extends_own_emitAddrRrset b cur f _
    · exact .refl Rec.Own b
  · exact .refl Rec.Own b

theorem extends_hopLoop (fuel : Nat) (cur : Text) (b : Build) :
    b.Extends Rec.Own (hopLoop c fuel cur b) := by
  induction fuel generalizing cur b with
  | zero => exact .refl Rec.Own b
  | succ fuel ih =>
    unfold hopLoop
    split
    · exact .refl Rec.Own b
    have haddr : b.Extends Rec.Own ((b.emitHop c cur .inet).emitHop c cur .inet6) :=
      (extends_emitHop b cur .inet).trans (extends_emitHop _ cur .inet6)
    dsimp only
    split
    · split
      · exact haddr
      · split
        · refine (haddr.trans ?_).trans (ih _ _)
          exact extends_emit _ c rfl
        · exact haddr.trans (ih _ _)
    · exact haddr

/-- The alias record and what the hop loop adds. -/
theorem extends_aliasHops (b : Build) (ttl : Nat) (rd : Bytes) (target : Text) :
    b.Extends Rec.Own (hopLoop c 8 target
      (b.emit c ⟨c.qname, CNAME, ttl, rd, c.qname⟩)) := by
  have halias : b.Extends Rec.Own (b.emit c ⟨c.qname, CNAME, ttl, rd, c.qname⟩) :=
    extends_emit b c rfl
  exact halias.trans (extends_hopLoop 8 _ _)

theorem extends_cnameLookup (b : Build) : b.Extends Rec.Own (cnameLookup c b) := by
  unfold cnameLookup
  split
  · exact .refl Rec.Own b
  · refine extends_ifStored b _ 512 fun val b => ?_
    split
    · exact .refl Rec.Own b
    · exact extends_aliasHops b ..

variable {b : Build}

theorem cnameLookup_quiet (h : ¬c.Aliased) : cnameLookup c b = b := by
  unfold cnameLookup
  split
  · rfl
  · exact ifStored_quiet h b

theorem found_cnameLookup (hb : b.Fresh) (h : c.Aliased) (hcname : c.qtype ≠ CNAME)
    (hany : c.qtype ≠ ANY) : (cnameLookup c b).found = true := by
  obtain ⟨val, hval⟩ := (stored_iff 512).mp h
  unfold cnameLookup
  rw [if_neg (by simp [hb.found, hb.count, hcname, hany])]
  simp only [Build.ifStored, hval]
  split
  · rfl
  · exact (extends_aliasHops b.find ..).found rfl

/-- A record found under the wildcard of the queried name. -/
def Ctx.Synthesised (c : Ctx) (r : Rec) : Prop :=
  r.owner = c.qname ∧ r.source = wildcardName c.qname

/-- The compiled-in zone has no wildcards. -/
theorem static_find_wildcard (qname : Text) :
    staticZone.find? (fun r => eqCI r.name (wildcardName qname)) = none := by
  rw [find?_eq_none]
  intro r hr heq
  have hhead : (strlower r.name).head? = some 42 := by
    rw [eqCI_iff.mp heq]
    rfl
  have hno : ∀ r ∈ staticZone, (strlower r.name).head? ≠ some 42 := by decide
  exact hno r hr hhead

theorem wildcardLookup_eq (b : Build) :
    wildcardLookup c b = if b.found || dot ∉ c.qname then b
      else wildcardAddr c .inet6 (wildcardAddr c .inet b) := by
  unfold wildcardLookup
  rw [static_find_wildcard]

theorem extends_wildcardAddr (f : Family) (b : Build) :
    b.Extends c.Synthesised (wildcardAddr c f b) := by
  unfold wildcardAddr
  split
  · exact extends_ifStored b _ _ fun val b => extends_emitAddrRrset b c f val
      fun _ ho hs _ _ => ⟨ho, hs⟩
  · exact .refl _ b

theorem extends_wildcardLookup (b : Build) : b.Extends c.Synthesised (wildcardLookup c b) := by
  rw [wildcardLookup_eq]
  split
  · exact .refl _ b
  · exact (extends_wildcardAddr .inet b).trans (extends_wildcardAddr .inet6 _)

theorem wildcardAddr_quiet {f : Family} (h : ¬(c.wants f.rrtype = true ∧
    c.Stored (zkey c.keyZone f.typeName (wildcardName c.qname)))) (b : Build) :
    wildcardAddr c f b = b := by
  unfold wildcardAddr
  split
  · rename_i hw
    exact ifStored_quiet (fun hs => h ⟨hw, hs⟩) b
  · rfl

theorem found_wildcardAddr {f : Family} (hw : c.wants f.rrtype = true)
    (h : c.Stored (zkey c.keyZone f.typeName (wildcardName c.qname))) (b : Build) :
    (wildcardAddr c f b).found = true := by
  obtain ⟨val, hval⟩ := (stored_iff (addrBuffer f)).mp h
  rw [wildcardAddr, if_pos hw]
  simp only [Build.ifStored, hval]
  exact (extends_emitAddrRrset (P := c.Synthesised) b.find c f val fun _ ho hs _ _ =>
    ⟨ho, hs⟩).found rfl

theorem wildcardLookup_quiet (h : ¬c.Wildcarded) (b : Build) : wildcardLookup c b = b := by
  rw [wildcardLookup_eq]
  split
  · rfl
  · rename_i hcond
    have hdot : dot ∈ c.qname := by
      by_contra hno
      exact hcond (by simp [hno])
    have hf : ∀ f : Family, ¬(c.wants f.rrtype = true ∧
        c.Stored (zkey c.keyZone f.typeName (wildcardName c.qname))) := fun f hf => h ⟨hdot, f, hf⟩
    rw [wildcardAddr_quiet (hf .inet), wildcardAddr_quiet (hf .inet6)]

theorem found_wildcardLookup (h : c.Wildcarded) (b : Build) :
    (wildcardLookup c b).found = true := by
  obtain ⟨hdot, f, hw, hs⟩ := h
  rw [wildcardLookup_eq]
  split
  · rename_i hcond
    simpa [hdot] using hcond
  · cases f with
    | inet => exact (extends_wildcardAddr .inet6 _).found (found_wildcardAddr hw hs b)
    | inet6 => exact found_wildcardAddr hw hs _

/-! ## All lookups -/

/-- No zone cut lies at or above the name. -/
def Ctx.Uncut (c : Ctx) : Prop :=
  ∀ Z, c.zone = some Z → zoneDelegationCut c.server.store Z.name c.qname = none

theorem delegation_of_uncut (h : c.Uncut) (b : Build) : delegation c b = .ok b := by
  unfold delegation
  split
  · rfl
  · rename_i Z hZ
    rw [h Z hZ]

/-- The alias and the wildcard, behind typed lookups that have jumped or not. -/
def restLookups (c : Ctx) (b : Build) : Build := wildcardLookup c (cnameLookup c b)

theorem keyZone_ctx {D : Dnsd} {req : Request} {q : Question} {Z : ServedZone}
    (hZ : q.zone = some Z) : (q.ctx D req).keyZone = Z.name := by
  simp [Ctx.keyZone, Question.ctx, hZ]

theorem lookups_of_uncut (h : c.Uncut) (b : Build) :
    lookups c b = (typedLookups c b).map (restLookups c) := by
  unfold lookups
  rw [delegation_of_uncut h]
  show (typedLookups c b >>= fun b => pure (restLookups c b)) = _
  cases typedLookups c b <;> rfl

theorem restLookups_of_found (h : b.found = true) : restLookups c b = b := by
  have hcname : cnameLookup c b = b := by
    unfold cnameLookup
    rw [if_pos (by simp [h])]
  rw [restLookups, hcname, wildcardLookup, if_pos (by simp [h])]

/-- An alias that the typed lookups do not find was not asked for by its type. -/
theorem Ctx.Aliased.qtype_ne (h : c.Aliased) (hloc : ¬c.Located) :
    c.qtype ≠ CNAME ∧ c.qtype ≠ ANY := by
  have hwants : ¬c.wants CNAME = true := fun hw =>
    hloc (.data CNAME hw (.provisioned CNAME (by decide) h))
  simpa [Ctx.wants] using hwants

/-- The name is found in one of the ways the lookups know. -/
def Ctx.Found (c : Ctx) : Prop := c.Located ∨ c.Aliased ∨ c.Wildcarded

section Whole

variable {b : Build} (hq : OwnerName c.qname) (hroom : b.Room c 512) (hb : b.Fresh)
  (huncut : c.Uncut)

include hq hroom hb huncut

theorem hit_lookups (h : c.Found) : (atFinish (lookups c b)).Hit := by
  have hloc := locates_typedLookups hq hroom fun _ => hb.count
  rw [lookups_of_uncut huncut]
  by_cases hl : c.Located
  · have hhit := hloc.hit hl
    cases htyped : typedLookups c b with
    | error b' =>
      rwa [htyped] at hhit
    | ok b' =>
      rw [htyped] at hhit
      exact (extends_wildcardLookup _).hit ((extends_cnameLookup b').hit hhit)
  · rw [hloc.quiet hl b fun _ => hb.count]
    refine .inl ?_
    by_cases ha : c.Aliased
    · obtain ⟨hcname, hany⟩ := ha.qtype_ne hl
      exact (extends_wildcardLookup _).found (found_cnameLookup hb ha hcname hany)
    · exact found_wildcardLookup ((h.resolve_left hl).resolve_left ha) _

/-- What is not found leaves the response as it is. -/
theorem lookups_missed (h : ¬c.Found) : lookups c b = .ok b := by
  simp only [Ctx.Found, not_or] at h
  have hloc := locates_typedLookups hq hroom fun _ => hb.count
  rw [lookups_of_uncut huncut, hloc.quiet h.1 b fun _ => hb.count]
  simp only [Except.map, restLookups]
  rw [cnameLookup_quiet h.2.1, wildcardLookup_quiet h.2.2]

end Whole

end Rest

/-! ## The reply -/

theorem answer_deny (b : Build) (c : Ctx) : (b.deny c).answer = b.answer := by
  have hsoa : (b.addSoaAuthority c).answer = b.answer := by
    unfold Build.addSoaAuthority
    dsimp only
    split <;> rfl
  have hdenial : ∀ b : Build, (b.addDenial c).answer = b.answer := by
    intro b
    unfold Build.addDenial
    dsimp only
    split
    · rfl
    · split <;> rfl
  unfold Build.deny
  split
  · rw [hdenial, hsoa]
  · exact hsoa

/-- The rate limiter drops the reply. -/
def Request.dropped (req : Request) : Bool := !req.isTcp && req.rrl == .drop

/-- What a reply shows of the response under construction. -/
structure Build.Shown (b : Build) (req : Request) (r : Reply) : Prop where
  rcode : r.rcode = if b.answer.count = 0 ∧ b.isReferral = false ∧ b.found = false then 3 else 0
  tcp : req.isTcp = true → r.tc = false
  answer : r.tc = false → 0 < b.answer.count → r.answer = b.answer.recs
  sub : ∀ rec ∈ r.answer, rec ∈ b.answer.recs

theorem mem_of_cleared {e : Prop} [Decidable e] {s : Section} {r : Rec}
    (h : r ∈ (if e then Section.empty else s).recs) : r ∈ s.recs := by
  split at h
  · cases h
  · exact h

/-- **A reply that is not dropped shows the answer, or is truncated.** -/
theorem finishAnswer_reply (c : Ctx) (q : Question) (b : Build) (h : req.dropped = false) :
    ∃ r, finishAnswer c req q b = .reply r ∧ b.Shown req r := by
  unfold finishAnswer
  rw [if_neg (by rw [← Request.dropped, h]; decide)]
  have hsame : ∀ slip : Bool, (if b.answer.count = 0 ∧ b.isReferral = false then
      (if slip then b.cut q.fin else b).deny c else if slip then b.cut q.fin else b).answer =
        b.answer := by
    intro slip
    split
    · rw [answer_deny]
      split <;> rfl
    · split <;> rfl
  refine ⟨_, rfl, ?_, ?_, ?_, ?_⟩
  · simp only [Reply.withOpt, rcodeNxDomain, rcodeNoError, and_assoc]
  · intro htcp
    simp [Reply.withOpt, htcp]
  · intro htc hcount
    have hneg : ¬(b.answer.count = 0 ∧ b.isReferral = false) := fun h => by omega
    simp only [Reply.withOpt, if_neg hneg] at htc
    simp only [Reply.withOpt, hsame]
    rw [if_neg hneg, htc]
    rfl
  · intro rec hrec
    simp only [Reply.withOpt, hsame] at hrec
    exact mem_of_cleared hrec

theorem buildQueryResp_eq {D : Dnsd} {q : Question} (h : question D req = .ok q) :
    buildQueryResp D req =
      if q.isLocal then .reply (localAnswer (q.ctx D req) req q (q.start req))
      else finishAnswer (q.ctx D req) req q (atFinish (lookups (q.ctx D req) (q.start req))) := by
  rw [buildQueryResp, h]

/-! ## A small server -/

/-- An unsigned zone. -/
def plainZone (name : Text) : ServedZone where
  name := name
  soaSerial := 1
  active := true
  soa := ⟨lit "ns.z", lit "admin.z", 3600, 600, 86400, 60, 3600⟩
  denial := ⟨false, [], 0⟩
  keys := ⟨none, none, none, none, none, none, .none, none, none, .none⟩
  xfrLastOk := 0

/-- A primary for the zone `z` with the given records, without load balancing or health checks. -/
def plainServer (records : List (Text × Text)) : Dnsd where
  store := fun key => (records.lookup key).map fun value => ⟨value, none⟩
  scan := fun _ => []
  zones := [plainZone (lit "z")]
  global := plainZone (lit "z")
  secondary := false
  nsid := []
  reportAgent := []
  dnsxlZones := []
  lbMode := .none
  rrRotate := false
  lbHealth := none
  forwardEnabled := false
  forwardAllow := []
  sha1 := fun _ => replicate 20 0
  sha256 := fun _ => replicate 32 0
  siphash := fun _ => replicate 8 0
  length_sha1 := fun _ => rfl
  length_sha256 := fun _ => rfl

/-- A query for the labels and type over TCP. -/
def tcpQuery (ls : List Text) (qtype : Nat) : Request where
  query := [0, 7, 1, 0, 0, 1, 0, 0, 0, 0, 0, 0] ++ nameWire ls ++ put16 qtype ++ put16 RRClass.IN
  blen := 4096
  isTcp := true
  cip := [192, 0, 2, 99]
  now := 0
  lb := ⟨0, fun _ => 0, fun _ => 0, 0⟩
  rrl := .send
  forwarded := none

instance {P : Question → Prop} [DecidablePred P] :
    (res : Except QueryResult Question) → Decidable (∃ q, res = .ok q ∧ P q)
  | .error _ => isFalse (by simp)
  | .ok q => decidable_of_iff (P q) (by simp)

instance {P : Reply → Prop} [DecidablePred P] :
    (res : QueryResult) → Decidable (∃ r, res = .reply r ∧ P r)
  | .drop | .relay _ => isFalse (by simp)
  | .reply r => decidable_of_iff (P r) (by simp)

/-- A query for the address of `h.z`. -/
def hostQuery : Request := tcpQuery [lit "h", lit "z"] RRType.A

/-- The query reaches the lookups, below no zone cut. -/
theorem hostQuery_reaches (records : List (Text × Text))
    (hcut : zoneDelegationCut (plainServer records).store (lit "z") (lit "h.z") = none) :
    ∃ q, question (plainServer records) hostQuery = .ok q ∧ q.qname = lit "h.z" ∧
      q.qtype = RRType.A ∧ (q.ctx (plainServer records) hostQuery).keyZone = lit "z" ∧
      (q.ctx (plainServer records) hostQuery).Uncut := by
  -- reading a question does not touch the store
  obtain ⟨q, hq, hname, htype, Z, hZ, hzone⟩ : ∃ q, question (plainServer []) hostQuery = .ok q ∧
      q.qname = lit "h.z" ∧ q.qtype = RRType.A ∧ ∃ Z ∈ q.zone, Z.name = lit "z" := by
    decide +kernel
  refine ⟨q, hq, hname, htype, by rw [keyZone_ctx hZ, hzone], fun Z' hZ' => ?_⟩
  obtain rfl := some.inj (hZ.symm.trans hZ')
  show zoneDelegationCut _ Z.name q.qname = none
  rw [hzone, hname]
  exact hcut

theorem ownerName_host : OwnerName (lit "h.z") := ⟨by decide, by decide, _, rfl⟩

end SimpleDns.Server
