import SimpleDns.Server.Exists

/-!
# Wildcards (RFC 4592)

The code derives one wildcard from the first label of the queried name and tries it where no lookup
of the queried type found anything. `Ctx.Follows4592` is what RFC 4592 asks of the answer to an
address query, over closest enclosers and names of any type; `wildcard_right_iff` says exactly when
the reply does it, and `wildcard_overrides` is a name with a text record that is answered from the
wildcard of its parent.
-/

namespace SimpleDns.Server

open Wire List RRType

/-! ## Names and enclosers -/

/-- An owner name without empty labels. -/
structure LegalName (name : Text) : Prop extends OwnerName name where
  joined : joinDots (labels name) = name

/-- `name` lies below `above`. -/
def Below (name above : Text) : Prop := ∃ l, name = l ++ dot :: above

/-- The wildcard child of a name. -/
def star (e : Text) : Text := 42 :: dot :: e

theorem LegalName.first_ne_nil {l e : Text} (h : LegalName (l ++ dot :: e)) : l ≠ [] := by
  rintro rfl
  have hjoined := h.joined
  have hproper := proper_labels ([] ++ dot :: e)
  cases hls : labels ([] ++ dot :: e) with
  | nil =>
    rw [hls] at hjoined
    cases hjoined
  | cons m ms =>
    rw [hls] at hjoined hproper
    obtain ⟨hne, hdot⟩ := hproper m mem_cons_self
    obtain ⟨x, xs, rfl⟩ := exists_cons_of_ne_nil hne
    rw [joinDots_cons] at hjoined
    exact hdot (mem_cons.mpr (.inl (cons.inj hjoined).1.symm))

/-- The wildcard the code tries is the one of the parent. -/
theorem wildcardName_parent {l e : Text} (h : LegalName (l ++ dot :: e)) (hl : dot ∉ l) :
    wildcardName (l ++ dot :: e) = star e := by
  have hlen := h.short
  have hpos : 0 < l.length := length_pos_iff.mpr h.first_ne_nil
  rw [length_append, length_cons] at hlen
  rw [wildcardName, (takeWhile_ne_append hl e).2, safeStrcpy_eq]
  · rfl
  · simp only [length_cons]
    omega

section Wildcard

variable {c : Ctx} {f : Family}

/-! ## The wildcard lookup of an address query -/

/-- The stored addresses of a name give at least one record. -/
def Ctx.Yields (c : Ctx) (f : Family) (name : Text) : Prop :=
  ∃ val, vkGet c.server.store (zkey c.keyZone f.typeName name) (addrBuffer f) = some val ∧
    ∃ ip ∈ lbSet c.server val, (f.pton ip).isSome = true

variable {b : Build}

theorem wildcardLookup_address (hf : c.qtype = f.rrtype) (hb : b.found = false)
    (hdot : dot ∈ c.qname) : wildcardLookup c b = wildcardAddr c f b := by
  have hother : ∀ g, g ≠ f → ∀ b, wildcardAddr c g b = b := fun g hg b =>
    wildcardAddr_quiet (fun h => hg ((wants_of_qtype hf g).mp h.1)) b
  rw [wildcardLookup_eq, if_neg (by simp [hb, hdot])]
  cases f with
  | inet => exact hother .inet6 (by decide) _
  | inet6 => rw [hother .inet (by decide)]

/-- What a wildcard adds: records of the type under the queried name, where it yields any. -/
theorem extends_wildcardAddr_yields (b : Build) :
    b.Extends (fun r => c.Synthesised r ∧ r.type = f.rrtype ∧ c.Yields f (wildcardName c.qname))
      (wildcardAddr c f b) := by
  unfold wildcardAddr Build.ifStored
  split
  · split
    · rename_i val hval
      refine (extends_find _ b).trans (extends_emitAddrRrset _ c f val ?_)
      rintro r howner hsource htype ⟨ip, hip, hrd⟩
      exact ⟨⟨howner, hsource⟩, htype, val, hval, ip, hip, by rw [hrd]; rfl⟩
    · exact .refl _ b
  · exact .refl _ b

/-- A value that yields an address is answered with a record at least. -/
theorem emitAddrRrset_answers {owner source val : Text} (howner : OwnerName owner)
    (hroom : b.Room c 512) (h : ∃ ip ∈ lbSet c.server val, (f.pton ip).isSome = true) :
    (b.emitAddrRrset c owner source f val).answer.recs ≠ [] ∧
      0 < (b.emitAddrRrset c owner source f val).answer.count := by
  unfold Build.emitAddrRrset
  dsimp only
  obtain ⟨ip, hip, hsome⟩ := h
  obtain ⟨rd, hrd⟩ := Option.isSome_iff_exists.mp hsome
  obtain ⟨r₀, hr₀, -⟩ := exists_addrRrset hip hrd b.lb owner source
  obtain ⟨r, rs, hrs⟩ := exists_cons_of_ne_nil (ne_nil_of_mem hr₀)
  have hsend : r.Sendable 512 := sendable_addrRrset howner (by decide) (hrs ▸ mem_cons_self)
  set b' : Build := { b with lb := (addrRrset c.server b.lb owner source f val).2 }
  have hemit := emit_of_room (b := b') (c := c) hsend hroom
  rw [hrs]
  have hext : (b'.emit c r).Extends (fun _ => True) ((b'.emit c r).emitAll c rs) :=
    extends_emitAll _ c fun _ _ => trivial
  show ((b'.emit c r).emitAll c rs).answer.recs ≠ [] ∧ 0 < ((b'.emit c r).emitAll c rs).answer.count
  refine ⟨?_, lt_of_lt_of_le (lt_of_lt_of_le (Nat.succ_pos _) hemit.count) hext.count⟩
  obtain ⟨new, hnew, -⟩ := hext.recs
  rw [hnew, hemit.recs]
  simp

theorem wildcardAddr_answers (hf : c.qtype = f.rrtype) (hq : OwnerName c.qname)
    (hroom : b.Room c 512) (h : c.Yields f (wildcardName c.qname)) :
    (wildcardAddr c f b).answer.recs ≠ [] ∧ 0 < (wildcardAddr c f b).answer.count := by
  obtain ⟨val, hval, hip⟩ := h
  have hwants := (wants_of_qtype hf f).mpr rfl
  simp only [wildcardAddr, if_pos hwants, Build.ifStored, hval]
  exact emitAddrRrset_answers hq hroom hip

/-- Where a lookup or an alias finds the name, every record is found under its owner. -/
theorem own_lookups (hf : c.qtype = f.rrtype) (huncut : c.Uncut) (hb : b.Fresh)
    (h : c.Located ∨ c.Aliased) : b.Extends Rec.Own (atFinish (lookups c b)) := by
  have hloc : Locates .flag c b c.Located (typedLookups c) := locates_typedLookups_addr hf
  have hfree : c.Free b := fun _ => hb.count
  rw [lookups_of_uncut huncut]
  by_cases hl : c.Located
  · have hfound : (atFinish (typedLookups c b)).found = true := hloc.hit hl
    have hext := hloc.ext b
    cases htyped : typedLookups c b with
    | error b' =>
      rwa [htyped] at hext
    | ok b' =>
      rw [htyped] at hext hfound
      have hflag : b'.found = true := hfound
      show b.Extends Rec.Own (restLookups c b')
      rwa [restLookups_of_found hflag]
  · have ha := h.resolve_left hl
    obtain ⟨hcname, hany⟩ := ha.qtype_ne hl
    have hfound := found_cnameLookup hb ha hcname hany
    rw [hloc.quiet hl b hfree]
    simp only [Except.map, atFinish, restLookups]
    rw [wildcardLookup, if_pos (by simp [hfound])]
    exact extends_cnameLookup b

/-- Elsewhere the wildcard is tried alone. -/
theorem lookups_wildcard (hf : c.qtype = f.rrtype) (huncut : c.Uncut) (hb : b.Fresh)
    (hl : ¬c.Located) (ha : ¬c.Aliased) : lookups c b = .ok (wildcardLookup c b) := by
  have hloc : Locates .flag c b c.Located (typedLookups c) := locates_typedLookups_addr hf
  rw [lookups_of_uncut huncut, hloc.quiet hl b fun _ => hb.count]
  simp only [Except.map, restLookups]
  rw [cnameLookup_quiet ha]

end Wildcard

/-! ## What RFC 4592 asks -/

/-- The same query for another name. -/
def Ctx.at (c : Ctx) (name : Text) : Ctx := { c with qname := name }

/-- A record of some type exists at the name: stored, compiled in, listed, or the SOA of the apex.
-/
def Ctx.HasRecord (c : Ctx) : Prop :=
  c.Owns ∨ (∃ r ∈ staticZone, eqCI r.name c.qname = true) ∨ eqCI c.qname c.keyZone = true ∨
    (dnsxlListing c.server c.qname).isSome = true

/-- The name exists: a record is at it or below it. -/
def Ctx.Node (c : Ctx) (name : Text) : Prop :=
  (c.at name).HasRecord ∨ ∃ n, Below n name ∧ (c.at n).HasRecord

/-- The longest existing name above the queried one. -/
structure Ctx.ClosestEncloser (c : Ctx) (e : Text) : Prop where
  above : Below c.qname e
  node : c.Node e
  longest : ∀ e', Below c.qname e' → c.Node e' → e'.length ≤ e.length

/-- The wildcard of `e` answers the query: nothing is at or below the name, and `e` is its closest
encloser and has a wildcard with addresses of the type. -/
structure Ctx.Applies (c : Ctx) (f : Family) (e : Text) : Prop where
  absent : ¬c.HasRecord
  childless : ∀ n, Below n c.qname → ¬(c.at n).HasRecord
  encloser : c.ClosestEncloser e
  wildcard : c.HasAddr f (star e)

/-- The answer to an address query follows RFC 4592. -/
structure Ctx.Follows4592 (c : Ctx) (f : Family) (r : Reply) : Prop where
  only : ∀ rec ∈ r.answer, rec.source ≠ rec.owner → ¬c.HasRecord
  always : ∀ e, c.Applies f e → r.answer ≠ [] ∧ ∀ rec ∈ r.answer,
    rec.owner = c.qname ∧ rec.type = f.rrtype ∧ rec.source = star e

theorem owns_of_hasAddr {c : Ctx} {f : Family} {name : Text} (h : c.HasAddr f name) :
    (c.at name).Owns :=
  owns_of_hasData (c := c.at name) (.addr f h)

/-- Without a record the typed lookups and the alias find nothing. -/
theorem not_located_of_absent {c : Ctx} {f : Family} (hf : c.qtype = f.rrtype) (h : ¬c.HasRecord) :
    ¬c.Located ∧ ¬c.Aliased := by
  have hunwanted : ∀ t ∈ [DNSKEY, CDS, CDNSKEY, DS, SOA],
      ¬c.wants t = true := by
    simp only [Ctx.wants, hf]
    cases f <;> decide
  refine ⟨fun hl => ?_, fun ha => ?_⟩
  · cases hl with
    | listing hlist => exact h (.inr (.inr (.inr hlist)))
    | dnskey hw Z hZ hk => exact hunwanted _ (by simp) hw
    | advertised t ht hw Z hZ hk =>
      refine hunwanted t ?_ hw
      simp only [mem_cons, not_mem_nil, or_false] at ht ⊢
      rcases ht with rfl | rfl | rfl <;> simp
    | soa hw Z hZ hapex hrd => exact hunwanted _ (by simp) hw
    | static hs => exact h (.inr (.inl hs))
    | data t hw hd => exact h (.inl (owns_of_hasData hd))
  · exact h (.inl (owns_of_hasData (.provisioned CNAME (by decide) ha)))

/-! ## When the reply does it -/

section Reply

variable {D : Dnsd} {req : Request} {q : Question} {f : Family}

/-- The query is answered from the wildcard of its parent. -/
structure Question.Synthesises (q : Question) (D : Dnsd) (req : Request) (f : Family) : Prop where
  notLocal : q.isLocal = false
  missed : ¬(q.ctx D req).Located ∧ ¬(q.ctx D req).Aliased
  dotted : dot ∈ q.qname
  other : wildcardName q.qname ≠ q.qname
  yields : (q.ctx D req).Yields f (wildcardName q.qname)

/-- What the answer of a reply to an address query is made of. -/
structure Question.Answered (q : Question) (D : Dnsd) (req : Request) (f : Family) (r : Reply) :
    Prop where
  local_nil : q.isLocal = true → r.answer = []
  own : (q.ctx D req).Located ∨ (q.ctx D req).Aliased → ∀ rec ∈ r.answer, rec.Own
  synthesised : ¬(q.ctx D req).Located → ¬(q.ctx D req).Aliased → ∀ rec ∈ r.answer,
    dot ∈ q.qname ∧ (q.ctx D req).Synthesised rec ∧ rec.type = f.rrtype ∧
      (q.ctx D req).Yields f (wildcardName q.qname)
  nonempty : r.tc = false → q.Synthesises D req f → r.answer ≠ []

/-- **Every address query that is not dropped is answered from the lookups or from the wildcard.**
-/
theorem exists_answered (hq : question D req = .ok q) (huncut : (q.ctx D req).Uncut)
    (hname : OwnerName q.qname) (hblen : 4096 ≤ req.blen) (hf : q.qtype = f.rrtype)
    (hsend : req.dropped = false) :
    ∃ r, buildQueryResp D req = .reply r ∧ (req.isTcp = true → r.tc = false) ∧
      q.Answered D req f r := by
  have hfresh := fresh_start q req
  have hroom := room_start hq hblen
  rw [buildQueryResp_eq hq]
  by_cases hlocal : q.isLocal = true
  · rw [if_pos hlocal]
    refine ⟨_, rfl, fun _ => rfl, fun _ => rfl, ?_, ?_, ?_⟩
    · intro _ rec hrec
      cases hrec
    · intro _ _ rec hrec
      cases hrec
    · intro _ hs
      rw [hs.notLocal] at hlocal
      cases hlocal
  rw [if_neg hlocal]
  obtain ⟨r, hr, hshown⟩ := finishAnswer_reply (q.ctx D req) q
    (atFinish (lookups (q.ctx D req) (q.start req))) hsend
  refine ⟨r, hr, hshown.tcp, fun h => absurd h hlocal, ?_, ?_, ?_⟩
  · intro hfound rec hrec
    obtain ⟨new, hnew, hown⟩ := (own_lookups (c := q.ctx D req) hf huncut hfresh hfound).recs
    have hmem := hshown.sub rec hrec
    rw [hnew] at hmem
    exact hown rec hmem
  · intro hl ha rec hrec
    have hmem := hshown.sub rec hrec
    rw [lookups_wildcard (c := q.ctx D req) hf huncut hfresh hl ha] at hmem
    by_cases hdot : dot ∈ q.qname
    · rw [atFinish, wildcardLookup_address (c := q.ctx D req) hf hfresh.found hdot] at hmem
      obtain ⟨new, hnew, hP⟩ :=
        (extends_wildcardAddr_yields (c := q.ctx D req) (f := f) (q.start req)).recs
      rw [hnew] at hmem
      exact ⟨hdot, hP rec hmem⟩
    · rw [atFinish, wildcardLookup_eq, if_pos (by simp [Question.ctx, hdot])] at hmem
      cases hmem
  · intro htc hs
    obtain ⟨hl, ha⟩ := hs.missed
    have hanswers := wildcardAddr_answers (c := q.ctx D req) hf hname hroom hs.yields
    rw [lookups_wildcard (c := q.ctx D req) hf huncut hfresh hl ha, atFinish,
      wildcardLookup_address (c := q.ctx D req) hf hfresh.found hs.dotted] at hshown
    rw [hshown.answer htc hanswers.2]
    exact hanswers.1

variable {r : Reply}

/-- A synthesised record means that the wildcard was used. -/
theorem Question.Answered.synthesises (h : q.Answered D req f r) {rec : Rec} (hrec : rec ∈ r.answer)
    (hne : rec.source ≠ rec.owner) : q.Synthesises D req f ∧ rec.source = wildcardName q.qname := by
  have hlocal : q.isLocal = false := by
    rw [← Bool.not_eq_true]
    intro hl
    rw [h.local_nil hl] at hrec
    cases hrec
  have hmissed : ¬((q.ctx D req).Located ∨ (q.ctx D req).Aliased) :=
    fun hfound => hne (h.own hfound rec hrec)
  rw [not_or] at hmissed
  obtain ⟨hdot, ⟨howner, hsource⟩, -, hyields⟩ := h.synthesised hmissed.1 hmissed.2 rec hrec
  refine ⟨⟨hlocal, hmissed, hdot, fun heq => hne ?_, hyields⟩, hsource⟩
  rwa [howner, hsource]

/-- The wildcard is used only where nothing exists, as far as the reply shows. -/
theorem Question.Answered.only_iff (h : q.Answered D req f r) (htc : r.tc = false) :
    (∀ rec ∈ r.answer, rec.source ≠ rec.owner → ¬(q.ctx D req).HasRecord) ↔
      (q.Synthesises D req f → ¬(q.ctx D req).HasRecord) := by
  constructor
  · intro honly hs
    obtain ⟨rec, hrec⟩ := exists_mem_of_ne_nil _ (h.nonempty htc hs)
    obtain ⟨-, ⟨howner, hsource⟩, -⟩ := h.synthesised hs.missed.1 hs.missed.2 rec hrec
    refine honly rec hrec fun heq => hs.other ?_
    exact hsource.symm.trans (heq.trans howner)
  · intro honly rec hrec hne
    exact honly (h.synthesises hrec hne).1

/-- The wildcard that applies is used exactly where it is the parent's and yields an address. -/
theorem Question.Answered.always_iff (h : q.Answered D req f r) (htc : r.tc = false)
    (hf : q.qtype = f.rrtype) (hname : LegalName q.qname) {e : Text}
    (happ : (q.ctx D req).Applies f e) : (r.answer ≠ [] ∧ ∀ rec ∈ r.answer,
        rec.owner = q.qname ∧ rec.type = f.rrtype ∧ rec.source = star e) ↔
      q.isLocal = false ∧ (∃ l, dot ∉ l ∧ q.qname = l ++ dot :: e) ∧
        (q.ctx D req).Yields f (star e) := by
  have hother : star e ≠ q.qname := by
    intro heq
    have howns := owns_of_hasAddr happ.wildcard
    rw [heq] at howns
    exact happ.absent (.inl howns)
  obtain ⟨hl, ha⟩ := not_located_of_absent (c := q.ctx D req) hf happ.absent
  constructor
  · rintro ⟨hne, hall⟩
    obtain ⟨rec, hrec⟩ := exists_mem_of_ne_nil _ hne
    obtain ⟨howner, -, hsource⟩ := hall rec hrec
    have hdiff : rec.source ≠ rec.owner := by
      rwa [hsource, howner]
    obtain ⟨hs, hwild⟩ := h.synthesises hrec hdiff
    obtain ⟨l, e', hsplit, hnot⟩ := eq_append_cons_of_mem hs.dotted
    have hparent : wildcardName q.qname = star e' := by
      rw [hsplit]
      exact wildcardName_parent (hsplit ▸ hname) hnot
    have hstar : star e = star e' := hsource.symm.trans (hwild.trans hparent)
    obtain rfl : e = e' := by simpa [star] using hstar
    exact ⟨hs.notLocal, ⟨l, hnot, hsplit⟩, hparent ▸ hs.yields⟩
  · rintro ⟨hlocal, ⟨l, hnot, hsplit⟩, hyields⟩
    have hparent : wildcardName q.qname = star e := by
      rw [hsplit]
      exact wildcardName_parent (hsplit ▸ hname) hnot
    have hs : q.Synthesises D req f := by
      refine ⟨hlocal, ⟨hl, ha⟩, ?_, by rw [hparent]; exact hother, by rw [hparent]; exact hyields⟩
      rw [hsplit]
      simp
    refine ⟨h.nonempty htc hs, fun rec hrec => ?_⟩
    obtain ⟨-, ⟨howner, hsource⟩, htype, -⟩ := h.synthesised hl ha rec hrec
    exact ⟨howner, htype, hsource.trans hparent⟩

/-- **When an address query is answered as RFC 4592 asks.** A reply is always sent, over TCP it is
not truncated, and where it is not truncated it is right exactly if a wildcard is only used for
names without records, and every wildcard that applies is the parent's and yields an address. -/
theorem wildcard_right_iff (hq : question D req = .ok q) (huncut : (q.ctx D req).Uncut)
    (hname : LegalName q.qname) (hblen : 4096 ≤ req.blen) (hf : q.qtype = f.rrtype)
    (hsend : req.dropped = false) :
    ∃ r, buildQueryResp D req = .reply r ∧ (req.isTcp = true → r.tc = false) ∧
      (r.tc = false → ((q.ctx D req).Follows4592 f r ↔
        (q.Synthesises D req f → ¬(q.ctx D req).HasRecord) ∧
          ∀ e, (q.ctx D req).Applies f e → q.isLocal = false ∧
            (∃ l, dot ∉ l ∧ q.qname = l ++ dot :: e) ∧ (q.ctx D req).Yields f (star e))) := by
  obtain ⟨r, hr, htcp, hans⟩ := exists_answered hq huncut hname.toOwnerName hblen hf hsend
  refine ⟨r, hr, htcp, fun htc => ⟨fun h => ⟨?_, fun e he => ?_⟩, fun h => ⟨?_, fun e he => ?_⟩⟩⟩
  · exact (hans.only_iff htc).mp h.only
  · exact (hans.always_iff htc hf hname he).mp (h.always e he)
  · exact (hans.only_iff htc).mpr h.1
  · exact (hans.always_iff htc hf hname he).mpr (h.2 e he)

end Reply

/-! ## A name answered from its parent's wildcard -/

theorem legalName_host : LegalName (lit "h.z") := ⟨ownerName_host, by decide⟩

/-- A wildcard address below `z`, and a text record at `h.z`. -/
def starAndText : List (Text × Text) :=
  [(zkey (lit "z") (lit "TXT") (lit "h.z"), lit "60|hello"),
    (zkey (lit "z") (lit "A") (star (lit "z")), lit "60|192.0.2.9")]

/-- **A wildcard overrides a name that owns a text record.** -/
theorem wildcard_overrides :
    ∃ q r, question (plainServer starAndText) hostQuery = .ok q ∧
      (q.ctx (plainServer starAndText) hostQuery).Uncut ∧ LegalName q.qname ∧
      q.qtype = Family.inet.rrtype ∧
      buildQueryResp (plainServer starAndText) hostQuery = .reply r ∧ r.tc = false ∧
      ¬(q.ctx (plainServer starAndText) hostQuery).Follows4592 .inet r := by
  obtain ⟨q, hq, hname, htype, hkey, huncut⟩ := hostQuery_reaches starAndText (by decide +kernel)
  obtain ⟨r, hr, htc, rec, hrec, hne⟩ :
      ∃ r, buildQueryResp (plainServer starAndText) hostQuery = .reply r ∧ r.tc = false ∧
        ∃ rec ∈ r.answer, rec.source ≠ rec.owner := by decide +kernel
  refine ⟨q, r, hq, huncut, by rw [hname]; exact legalName_host, htype, hr, htc, fun h => ?_⟩
  refine h.only rec hrec hne (.inl (owns_of_hasData (.provisioned TXT (by decide) ?_)))
  have hqname : (q.ctx (plainServer starAndText) hostQuery).qname = lit "h.z" := hname
  rw [hkey, hqname]
  show ((plainServer starAndText).store _).isSome = true
  decide +kernel

/-- The wildcard alone. -/
theorem wildcard_right_alone :
    ∃ q r, question (plainServer (starAndText.drop 1)) hostQuery = .ok q ∧
      buildQueryResp (plainServer (starAndText.drop 1)) hostQuery = .reply r ∧
      (r.tc = false → ((q.ctx (plainServer (starAndText.drop 1)) hostQuery).Follows4592 .inet r ↔
        (q.Synthesises (plainServer (starAndText.drop 1)) hostQuery .inet →
          ¬(q.ctx (plainServer (starAndText.drop 1)) hostQuery).HasRecord) ∧
        ∀ e, (q.ctx (plainServer (starAndText.drop 1)) hostQuery).Applies .inet e →
          q.isLocal = false ∧ (∃ l, dot ∉ l ∧ q.qname = l ++ dot :: e) ∧
          (q.ctx (plainServer (starAndText.drop 1)) hostQuery).Yields .inet (star e))) := by
  obtain ⟨q, hq, hname, htype, -, huncut⟩ :=
    hostQuery_reaches (starAndText.drop 1) (by decide +kernel)
  have hlegal : LegalName q.qname := by
    rw [hname]
    exact legalName_host
  obtain ⟨r, hr, -, hright⟩ :=
    wildcard_right_iff hq huncut hlegal (by decide) (f := .inet) htype rfl
  exact ⟨q, r, hq, hr, hright⟩

end SimpleDns.Server
