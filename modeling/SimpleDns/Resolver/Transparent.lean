import SimpleDns.Lib.Trace
import SimpleDns.Resolver.Aliases

/-!
# Answers from the cache (`resolverd.c:3681-3800`, `3938-3978`, `4126-4184`)

A miss shows the records of the reply: owners and texts are read from the packet, and an alias in
front is followed. A later hit shows the cached entry: every owner is the queried name, and each
rdata is printed from a packet of its own.

* `Filled` is a call of `dns_resolve_core` that gets a reply from upstream, caches it and returns;
  `Served` is one that finds the entry. Both range over everything the clock, the other threads and
  the servers may answer (`Lib.Prog.Returns`).
* **`transparent_iff`**: the hit shows the rows of the miss with their TTLs reduced, for every
  such pair, iff every record is owned by the queried name, prints alone as it prints in the reply,
  and there is no alias to follow.
* **`alias_lost_on_hit`**: the address behind an alias is in the answer of the miss only.
-/

namespace SimpleDns.Resolver

open Wire Lib List Option RRType
open Prog (returns_perform_bind returns_bind returns_ite returns_pure always_perform always_ite
  always_pure always_bind)

/-! ## The records of a reply -/

/-- The answer loops take the record: class IN, and not OPT. -/
def Taken (r : RR) : Prop := r.cls = RRClass.IN ∧ r.type ≠ OPT

instance : DecidablePred Taken := fun r =>
  inferInstanceAs (Decidable (r.cls = RRClass.IN ∧ r.type ≠ OPT))

/-- The records the answer loops take. -/
def takenRRs (resp : Bytes) : List RR := (answerRRs resp).filter fun r => Taken r

/-- The text of a record of the reply. -/
def textIn (resp : Bytes) (r : RR) : Option Text := rdataToStr resp r.rdoff r.rdlen r.type 512

/-- The text of its rdata alone. -/
def textAlone (resp : Bytes) (r : RR) : Option Text :=
  rdataToStr (r.rdata resp) 0 r.rdlen r.type 512

/-- A positive reply of at most 32 answers, all inside the packet, whose names decode, with rdata of
at most 512 octets and TTLs the cache keeps. -/
structure WellFormed (cfg : Config) (resp : Bytes) : Prop where
  header : 12 ≤ resp.length
  positive : rcodeOf resp = 0 ∧ 0 < ancount resp
  questions : (entryQuestions resp (qdcount resp) 12).isSome
  answers : (answerRRs resp).length = ancount resp
  few : ancount resp ≤ maxAnswers
  names : ∀ r ∈ takenRRs resp, r.type = CNAME ∨ r.type = NS ∨ r.type = PTR →
    (nameFromWire resp r.rdoff 512).isSome
  rdata : ∀ r ∈ takenRRs resp, r.rdlen ≤ 512
  ttls : ∀ r ∈ takenRRs resp, r.ttl ≤ cfg.cacheTtlMax

variable {pkt : Bytes} {off : Nat} {r : RR} {rs : List RR}

theorem filter_taken (h : r.cls = RRClass.IN ∧ r.type ≠ OPT) :
    (r :: rs).filter (fun r => Taken r) = r :: rs.filter fun r => Taken r :=
  filter_cons_of_pos (decide_eq_true h)

theorem filter_not_taken (h : ¬ (r.cls = RRClass.IN ∧ r.type ≠ OPT)) :
    (r :: rs).filter (fun r => Taken r) = rs.filter fun r => Taken r :=
  filter_cons_of_neg fun hd => h (of_decide_eq_true hd)

/-- What `parseRR` reads. -/
theorem parseRR_eq_some (h : parseRR pkt off = some r) :
    ∃ a, nameFromWire pkt off 256 = some (r.owner, a) ∧
      r = ⟨off, r.owner, get16 pkt a, get16 pkt (a + 2), get32 pkt (a + 4), a + 10,
        get16 pkt (a + 8)⟩ ∧ a + 10 + get16 pkt (a + 8) ≤ pkt.length := by
  unfold parseRR at h
  split at h
  · cases h
  · rename_i owner a hname
    split at h
    · cases h
    split at h
    · cases h
    cases h
    exact ⟨a, hname, rfl, by omega⟩

variable {n : Nat}

/-- A section all of whose records are read starts with one. -/
theorem scanRRs_full (h : (scanRRs pkt (n + 1) off).1.length = n + 1) :
    ∃ r a, off < pkt.length ∧ nameFromWire pkt off 256 = some (r.owner, a) ∧
      (get16 pkt a = r.type ∧ get16 pkt (a + 2) = r.cls ∧ get32 pkt (a + 4) = r.ttl ∧
        a + 10 = r.rdoff ∧ get16 pkt (a + 8) = r.rdlen) ∧ r.rdoff + r.rdlen ≤ pkt.length ∧
      (scanRRs pkt (n + 1) off).1 = r :: (scanRRs pkt n (r.rdoff + r.rdlen)).1 ∧
      (scanRRs pkt n (r.rdoff + r.rdlen)).1.length = n := by
  rw [scanRRs] at h ⊢
  split at h
  · rename_i hlt
    split at h
    · cases h
    · rename_i r hr
      obtain ⟨a, hname, hfields, hlen⟩ := parseRR_eq_some hr
      simp only [length_cons, Nat.add_right_cancel_iff] at h
      rw [if_pos hlt]
      refine ⟨r, a, hlt, hname, ?_, ?_, rfl, h⟩
      · rw [hfields]
        exact ⟨rfl, rfl, rfl, rfl, rfl⟩
      · rwa [hfields]
  · cases h

theorem mem_scanRRs (h : r ∈ (scanRRs pkt n off).1) : ∃ off', parseRR pkt off' = some r := by
  induction n generalizing off with
  | zero => cases h
  | succ n ih =>
    rw [scanRRs] at h
    split at h
    · split at h
      · cases h
      · rename_i s hs
        rcases mem_cons.mp h with rfl | h
        · exact ⟨off, hs⟩
        · exact ih h
    · cases h

/-- A record as the result loop reads it. -/
def rawOf (r : RR) : RawAnswer := ⟨r.owner, r.type, r.ttl, r.rdoff, r.rdlen⟩

/-- A record as `parse_response_to_entry` stores it. -/
def cachedOf (cfg : Config) (resp : Bytes) (now : Nat) (r : RR) : CacheRR :=
  ⟨r.type, min r.ttl cfg.cacheTtlMax, r.rdata resp, now⟩

variable {resp : Bytes}

theorem rawAnswers_eq {room : Nat} (h : (scanRRs resp n off).1.length = n) (hroom : n ≤ room) :
    rawAnswers resp n off room = ((scanRRs resp n off).1.filter fun r => Taken r).map rawOf := by
  induction n generalizing off room with
  | zero => rfl
  | succ n ih =>
    obtain ⟨r, a, hlt, hname, hfields, hlen, hscan, hrest⟩ := scanRRs_full h
    rw [hscan, rawAnswers, if_pos ⟨hlt, by omega⟩, hname]
    simp only [hfields]
    rw [if_neg (by omega)]
    by_cases htaken : r.cls = RRClass.IN ∧ r.type ≠ OPT
    · rw [if_pos htaken, ih hrest (by omega), filter_taken htaken]
      rfl
    · rw [if_neg htaken, ih hrest (by omega), filter_not_taken htaken]

theorem entryRRs_eq (cfg : Config) {now : Nat} (h : (scanRRs resp n off).1.length = n) :
    entryRRs cfg resp now n off =
      ((scanRRs resp n off).1.filter fun r => Taken r).map (cachedOf cfg resp now) := by
  induction n generalizing off with
  | zero => rfl
  | succ n ih =>
    obtain ⟨r, a, hlt, hname, hfields, hlen, hscan, hrest⟩ := scanRRs_full h
    rw [hscan, entryRRs, if_pos hlt, hname]
    simp only [hfields]
    rw [if_neg (by omega)]
    by_cases htaken : r.cls = RRClass.IN ∧ r.type ≠ OPT
    · rw [if_neg fun h => h.elim (· htaken.1) htaken.2, if_neg (by omega), ih hrest,
        filter_taken htaken]
      rfl
    · rw [if_pos ((not_and_or.mp htaken).imp id not_not.mp), ih hrest, filter_not_taken htaken]

/-- The question loops agree where the strict one succeeds. -/
theorem skipQuestions_of_entryQuestions {o : Nat} (h : entryQuestions resp n off = some o) :
    skipQuestions resp n off = some o := by
  induction n generalizing off with
  | zero => exact h
  | succ n ih =>
    rw [entryQuestions, passQuestions] at h
    split at h
    · cases h
    · rename_i hnext
      obtain ⟨⟨name, a⟩, hname, rfl⟩ := map_eq_some_iff.mp hnext
      split at h
      · cases h
      rw [skipQuestions, if_pos (lt_of_nameFromWire hname), hname]
      exact ih h

/-- Records that were read lie inside the reply. -/
theorem mem_takenRRs (h : r ∈ takenRRs resp) :
    r.rdoff + r.rdlen ≤ resp.length ∧ r.ttl < 2 ^ 32 := by
  have hmem : r ∈ answerRRs resp := mem_of_mem_filter h
  unfold answerRRs at hmem
  split at hmem
  · cases hmem
  · obtain ⟨off, hr⟩ := mem_scanRRs hmem
    obtain ⟨a, -, hfields, hlen⟩ := parseRR_eq_some hr
    rw [hfields]
    exact ⟨hlen, get32_lt _ _⟩

/-- Only the names that are printed alone may leave the text open. -/
theorem rdataToStr_isSome {rdoff rdlen type olen : Nat}
    (h : type = CNAME ∨ type = NS ∨ type = PTR → (nameFromWire pkt rdoff
      olen).isSome) : (rdataToStr pkt rdoff rdlen type olen).isSome := by
  unfold rdataToStr
  split
  · rfl
  split
  · rfl
  split
  · rename_i hname
    obtain ⟨n, hn⟩ := isSome_iff_exists.mp (h hname)
    rw [nameInBuffer, hn]
    rfl
  split
  · rfl
  split
  · rfl
  split
  · split
    · rfl
    · split
      · rfl
      · rfl
  split
  · rfl
  · rfl

/-- A text that is determined is not taken from the buffer. -/
theorem answerText_eq {rdoff rdlen type : Nat} {t : Text}
    (h : rdataText pkt rdoff rdlen type = some t) : answerText pkt rdoff rdlen type = pure t := by
  unfold rdataText at h
  split at h
  · cases h
  · rename_i hin
    refine (if_neg hin).trans ?_
    generalize rdataToStr pkt rdoff rdlen type 512 = text at h
    subst h
    rfl

theorem returns_answerText (body : Text × Nat → R (Int × ResolveResult)) (buffer : Text)
    (pkt : Bytes) (rdoff rdlen type : Nat) :
    ∃ tr, Prog.Returns body (answerText pkt rdoff rdlen type) tr
      ((rdataText pkt rdoff rdlen type).getD buffer) := by
  cases h : rdataText pkt rdoff rdlen type with
  | some t =>
    rw [answerText_eq h]
    exact ⟨[], .pure t⟩
  | none =>
    refine ⟨[.op .bufferText buffer], ?_⟩
    unfold rdataText at h
    by_cases hin : rdoff + rdlen > pkt.length
    · exact .of_pos hin (.op (.pure buffer))
    · rw [if_neg hin] at h
      refine .of_neg hin ?_
      generalize rdataToStr pkt rdoff rdlen type 512 = text at h
      subst h
      exact .op (.pure buffer)

/-- The row a miss shows for a record. -/
def shownRow (resp : Bytes) (r : RR) : Answer := ⟨r.owner, r.type, r.ttl, (textIn resp r).getD []⟩

/-- The rows a miss shows for the reply itself. -/
def shownRows (resp : Bytes) : List Answer := (takenRRs resp).map (shownRow resp)

namespace WellFormed

variable {cfg : Config} {resp : Bytes}

theorem start (h : WellFormed cfg resp) :
    ∃ off, entryQuestions resp (qdcount resp) 12 = some off ∧ answersStart resp = some off ∧
      (scanRRs resp (ancount resp) off).1.length = ancount resp ∧
      takenRRs resp = (scanRRs resp (ancount resp) off).1.filter fun r => Taken r := by
  obtain ⟨off, hoff⟩ := isSome_iff_exists.mp h.questions
  have hskip := skipQuestions_of_entryQuestions hoff
  have hrrs : answerRRs resp = (scanRRs resp (ancount resp) off).1 := by
    unfold answerRRs
    rw [hskip]
  exact ⟨off, hoff, hskip, hrrs ▸ h.answers, by rw [takenRRs, hrrs]⟩

theorem length_taken_le (h : WellFormed cfg resp) : (takenRRs resp).length ≤ maxAnswers :=
  (length_filter_le _ _).trans (h.answers.trans_le h.few)

theorem textIn_isSome (h : WellFormed cfg resp) (hr : r ∈ takenRRs resp) :
    ∃ t, textIn resp r = some t :=
  isSome_iff_exists.mp (rdataToStr_isSome (h.names r hr))

/-- The rows of a miss are those of the records, whatever the buffers held. -/
theorem populate_eq (h : WellFormed cfg resp) : populate resp = pure (shownRows resp) := by
  obtain ⟨off, -, hstart, hall, htaken⟩ := h.start
  have hrows : ∀ l : List RR, (∀ r ∈ l, r ∈ takenRRs resp) →
      answerRows resp (l.map rawOf) = pure (l.map (shownRow resp)) := by
    intro l hl
    induction l with
    | nil => rfl
    | cons r l ih =>
      obtain ⟨t, ht⟩ := h.textIn_isSome (hl r mem_cons_self)
      have hin := (mem_takenRRs (hl r mem_cons_self)).1
      have htext : answerText resp (rawOf r).rdoff (rawOf r).rdlen (rawOf r).type = pure t :=
        answerText_eq ((if_neg (Nat.not_lt.mpr hin)).trans ht)
      rw [map_cons, map_cons, answerRows, shownRow, ht, htext,
        ih fun s hs => hl s (mem_cons_of_mem _ hs)]
      rfl
  rw [populate, hstart]
  dsimp only
  rw [rawAnswers_eq hall h.few, ← htaken]
  exact hrows _ fun _ => id

end WellFormed

/-- The entry the reply is cached as. -/
def filledEntry (cfg : Config) (resp : Bytes) (qname : Text) (qtype now : Nat)
    (status : DnssecStatus) : CacheEntry :=
  let rrs := (takenRRs resp).map (cachedOf cfg resp now)
  let prefetch := match (rrs.map (·.ttlOriginal)).min? with
    | some m => m / prefetchRatio
    | none => 0
  ⟨safeStrcpy qname 256, qtype, rrs, false, rcodeOf resp, 0, now, prefetch, false, status⟩

namespace WellFormed

variable {cfg : Config} {resp : Bytes}

theorem parse_eq (h : WellFormed cfg resp) (qname : Text) (qtype now : Nat) :
    parseResponseToEntry cfg resp qname qtype now =
      some (filledEntry cfg resp qname qtype now .unchecked) := by
  obtain ⟨off, hoff, -, hall, htaken⟩ := h.start
  have hneg : isNegative resp = false := by
    have hpos := h.positive.2
    simp only [isNegative, h.positive.1]
    simp
    omega
  rw [parseResponseToEntry, if_neg (Nat.not_lt.mpr h.header), hoff]
  dsimp only
  rw [hneg, entryRRs_eq cfg hall, ← htaken]
  rfl

end WellFormed

/-! ## Rows of a cached entry -/

/-- What a call did. -/
abbrev Trace := List (Act Op Op.Res (Text × Nat) (Int × ResolveResult))

section Rows

variable {body : Text × Nat → R (Int × ResolveResult)}

/-- The row a hit shows for a cached record, with what the buffer holds where the text is open. -/
def cachedRow (buffer : Text) (qname : Text) (now : Nat) (r : CacheRR) : Answer :=
  ⟨qname, r.type, r.ttlOriginal - elapsed now r.insertedAt, r.text.getD buffer⟩

theorem cachedText_eq {r : CacheRR} {t : Text} (h : r.text = some t) : cachedText r = pure t := by
  unfold CacheRR.text at h
  split at h
  · cases h
  · rename_i hlen
    exact (if_neg hlen).trans (answerText_eq h)

variable (body) in
theorem returns_cachedText (buffer : Text) (r : CacheRR) :
    ∃ tr, Prog.Returns body (cachedText r) tr (r.text.getD buffer) := by
  unfold CacheRR.text
  by_cases hlen : r.rdata.length > 512
  · rw [if_pos hlen]
    exact ⟨[.op .bufferText buffer], .of_pos hlen (.op (.pure buffer))⟩
  · rw [if_neg hlen]
    obtain ⟨tr, h⟩ := returns_answerText body buffer r.rdata 0 r.rdata.length r.type
    exact ⟨tr, .of_neg hlen h⟩

theorem cachedRows_eq (buffer qname : Text) (now : Nat) {rs : List CacheRR}
    (h : ∀ r ∈ rs, r.text.isSome) :
    cachedRows qname now rs = pure (rs.map (cachedRow buffer qname now)) := by
  induction rs with
  | nil => rfl
  | cons r rs ih =>
    obtain ⟨t, ht⟩ := isSome_iff_exists.mp (h r mem_cons_self)
    rw [cachedRows, cachedText_eq ht, ih fun s hs => h s (mem_cons_of_mem _ hs),
      map_cons, cachedRow, ht]
    rfl

variable (body) in
theorem returns_cachedRows (buffer qname : Text) (now : Nat) (rs : List CacheRR) :
    ∃ tr, Prog.Returns body (cachedRows qname now rs) tr
      (rs.map (cachedRow buffer qname now)) := by
  induction rs with
  | nil => exact ⟨[], .pure []⟩
  | cons r rs ih =>
    obtain ⟨tr, htext⟩ := returns_cachedText body buffer r
    obtain ⟨tr', hrest⟩ := ih
    exact ⟨_, htext.bind (hrest.bind (.pure _))⟩

variable (body) in
theorem returns_prefetchIfDue (ce : CacheEntry) (qname : Text) (remaining : Nat) :
    ∃ tr, Prog.Returns body (prefetchIfDue ce qname remaining) tr () := by
  by_cases hdue : ce.servedStale ∨ (!ce.negative ∧ 0 < ce.prefetchTtl ∧ remaining ≤ ce.prefetchTtl)
  · exact ⟨[.op (.prefetchAsync qname ce.qtype) ()], .of_pos hdue (.op (.pure ()))⟩
  · exact ⟨[], .of_neg hdue (.pure ())⟩

variable (body) in
/-- A hit can show these rows. -/
theorem returns_serveCachedEntry (buffer : Text) (ce : CacheEntry) {qname : Text} (t' : Nat)
    (hneg : ce.negative = false) (hfew : ce.rrs.length ≤ maxAnswers) (hname : qname.length ≤ 255) :
    ∃ back r, Prog.Returns body (serveCachedEntry ce qname) (.op .time t' :: back) (0, r) ∧
      r.answers = ce.rrs.map (cachedRow buffer qname t') := by
  obtain ⟨tr, hrows⟩ := returns_cachedRows body buffer qname t' ce.rrs
  obtain ⟨tr', hpre⟩ :=
    returns_prefetchIfDue body ce qname (entryRemainingTtl ce t')
  have hlast : Prog.Returns body
      (cachedRows (safeStrcpy qname 256) t' (ce.rrs.take maxAnswers)) tr
      (ce.rrs.map (cachedRow buffer qname t')) := by
    rwa [safeStrcpy_eq hname, take_of_length_le hfew]
  refine ⟨tr' ++ (tr ++ []), _, .op (hpre.bind (.of_neg ?_ (hlast.bind (.pure _)))), rfl⟩
  rw [hneg]
  exact Bool.false_ne_true

/-- Where every text is determined a hit shows nothing else. -/
theorem serveCachedEntry_answers (buffer : Text) {ce : CacheEntry} {qname : Text} {t' : Nat}
    {back : Trace} {rc : Int} {r : ResolveResult}
    (hneg : ce.negative = false) (hfew : ce.rrs.length ≤ maxAnswers) (hname : qname.length ≤ 255)
    (htext : ∀ s ∈ ce.rrs, s.text.isSome)
    (h : Prog.Returns body (serveCachedEntry ce qname) (.op .time t' :: back) (rc, r)) :
    r.answers = ce.rrs.map (cachedRow buffer qname t') := by
  unfold serveCachedEntry at h
  obtain ⟨now, tr, heq, hnow⟩ := returns_perform_bind.mp h
  obtain ⟨rfl, rfl⟩ : now = t' ∧ tr = back := by
    cases heq
    exact ⟨rfl, rfl⟩
  obtain ⟨-, tr', -, -, -, hrest⟩ := returns_bind.mp hnow
  have hrows : cachedRows (safeStrcpy qname 256) now (ce.rrs.take maxAnswers) =
      pure (ce.rrs.map (cachedRow buffer qname now)) := by
    rw [safeStrcpy_eq hname, take_of_length_le hfew]
    exact cachedRows_eq buffer qname now htext
  rcases returns_ite.mp hrest with ⟨hneg', -⟩ | ⟨-, hlast⟩
  · rw [hneg] at hneg'
    cases hneg'
  · rw [hrows] at hlast
    obtain ⟨-, hv⟩ := returns_pure.mp hlast
    rw [(Prod.mk.inj hv).2]

end Rows

/-! ## The miss -/

section Miss

variable {cfg : Config} {C : Crypto} {anchors : List Bytes}
  {body : Text × Nat → R (Int × ResolveResult)}

/-- The verdict on a positive reply. -/
def statusOf (C : Crypto) (anchors : List Bytes) (rep : Reply) (qname : Text) : DnssecStatus :=
  dnssecValidateResponse ⟨C, anchors, rep.fetch⟩ rep.resp qname

/-- What `acceptReply` does with a well-formed reply. -/
theorem WellFormed.acceptReply_eq {rep : Reply} (h : WellFormed cfg rep.resp) (qname : Text)
    (qtype : Nat) :
    acceptReply cfg C anchors rep qname qtype = (perform .time >>= fun now =>
      let status := statusOf C anchors rep qname
      let result := { resultInit with rcode := rcodeOf rep.resp, dnssecStatus := status }
      if status = .bogus then pure (-2, result)
      else perform (.cacheInsert (.unicast ⟨C, anchors, rep.fetch⟩ rep.resp qname)
          (filledEntry cfg rep.resp qname qtype now status)) >>= fun _ =>
        perform (.storePersist (filledEntry cfg rep.resp qname qtype now status)) >>= fun _ =>
        finish rep.resp qtype result) := by
  unfold acceptReply
  congr 1
  funext now
  rw [h.parse_eq qname qtype now]
  rfl

/-- The reply starts with an alias that is followed. -/
def Chased (resp : Bytes) (qtype : Nat) : Prop :=
  ∃ r ∈ (takenRRs resp).head?, r.type = CNAME ∧ textIn resp r ≠ some [] ∧
    qtype ≠ CNAME ∧ qtype ≠ ANY

instance (resp : Bytes) (qtype : Nat) : Decidable (Chased resp qtype) :=
  inferInstanceAs (Decidable (∃ r ∈ (takenRRs resp).head?, r.type = CNAME ∧
    textIn resp r ≠ some [] ∧ qtype ≠ CNAME ∧ qtype ≠ ANY))

variable {qtype : Nat} {target : Text} {result r : ResolveResult} {tr : Trace}

/-- A chase puts rows behind those that are there, as far as there is room. -/
theorem chase_extends {hops : Nat} (hroom : result.answers.length ≤ maxAnswers)
    (h : Prog.Returns body (chase qtype hops target result) tr r) :
    result.answers <+: r.answers ∧ r.answers.length ≤ maxAnswers := by
  induction hops generalizing target result tr with
  | zero =>
    obtain ⟨-, rfl⟩ := returns_pure.mp h
    exact ⟨prefix_refl _, hroom⟩
  | succ hops ih =>
    unfold chase at h
    have hmore : ∀ sub : List Answer,
        result.answers <+: (result.answers ++ sub).take maxAnswers ∧
          ((result.answers ++ sub).take maxAnswers).length ≤ maxAnswers := by
      intro sub
      refine ⟨?_, length_take_le _ _⟩
      rw [take_append, take_of_length_le hroom]
      exact prefix_append _ _
    rcases returns_ite.mp h with ⟨-, hpure⟩ | ⟨-, hcall⟩
    · obtain ⟨-, rfl⟩ := returns_pure.mp hpure
      exact ⟨prefix_refl _, hroom⟩
    obtain ⟨v, -, tr', -, -, hrest⟩ := Prog.returns_recurse_bind.mp hcall
    rcases returns_ite.mp hrest with ⟨-, hpure⟩ | ⟨-, hsub⟩
    · obtain ⟨-, rfl⟩ := returns_pure.mp hpure
      exact ⟨prefix_refl _, hroom⟩
    cases hv : v.2.answers with
    | nil =>
      rw [hv] at hsub
      obtain ⟨-, rfl⟩ := returns_pure.mp hsub
      exact hmore []
    | cons a rest =>
      rw [hv] at hsub
      obtain ⟨hpre, hlen⟩ := hmore (a :: rest)
      rcases returns_ite.mp hsub with ⟨-, hagain⟩ | ⟨-, hpure⟩
      · obtain ⟨hpre', hlen'⟩ := ih hlen hagain
        exact ⟨hpre.trans hpre', hlen'⟩
      · obtain ⟨-, rfl⟩ := returns_pure.mp hpure
        exact ⟨hpre, hlen⟩

/-- The name the alias in front stands for. -/
def aliasTarget (resp : Bytes) : Text :=
  match shownRows resp with
  | [] => []
  | a :: _ => safeStrcpy a.text 256

/-- What `finish` does with a well-formed reply. -/
theorem WellFormed.finish_eq (h : WellFormed cfg resp) (qtype : Nat) (result : ResolveResult) :
    finish resp qtype result =
      if Chased resp qtype then
        chase qtype maxCnameHops (aliasTarget resp) { result with answers := shownRows resp } >>=
          fun r => pure (0, r)
      else pure (0, { result with answers := shownRows resp }) := by
  rw [finish, h.populate_eq]
  cases hrrs : takenRRs resp with
  | nil =>
    have hno : ¬ Chased resp qtype := by
      rintro ⟨f, hf, -⟩
      rw [hrrs] at hf
      cases hf
    rw [if_neg hno, shownRows, hrrs]
    rfl
  | cons f rest =>
    obtain ⟨t, ht⟩ := h.textIn_isSome (r := f) (hrrs ▸ mem_cons_self)
    have hrow : shownRow resp f = ⟨f.owner, f.type, f.ttl, t⟩ := by rw [shownRow, ht]; rfl
    have hrows : shownRows resp = shownRow resp f :: rest.map (shownRow resp) := by
      rw [shownRows, hrrs, map_cons]
    have hchased : Chased resp qtype ↔ (f.type = CNAME ∧ qtype ≠ CNAME ∧
        qtype ≠ ANY) ∧ t ≠ [] := by
      unfold Chased
      rw [hrrs]
      simp only [head?_cons, mem_some_iff, exists_eq_left', ht, ne_eq,
        some.injEq]
      tauto
    rw [aliasTarget, hrows, hrow]
    change (if f.type = CNAME ∧ qtype ≠ CNAME ∧ qtype ≠ ANY then _ else _) = _
    by_cases halias : f.type = CNAME ∧ qtype ≠ CNAME ∧ qtype ≠ ANY
    · rw [if_pos halias]
      split_ifs with hc
      · rfl
      · -- the root is no target
        obtain rfl : t = [] := by
          by_contra hne
          exact hc (hchased.mpr ⟨halias, hne⟩)
        exact congrArg (· >>= _) (if_pos rfl)
    · rw [if_neg halias, if_neg fun hc => halias (hchased.mp hc).1]

/-- Where no alias is followed the miss shows the records of the reply. -/
theorem WellFormed.finish_answers (h : WellFormed cfg resp)
    (hno : Chased resp qtype → (takenRRs resp).length = maxAnswers) {rc : Int}
    (hret : Prog.Returns body (finish resp qtype result) tr (rc, r)) :
    r.answers = shownRows resp := by
  rw [h.finish_eq] at hret
  rcases returns_ite.mp hret with ⟨hc, hchase⟩ | ⟨-, hpure⟩
  · obtain ⟨tr₁, tr₂, v, -, hv, hpure⟩ := returns_bind.mp hchase
    obtain ⟨-, heq⟩ := returns_pure.mp hpure
    rw [(Prod.mk.inj heq).2]
    have hfull : (shownRows resp).length = maxAnswers := by rw [shownRows, length_map, hno hc]
    obtain ⟨hpre, hlen⟩ := chase_extends hfull.le hv
    exact (hpre.eq_of_length_le (hlen.trans hfull.ge)).symm
  · obtain ⟨-, hv⟩ := returns_pure.mp hpure
    rw [(Prod.mk.inj hv).2]

/-- One hop to a result that does not start with an alias. -/
theorem returns_chase {rc : Int} {sub : ResolveResult} (htarget : target ≠ [])
    (hsub : Prog.Returns body (body (target, qtype)) tr (rc, sub)) (hrc : 0 ≤ rc)
    (hplain : ∀ a ∈ sub.answers.head?, a.type ≠ CNAME) (hops : Nat)
    (result : ResolveResult) :
    Prog.Returns body (chase qtype (hops + 1) target result) [.call (target, qtype) (rc, sub)]
      { result with answers := (result.answers ++ sub.answers).take maxAnswers } := by
  refine .of_neg htarget (.call hsub (.of_neg (not_lt.mpr hrc) ?_))
  cases hans : sub.answers with
  | nil => exact .pure _
  | cons a rest =>
    refine .of_neg ?_ (.pure _)
    rw [hans] at hplain
    exact hplain a rfl

/-- An alias that is followed leads to a name that can be resolved as it is. -/
theorem WellFormed.searchable_aliasTarget (h : WellFormed cfg resp) (hc : Chased resp qtype) :
    Searchable (resolvedName (aliasTarget resp)) ∧ aliasTarget resp ≠ [] := by
  obtain ⟨f, hhead, htype, hroot, -⟩ := hc
  have hf : f ∈ takenRRs resp := mem_of_mem_head? hhead
  have hrrs : takenRRs resp = f :: (takenRRs resp).tail := eq_cons_of_mem_head? hhead
  obtain ⟨t, ht⟩ := h.textIn_isSome hf
  have htarget : aliasTarget resp = safeStrcpy t 256 := by
    rw [aliasTarget, shownRows, hrrs, map_cons, shownRow, ht]
    rfl
  have hcname : rdataText resp f.rdoff f.rdlen CNAME = some t := by
    rwa [rdataText, if_neg (Nat.not_lt.mpr (mem_takenRRs hf).1), ← htype]
  rw [htarget, resolvedName_safeStrcpy]
  refine ⟨searchable_of_alias hcname, ?_⟩
  rw [safeStrcpy, ne_eq, take_eq_nil_iff]
  simpa [ht] using hroot

/-- Every call for a name that can be resolved as it is may return rows without an alias in
front. -/
def Leads (body : Text × Nat → R (Int × ResolveResult)) (qtype : Nat) : Prop :=
  ∀ target, Searchable (resolvedName target) →
    ∃ tr rc sub, Prog.Returns body (body (target, qtype)) tr (rc, sub) ∧ 0 ≤ rc ∧
      sub.answers ≠ [] ∧ ∀ a ∈ sub.answers.head?, a.type ≠ CNAME

/-- A miss whose alias leads to a call that returns rows. -/
theorem WellFormed.returns_finish (h : WellFormed cfg resp) (hcall : Leads body qtype)
    (result : ResolveResult) : ∃ tr r, Prog.Returns body (finish resp qtype result) tr (0, r) ∧
      (Chased resp qtype → ∃ extra : List Answer, extra ≠ [] ∧
        r.answers = (shownRows resp ++ extra).take maxAnswers) := by
  rw [h.finish_eq]
  by_cases hc : Chased resp qtype
  · obtain ⟨hname, hne⟩ := h.searchable_aliasTarget hc
    obtain ⟨tr, rc, sub, hsub, hrc, hrows, hplain⟩ := hcall _ hname
    exact ⟨_, _, .of_pos hc ((returns_chase hne hsub hrc hplain 7 _).bind (.pure _)),
      fun _ => ⟨sub.answers, hrows, rfl⟩⟩
  · exact ⟨_, _, .of_neg hc (.pure _), fun hc' => absurd hc' hc⟩

end Miss

/-! ## Calls -/

section Calls

variable {cfg : Config} {C : Crypto} {anchors : List Bytes}

variable (cfg C anchors) in
/-- A call can do the trace and return the value. -/
abbrev Calls {α : Type} (p : R α) (tr : Trace) (v : α) : Prop :=
  Prog.Returns (dnsResolveCore cfg C anchors) p tr v

variable (cfg C anchors) in
/-- Nobody answers on the link. -/
theorem calls_mdnsAttempt (qname : Text) (qtype : Nat) :
    ∃ tr, Calls cfg C anchors (mdnsAttempt cfg qname qtype) tr none := by
  by_cases hlocal : !isLocalName qname
  · exact ⟨[], .of_pos hlocal (.pure none)⟩
  · exact ⟨[.op (.mdnsQuery qname qtype) none], .of_neg hlocal (.op (.pure none))⟩

/-- The operations in front of an upstream query: nothing is cached, nothing is denied. -/
def missFront (qname : Text) (qtype now : Nat) : Trace :=
  [.op .time now, .op (.cacheLookup qname qtype false now) none,
    .op (.loadPersist qname qtype) none, .op .time now]

variable {qname : Text} {qtype : Nat} {tr : Trace} {v : Int × ResolveResult}

theorem calls_missFront (now : Nat)
    (h : Calls cfg C anchors (upstreamAttempt cfg C anchors qname qtype) tr v) :
    Calls cfg C anchors (resolveExact cfg C anchors qname qtype)
      (missFront qname qtype now ++ .op (.aggressiveAnswer qname qtype now) none :: tr) v :=
  .op (.op (.op (.op (.op h))))

/-- The result of a name that a cached span denies. -/
def deniedResult : ResolveResult :=
  { resultInit with fromCache := 1, rcode := 3, dnssecStatus := .secure }

variable (cfg C anchors) in
theorem calls_denied (qname : Text) (qtype : Nat) :
    ∃ tr, Calls cfg C anchors (resolveExact cfg C anchors qname qtype) tr (3, deniedResult) := by
  refine ⟨missFront qname qtype 0 ++ [.op (.aggressiveAnswer qname qtype 0) (some true)],
    .op (.op (.op (.op ?_)))⟩
  exact returns_perform_bind.mpr ⟨some true, [], rfl, .pure _⟩

theorem calls_hit (now : Nat) {copy : CacheEntry}
    (h : Calls cfg C anchors (serveCachedEntry copy qname) tr v) :
    Calls cfg C anchors (resolveExact cfg C anchors qname qtype)
      (.op .time now :: .op (.cacheLookup qname qtype false now) (some copy) :: tr) v :=
  .op (.op h)

/-- A name with a dot is resolved as it is. -/
theorem calls_of_dotted {name : Text} (hdot : dot ∈ resolvedName name)
    (h : Calls cfg C anchors (resolveExact cfg C anchors (resolvedName name) qtype) tr v) :
    ∃ front, Calls cfg C anchors (dnsResolveCore cfg C anchors (name, qtype)) (front ++ tr) v := by
  obtain ⟨front, hmdns⟩ :=
    calls_mdnsAttempt cfg C anchors (resolvedName name) qtype
  refine ⟨front, hmdns.bind (.of_neg ?_ h)⟩
  rintro ⟨-, hno⟩
  exact hno (contains_iff_mem.mpr hdot)

variable (cfg C anchors) in
/-- Every search domain leads to a denied name. -/
theorem calls_searchAttempt (hshort : qname.length ≤ 254) (qtype : Nat) (ds : List Text) :
    ∃ tr, Calls cfg C anchors (searchAttempt qname qtype ds) tr none := by
  induction ds with
  | nil => exact ⟨[], .pure none⟩
  | cons d ds ih =>
    obtain ⟨tr, hrest⟩ := ih
    have hdot := dot_mem_expanded hshort d
    rw [← resolvedName_safeStrcpy] at hdot
    obtain ⟨tr', hden⟩ := calls_denied cfg C anchors _ qtype
    obtain ⟨front, hcall⟩ := calls_of_dotted hdot hden
    exact ⟨_, Prog.returns_recurse_bind.mpr
      ⟨(3, deniedResult), _, _, rfl, hcall, .of_neg (by decide) hrest⟩⟩

/-- A name that the search domains do not lead back to can be resolved as it is. -/
theorem calls_of_searchable {name : Text} (hname : Searchable (resolvedName name))
    (h : Calls cfg C anchors (resolveExact cfg C anchors (resolvedName name) qtype) tr v) :
    ∃ front, Calls cfg C anchors (dnsResolveCore cfg C anchors (name, qtype)) (front ++ tr) v := by
  by_cases hdot : dot ∈ resolvedName name
  · exact calls_of_dotted hdot h
  have hshort : (resolvedName name).length ≤ 254 := hname.resolve_left hdot
  obtain ⟨front, hmdns⟩ :=
    calls_mdnsAttempt cfg C anchors (resolvedName name) qtype
  obtain ⟨tr', hsearch⟩ := calls_searchAttempt cfg C anchors hshort qtype
    cfg.searchDomains
  by_cases hds : cfg.searchDomains ≠ [] ∧ ¬ (resolvedName name).contains dot
  · refine ⟨front ++ tr', ?_⟩
    rw [append_assoc]
    exact hmdns.bind (.of_pos hds (hsearch.bind h))
  · exact ⟨front, hmdns.bind (.of_neg hds h)⟩

theorem length_resolvedName_le (name : Text) : (resolvedName name).length ≤ 255 :=
  length_strlower_safeStrcpy_le name

variable (cfg C anchors) in
/-- Under the name an address may be cached. -/
theorem leads_found (qtype : Nat) : Leads (dnsResolveCore cfg C anchors) qtype := by
  intro target htarget
  let e : CacheEntry := ⟨[], qtype, [⟨RRType.A, 1, [], 0⟩], false, 0, 0, 0, 0, false, .unchecked⟩
  obtain ⟨back, r, hserve, hrows⟩ := returns_serveCachedEntry (dnsResolveCore cfg C anchors)
    [] e 0 rfl (Nat.le_of_ble_eq_true rfl) (length_resolvedName_le target)
  obtain ⟨front, hcall⟩ := calls_of_searchable htarget (calls_hit 0 hserve)
  refine ⟨_, 0, r, hcall, le_refl 0, ?_, ?_⟩
  · rw [hrows]
    exact cons_ne_nil _ _
  · rw [hrows]
    intro a ha
    cases ha
    exact (by decide : RRType.A ≠ CNAME)

end Calls

/-! ## Filling the cache and reading it -/

section Transparent

variable (cfg : Config) (C : Crypto) (anchors : List Bytes)

/-- A call of `dns_resolve_core` gets the reply from upstream, reads the clock at `t`, caches the
entry `ce` and returns `r`. -/
def Filled (x : Text × Nat) (rep : Reply) (t : Nat) (ce : CacheEntry) (r : ResolveResult) : Prop :=
  ∃ front back, Calls cfg C anchors (dnsResolveCore cfg C anchors x)
    (front ++ .op (.upstreamQuery .foreground (resolvedName x.1) x.2) (some rep) :: .op .time t ::
      .op (.cacheInsert (.unicast ⟨C, anchors, rep.fetch⟩ rep.resp (resolvedName x.1)) ce) () ::
      back) (0, r)

/-- A call of `dns_resolve_core` finds the entry `ce` in the cache, reads the clock at `t'` and
returns `r`. -/
def Served (x : Text × Nat) (ce : CacheEntry) (t' : Nat) (r : ResolveResult) : Prop :=
  ∃ now copy front back rc, serveWindow cfg ce false now = some copy ∧
    Calls cfg C anchors (dnsResolveCore cfg C anchors x)
      (front ++ .op (.cacheLookup (resolvedName x.1) x.2 false now) (some copy) :: .op .time t' ::
        back) (rc, r)

/-- The row, `secs` seconds later. -/
def Answer.aged (secs : Nat) (a : Answer) : Answer := { a with ttl := a.ttl - secs }

/-- Whenever a call fills the cache with the reply at `t` and one is served the entry at `t'`, the
answers of the second are those of the first with their TTLs reduced by the elapsed seconds. -/
def Transparent (x : Text × Nat) (rep : Reply) (t t' : Nat) : Prop :=
  ∀ ce r₁ r₂, Filled cfg C anchors x rep t ce r₁ → Served cfg C anchors x ce t' r₂ →
    r₂.answers = r₁.answers.map (Answer.aged (t' - t))

/-- The reply can be shown from its records alone: they are all owned by the queried name, their
rdata prints alone as it prints in the reply, and no alias in front is followed. -/
structure SelfContained (qname : Text) (qtype : Nat) (resp : Bytes) : Prop where
  owners : ∀ r ∈ takenRRs resp, r.owner = qname
  prints : ∀ r ∈ takenRRs resp, textAlone resp r = textIn resp r
  noAlias : Chased resp qtype → (takenRRs resp).length = maxAnswers

variable {cfg C anchors}

/-- All operations but an upstream query. -/
def NotUpstream : Op → Prop
  | .upstreamQuery _ _ _ => False
  | _ => True

/-- All operations but a lookup of fresh entries. -/
def NotFresh : Op → Prop
  | .cacheLookup _ _ false _ => False
  | _ => True

theorem routine_notUpstream : Routine NotUpstream := by
  constructor <;> intros <;> trivial

theorem routine_notFresh : Routine NotFresh := by
  constructor <;> intros <;> trivial

variable {x : Text × Nat} {front back : Trace} {v : Int × ResolveResult}

/-- A call that performs an operation that only `resolveExact` performs comes to it. -/
theorem calls_resolveExact {P : Op → Prop} (hP : Routine P) {o : Op} {res : o.Res} (ho : ¬ P o)
    (h : Calls cfg C anchors (dnsResolveCore cfg C anchors x) (front ++ .op o res :: back) v) :
    ∃ front', Calls cfg C anchors (resolveExact cfg C anchors (resolvedName x.1) x.2)
      (front' ++ .op o res :: back) v := by
  unfold dnsResolveCore at h
  obtain ⟨front₁, mdns, h₁⟩ :=
    Prog.Returns.skip h (hP.mdnsAttempt (length_resolvedName_le x.1) _) ho
  cases mdns with
  | some r =>
    obtain ⟨hnil, -⟩ := returns_pure.mp h₁
    simp at hnil
  | none =>
    rcases returns_ite.mp h₁ with ⟨-, hsearch⟩ | ⟨-, hexact⟩
    · obtain ⟨front₂, sub, h₂⟩ :=
        Prog.Returns.skip hsearch (always_searchAttempt _ _ _) ho
      cases sub with
      | some r =>
        obtain ⟨hnil, -⟩ := returns_pure.mp h₂
        simp at hnil
      | none => exact ⟨front₂, h₂⟩
    · exact ⟨front₁, hexact⟩

/-- The operation is not in a trace of the program. -/
theorem not_mem_of_always {P : Op → Prop} {α : Type} {p : R α} {o : Op} {res : o.Res} (ho : ¬ P o)
    {v : α} (hp : p.Always P fun _ _ => True) :
    ¬ Calls cfg C anchors p (front ++ .op o res :: back) v := by
  intro h
  have hmem : Act.op o res ∈ front ++ Act.op o res :: back := by simp
  exact ho (h.always hp hmem)

variable {rep : Reply}

/-- A call asks upstream once, and then accepts the reply. -/
theorem calls_accept {n : Text} {q : Nat}
    (hcall : Calls cfg C anchors (dnsResolveCore cfg C anchors x) (front ++ .op (.upstreamQuery
      .foreground n q) (some rep) :: back) v) (hlen : 12 ≤ rep.resp.length)
    (hrcode : rcodeOf rep.resp ≠ 2) :
    Calls cfg C anchors (acceptReply cfg C anchors rep (resolvedName x.1) x.2) back v := by
  have hno : ¬ NotUpstream (.upstreamQuery .foreground n q) := id
  obtain ⟨front₁, h₁⟩ := calls_resolveExact routine_notUpstream hno hcall
  unfold resolveExact at h₁
  obtain ⟨front₂, hit, h₂⟩ := Prog.Returns.skip h₁
    (routine_notUpstream.cacheAttempt fun _ => trivial) hno
  cases hit with
  | some e => exact absurd h₂ (not_mem_of_always hno (routine_notUpstream.serveCachedEntry _ _))
  | none =>
    obtain ⟨front₃, now, h₃⟩ :=
      Prog.Returns.skip h₂ (always_perform routine_notUpstream.time) hno
    obtain ⟨front₄, span, h₄⟩ := Prog.Returns.skip (P := NotUpstream) h₃
      (always_perform trivial) hno
    cases span with
    | some isNxdomain =>
      obtain ⟨hnil, -⟩ := returns_pure.mp h₄
      simp at hnil
    | none =>
      rw [upstreamAttempt] at h₄
      obtain ⟨reply, tr, heq, h₅⟩ := returns_perform_bind.mp h₄
      -- the query is this one: what follows it asks nobody
      cases front₄ with
      | nil =>
        cases heq
        rcases returns_ite.mp h₅ with ⟨hlt, -⟩ | ⟨-, h₆⟩
        · exact absurd hlt (Nat.not_lt.mpr hlen)
        rcases returns_ite.mp h₆ with ⟨htwo, -⟩ | ⟨-, h₇⟩
        · exact absurd htwo hrcode
        exact h₇
      | cons a front₅ =>
        obtain ⟨-, rfl⟩ := cons.inj heq
        refine absurd h₅ (not_mem_of_always hno ?_)
        exact routine_notUpstream.uponReply reply (fun _ _ _ => trivial) fun _ _ _ _ _ => trivial

variable {t : Nat} {ce : CacheEntry} {r : ResolveResult}

variable {t' : Nat}

/-- A call looks fresh entries up once, and then serves what it finds. -/
theorem Served.serve (h : Served cfg C anchors x ce t' r) :
    ∃ now copy back rc, serveWindow cfg ce false now = some copy ∧
      Calls cfg C anchors (serveCachedEntry copy (resolvedName x.1)) (.op .time t' :: back)
        (rc, r) := by
  obtain ⟨now, copy, front, back, rc, hwin, hcall⟩ := h
  refine ⟨now, copy, back, rc, hwin, ?_⟩
  have hno : ¬ NotFresh (.cacheLookup (resolvedName x.1) x.2 false now) := id
  obtain ⟨front₁, h₁⟩ := calls_resolveExact routine_notFresh hno hcall
  rw [resolveExact, cacheAttempt, perform_bind_bind] at h₁
  obtain ⟨front₂, now', h₂⟩ :=
    Prog.Returns.skip h₁ (always_perform routine_notFresh.time) hno
  rw [perform_bind_bind] at h₂
  obtain ⟨found, tr, heq, h₃⟩ := returns_perform_bind.mp h₂
  -- the lookup is this one: what follows looks nothing fresh up
  cases front₂ with
  | nil =>
    cases heq
    exact h₃
  | cons a front₃ =>
    obtain ⟨-, rfl⟩ := cons.inj heq
    refine absurd h₃ (not_mem_of_always hno (always_bind ?_ fun hit => ?_))
    · cases found with
      | some e => exact always_pure _
      | none =>
        refine always_bind (always_perform (routine_notFresh.loadPersist _ _)) fun stored => ?_
        cases stored with
        | none | some e => exact always_pure _
    · cases hit with
      | some e => exact routine_notFresh.serveCachedEntry _ _
      | none =>
        refine always_bind (always_perform routine_notFresh.time) fun now => ?_
        refine always_bind (P := NotFresh) (always_perform trivial) fun span => ?_
        cases span with
        | some isNxdomain => exact always_pure _
        | none =>
          rw [upstreamAttempt]
          refine always_bind (P := NotFresh) (always_perform trivial) fun reply => ?_
          exact routine_notFresh.uponReply reply (fun _ _ _ => trivial) fun _ _ _ _ _ => trivial

/-- What a call that fills the cache has inserted, and how it ended. -/
theorem Filled.finish (h : Filled cfg C anchors x rep t ce r) (hwell : WellFormed cfg rep.resp) :
    ce = filledEntry cfg rep.resp (resolvedName x.1) x.2 t
      (statusOf C anchors rep (resolvedName x.1)) ∧
    ∃ result tr, Calls cfg C anchors (finish rep.resp x.2 result) tr (0, r) := by
  obtain ⟨front, back, hcall⟩ := h
  have hrcode : rcodeOf rep.resp ≠ 2 := by
    rw [hwell.positive.1]
    decide
  have h₁ := calls_accept hcall hwell.header hrcode
  rw [hwell.acceptReply_eq] at h₁
  obtain ⟨now, tr, heq, h₂⟩ := returns_perform_bind.mp h₁
  cases heq
  rcases returns_ite.mp h₂ with ⟨-, hpure⟩ | ⟨-, h₃⟩
  · obtain ⟨hnil, -⟩ := returns_pure.mp hpure
    cases hnil
  obtain ⟨u, tr₁, heq, h₄⟩ := returns_perform_bind.mp h₃
  cases heq
  obtain ⟨-, tr₂, -, h₅⟩ := returns_perform_bind.mp h₄
  exact ⟨rfl, _, tr₂, h₅⟩

theorem calls_upstreamAttempt (hwell : WellFormed cfg rep.resp) {qname : Text} {qtype : Nat}
    {tr : Trace} (h : Calls cfg C anchors (acceptReply cfg C anchors rep qname qtype) tr v) :
    Calls cfg C anchors (upstreamAttempt cfg C anchors qname qtype)
      (.op (.upstreamQuery .foreground qname qtype) (some rep) :: tr) v := by
  refine returns_perform_bind.mpr ⟨some rep, tr, rfl, ?_⟩
  refine .of_neg (Nat.not_lt.mpr hwell.header) (.of_neg ?_ h)
  rw [hwell.positive.1]
  decide

/-- There is a call that fills the cache, with rows behind an alias. -/
theorem exists_filled (t : Nat) (hwell : WellFormed cfg rep.resp)
    (hname : Searchable (resolvedName x.1))
    (hok : statusOf C anchors rep (resolvedName x.1) ≠ .bogus) :
    ∃ r, Filled cfg C anchors x rep t (filledEntry cfg rep.resp (resolvedName x.1) x.2 t
        (statusOf C anchors rep (resolvedName x.1))) r ∧
      (Chased rep.resp x.2 → ∃ extra : List Answer, extra ≠ [] ∧
        r.answers = (shownRows rep.resp ++ extra).take maxAnswers) := by
  obtain ⟨tr, r, hfin, halias⟩ := hwell.returns_finish (leads_found cfg C anchors x.2)
    { resultInit with
      rcode := rcodeOf rep.resp, dnssecStatus := statusOf C anchors rep (resolvedName x.1) }
  refine ⟨r, ?_, halias⟩
  generalize hce : filledEntry cfg rep.resp (resolvedName x.1) x.2 t
    (statusOf C anchors rep (resolvedName x.1)) = ce
  have haccept : Calls cfg C anchors (acceptReply cfg C anchors rep (resolvedName x.1) x.2)
      (.op .time t ::
        .op (.cacheInsert (.unicast ⟨C, anchors, rep.fetch⟩ rep.resp (resolvedName x.1)) ce) () ::
        .op (.storePersist ce) () :: tr) (0, r) := by
    rw [hwell.acceptReply_eq, ← hce]
    exact .op (.of_neg hok (.op (.op hfin)))
  obtain ⟨front, hcore⟩ := calls_of_searchable hname
    (calls_missFront 0 (calls_upstreamAttempt hwell haccept))
  refine ⟨front ++ (missFront (resolvedName x.1) x.2 0 ++
    [.op (.aggressiveAnswer (resolvedName x.1) x.2 0) none]), .op (.storePersist ce) () :: tr, ?_⟩
  rwa [append_assoc, append_assoc]

/-- The text of a cached record is that of its rdata alone. -/
theorem text_cachedOf {r : RR} (hr : r ∈ takenRRs resp) (hlen : r.rdlen ≤ 512) (now : Nat) :
    (cachedOf cfg resp now r).text = textAlone resp r := by
  have hrdata : (r.rdata resp).length = r.rdlen := length_slice (mem_takenRRs hr).1
  rw [CacheRR.text, cachedOf]
  dsimp only
  rw [hrdata, if_neg (by omega), rdataText, if_neg (by omega)]
  rfl

/-- The row of a hit. -/
theorem cachedRow_cachedOf (hwell : WellFormed cfg resp) {r : RR} (hr : r ∈ takenRRs resp)
    (htime : t ≤ t') (hlive : t' - t < r.ttl) (buffer qname : Text) :
    cachedRow buffer qname t' (cachedOf cfg resp t r) =
      ⟨qname, r.type, r.ttl - (t' - t), (textAlone resp r).getD buffer⟩ := by
  have hlt := (mem_takenRRs hr).2
  rw [cachedRow, text_cachedOf hr (hwell.rdata r hr)]
  rw [show (cachedOf cfg resp t r).ttlOriginal = r.ttl from Nat.min_eq_left (hwell.ttls r hr),
    show (cachedOf cfg resp t r).insertedAt = t from rfl,
    show elapsed t' t = t' - t by unfold elapsed; omega]
  rfl

variable (C anchors) in
/-- There is a call that is served the entry, with any text in the buffers. -/
theorem exists_served (hwell : WellFormed cfg resp) (hname : Searchable (resolvedName x.1))
    (htime : t ≤ t') (hlive : ∀ r ∈ takenRRs resp, t' - t < r.ttl) (hne : takenRRs resp ≠ [])
    (status : DnssecStatus) (buffer : Text) :
    ∃ r, Served cfg C anchors x (filledEntry cfg resp (resolvedName x.1) x.2 t status) t' r ∧
      r.answers = ((takenRRs resp).map (cachedOf cfg resp t)).map
        (cachedRow buffer (resolvedName x.1) t') := by
  let ce := filledEntry cfg resp (resolvedName x.1) x.2 t status
  have hleft : entryRemainingTtl ce t' ≠ 0 := by
    unfold entryRemainingTtl
    rw [if_neg (by exact Bool.false_ne_true)]
    have hmem : ∀ m ∈ (ce.rrs.map fun r => r.ttlOriginal - elapsed t' r.insertedAt), m ≠ 0 := by
      intro m hm
      obtain ⟨c, hc, rfl⟩ := mem_map.mp hm
      obtain ⟨r, hr, rfl⟩ := mem_map.mp hc
      have hrow := congrArg Answer.ttl
        (cachedRow_cachedOf hwell hr htime (hlive r hr) [] (resolvedName x.1))
      have hpos := hlive r hr
      change (cachedOf cfg resp t r).ttlOriginal - elapsed t' (cachedOf cfg resp t r).insertedAt =
        r.ttl - (t' - t) at hrow
      omega
    cases hmin : (ce.rrs.map fun r => r.ttlOriginal - elapsed t' r.insertedAt).min? with
    | none =>
      rw [min?_eq_none_iff, map_eq_nil_iff] at hmin
      exact absurd (map_eq_nil_iff.mp hmin) hne
    | some m => exact hmem m (min?_mem hmin)
  have hwin : serveWindow cfg ce false t' = some { ce with servedStale := false } := by
    rw [serveWindow, if_neg hleft]
  obtain ⟨back, r, hserve, hrows⟩ := returns_serveCachedEntry (dnsResolveCore cfg C anchors)
    buffer { ce with servedStale := false } t' rfl
    ((length_map _).trans_le hwell.length_taken_le) (length_resolvedName_le x.1)
  obtain ⟨front, hcore⟩ := calls_of_searchable hname (calls_hit t' hserve)
  refine ⟨r, ⟨t', _, front ++ [.op .time t'], back, 0, hwin, ?_⟩, hrows⟩
  rwa [append_assoc]

/-- Self-contained replies are shown from the cache as they were shown on the miss. -/
theorem SelfContained.transparent (h : SelfContained (resolvedName x.1) x.2 rep.resp)
    (hwell : WellFormed cfg rep.resp) (htime : t ≤ t')
    (hlive : ∀ r ∈ takenRRs rep.resp, t' - t < r.ttl) : Transparent cfg C anchors x rep t t' := by
  intro ce r₁ r₂ hfill hserve
  obtain ⟨rfl, result, tr, hfin⟩ := hfill.finish hwell
  obtain ⟨now, copy, back, rc, hwin, hcopy⟩ := hserve.serve
  obtain ⟨hneg, hrrs⟩ : copy.negative = false ∧
      copy.rrs = (takenRRs rep.resp).map (cachedOf cfg rep.resp t) := by
    unfold serveWindow at hwin
    split at hwin
    · split at hwin
      · cases hwin
      · cases hwin
        exact ⟨rfl, rfl⟩
    · cases hwin
      exact ⟨rfl, rfl⟩
  have htext : ∀ s ∈ copy.rrs, s.text.isSome := by
    rw [hrrs]
    intro s hs
    obtain ⟨r, hr, rfl⟩ := mem_map.mp hs
    obtain ⟨u, hu⟩ := hwell.textIn_isSome hr
    rw [text_cachedOf hr (hwell.rdata r hr), h.prints r hr, hu]
    rfl
  have hfew : copy.rrs.length ≤ maxAnswers := by
    rw [hrrs, length_map]
    exact hwell.length_taken_le
  rw [serveCachedEntry_answers [] hneg hfew (length_resolvedName_le x.1) htext hcopy,
    hwell.finish_answers h.noAlias hfin, hrrs, shownRows, List.map_map, List.map_map]
  refine map_congr_left fun r hr => ?_
  rw [Function.comp_apply, cachedRow_cachedOf hwell hr htime (hlive r hr), h.prints r hr,
    ← h.owners r hr]
  rfl

/-- One record that is shown alike on the miss and on every hit. -/
theorem same_row {cfg : Config} (hwell : WellFormed cfg resp) {r : RR} (hr : r ∈ takenRRs resp)
    (htime : t ≤ t') (hlive : t' - t < r.ttl) {qname : Text}
    (h : ∀ buffer, cachedRow buffer qname t' (cachedOf cfg resp t r) = (shownRow resp r).aged (t' -
      t)) : r.owner = qname ∧ textAlone resp r = textIn resp r := by
  obtain ⟨u, hu⟩ := hwell.textIn_isSome hr
  -- a buffer that holds something else than the text
  have hrow := h (u ++ [0])
  rw [cachedRow_cachedOf hwell hr htime hlive, shownRow, hu] at hrow
  have hname := congrArg Answer.name hrow
  have htext := congrArg Answer.text hrow
  refine ⟨hname.symm, ?_⟩
  rw [hu]
  cases halone : textAlone resp r with
  | some v =>
    rw [halone] at htext
    exact congrArg some htext
  | none =>
    rw [halone] at htext
    have hlen : (u ++ [0]).length = u.length := congrArg length htext
    simp at hlen

/-- An alias that is followed puts rows behind the reply that are not cached with it. -/
theorem not_transparent_of_chased (hwell : WellFormed cfg rep.resp)
    (hname : Searchable (resolvedName x.1))
    (hok : statusOf C anchors rep (resolvedName x.1) ≠ .bogus) (htime : t ≤ t')
    (hlive : ∀ r ∈ takenRRs rep.resp, t' - t < r.ttl) (hchased : Chased rep.resp x.2)
    (hroom : (takenRRs rep.resp).length < maxAnswers) : ¬ Transparent cfg C anchors x rep t t' := by
  intro htrans
  obtain ⟨r₁, hfill, halias⟩ := exists_filled t hwell hname hok
  obtain ⟨extra, hmore, heq⟩ := halias hchased
  obtain ⟨f, hf, -⟩ := hchased
  obtain ⟨r₂, hserve, hshow⟩ := exists_served C anchors hwell hname htime
    hlive (ne_nil_of_mem (mem_of_mem_head? hf)) _ []
  have hcount := congrArg length (htrans _ r₁ r₂ hfill hserve)
  rw [hshow, heq] at hcount
  have hpos := length_pos_of_ne_nil hmore
  simp only [length_map, length_take, length_append, shownRows] at hcount
  omega

/-- **The cache is transparent for self-contained replies only.** For a well-formed positive reply
that is not bogus, and any two instants before a record expires: the answers served from the cache
are those of the miss with their TTLs reduced, whatever the world answers, iff all records are owned
by the queried name, print alone as in the reply, and no alias in front is followed. -/
theorem transparent_iff {x : Text × Nat} {rep : Reply} {t t' : Nat}
    (hwell : WellFormed cfg rep.resp) (hname : Searchable (resolvedName x.1))
    (hok : dnssecValidateResponse ⟨C, anchors, rep.fetch⟩ rep.resp (resolvedName x.1) ≠ .bogus)
    (htime : t ≤ t') (hlive : ∀ r ∈ takenRRs rep.resp, t' - t < r.ttl) :
    Transparent cfg C anchors x rep t t' ↔ SelfContained (resolvedName x.1) x.2 rep.resp := by
  constructor
  · intro htrans
    have hno : Chased rep.resp x.2 → (takenRRs rep.resp).length = maxAnswers := by
      intro hchased
      by_contra hfull
      have hle := hwell.length_taken_le
      exact not_transparent_of_chased hwell hname hok htime hlive hchased (by omega) htrans
    obtain ⟨r₁, hfill, -⟩ := exists_filled t hwell hname hok
    obtain ⟨-, result, tr, hfin⟩ := hfill.finish hwell
    have hrows := hwell.finish_answers hno hfin
    have hsame : ∀ r ∈ takenRRs rep.resp,
        r.owner = resolvedName x.1 ∧ textAlone rep.resp r = textIn rep.resp r := by
      intro r hr
      refine same_row hwell hr htime (hlive r hr) fun buffer => ?_
      obtain ⟨r₂, hserve, hshow⟩ := exists_served C anchors hwell hname htime
        hlive (ne_nil_of_mem hr) _ buffer
      have heq := htrans _ r₁ r₂ hfill hserve
      rw [hshow, hrows, shownRows, List.map_map, List.map_map] at heq
      exact map_inj_left.mp heq r hr
    exact ⟨fun r hr => (hsame r hr).1, fun r hr => (hsame r hr).2, hno⟩
  · intro h
    exact h.transparent hwell htime hlive

end Transparent

/-! ## An address that is cached, and one that is lost -/

/-- The answers of a thread that has returned. -/
def returnedAnswers (t : Thread Op Op.Res (Text × Nat) (Int × ResolveResult)) :
    Option (List Answer) :=
  match t with
  | ⟨.pure v, []⟩ => some v.2.answers
  | _ => none

/-- The address of `a.b` for 100 s. -/
def plainReply : Reply := ⟨plainAnswer.getD [], Env.sample.fetch⟩

/-- The alias `c.d` of `a.b` for 100 s. -/
def aliasReply : Reply := ⟨(aliasAnswer (lit "c.d") (lit "a.b") 100).getD [], Env.sample.fetch⟩

/-- The query for `c.d` again, 10 s later, with what the first one left in the cache. -/
def aliasAgain : Machine.Driven Op Op.Res (Text × Nat) (Int × ResolveResult) Shared :=
  aliasDrive (aliasWorld 1010) 40 aliasRun.shared ⟨aliasQuery (lit "c.d"), []⟩

/-- An address is served from the cache as it was served on the miss, up to its last second. -/
theorem transparent_plain :
    Transparent sampleConfig .sample Env.sample.anchors (lit "a.b", RRType.A) plainReply
      1000 1099 :=
  (transparent_iff ⟨by decide +kernel, by decide +kernel, by decide +kernel, by decide +kernel,
    by decide +kernel, by decide +kernel, by decide +kernel, by decide +kernel⟩
    (.inl (by decide)) (by decide +kernel) (by decide) (by decide +kernel)).mpr
    ⟨by decide +kernel, by decide +kernel, by decide +kernel⟩

/-- **The address behind an alias is answered once**: the query for `c.d` is answered with the alias
and the address of `a.b`, and 10 s later, from the cache, with the alias alone. -/
theorem alias_lost_on_hit :
    ¬ Transparent sampleConfig .sample Env.sample.anchors (lit "c.d", RRType.A) aliasReply
        1000 1010 ∧
      returnedAnswers aliasRun.thread = some [⟨lit "c.d", CNAME, 100, lit "a.b"⟩,
        ⟨lit "a.b", RRType.A, 100, lit "192.0.2.1"⟩] ∧
      returnedAnswers aliasAgain.thread =
        some [⟨lit "c.d", CNAME, 90, lit "a.b"⟩] := by
  refine ⟨?_, by decide +kernel, by decide +kernel⟩
  have hwell : WellFormed sampleConfig aliasReply.resp := ⟨by decide +kernel, by decide +kernel,
    by decide +kernel, by decide +kernel, by decide +kernel, by decide +kernel, by decide +kernel,
    by decide +kernel⟩
  exact not_transparent_of_chased hwell (.inl (by decide)) (by decide +kernel) (by decide)
    (by decide +kernel) (by decide +kernel) (by decide +kernel)

end SimpleDns.Resolver
