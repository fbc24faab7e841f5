import SimpleDns.Lib.Calls
import SimpleDns.Resolver.Resolve

/-!
# Following aliases (`resolverd.c:4041-4055`, `4155-4181`)

`dns_resolve_core` calls itself for each search domain and, when a reply starts with a CNAME, for
the target of the alias. `MAX_CNAME_HOPS` limits the hops of one invocation, but the invocation for
the target has a counter of its own.

* **`alias_recursion_unbounded`**: an alias of itself with a TTL of 0 opens calls inside calls, as
  many as one likes.
* **`calls_bounded`**: if the aliases behind the names can be ranked, at most `MAX_CNAME_HOPS` of
  them behind the queried one, a call makes at most `(s + 1) * (s + 2) ^ MAX_CNAME_HOPS - 1` nested
  calls with `s` search domains, and ends.
-/

namespace SimpleDns.Resolver

open Wire Lib List Option RRType
open Prog (within_ite within_perform within_pure within_perform_bind)

/-! ## The alias an answer starts with -/

/-- The name a call of `dns_resolve_core` works on. -/
def resolvedName (name : Text) : Text := strlower (safeStrcpy name 256)

/-- The text of a record where `rdata_to_str` writes all of it. -/
def rdataText (pkt : Bytes) (rdoff rdlen type : Nat) : Option Text :=
  if rdoff + rdlen > pkt.length then none else rdataToStr pkt rdoff rdlen type 512

/-- The text of a cached record. -/
def CacheRR.text (r : CacheRR) : Option Text :=
  if r.rdata.length > 512 then none else rdataText r.rdata 0 r.rdata.length r.type

/-- The first record of the result rows of a reply. -/
def firstAnswer (resp : Bytes) : Option RawAnswer :=
  (answersStart resp).bind fun off => (rawAnswers resp (ancount resp) off maxAnswers).head?

/-- What is told satisfies the property. -/
def Told {α : Type} (P : α → Prop) (r : Option α) : Prop := ∀ a ∈ r, P a

section Ranked

variable (rank : Text → Nat)

/-- A first record that is an alias has a target of a smaller rank. -/
def AliasBelow (qname : Text) (type : Nat) (text : Option Text) : Prop :=
  type = CNAME → ∃ t, text = some t ∧ rank (resolvedName t) < rank qname

/-- The reply starts with no alias, or with one of smaller rank. -/
def ReplyBelow (qname : Text) (resp : Bytes) : Prop :=
  ∀ r ∈ firstAnswer resp, AliasBelow rank qname r.type (rdataText resp r.rdoff r.rdlen r.type)

/-- The same for a cached entry. -/
def EntryBelow (qname : Text) (e : CacheEntry) : Prop :=
  ∀ r ∈ e.rrs.head?, AliasBelow rank qname r.type r.text

/-- Every alias the resolver is told leads to a name of smaller rank. -/
def Ranked : (o : Op) → o.Res → Prop
  | .mdnsQuery qname _, r => Told (ReplyBelow rank qname) r
  | .cacheLookup qname _ _ _, r => Told (EntryBelow rank qname) r
  | .loadPersist qname _, r => Told (EntryBelow rank qname) r
  | .upstreamQuery .foreground qname _, r => Told (fun rep => ReplyBelow rank qname rep.resp) r
  | _, _ => True

end Ranked

/-- A name with a dot, or short enough that a search domain puts one behind it. -/
def Searchable (qname : Text) : Prop := dot ∈ qname ∨ qname.length ≤ 254

theorem resolvedName_safeStrcpy (name : Text) :
    resolvedName (safeStrcpy name 256) = resolvedName name := by
  rw [resolvedName, resolvedName, safeStrcpy, safeStrcpy, take_take]
  rfl

variable {qname : Text}

/-- The dot behind a name that is not too long is not cut off. -/
theorem dot_mem_take {n : Nat} (hshort : qname.length ≤ n) (d : Text) :
    dot ∈ (qname ++ [dot] ++ d).take (n + 1) := by
  rw [append_assoc, take_append, Nat.succ_sub hshort]
  exact mem_append_right _ mem_cons_self

/-- A search domain puts a dot behind a name that is not too long. -/
theorem dot_mem_expanded (hshort : qname.length ≤ 254) (d : Text) :
    dot ∈ resolvedName (qname ++ [dot] ++ d) :=
  mem_map.mpr ⟨dot, dot_mem_take hshort d, by decide⟩

/-! ## Alias targets -/

/-- What `name_from_wire` writes has a dot behind at most 191 octets, or is not longer. -/
def Dotted (out : Text) : Prop := out.length ≤ 191 ∨ dot ∈ out.take 192

variable {out : Text}

theorem Dotted.append (h : Dotted out) (l : Text) : Dotted (out ++ [dot] ++ l) := by
  rcases h with hlen | hdot
  · exact .inr (dot_mem_take hlen l)
  · right
    rw [append_assoc, take_append]
    exact mem_append_left _ hdot

variable {t : Text}

theorem Dotted.of_prefix {s : Text} (h : Dotted t) (hp : s <+: t) : Dotted s := by
  by_cases hlen : s.length ≤ 191
  · exact .inl hlen
  rcases h with ht | hdot
  · exact .inl (hp.length_le.trans ht)
  · right
    obtain ⟨u, rfl⟩ := hp
    rwa [take_append_of_le_length (by omega)] at hdot

theorem Dotted.strlower (h : Dotted t) : Dotted (strlower t) := by
  rcases h with hlen | hdot
  · left
    rwa [length_strlower]
  · right
    rw [Wire.strlower, ← map_take]
    exact mem_map.mpr ⟨dot, hdot, by decide⟩

theorem Dotted.searchable (h : Dotted t) : Searchable (resolvedName t) := by
  have hcut : Dotted (resolvedName t) := (h.of_prefix (List.take_prefix _ _)).strlower
  rcases hcut with hlen | hdot
  · exact .inr (hlen.trans (by decide))
  · exact .inl (mem_of_mem_take hdot)

variable {pkt : Bytes} {pos : Nat}

/-- One label more. -/
theorem Dotted.label (hout : Dotted out) (hptr : isPointer (byteAt pkt pos) = false) :
    Dotted (out ++ (if out.isEmpty then [] else [dot]) ++
      slice pkt (pos + 1) (byteAt pkt pos).toNat) := by
  cases hempty : out.isEmpty with
  | true =>
    -- the length octet of the first label is below the pointers
    obtain rfl := isEmpty_iff.mp hempty
    have hsmall := length_octet hptr
    have hslice := length_slice_le pkt (pos + 1) (byteAt pkt pos).toNat
    left
    simp only [if_true, nil_append]
    omega
  | false => simpa using hout.append (slice pkt (pos + 1) (byteAt pkt pos).toNat)

variable {olen : Nat}

theorem decodes_dotted {fuel : Nat} {jret : Option Nat} {res : Text × Nat}
    (h : Decodes pkt olen res fuel pos out jret) (hout : Dotted out) : Dotted res.1 := by
  induction h with
  | stop eq | root _ _ eq =>
    rwa [eq]
  | pointer _ _ _ _ _ ih => exact ih hout
  | label octet size _ _ octets _ _ ih =>
    have hnext := hout.label octet
    rw [size, octets] at hnext
    exact ih hnext

theorem nameFromWire_dotted {off : Nat} {res : Text × Nat}
    (h : nameFromWire pkt off olen = some res) : Dotted res.1 := by
  obtain ⟨r, hr, rfl⟩ := map_eq_some_iff.mp h
  have hloop := decodes_dotted (.of_nameLoop hr) (.inl (by decide))
  exact (hloop.of_prefix (List.takeWhile_prefix _)).strlower

theorem nameWritten_dotted {fuel : Nat} (hout : Dotted out) :
    Dotted (nameWritten pkt olen fuel pos out) := by
  induction fuel generalizing pos out with
  | zero => exact hout
  | succ fuel ih =>
    unfold nameWritten
    dsimp only
    split
    · exact hout
    split
    · split
      · exact hout
      split
      · exact hout
      · exact ih hout
    split
    · exact hout
    split
    · exact hout
    rename_i hptr _ _
    exact ih (hout.label (by simpa using hptr))

theorem searchable_of_alias {rdoff rdlen : Nat}
    (h : rdataText pkt rdoff rdlen CNAME = some t) : Searchable (resolvedName t) := by
  unfold rdataText at h
  split at h
  · cases h
  · have hname : nameInBuffer pkt rdoff 512 = some t := h
    unfold nameInBuffer at hname
    split at hname
    · rename_i n hn
      cases hname
      exact (nameFromWire_dotted hn).searchable
    · dsimp only at hname
      split at hname
      · cases hname
        have hdot : Dotted (nameWritten pkt 512 128 rdoff []) :=
          nameWritten_dotted (.inl (by decide))
        exact (hdot.of_prefix (List.takeWhile_prefix _)).searchable
      · cases hname

/-! ## What the rows start with -/

/-- The first row shows the first record: its type, and its text where that is determined. -/
def HeadShows (rows : List Answer) (first : Option (Nat × Option Text)) : Prop :=
  ∀ a ∈ rows.head?, ∃ f ∈ first, a.type = f.1 ∧ ∀ t, f.2 = some t → a.text = t

/-- A first row that is an alias leads to a name of smaller rank, which can be resolved. -/
def Down (rank : Text → Nat) (qname : Text) (rows : List Answer) : Prop :=
  ∀ a ∈ rows.head?, a.type = CNAME →
    rank (resolvedName a.text) < rank qname ∧ Searchable (resolvedName a.text)

variable {rank : Text → Nat} {rows : List Answer}

theorem HeadShows.down {ρ : Type} {first : Option ρ} {type : ρ → Nat} {text : ρ → Option Text}
    (h : HeadShows rows (first.map fun r => (type r, text r)))
    (hbelow : ∀ r ∈ first, AliasBelow rank qname (type r) (text r))
    (hname : ∀ r ∈ first, type r = CNAME → ∀ t, text r = some t →
      Searchable (resolvedName t)) : Down rank qname rows := by
  intro a ha hcname
  obtain ⟨f, hf, htype, htext⟩ := h a ha
  obtain ⟨r, hr, rfl⟩ := map_eq_some_iff.mp hf
  have halias : type r = CNAME := htype.symm.trans hcname
  obtain ⟨t, ht, hlt⟩ := hbelow r hr halias
  rw [htext t ht]
  exact ⟨hlt, hname r hr halias t ht⟩

/-- The first record of a reply. -/
def replyFirst (resp : Bytes) : Option (Nat × Option Text) :=
  (firstAnswer resp).map fun r => (r.type, rdataText resp r.rdoff r.rdlen r.type)

/-- The first record of a cached entry. -/
def entryFirst (e : CacheEntry) : Option (Nat × Option Text) :=
  e.rrs.head?.map fun r => (r.type, r.text)

theorem down_of_reply {resp : Bytes} (h : ReplyBelow rank qname resp)
    (hrows : HeadShows rows (replyFirst resp)) : Down rank qname rows := by
  refine hrows.down h fun r _ htype t ht => ?_
  rw [htype] at ht
  exact searchable_of_alias ht

theorem down_of_entry {e : CacheEntry} (h : EntryBelow rank qname e)
    (hrows : HeadShows rows (entryFirst e)) : Down rank qname rows := by
  refine hrows.down h fun r _ htype t ht => ?_
  unfold CacheRR.text at ht
  split at ht
  · cases ht
  · rw [htype] at ht
    exact searchable_of_alias ht

/-! ## Programs without calls -/

section Costs

variable {cfg : Config} {C : Crypto} {anchors : List Bytes} {rank : Text → Nat}

variable (cfg C anchors rank) in
/-- The program ends within `n` nested calls, as long as aliases are ranked. -/
abbrev Costs {α : Type} (n : Nat) (p : R α) (Q : α → Prop) : Prop :=
  Prog.Within (dnsResolveCore cfg C anchors) (Ranked rank) n p Q

variable {A : (o : Op) → o.Res → Prop}

theorem costs_answerText (pkt : Bytes) (rdoff rdlen type : Nat) :
    Prog.Within (dnsResolveCore cfg C anchors) A 0 (answerText pkt rdoff rdlen type) fun t =>
      ∀ t', rdataText pkt rdoff rdlen type = some t' → t = t' := by
  unfold answerText
  refine within_ite (fun hout => within_perform ?_) fun hin => ?_
  · intro r _ t' ht'
    rw [rdataText, if_pos hout] at ht'
    cases ht'
  · cases ht : rdataToStr pkt rdoff rdlen type 512 with
    | some t =>
      refine within_pure ?_
      intro t' ht'
      rw [rdataText, if_neg hin, ht] at ht'
      exact some.inj ht'
    | none =>
      refine within_perform ?_
      intro r _ t' ht'
      rw [rdataText, if_neg hin, ht] at ht'
      cases ht'

theorem costs_answerRows (resp : Bytes) :
    ∀ as : List RawAnswer, Costs cfg C anchors rank 0 (answerRows resp as) fun rows =>
      HeadShows rows (as.head?.map fun r => (r.type, rdataText resp r.rdoff r.rdlen r.type))
  | [] => within_pure nofun
  | r :: as => by
    unfold answerRows
    refine (costs_answerText _ _ _ _).bind_free fun text htext => ?_
    refine (costs_answerRows resp as).bind_free fun rest _ => ?_
    refine within_pure fun a ha => ?_
    cases ha
    exact ⟨_, rfl, rfl, htext⟩

theorem costs_populate (resp : Bytes) :
    Costs cfg C anchors rank 0 (populate resp) fun rows => HeadShows rows (replyFirst resp) := by
  unfold populate replyFirst firstAnswer
  split
  · exact within_pure nofun
  · rename_i off hoff
    rw [hoff]
    exact costs_answerRows resp _

theorem costs_cachedText (r : CacheRR) :
    Prog.Within (dnsResolveCore cfg C anchors) A 0 (cachedText r) fun t =>
      ∀ t', r.text = some t' → t = t' := by
  unfold cachedText
  refine within_ite (fun hlong => within_perform ?_) fun hshort => ?_
  · intro t _ t' ht'
    rw [CacheRR.text, if_pos hlong] at ht'
    cases ht'
  · refine (costs_answerText _ _ _ _).mono (Nat.le_refl _) ?_
    intro t ht t' ht'
    rw [CacheRR.text, if_neg hshort] at ht'
    exact ht t' ht'

theorem costs_cachedRows (qname : Text) (now : Nat) :
    ∀ rs : List CacheRR,
      Prog.Within (dnsResolveCore cfg C anchors) A 0 (cachedRows qname now rs) fun rows =>
        HeadShows rows (rs.head?.map fun r => (r.type, r.text))
  | [] => within_pure nofun
  | r :: rs => by
    unfold cachedRows
    refine (costs_cachedText r).bind_free fun text htext => ?_
    refine (costs_cachedRows qname now rs).bind_free fun rest _ => ?_
    refine within_pure fun a ha => ?_
    cases ha
    exact ⟨_, rfl, rfl, htext⟩

theorem costs_prefetchIfDue (ce : CacheEntry) (qname : Text) (remaining : Nat) :
    Prog.Within (dnsResolveCore cfg C anchors) A 0 (prefetchIfDue ce qname remaining)
      fun _ => True :=
  within_ite (fun _ => within_perform fun _ _ => trivial) fun _ =>
    within_pure trivial

/-- A cached entry is served without a call, whatever the operations return. -/
theorem headShows_serveCachedEntry (n : Nat) (ce : CacheEntry) (qname : Text) :
    Prog.Within (dnsResolveCore cfg C anchors) A n (serveCachedEntry ce qname) fun v =>
      HeadShows v.2.answers (entryFirst ce) := by
  unfold serveCachedEntry
  refine within_perform_bind fun now _ => ?_
  refine (costs_prefetchIfDue _ _ _).bind_free fun _ _ => ?_
  refine within_ite (fun _ => within_pure nofun) fun _ => ?_
  refine (costs_cachedRows _ _ _).bind_free fun rows hrows => within_pure ?_
  -- the first of the first 32 records
  cases hrrs : ce.rrs with
  | nil => simpa [entryFirst, hrrs] using hrows
  | cons r rs => simpa [entryFirst, hrrs, maxAnswers] using hrows

theorem costs_serveCachedEntry {n : Nat} {ce : CacheEntry} {key qname : Text}
    (h : EntryBelow rank key ce) :
    Costs cfg C anchors rank n (serveCachedEntry ce qname) fun v => Down rank key v.2.answers :=
  (headShows_serveCachedEntry n ce qname).mono (Nat.le_refl _) fun _ => down_of_entry h

theorem costs_cacheServfail (qname : Text) (qtype : Nat) :
    Costs cfg C anchors rank 0 (cacheServfail cfg qname qtype) fun _ => True := by
  unfold cacheServfail
  refine within_ite (fun _ => within_pure trivial) fun _ => ?_
  refine within_perform_bind fun now _ => ?_
  exact within_perform_bind fun _ _ => within_perform fun _ _ => trivial

theorem costs_insertProofs (ttlSecs now : Nat) :
    ∀ ps : List NsecProof, Costs cfg C anchors rank 0 (insertProofs ttlSecs now ps) fun _ => True
  | [] => within_pure trivial
  | _ :: ps => within_perform_bind fun _ _ => costs_insertProofs ttlSecs now ps

/-- An entry that is served as stale keeps its records. -/
theorem serveWindow_rrs {e e' : CacheEntry} {allowStale : Bool} {now : Nat}
    (h : serveWindow cfg e allowStale now = some e') : e'.rrs = e.rrs := by
  unfold serveWindow at h
  split at h
  · split at h
    · cases h
    · cases h
      rfl
  · cases h
    rfl

theorem costs_cacheAttempt (qname : Text) (qtype : Nat) (allowStale : Bool) :
    Costs cfg C anchors rank 0 (cacheAttempt cfg qname qtype allowStale)
      (Told (EntryBelow rank qname)) := by
  unfold cacheAttempt
  refine within_perform_bind fun now _ => ?_
  refine within_perform_bind fun hit hhit => ?_
  cases hit with
  | some ce => exact within_pure hhit
  | none =>
    refine within_perform_bind fun stored hstored => ?_
    cases stored with
    | none => exact within_pure nofun
    | some e =>
      refine within_pure fun e' he' => ?_
      have hbelow := hstored e rfl
      unfold EntryBelow at hbelow ⊢
      rwa [serveWindow_rrs he']

theorem costs_mdnsAttempt (qname : Text) (qtype : Nat) :
    Costs cfg C anchors rank 0 (mdnsAttempt cfg qname qtype)
      (Told fun result => Down rank qname result.answers) := by
  unfold mdnsAttempt
  refine within_ite (fun _ => within_pure nofun) fun _ => ?_
  refine within_perform_bind fun reply hreply => ?_
  cases reply with
  | none => exact within_pure nofun
  | some mresp =>
    refine within_perform_bind fun now _ => ?_
    cases parseResponseToEntry cfg mresp qname qtype now with
    | none => exact within_pure nofun
    | some e =>
      refine within_ite (fun _ => within_pure nofun) fun _ => ?_
      refine within_perform_bind fun _ _ => ?_
      refine within_perform_bind fun _ _ => ?_
      refine (costs_populate _).bind_free fun rows hrows => ?_
      refine within_ite (fun _ => within_pure nofun) fun _ => ?_
      refine within_pure fun result hresult => ?_
      cases hresult
      exact down_of_reply (hreply mresp rfl) hrows

/-! ## Programs with calls -/

/-- The nested calls of a name with `r` aliases behind it, when it has a dot. -/
def aliasCalls (searchDomains r : Nat) : Nat := (searchDomains + 2) ^ r - 1

/-- The nested calls of any name with `r` aliases behind it. -/
def nestedCalls (searchDomains r : Nat) : Nat := (searchDomains + 1) * (searchDomains + 2) ^ r - 1

/-- The first target, and the hops behind it. -/
theorem aliasCalls_succ (s r : Nat) :
    aliasCalls s (r + 1) = nestedCalls s r + aliasCalls s r + 1 := by
  have hpos : 0 < (s + 2) ^ r := Nat.pow_pos (by omega)
  have hmul : (s + 2) ^ (r + 1) = (s + 1) * (s + 2) ^ r + (s + 2) ^ r := by ring
  have hle : (s + 2) ^ r ≤ (s + 1) * (s + 2) ^ r := Nat.le_mul_of_pos_left _ (by omega)
  rw [aliasCalls, aliasCalls, nestedCalls, hmul]
  omega

/-- Each search domain, then the name itself. -/
theorem nestedCalls_eq (s r : Nat) :
    nestedCalls s r = s * (aliasCalls s r + 1) + aliasCalls s r := by
  have hpos : 0 < (s + 2) ^ r := Nat.pow_pos (by omega)
  rw [nestedCalls, aliasCalls, Nat.sub_add_cancel hpos, Nat.add_mul]
  omega

theorem nestedCalls_mono {s r r' : Nat} (h : r ≤ r') : nestedCalls s r ≤ nestedCalls s r' :=
  Nat.sub_le_sub_right (Nat.mul_le_mul_left _ (Nat.pow_le_pow_right (by omega) h)) 1

variable (cfg C anchors rank) in
/-- The calls for names of a rank below `r` are bounded. -/
def BoundedBelow (r : Nat) : Prop :=
  ∀ x : Text × Nat, rank (resolvedName x.1) < r → Searchable (resolvedName x.1) →
    Costs cfg C anchors rank (nestedCalls cfg.searchDomains.length (rank (resolvedName x.1)))
      (dnsResolveCore cfg C anchors x) fun v => Down rank (resolvedName x.1) v.2.answers

/-- Following an alias: the ranks of the targets fall from hop to hop. -/
theorem costs_chase {r : Nat} (hrec : BoundedBelow cfg C anchors rank r) (qtype : Nat) :
    ∀ (hops m : Nat) (target : Text) (result : ResolveResult), m ≤ r →
      rank (resolvedName target) < m → Searchable (resolvedName target) → result.answers ≠ [] →
      Costs cfg C anchors rank (aliasCalls cfg.searchDomains.length m)
        (chase qtype hops target result) fun v => v.answers.head? = result.answers.head?
  | 0, _, _, _, _, _, _, _ => within_pure rfl
  | hops + 1, m, target, result, hm, hrank, hname, hne => by
    obtain ⟨m, rfl⟩ : ∃ m', m = m' + 1 := ⟨m - 1, by omega⟩
    unfold chase
    refine within_ite (fun _ => within_pure rfl) fun _ => ?_
    have hlow : rank (resolvedName target) < r := by omega
    have hcall : Costs cfg C anchors rank
        (nestedCalls cfg.searchDomains.length (rank (resolvedName target)))
        (dnsResolveCore cfg C anchors (target, qtype)) fun v =>
          Down rank (resolvedName target) v.2.answers := hrec (target, qtype) hlow hname
    have hhead : ∀ rows : List Answer,
        ((result.answers ++ rows).take maxAnswers).head? = result.answers.head? := by
      intro rows
      obtain ⟨a, as, has⟩ := exists_cons_of_ne_nil hne
      rw [has]
      rfl
    rw [aliasCalls_succ]
    refine (Prog.within_recurse_bind (n := aliasCalls cfg.searchDomains.length m)
      (hcall.mono (nestedCalls_mono (by omega)) fun _ => id) fun v hv => ?_)
    refine within_ite (fun _ => within_pure rfl) fun _ => ?_
    cases hsub : v.2.answers with
    | nil => exact within_pure (hhead _)
    | cons a rest =>
      refine within_ite (fun hcname => ?_) fun _ => within_pure (hhead _)
      obtain ⟨hlt, hnext⟩ := hv a (by rw [hsub]; rfl) hcname
      have hne' : ((result.answers ++ (a :: rest)).take maxAnswers) ≠ [] := by
        intro hnil
        have := hhead (a :: rest)
        rw [hnil] at this
        exact hne (head?_eq_none_iff.mp this.symm)
      refine (costs_chase hrec qtype hops m (safeStrcpy a.text 256) _ (by omega) ?_ ?_ hne').mono
        (Nat.le_refl _) fun v hv => ?_
      · rw [resolvedName_safeStrcpy]
        exact lt_of_lt_of_le hlt (by omega)
      · rwa [resolvedName_safeStrcpy]
      · rw [hv, hhead]

theorem costs_finish (hrec : BoundedBelow cfg C anchors rank (rank qname)) {resp : Bytes}
    (h : ReplyBelow rank qname resp) (qtype : Nat) (result : ResolveResult) :
    Costs cfg C anchors rank (aliasCalls cfg.searchDomains.length (rank qname))
      (finish resp qtype result) fun v => Down rank qname v.2.answers := by
  unfold finish
  refine (costs_populate _).bind_free fun rows hrows => ?_
  have hdown := down_of_reply h hrows
  cases rows with
  | nil => exact within_pure nofun
  | cons a rest =>
    refine within_ite (fun halias => ?_) fun _ => within_pure hdown
    obtain ⟨hlt, hname⟩ := hdown a rfl halias.1
    rw [← resolvedName_safeStrcpy] at hlt hname
    have hchase := costs_chase hrec qtype maxCnameHops (rank qname) _
      { result with answers := a :: rest } (Nat.le_refl _) hlt hname (cons_ne_nil a rest)
    refine Prog.Within.bind hchase fun v hv => within_pure (n := 0) ?_
    intro b hb
    rw [hv] at hb
    exact hdown b hb

theorem costs_acceptReply (hrec : BoundedBelow cfg C anchors rank (rank qname)) {rep : Reply}
    (h : ReplyBelow rank qname rep.resp) (qtype : Nat) :
    Costs cfg C anchors rank (aliasCalls cfg.searchDomains.length (rank qname))
      (acceptReply cfg C anchors rep qname qtype) fun v => Down rank qname v.2.answers := by
  unfold acceptReply
  refine within_perform_bind fun now _ => ?_
  cases parseResponseToEntry cfg rep.resp qname qtype now with
  | none => exact costs_finish hrec h _ _
  | some e =>
    refine (costs_insertProofs _ _ _).bind_free fun _ _ => ?_
    refine within_ite (fun _ => within_pure nofun) fun _ => ?_
    refine within_perform_bind fun _ _ => ?_
    exact within_perform_bind fun _ _ => costs_finish hrec h _ _

theorem costs_upstreamFailed {n : Nat} (qname : Text) (qtype rcode : Nat) :
    Costs cfg C anchors rank n (upstreamFailed cfg qname qtype rcode) fun v =>
      Down rank qname v.2.answers := by
  unfold upstreamFailed
  refine (costs_cacheAttempt _ _ _).bind_free fun stale hstale => ?_
  cases stale with
  | some sce => exact costs_serveCachedEntry (hstale sce rfl)
  | none =>
    refine (costs_cacheServfail _ _).bind_free fun _ _ => ?_
    exact within_pure nofun

theorem costs_resolveExact (hrec : BoundedBelow cfg C anchors rank (rank qname)) (qtype : Nat) :
    Costs cfg C anchors rank (aliasCalls cfg.searchDomains.length (rank qname))
      (resolveExact cfg C anchors qname qtype) fun v => Down rank qname v.2.answers := by
  unfold resolveExact
  refine (costs_cacheAttempt _ _ _).bind_free fun hit hhit => ?_
  cases hit with
  | some ce => exact costs_serveCachedEntry (hhit ce rfl)
  | none =>
    refine within_perform_bind fun now _ => ?_
    refine within_perform_bind fun span _ => ?_
    cases span with
    | some isNxdomain => exact within_pure nofun
    | none =>
      unfold upstreamAttempt
      refine within_perform_bind fun reply hreply => ?_
      cases reply with
      | none => exact costs_upstreamFailed _ _ _
      | some rep =>
        refine within_ite (fun _ => costs_upstreamFailed _ _ _) fun _ => ?_
        refine within_ite (fun _ => costs_upstreamFailed _ _ _) fun _ => ?_
        exact costs_acceptReply hrec (hreply rep rfl) qtype

/-- A name with a dot is not expanded. -/
theorem costs_dotted {x : Text × Nat} (hdot : dot ∈ resolvedName x.1)
    (hrec : BoundedBelow cfg C anchors rank (rank (resolvedName x.1))) :
    Costs cfg C anchors rank (aliasCalls cfg.searchDomains.length (rank (resolvedName x.1)))
      (dnsResolveCore cfg C anchors x) fun v => Down rank (resolvedName x.1) v.2.answers := by
  unfold dnsResolveCore
  refine (costs_mdnsAttempt _ _).bind_free fun local? hlocal => ?_
  cases local? with
  | some r => exact within_pure (hlocal r rfl)
  | none =>
    refine within_ite (fun hsearch => ?_) fun _ => costs_resolveExact hrec _
    exact absurd (contains_iff_mem.mpr hdot) hsearch.2

/-- The search domains: each expanded name has a dot and no more aliases behind it. -/
theorem costs_searchAttempt (qtype : Nat) (hshort : qname.length ≤ 254)
    (hrec : BoundedBelow cfg C anchors rank (rank qname)) :
    ∀ ds : List Text, (∀ d ∈ ds, rank (resolvedName (qname ++ [dot] ++ d)) ≤ rank qname) →
      Costs cfg C anchors rank
        (ds.length * (aliasCalls cfg.searchDomains.length (rank qname) + 1))
        (searchAttempt qname qtype ds) (Told fun result => Down rank qname result.answers)
  | [], _ => within_pure nofun
  | d :: ds, hds => by
    unfold searchAttempt
    have hle := hds d mem_cons_self
    have hdot := dot_mem_expanded hshort d
    have hcall : Costs cfg C anchors rank (aliasCalls cfg.searchDomains.length (rank qname))
        (dnsResolveCore cfg C anchors (safeStrcpy (qname ++ [dot] ++ d) 256, qtype)) fun v =>
          Down rank qname v.2.answers := by
      have hsame := resolvedName_safeStrcpy (qname ++ [dot] ++ d)
      rw [← hsame] at hle hdot
      refine (costs_dotted hdot fun y hy => hrec y (lt_of_lt_of_le hy hle)).mono
        (Nat.sub_le_sub_right (Nat.pow_le_pow_right (by omega) hle) 1) ?_
      intro v hv a ha hcname
      obtain ⟨hlt, hname⟩ := hv a ha hcname
      exact ⟨lt_of_lt_of_le hlt hle, hname⟩
    have hrest := costs_searchAttempt qtype hshort hrec ds fun d' hd' =>
      hds d' (mem_cons_of_mem _ hd')
    rw [length_cons, Nat.add_mul, Nat.one_mul]
    refine (Prog.within_recurse_bind
      (n := ds.length * (aliasCalls cfg.searchDomains.length (rank qname) + 1)) hcall
      fun v hv => ?_).mono (by omega) fun _ => id
    refine within_ite (fun _ => within_pure ?_) fun _ => hrest
    intro result hresult
    cases hresult
    exact hv

/-- Names that can be ranked: a search domain does not put aliases behind a name. -/
def SearchKeeps (cfg : Config) (rank : Text → Nat) : Prop :=
  ∀ qname, dot ∉ qname → qname.length ≤ 254 → ∀ d ∈ cfg.searchDomains,
    rank (resolvedName (qname ++ [dot] ++ d)) ≤ rank qname

theorem costs_dnsResolveCore (hsearch : SearchKeeps cfg rank) (r : Nat) :
    BoundedBelow cfg C anchors rank r := by
  -- strong induction on the rank: a nested call for an alias has a smaller one
  induction r with
  | zero => exact fun x hx => absurd hx (Nat.not_lt_zero _)
  | succ r ih =>
    intro x hx hname
    have hrec : BoundedBelow cfg C anchors rank (rank (resolvedName x.1)) := fun y hy =>
      ih y (by omega)
    by_cases hdot : dot ∈ resolvedName x.1
    · refine (costs_dotted hdot hrec).mono ?_ fun _ => id
      rw [nestedCalls_eq]
      omega
    · have hshort : (resolvedName x.1).length ≤ 254 := hname.resolve_left hdot
      rw [nestedCalls_eq]
      unfold dnsResolveCore
      refine (costs_mdnsAttempt _ _).bind_free fun local? hlocal => ?_
      cases local? with
      | some res => exact within_pure (hlocal res rfl)
      | none =>
        refine within_ite (fun _ => ?_) fun _ => ?_
        · refine (costs_searchAttempt x.2 hshort hrec cfg.searchDomains
            (hsearch _ hdot hshort)).bind fun sub hsub => ?_
          cases sub with
          | some res => exact within_pure (hsub res rfl)
          | none => exact costs_resolveExact hrec _
        · exact (costs_resolveExact hrec _).mono (Nat.le_add_left _ _) fun _ => id

end Costs

/-! ## Bounded chains -/

/-- **Ranked aliases bound the nested calls.** In every interleaving: if every alias the resolver is
told leads to a name of smaller rank, and the queried name has at most rank `MAX_CNAME_HOPS`, the
call has made at most `(s + 1) * (s + 2) ^ MAX_CNAME_HOPS - 1` nested calls with `s` search domains,
its open calls are not more, and it has no endless run. -/
theorem calls_bounded {cfg : Config} {C : Crypto} {anchors : List Bytes} {rank : Text → Nat}
    {s : Shared} {ts : List (Thread Op Op.Res (Text × Nat) (Int × ResolveResult))}
    {evs : List (Machine.Event Op Op.Res)}
    {c : Machine.Conf Op Op.Res (Text × Nat) (Int × ResolveResult) Shared} {i : Nat}
    {x : Text × Nat} (hrun : (resolver cfg C anchors).Run ⟨s, ts⟩ evs c)
    (hthread : ts[i]? = some ⟨dnsResolveCore cfg C anchors x, []⟩)
    (hranked : ∀ e ∈ evs, Ranked rank e.1 e.2) (hsearch : SearchKeeps cfg rank)
    (hname : Searchable (resolvedName x.1)) (hrank : rank (resolvedName x.1) ≤ maxCnameHops) :
    ∃ n t, c.threads[i]? = some t ∧
      Thread.CallRun (dnsResolveCore cfg C anchors) (Ranked rank) n
        ⟨dnsResolveCore cfg C anchors x, []⟩ t ∧
      n ≤ (cfg.searchDomains.length + 1) * (cfg.searchDomains.length + 2) ^ maxCnameHops - 1 ∧
      t.stack.length ≤ n ∧
      Acc (Thread.Before (dnsResolveCore cfg C anchors) (Ranked rank))
        ⟨dnsResolveCore cfg C anchors x, []⟩ := by
  have hcost : Thread.Within (dnsResolveCore cfg C anchors) (Ranked rank) _
      (nestedCalls cfg.searchDomains.length maxCnameHops) ⟨dnsResolveCore cfg C anchors x, []⟩ :=
    .last ((costs_dnsResolveCore hsearch _ x (Nat.lt_succ_of_le hrank) hname).mono
      (nestedCalls_mono hrank) fun _ => id)
  obtain ⟨n, t, ht, hcalls⟩ := hrun.callRun hranked hthread
  have hstack := hcalls.stack_le
  rw [length_nil, Nat.zero_add] at hstack
  exact ⟨n, t, ht, hcalls, hcost.calls_le hcalls, hstack, hcost.acc⟩

instance (rank : Text → Nat) (qname : Text) (type : Nat) (text : Option Text) :
    Decidable (AliasBelow rank qname type text) :=
  decidable_of_iff (type = CNAME →
    (text.any fun t => decide (rank (resolvedName t) < rank qname)) = true) <| by
    cases text <;> simp [AliasBelow]

instance decTold {α : Type} (P : α → Prop) [DecidablePred P] (r : Option α) :
    Decidable (Told P r) :=
  inferInstanceAs (Decidable (∀ a ∈ r, P a))

instance (rank : Text → Nat) (qname : Text) (resp : Bytes) :
    Decidable (ReplyBelow rank qname resp) :=
  inferInstanceAs (Decidable (∀ r ∈ firstAnswer resp,
    AliasBelow rank qname r.type (rdataText resp r.rdoff r.rdlen r.type)))

instance (rank : Text → Nat) (qname : Text) (e : CacheEntry) :
    Decidable (EntryBelow rank qname e) :=
  inferInstanceAs (Decidable (∀ r ∈ e.rrs.head?, AliasBelow rank qname r.type r.text))

instance (rank : Text → Nat) : (o : Op) → (r : o.Res) → Decidable (Ranked rank o r)
  | .mdnsQuery qname _, r => decTold (ReplyBelow rank qname) r
  | .cacheLookup qname _ _ _, r => decTold (EntryBelow rank qname) r
  | .loadPersist qname _, r => decTold (EntryBelow rank qname) r
  | .upstreamQuery .foreground qname _, r =>
    decTold (fun rep : Reply => ReplyBelow rank qname rep.resp) r
  | .upstreamQuery .prefetch _ _, _ => isTrue trivial
  | .time, _ | .aggressiveAnswer _ _ _, _ | .cacheInsert _ _, _ | .storePersist _, _
  | .aggressiveInsert _ _ _, _ | .prefetchAsync _ _, _ | .bufferText, _ => isTrue trivial

/-! ## An alias that is followed, and one that never ends -/

/-- A reply to a query for `name` with an alias of it, with the given TTL. -/
def aliasAnswer (name target : Text) (ttl : Nat) : Option Bytes := do
  let m ← messageStart 7 0x8180 1 0 0 name RRType.A
  let w ← nameToWire target 256
  appendRRPlain m 512 name CNAME RRClass.IN ttl w

/-- The world at time `now` in which upstream answers `c.d` with the alias `a.b` of it, and
everything else with the address of `a.b`. -/
def aliasWorld (now : Nat) : (o : Op) → o.Res
  | .upstreamQuery _ qname _ =>
    (if qname = lit "c.d" then aliasAnswer (lit "c.d") (lit "a.b") 100 else plainAnswer).map
      fun b => ⟨b, Env.sample.fetch⟩
  | o => world now none none o

/-- A query for the address of `name`. -/
def aliasQuery (name : Text) : R (Int × ResolveResult) :=
  dnsResolveCore sampleConfig .sample Env.sample.anchors (name, RRType.A)

/-- A thread driven alone in a world. -/
def aliasDrive (outside : (o : Op) → o.Res) (steps : Nat) (s : Shared)
    (t : Thread Op Op.Res (Text × Nat) (Int × ResolveResult)) :
    Machine.Driven Op Op.Res (Text × Nat) (Int × ResolveResult) Shared :=
  (resolver sampleConfig .sample Env.sample.anchors).drive
    (act sampleConfig .sample outside) steps s t

/-- A driven thread is a run. -/
theorem run_aliasDrive (outside : (o : Op) → o.Res) (steps : Nat) (s : Shared)
    (t : Thread Op Op.Res (Text × Nat) (Int × ResolveResult)) :
    sampleResolver.Run ⟨s, [t]⟩ (aliasDrive outside steps s t).events
      ⟨(aliasDrive outside steps s t).shared, [(aliasDrive outside steps s t).thread]⟩ := by
  have hact : ∀ (s : Shared) (o : Op), sampleResolver.exec s o
      (act sampleConfig .sample outside s o).1 (act sampleConfig .sample outside s o).2 :=
    fun s o => ⟨outside, rfl⟩
  have hrun : sampleResolver.Run ⟨s, [] ++ t :: []⟩ _ ⟨_, [] ++ _ :: []⟩ :=
    Machine.run_drive hact steps s t
  exact hrun

/-- The query for `c.d`, driven to its end. -/
def aliasRun : Machine.Driven Op Op.Res (Text × Nat) (Int × ResolveResult) Shared :=
  aliasDrive (aliasWorld 1000) 40 ⟨[], ⟨[], 0⟩, []⟩ ⟨aliasQuery (lit "c.d"), []⟩

/-- The rank of the sample: the alias stands over its target. -/
def aliasRank (name : Text) : Nat := if name = lit "c.d" then 1 else 0

/-- The alias `c.d` of `a.b` is followed within the bound. -/
theorem calls_bounded_alias :
    ∃ n, Thread.CallRun (dnsResolveCore sampleConfig .sample Env.sample.anchors)
        (Ranked aliasRank) n ⟨aliasQuery (lit "c.d"), []⟩ aliasRun.thread ∧
      n ≤ 2 ^ maxCnameHops - 1 ∧ aliasRun.thread.stack.length ≤ n := by
  have hsearch : SearchKeeps sampleConfig aliasRank := fun _ _ _ d hd => nomatch hd
  have hranked : ∀ e ∈ aliasRun.events, Ranked aliasRank e.1 e.2 := by decide +kernel
  obtain ⟨n, t, ht, hcalls, hn, hstack, -⟩ := calls_bounded (i := 0)
    (x := (lit "c.d", RRType.A)) (run_aliasDrive (aliasWorld 1000) 40 ⟨[], ⟨[], 0⟩, []⟩ _) rfl
      hranked
    hsearch (.inl (by decide)) (by decide)
  cases ht
  exact ⟨n, hcalls, by simpa [sampleConfig] using hn, hstack⟩

/-- The world in which `a.b` is an alias of itself that must not be kept. -/
def loopWorld : (o : Op) → o.Res := world 1000 (aliasAnswer (lit "a.b") (lit "a.b") 0) none

/-- The query for `a.b` over some open calls, driven to its nested call. -/
def loopDrive (s : Shared) (frames : List (Int × ResolveResult → R (Int × ResolveResult))) :
    Machine.Driven Op Op.Res (Text × Nat) (Int × ResolveResult) Shared :=
  aliasDrive loopWorld 9 s ⟨aliasQuery (lit "a.b"), frames⟩

/-- The shared state at the nested call: the alias is in the cache, expired. -/
def loopState : Shared := (loopDrive ⟨[], ⟨[], 0⟩, []⟩ []).shared

/-- The thread is in front of a call for the same name, with no other call open. -/
def atLoopCall (t : Thread Op Op.Res (Text × Nat) (Int × ResolveResult)) : Bool :=
  match t with
  | ⟨.call y _, []⟩ => y == (lit "a.b", RRType.A)
  | _ => false

theorem eq_of_atLoopCall {t : Thread Op Op.Res (Text × Nat) (Int × ResolveResult)}
    (h : atLoopCall t = true) : ∃ k, t = ⟨.call (lit "a.b", RRType.A) k, []⟩ := by
  unfold atLoopCall at h
  split at h
  · rename_i y k
    obtain rfl : y = (lit "a.b", RRType.A) := by simpa using h
    exact ⟨k, rfl⟩
  · cases h

/-- One round: a query for the alias opens a call for the alias. -/
theorem loop_round {s : Shared} (hcall : atLoopCall (loopDrive s []).thread = true)
    (hstate : (loopDrive s []).shared = loopState)
    (below : List (Int × ResolveResult → R (Int × ResolveResult))) :
    ∃ evs k, sampleResolver.Run ⟨s, [⟨aliasQuery (lit "a.b"), below⟩]⟩ evs
      ⟨loopState, [⟨aliasQuery (lit "a.b"), k :: below⟩]⟩ := by
  obtain ⟨k, hk⟩ := eq_of_atLoopCall hcall
  have hbelow : loopDrive s below = ⟨loopState, ⟨.call (lit "a.b", RRType.A) k, below⟩,
      (loopDrive s []).events⟩ := by
    have happ : loopDrive s below = ⟨(loopDrive s []).shared, ⟨(loopDrive s []).thread.top,
        (loopDrive s []).thread.stack ++ below⟩, (loopDrive s []).events⟩ :=
      Machine.drive_append below 9 s (aliasQuery (lit "a.b")) []
        fun v hv => by cases hk.symm.trans hv
    rwa [hk, hstate] at happ
  have hrun := run_aliasDrive loopWorld 9 s ⟨aliasQuery (lit "a.b"), below⟩
  change sampleResolver.Run _ (loopDrive s below).events
    ⟨(loopDrive s below).shared, [(loopDrive s below).thread]⟩ at hrun
  rw [hbelow] at hrun
  have hstep : sampleResolver.Step
      ⟨loopState, [] ++ ⟨.call (lit "a.b", RRType.A) k, below⟩ :: []⟩ []
      ⟨loopState, [] ++ ⟨aliasQuery (lit "a.b"), k :: below⟩ :: []⟩ := .call
  exact ⟨_, k, hrun.tail hstep⟩

/-- **The recursion over aliases has no bound**: when `a.b` is an alias of itself with TTL 0, the
query for `a.b` has no number that bounds the open calls in all its runs. -/
theorem alias_recursion_unbounded :
    ¬∃ N, ∀ evs s t, (resolver sampleConfig .sample Env.sample.anchors).Run
      ⟨⟨[], ⟨[], 0⟩, []⟩,
        [⟨dnsResolveCore sampleConfig .sample Env.sample.anchors (lit "a.b", RRType.A), []⟩]⟩ evs
      ⟨s, [t]⟩ → t.stack.length ≤ N := by
  have hfirst : atLoopCall (loopDrive ⟨[], ⟨[], 0⟩, []⟩ []).thread = true := by decide +kernel
  have hagain : atLoopCall (loopDrive loopState []).thread = true := by decide +kernel
  have hstate : (loopDrive loopState []).shared = loopState := by decide +kernel
  -- each round starts the query again, one frame deeper
  have hdeep : ∀ N, ∃ evs s st, sampleResolver.Run
      ⟨⟨[], ⟨[], 0⟩, []⟩, [⟨aliasQuery (lit "a.b"), []⟩]⟩ evs
      ⟨s, [⟨aliasQuery (lit "a.b"), st⟩]⟩ ∧ st.length = N ∧
      atLoopCall (loopDrive s []).thread = true ∧ (loopDrive s []).shared = loopState := by
    intro N
    induction N with
    | zero => exact ⟨[], _, [], .refl _, rfl, hfirst, rfl⟩
    | succ N ih =>
      obtain ⟨evs, s, st, hrun, rfl, hcall, hnext⟩ := ih
      obtain ⟨evs', k, hround⟩ := loop_round hcall hnext st
      exact ⟨_, _, k :: st, hrun.trans hround, rfl, hagain, hstate⟩
  rintro ⟨N, hN⟩
  obtain ⟨evs, s, st, hrun, hlen, -⟩ := hdeep (N + 1)
  have hle := hN evs s _ hrun
  dsimp only at hle
  omega

end SimpleDns.Resolver
