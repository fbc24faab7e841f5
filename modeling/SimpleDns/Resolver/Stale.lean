import SimpleDns.Lib.Trace
import SimpleDns.Resolver.Aliases

/-!
# Serving stale data (RFC 8767)

An entry of the memory cache, and the runs of the resolver in which it is neither evicted nor
flushed (`keeping`), while every exchange for its key fails.

* `Meanwhile`: what the outside does in such a run. The clock stays in the window of the entry, the
  persistent tier has no fresher copy, no denial span covers the key.
* `StaleServed`: every query for the key ends, and is answered from the entry.
* **`served_through_failures`**: so it is, if a failing exchange brings no reply or SERVFAIL, for a
  name that is looked up as it is (neither multicast nor a search domain comes first).
* **`refusal_replaces_entry`**: a reply REFUSED is stored, and the entry is gone.
-/

namespace SimpleDns.Resolver

open Wire Lib List
open Prog (within_pure within_perform_bind)

/-! ## The entry of a key -/

/-- The name and the type are looked up as the key is. -/
def Concerns (k : Text × Nat) (qname : Text) (qtype : Nat) : Prop :=
  cacheHash qname qtype = cacheHash k.1 k.2 ∧ qtype = k.2 ∧ eqCI qname k.1 = true

/-- The entry is the one of the key. -/
def Holds (k : Text × Nat) (e : CacheEntry) (c : Cache) : Prop :=
  c.filter (·.hasKey k.1 k.2) = [e]

instance (k : Text × Nat) (e : CacheEntry) (c : Cache) : Decidable (Holds k e c) :=
  inferInstanceAs (Decidable (_ = _))

variable {k : Text × Nat} {e : CacheEntry} {c c' : Cache} {cfg : Config}

variable {x : CacheEntry}

theorem hasKey_iff : x.hasKey k.1 k.2 = true ↔ Concerns k x.qname x.qtype := by
  simp [CacheEntry.hasKey, Concerns, and_assoc]

variable {qname : Text} {qtype : Nat}

/-- Two keys that concern each other have the same entries. -/
theorem Concerns.hasKey (h : Concerns k qname qtype) (x : CacheEntry) :
    x.hasKey qname qtype = x.hasKey k.1 k.2 := by
  obtain ⟨hhash, rfl, hname⟩ := h
  rw [CacheEntry.hasKey, CacheEntry.hasKey, hhash, eqCI, eqCI, eqCI_iff.mp hname]

/-- An entry that both keys find makes them concern each other. -/
theorem concerns_of_hasKey (h : x.hasKey qname qtype = true) (hk : x.hasKey k.1 k.2 = true) :
    Concerns k qname qtype := by
  obtain ⟨hhash, htype, hname⟩ := hasKey_iff (k := (qname, qtype)).mp h
  obtain ⟨hhash', htype', hname'⟩ := hasKey_iff.mp hk
  refine ⟨hhash.symm.trans hhash', htype.symm.trans htype', eqCI_iff.mpr ?_⟩
  exact (eqCI_iff.mp hname).symm.trans (eqCI_iff.mp hname')

theorem Holds.mem (h : Holds k e c) : e ∈ c ∧ e.hasKey k.1 k.2 = true :=
  mem_filter.mp (h ▸ mem_singleton_self e)

/-- What is left of a cache in which the key still has an entry. -/
theorem Holds.of_sublist (h : Holds k e c) (hsub : c'.Sublist c)
    (hkept : ∃ x ∈ c', x.hasKey k.1 k.2 = true) : Holds k e c' := by
  obtain ⟨x, hx, hkey⟩ := hkept
  have hle : (c'.filter (·.hasKey k.1 k.2)).Sublist [e] := h ▸ hsub.filter _
  rcases sublist_singleton.mp hle with hnil | hone
  · exact absurd hnil (ne_nil_of_mem (mem_filter.mpr ⟨hx, hkey⟩))
  · exact hone

/-- A lookup finds the entry, and moves what it finds to the front. -/
theorem Holds.cacheLookup (h : Holds k e c) (qname : Text) (qtype : Nat) (allowStale : Bool)
    (now : Nat) :
    (Concerns k qname qtype →
      (cacheLookup cfg c qname qtype allowStale now).1 = serveWindow cfg e allowStale now) ∧
    Holds k e (cacheLookup cfg c qname qtype allowStale now).2 := by
  unfold Resolver.cacheLookup
  cases hfind : c.find? (·.hasKey qname qtype) with
  | none =>
    refine ⟨fun hk => ?_, h⟩
    have hno := find?_eq_none.mp hfind e h.mem.1
    rw [hk.hasKey] at hno
    exact absurd h.mem.2 hno
  | some e₀ =>
    obtain ⟨hkey, l₁, l₂, rfl, hbefore⟩ := find?_eq_some_iff_append.mp hfind
    have herase : (l₁ ++ e₀ :: l₂).eraseP (·.hasKey qname qtype) = l₁ ++ l₂ := by
      rw [eraseP_append_right _ fun x hx => by simpa using hbefore x hx,
        eraseP_cons_of_pos (p := fun y : CacheEntry => y.hasKey qname qtype) hkey]
    have hfound : Concerns k qname qtype → e₀ = e := fun hk =>
      mem_singleton.mp (h ▸ mem_filter.mpr ⟨by simp, by rw [← hk.hasKey, hkey]⟩)
    have hmoved : Holds k e (e₀ :: (l₁ ++ l₂)) :=
      perm_singleton.mp (h ▸ (perm_middle.symm.filter _))
    dsimp only
    cases hwin : serveWindow cfg e₀ allowStale now with
    | none => exact ⟨fun hk => hfound hk ▸ hwin.symm, h⟩
    | some copy =>
      refine ⟨fun hk => hfound hk ▸ hwin.symm, ?_⟩
      rwa [herase]

/-- The insertion of another entry that does not evict this one. -/
theorem Holds.cacheInsert (h : Holds k e c) (hx : ¬ x.hasKey k.1 k.2 = true)
    (hkept : ∃ y ∈ cacheInsert cfg c x, y.hasKey k.1 k.2 = true) :
    Holds k e (cacheInsert cfg c x) := by
  have hother : ∀ y : CacheEntry, y.hasKey x.qname x.qtype = true → ¬ y.hasKey k.1 k.2 = true :=
    fun y hy hk => hx (hasKey_iff.mpr (concerns_of_hasKey hy hk))
  have hplaced : Holds k e (x :: c.eraseP (·.hasKey x.qname x.qtype)) := by
    rw [Holds, filter_cons_of_neg (p := fun y : CacheEntry => y.hasKey k.1 k.2) hx]
    rcases exists_or_eq_self_of_eraseP (·.hasKey x.qname x.qtype) c with heq | hone
    · rwa [heq]
    · obtain ⟨y, l₁, l₂, -, hy, rfl, heq⟩ := hone
      rw [heq, filter_append, ← h, filter_append,
        filter_cons_of_neg (p := fun y : CacheEntry => y.hasKey k.1 k.2) (hother y hy)]
  unfold Resolver.cacheInsert at hkept ⊢
  dsimp only at hkept ⊢
  split at hkept
  · rename_i hfull
    rw [if_pos hfull]
    exact hplaced.of_sublist (dropLast_sublist _) hkept
  · rename_i hroom
    rwa [if_neg hroom]

/-! ## Runs that keep the entry -/

/-- The key has an entry as long as it had one: it is not evicted and not flushed. -/
def Kept (k : Text × Nat) (s s' : Shared) : Prop :=
  (∃ x ∈ s.cache, x.hasKey k.1 k.2 = true) → ∃ x ∈ s'.cache, x.hasKey k.1 k.2 = true

instance (k : Text × Nat) (s s' : Shared) : Decidable (Kept k s s') :=
  inferInstanceAs (Decidable (_ → _))

/-- The resolver, in the runs that neither evict nor flush the entry of the key. -/
def keeping (cfg : Config) (C : Crypto) (anchors : List Bytes) (k : Text × Nat) :
    Machine Op Op.Res (Text × Nat) (Int × ResolveResult) Shared where
  body := (resolver cfg C anchors).body
  exec s o r s' := (resolver cfg C anchors).exec s o r s' ∧ Kept k s s'
  start s p s' := (resolver cfg C anchors).start s p s' ∧ Kept k s s'

/-- The entry is not more than `serve_stale_max` past its expiry. -/
def InWindow (cfg : Config) (e : CacheEntry) (now : Nat) : Prop :=
  entryRemainingTtl e now = 0 → entryExpiredFor e now ≤ cfg.serveStaleMax

/-- A failed exchange: no reply, or one with an rcode other than NOERROR and NXDOMAIN. -/
def Fails (reply : Option Reply) : Prop :=
  ∀ rep ∈ reply, 12 ≤ rep.resp.length → rcodeOf rep.resp ≠ 0 ∧ rcodeOf rep.resp ≠ 3

/-- What `dns_resolve_core` and `prefetch_do` take for a failure: no reply, or SERVFAIL. -/
def Unanswered (reply : Option Reply) : Prop :=
  ∀ rep ∈ reply, 12 ≤ rep.resp.length → rcodeOf rep.resp = 2

/-- A copy that expires no later than the entry. -/
def NotFresher (e : CacheEntry) (copy : Option CacheEntry) : Prop :=
  ∀ p ∈ copy, ∀ now, entryRemainingTtl e now = 0 → entryRemainingTtl p now = 0

/-- What the outside does while exchanges for the key fail. -/
def Meanwhile (cfg : Config) (k : Text × Nat) (e : CacheEntry) (failed : Option Reply → Prop) :
    (o : Op) → o.Res → Prop
  | .time, now => InWindow cfg e now
  | .upstreamQuery _ qname qtype, r => Concerns k (safeStrcpy qname 256) qtype → failed r
  | .loadPersist qname qtype, r => Concerns k qname qtype → NotFresher e r
  | .aggressiveAnswer qname qtype _, r => Concerns k qname qtype → r = none
  | _, _ => True

/-- `serve_cached_entry` has answered with the entry. -/
def AnsweredFrom (cfg : Config) (C : Crypto) (anchors : List Bytes) (e : CacheEntry) (qname : Text)
    (v : Int × ResolveResult) : Prop :=
  ∃ stale tr, Prog.Returns (dnsResolveCore cfg C anchors)
    (serveCachedEntry { e with servedStale := stale } qname) tr v

/-- What a thread can be told meanwhile: a result the machine has in a state with the entry. -/
def Possible (cfg : Config) (C : Crypto) (anchors : List Bytes) (k : Text × Nat) (e : CacheEntry)
    (failed : Option Reply → Prop) (o : Op) (r : o.Res) : Prop :=
  Meanwhile cfg k e failed o r ∧
    ∃ s s', Holds k e s.cache ∧ (keeping cfg C anchors k).exec s o r s'

/-- **Stale data outlives the failures**: in every run that starts with the entry in the cache and
no thread under way, every query for the key has no endless run, and what it returns is answered
from the entry. -/
def StaleServed (cfg : Config) (C : Crypto) (anchors : List Bytes) (k : Text × Nat)
    (e : CacheEntry) (failed : Option Reply → Prop) : Prop :=
  ∀ s : Shared, Holds k e s.cache → ∀ evs c, (keeping cfg C anchors k).Run ⟨s, []⟩ evs c →
    ∀ (x : Text × Nat) (i : Nat), (resolvedName x.1, x.2) = k →
      c.threads[i]? = some ⟨dnsResolveCore cfg C anchors x, []⟩ →
    ∀ evs' c', (keeping cfg C anchors k).Run c evs' c' →
    (∀ ev ∈ evs ++ evs', Meanwhile cfg k e failed ev.1 ev.2) →
    ∃ t, c'.threads[i]? = some t ∧
      Acc (Thread.Before (dnsResolveCore cfg C anchors) (Possible cfg C anchors k e failed)) t ∧
      ∀ v, t.value = some v → AnsweredFrom cfg C anchors e k.1 v

/-! ## Nothing else is inserted under the key -/

/-- The operation inserts nothing under the key. -/
def Spares (k : Text × Nat) : Op → Prop
  | .cacheInsert _ x => ¬ x.hasKey k.1 k.2 = true
  | _ => True

/-- What a thread is told: the entry, where it looks the key up. -/
def Sees (cfg : Config) (k : Text × Nat) (e : CacheEntry) : (o : Op) → o.Res → Prop
  | .cacheLookup qname qtype allowStale now, r =>
    Concerns k qname qtype → r = serveWindow cfg e allowStale now
  | o, r => Meanwhile cfg k e Unanswered o r

theorem serveWindow_of_inWindow {now : Nat} (h : InWindow cfg e now) :
    ∃ stale, serveWindow cfg e true now = some { e with servedStale := stale } := by
  unfold serveWindow
  split
  · rename_i hexpired
    exact ⟨true, if_neg (by simpa using h hexpired)⟩
  · exact ⟨false, rfl⟩

theorem isLocalName_congr {a b : Text} (h : eqCI a b = true) : isLocalName a = isLocalName b := by
  have hlow := eqCI_iff.mp h
  have hlen : a.length = b.length := by simpa using congrArg length hlow
  have hdrop : ∀ (n : Nat) (t : Text), strlower (t.drop n) = (strlower t).drop n :=
    fun n t => map_drop
  rw [isLocalName, isLocalName, eqCI, eqCI, hdrop, hdrop, hlow, hlen]

/-- An entry of another key spares this one. -/
theorem spares_of_key {o : Origin} (hk : ¬ Concerns k (safeStrcpy qname 256) qtype)
    (hname : x.qname = safeStrcpy qname 256) (htype : x.qtype = qtype) :
    Spares k (.cacheInsert o x) := fun hkey =>
  hk (hname ▸ htype ▸ hasKey_iff.mp hkey)

section Threads

variable {C : Crypto} {anchors : List Bytes} {qname : Text} {qtype : Nat}
  (hlocal : isLocalName k.1 = false)

include hlocal

theorem routine_spares : Routine (Spares k) := by
  refine ⟨trivial, fun _ _ => trivial, fun _ _ _ => trivial, fun _ _ => trivial,
    fun x hx hkey => ?_,
    fun _ => trivial, fun _ _ _ => trivial, fun _ _ => trivial, trivial⟩
  rw [isLocalName_congr (hasKey_iff.mp hkey).2.2, hlocal] at hx
  cases hx

/-- The failure path finds the entry, or caches a failure under another key. -/
theorem spares_upstreamFailed (hlen : qname.length ≤ 255) (rcode : Nat) :
    (upstreamFailed cfg qname qtype rcode).Always (Spares k) (Sees cfg k e) := by
  have hfit : safeStrcpy qname 256 = qname := take_of_length_le hlen
  by_cases hk : Concerns k qname qtype
  · rw [upstreamFailed, cacheAttempt, perform_bind_bind]
    refine Prog.always_perform_bind trivial fun now hnow => ?_
    rw [perform_bind_bind]
    refine Prog.always_perform_bind trivial fun r hr => ?_
    obtain ⟨stale, hwin⟩ := serveWindow_of_inWindow hnow
    obtain rfl : r = some { e with servedStale := stale } := (hr hk).trans hwin
    exact (routine_spares hlocal).serveCachedEntry _ _
  · rw [← hfit] at hk
    exact (routine_spares hlocal).upstreamFailed (fun _ => spares_of_key hk) rcode

theorem spares_upstreamAttempt (hlen : qname.length ≤ 255) :
    (upstreamAttempt cfg C anchors qname qtype).Always (Spares k) (Sees cfg k e) := by
  unfold upstreamAttempt
  refine Prog.always_perform_bind trivial fun reply hreply => ?_
  cases reply with
  | none => exact spares_upstreamFailed hlocal hlen _
  | some rep =>
    refine Prog.always_ite (fun _ => spares_upstreamFailed hlocal hlen _) fun hlong => ?_
    refine Prog.always_ite (fun _ => spares_upstreamFailed hlocal hlen _) fun hrcode => ?_
    have hk : ¬ Concerns k (safeStrcpy qname 256) qtype := fun hk =>
      hrcode (hreply hk rep rfl (Nat.le_of_not_lt hlong))
    exact (routine_spares hlocal).acceptReply fun _ hname htype _ => spares_of_key hk hname htype

theorem spares_dnsResolveCore (x : Text × Nat) :
    (dnsResolveCore cfg C anchors x).Always (Spares k) (Sees cfg k e) :=
  (routine_spares hlocal).dnsResolveCore fun _ hlen => (routine_spares hlocal).resolveExact
    (fun _ => trivial) (fun _ => trivial) (spares_upstreamAttempt hlocal hlen)

omit hlocal in
theorem spares_prefetchDo : (prefetchDo cfg C anchors qname qtype).Always (Spares k)
    (Sees cfg k e) := by
  unfold prefetchDo
  refine Prog.always_perform_bind trivial fun reply hreply => ?_
  cases reply with
  | none => exact Prog.always_pure _
  | some rep =>
    refine Prog.always_ite (fun hst => ?_) fun _ => Prog.always_pure _
    refine Prog.always_perform_bind trivial fun now _ => ?_
    cases hp : parseResponseToEntry cfg rep.resp qname qtype now with
    | none => exact Prog.always_pure _
    | some x =>
      obtain ⟨-, -, hname, htype⟩ := parseResponseToEntry_spec hp
      refine Prog.always_perform_bind (spares_of_key (fun hk => ?_) hname htype) fun _ _ => ?_
      · exact hst.2 (hreply hk rep rfl hst.1)
      · exact Prog.always_perform_bind trivial fun _ _ => Prog.always_pure _

/-- A started thread spares the key, and the entry stays. -/
theorem Holds.started {s s' : Shared} {p : R (Int × ResolveResult)} (h : Holds k e s.cache)
    (hstart : (keeping cfg C anchors k).start s p s') :
    p.Always (Spares k) (Sees cfg k e) ∧ Holds k e s'.cache := by
  obtain ⟨hstart, hkept⟩ := hstart
  cases hstart with
  | query x => exact ⟨spares_dnsResolveCore hlocal x, h⟩
  | refresh hqueue => exact ⟨spares_prefetchDo, h⟩
  | flush key =>
    refine ⟨Prog.always_pure _, h.of_sublist ?_ (hkept ⟨e, h.mem⟩)⟩
    cases key with
    | none => exact nil_sublist _
    | some key => exact eraseP_sublist

omit hlocal in
/-- In a state with the entry a thread is told the entry. -/
theorem Holds.sees {s s' : Shared} {o : Op} {r : o.Res} (h : Holds k e s.cache)
    (hexec : (keeping cfg C anchors k).exec s o r s') (hout : Meanwhile cfg k e Unanswered o r) :
    Sees cfg k e o r := by
  obtain ⟨⟨outside, hact⟩, -⟩ := hexec
  cases o with
  | cacheLookup qname qtype allowStale now =>
    cases hact
    exact (h.cacheLookup qname qtype allowStale now).1
  | _ => exact hout

omit hlocal in
/-- One operation that spares the key: the entry stays. -/
theorem Holds.exec {s s' : Shared} {o : Op} {r : o.Res} (h : Holds k e s.cache)
    (hexec : (keeping cfg C anchors k).exec s o r s') (hspares : Spares k o) :
    Holds k e s'.cache := by
  obtain ⟨⟨outside, hact⟩, hkept⟩ := hexec
  have hkept := hkept ⟨e, h.mem⟩
  cases o with
  | cacheLookup qname qtype allowStale now =>
    cases hact
    exact (h.cacheLookup qname qtype allowStale now).2
  | cacheInsert origin x =>
    cases hact
    exact h.cacheInsert hspares hkept
  | _ =>
    cases hact
    exact h

/-! ## The answer -/

omit hlocal in
/-- A look at the cache finds the entry, unless it is expired and only a fresh one will do. -/
theorem cacheAttempt_sees (hk : Concerns k qname qtype) (allowStale : Bool) :
    (cacheAttempt cfg qname qtype allowStale).Within (dnsResolveCore cfg C anchors)
      (Sees cfg k e) 0 fun hit =>
        (∃ stale, hit = some { e with servedStale := stale }) ∨
          hit = none ∧ allowStale = false := by
  unfold cacheAttempt
  refine within_perform_bind fun (now : Nat) hnow => ?_
  refine within_perform_bind fun found hfound => ?_
  obtain rfl := hfound hk
  cases allowStale with
  | true =>
    obtain ⟨stale, hwin⟩ := serveWindow_of_inWindow hnow
    rw [hwin]
    exact within_pure (.inl ⟨stale, rfl⟩)
  | false =>
    by_cases hlive : entryRemainingTtl e now = 0
    · have hmiss : ∀ x : CacheEntry, entryRemainingTtl x now = 0 →
          serveWindow cfg x false now = none := fun x hx => by
        rw [serveWindow, if_pos hx, if_pos (.inl rfl)]
      rw [hmiss e hlive]
      refine within_perform_bind fun copy hcopy => ?_
      cases copy with
      | none => exact within_pure (.inr ⟨rfl, rfl⟩)
      | some x =>
        exact within_pure (.inr ⟨hmiss x (hcopy hk x rfl now hlive), rfl⟩)
    · rw [serveWindow, if_neg hlive]
      exact within_pure (.inl ⟨false, rfl⟩)

/-- A query for the key finds the entry before it asks, or after it has asked in vain, and serves it
without a call. -/
theorem answered {x : Text × Nat} (hx : (resolvedName x.1, x.2) = k)
    (hexact : cfg.searchDomains = [] ∨ dot ∈ k.1) :
    (dnsResolveCore cfg C anchors x).Within (dnsResolveCore cfg C anchors) (Sees cfg k e) 0
      (AnsweredFrom cfg C anchors e k.1) := by
  obtain ⟨hname, htype⟩ : resolvedName x.1 = k.1 ∧ x.2 = k.2 := by
    rw [← hx]
    exact ⟨rfl, rfl⟩
  have hk : Concerns k k.1 k.2 := ⟨rfl, rfl, eqCI_refl _⟩
  have hfit : safeStrcpy k.1 256 = k.1 := by
    rw [← hname]
    exact take_of_length_le (length_strlower_safeStrcpy_le x.1)
  have hcore : dnsResolveCore cfg C anchors x = resolveExact cfg C anchors k.1 k.2 := by
    have hdirect : ¬ (cfg.searchDomains ≠ [] ∧ ¬ k.1.contains dot) := by
      rintro ⟨hsome, hnodot⟩
      exact hnodot (elem_eq_true_of_mem (hexact.resolve_left hsome))
    have hmdns : mdnsAttempt cfg k.1 k.2 = pure none := by
      unfold mdnsAttempt
      rw [if_pos (by rw [hlocal]; rfl)]
    unfold dnsResolveCore
    rw [show strlower (safeStrcpy x.1 256) = k.1 from hname, htype]
    dsimp only
    rw [hmdns]
    exact if_neg hdirect
  have hserve : ∀ stale, (serveCachedEntry { e with servedStale := stale } k.1).Within
      (dnsResolveCore cfg C anchors) (Sees cfg k e) 0 (AnsweredFrom cfg C anchors e k.1) := by
    intro stale
    refine (headShows_serveCachedEntry 0 _ k.1).returns.mono (Nat.le_refl _) ?_
    rintro v ⟨-, tr, h⟩
    exact ⟨stale, tr, h⟩
  -- an expired entry is looked up again behind the failed exchange
  have hfailed : ∀ rcode, (upstreamFailed cfg k.1 k.2 rcode).Within (dnsResolveCore cfg C anchors)
      (Sees cfg k e) 0 (AnsweredFrom cfg C anchors e k.1) := by
    intro rcode
    refine (cacheAttempt_sees hk true).bind_free fun hit hhit => ?_
    rcases hhit with ⟨stale, rfl⟩ | ⟨-, hno⟩
    · exact hserve stale
    · cases hno
  rw [hcore]
  refine (cacheAttempt_sees hk false).bind_free fun hit hhit => ?_
  rcases hhit with ⟨stale, rfl⟩ | ⟨rfl, -⟩
  · exact hserve stale
  refine within_perform_bind fun now _ => ?_
  refine within_perform_bind fun span hspan => ?_
  obtain rfl := hspan hk
  refine within_perform_bind fun reply hreply => ?_
  cases reply with
  | none => exact hfailed _
  | some rep =>
    simp only [uponReply]
    split
    · exact hfailed _
    · rename_i hlong
      rw [if_pos (hreply (hfit.symm ▸ hk) rep rfl (Nat.le_of_not_lt hlong))]
      exact hfailed _

end Threads

/-- **Stale data outlives failures that bring no reply or SERVFAIL**, for a name that is neither a
multicast name nor completed by a search domain. -/
theorem served_through_failures (cfg : Config) (C : Crypto) (anchors : List Bytes)
    (k : Text × Nat) (e : CacheEntry) (hlocal : isLocalName k.1 = false)
    (hexact : cfg.searchDomains = [] ∨ dot ∈ k.1) : StaleServed cfg C anchors k e Unanswered := by
  intro s hs evs c hrun x i hx hquery evs' c' hrun' hout
  have hguard := (hrun.trans hrun').guarantee (I := fun s => Holds k e s.cache)
    (P := Spares k) (A := Sees cfg k e) (E := Meanwhile cfg k e Unanswered)
    (fun x => spares_dnsResolveCore hlocal x) (fun _ _ _ hstart h => h.started hlocal hstart)
    (fun _ _ _ _ hexec h hP hE => ⟨h.sees hexec hE, h.exec hexec hP⟩) hout nofun hs
  obtain ⟨t, ht, hacc, hvalue⟩ := hrun'.ends (A := Sees cfg k e)
    (fun ev hev => (hguard.1 ev (mem_append_right _ hev)).2) hquery (answered hlocal hx hexact)
  -- what a thread can be told is what it relies on
  have hstep : Subrelation
      (Thread.Before (dnsResolveCore cfg C anchors) (Possible cfg C anchors k e Unanswered))
      (Thread.Before (dnsResolveCore cfg C anchors) (Sees cfg k e)) := by
    rintro t' t ⟨n, h⟩
    refine ⟨n, h.mono ?_⟩
    rintro o r ⟨hout, s, s', hs, hexec⟩
    exact hs.sees hexec hout
  exact ⟨t, ht, hstep.accessible hacc, hvalue⟩

/-! ## An expired entry -/

/-- The address of `a.b`, stored at 1000 for 100 s. -/
def staleEntry : CacheEntry :=
  ⟨lit "a.b", RRType.A, [⟨RRType.A, 100, [192, 0, 2, 1], 1000⟩], false, 0, 0, 1000, 10, false,
    .insecure⟩

/-- Its key. -/
def staleKey : Text × Nat := (lit "a.b", RRType.A)

/-- At 1150 the upstream servers answer `a.b` with no more than an rcode. -/
def staleWorld (rcode : Nat) : (o : Op) → o.Res :=
  world 1150 (messageStart 7 (0x8180 + rcode) 0 0 0 (lit "a.b") RRType.A) none

/-- The query for `a.b` in that world, with nothing but the entry in the cache. -/
def staleDrive (rcode : Nat) : Machine.Driven Op Op.Res (Text × Nat) (Int × ResolveResult) Shared :=
  (keeping sampleConfig .sample Env.sample.anchors staleKey).drive
    (act sampleConfig .sample (staleWorld rcode)) 40 ⟨[staleEntry], ⟨[], 0⟩, []⟩ ⟨sampleQuery, []⟩

/-- Stale data that outlives the failures of this world answers the query. -/
theorem StaleServed.answers {failed : Option Reply → Prop} {v : Int × ResolveResult}
    (h : StaleServed sampleConfig .sample Env.sample.anchors staleKey staleEntry failed)
      (rcode : Nat)
    (hnone : failed none) (hfailed : failed (staleWorld rcode (.upstreamQuery .foreground [] 0)))
    (hkept : (keeping sampleConfig .sample Env.sample.anchors staleKey).passes
      (act sampleConfig .sample (staleWorld rcode)) (fun s s' => decide (Kept staleKey s s')) 40
      ⟨[staleEntry], ⟨[], 0⟩, []⟩ ⟨sampleQuery, []⟩ = true)
    (hv : (staleDrive rcode).thread.value = some v) :
    AnsweredFrom sampleConfig .sample Env.sample.anchors staleEntry staleKey.1 v := by
  have hexec : ∀ s o, decide (Kept staleKey s (act sampleConfig .sample (staleWorld rcode) s o).2) =
      true → (keeping sampleConfig .sample Env.sample.anchors staleKey).exec s o
        (act sampleConfig .sample (staleWorld rcode) s o).1
        (act sampleConfig .sample (staleWorld rcode) s o).2 :=
    fun s o hok => ⟨⟨staleWorld rcode, rfl⟩, of_decide_eq_true hok⟩
  have hrun := Machine.run_drive_of_passes hexec [] [] 40 _ _ hkept
  have hstart : (keeping sampleConfig .sample Env.sample.anchors staleKey).Run
      ⟨⟨[staleEntry], ⟨[], 0⟩, []⟩, []⟩ ([] ++ [])
      ⟨⟨[staleEntry], ⟨[], 0⟩, []⟩, [] ++ [⟨sampleQuery, []⟩]⟩ :=
    .tail (.refl _) (.start ⟨.query (lit "a.b", RRType.A), id⟩)
  have hout : ∀ s o, Meanwhile sampleConfig staleKey staleEntry failed o
      (act sampleConfig .sample (staleWorld rcode) s o).1 := by
    intro s o
    cases o with
    | time =>
      have hage : entryExpiredFor staleEntry 1150 ≤ sampleConfig.serveStaleMax := by decide +kernel
      exact fun _ => hage
    | upstreamQuery asker qname qtype =>
      cases asker with
      | foreground => exact fun _ => hfailed
      | prefetch => exact fun _ => hnone
    | loadPersist qname qtype => exact fun _ => nofun
    | aggressiveAnswer qname qtype now => exact fun _ => rfl
    | _ => trivial
  obtain ⟨t, ht, -, hvalue⟩ := h _ (by decide +kernel) _ _ hstart (lit "a.b", RRType.A) 0
    (by decide +kernel) rfl _ _ hrun (Machine.events_drive hout 40 _ _)
  exact hvalue v (Option.some.inj ht ▸ hv)

theorem AnsweredFrom.fromCache {C : Crypto} {anchors : List Bytes} {v : Int × ResolveResult}
    (h : AnsweredFrom cfg C anchors e qname v) : v.2.fromCache ≠ 0 := by
  obtain ⟨stale, tr, h⟩ := h
  have hcode : (if stale = true then 2 else 1) ≠ 0 := by cases stale <;> decide
  obtain ⟨now, tr, -, h⟩ := Prog.returns_perform_bind.mp h
  obtain ⟨_, tr, -, -, -, h⟩ := Prog.returns_bind.mp h
  rcases Prog.returns_ite.mp h with ⟨-, h⟩ | ⟨-, h⟩
  · rwa [(Prog.returns_pure.mp h).2]
  · obtain ⟨_, _, rows, -, -, h⟩ := Prog.returns_bind.mp h
    rwa [(Prog.returns_pure.mp h).2]

/-- After SERVFAIL the query is answered with the expired address. -/
theorem expired_address_served :
    ∃ v, (staleDrive 2).thread.value = some v ∧
      AnsweredFrom sampleConfig .sample Env.sample.anchors staleEntry staleKey.1 v :=
  ⟨(0, ⟨2, 0, 0, .insecure, [⟨lit "a.b", RRType.A, 0, lit "192.0.2.1"⟩]⟩), by decide +kernel,
    (served_through_failures sampleConfig .sample Env.sample.anchors staleKey staleEntry
      (by decide +kernel) (.inl rfl)).answers 2 nofun
      (fun rep hrep _ => by
        cases hrep
        decide +kernel)
      (by decide +kernel) (by decide +kernel)⟩

/-- **A refusal replaces the entry**: after REFUSED the query has no address, since the reply is
stored as an entry without records. -/
theorem refusal_replaces_entry :
    ¬ StaleServed sampleConfig .sample Env.sample.anchors staleKey staleEntry Fails := by
  intro h
  have hv : (staleDrive 5).thread.value = some (0, ⟨0, 0, 5, .insecure, []⟩) := by decide +kernel
  have hfrom := h.answers 5 nofun
    (fun rep hrep _ => by
      cases hrep
      decide +kernel)
    (by decide +kernel) hv
  exact hfrom.fromCache rfl

end SimpleDns.Resolver
