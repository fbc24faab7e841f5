import SimpleDns.Resolver.Accept

/-!
# Asking the upstream servers (`resolverd.c:2207-2272`, `2774-2800`, `2904-3103`)

The upstream servers are tried in the order of their round trip times, until one returns a reply of
some length. A server is asked a second time, with its cookie, if it answers BADCOOKIE. A reply of
12 octets or more is dropped if it does not match the query; a shorter one is not looked at.

* `responseOptParse`, `routeFind`, `order`, `upstreamDispatch`, `upstreamQueryOne`, `upstreamQuery`
  follow the source.
* `upstreamQueryOne_eq`: one server returns what the filter leaves of its last exchange.
* **`failover_iff`**: an accepted reply is returned exactly if, in the order of the tries, a server
  whose last exchange brings one stands before every server whose last exchange brings a reply of
  less than 12 octets or does not end. **`short_datagram_returned`**: one octet of the first server
  is returned, and the second is not asked.

An exchange is what comes back over each transport for a query with the id and the random case that
were drawn for it. The octets of the query behind its question (cookie and signature) are left out:
a server may answer them as it likes. So are the round trip times measured on the way, which count
for the next call only.
-/

namespace SimpleDns.Resolver

open Wire List

/-! ## The cookie of a reply -/

/-- `EDNS_OPT_COOKIE`. -/
def ednsOptCookie : Nat := 10

/-- `DNS_COOKIE_LEN`. -/
def dnsCookieLen : Nat := 8

/-- `DNS_COOKIE_SERVER_MAX`. -/
def dnsCookieServerMax : Nat := 32

/-- `DNS_RCODE_BADCOOKIE`. -/
def dnsRcodeBadcookie : Nat := 23

/-- The question loop of `response_opt_parse`; `none` where it returns. -/
def optQuestions (pkt : Bytes) : Nat → Nat → Option Nat :=
  passQuestions (fun off => (nameFromWire pkt off 256).map (·.2)) pkt

/-- The loop over the answer and authority records. -/
def optSkip (pkt : Bytes) : Nat → Nat → Option Nat
  | 0, off => some off
  | n + 1, off =>
    match nameFromWire pkt off 256 with
    | none => none
    | some (_, a) =>
      if a + 10 > pkt.length then none
      else
        let next := a + 10 + get16 pkt (a + 8)
        if next > pkt.length then none else optSkip pkt n next

/-- The loop over the options of an OPT record. Each step takes four octets, so that as many steps
as the packet has octets are enough. -/
def optCookies (pkt : Bytes) (rend : Nat) : Nat → Nat → Bytes → Bytes
  | 0, _, scookie => scookie
  | fuel + 1, rp, scookie =>
    if rp + 4 ≤ rend ∧ rp + 4 ≤ pkt.length then
      let oc := get16 pkt rp
      let ol := get16 pkt (rp + 2)
      let p := rp + 4
      if p + ol > pkt.length then scookie
      else
        let scookie' :=
          if oc = ednsOptCookie ∧ ol > dnsCookieLen then
            slice pkt (p + dnsCookieLen) (min (ol - dnsCookieLen) dnsCookieServerMax)
          else scookie
        optCookies pkt rend fuel (p + ol) scookie'
    else scookie

/-- The loop over the additional records: the code and the server cookie so far. -/
def optScan (pkt : Bytes) : Nat → Nat → Nat × Bytes → Nat × Bytes
  | 0, _, st => st
  | n + 1, off, (rcode, scookie) =>
    match nameFromWire pkt off 256 with
    | none => (rcode, scookie)
    | some (_, a) =>
      if a + 10 > pkt.length then (rcode, scookie)
      else
        let rdl := get16 pkt (a + 8)
        let st' :=
          if get16 pkt a = RRType.OPT then
            ((byteAt pkt (a + 4)).toNat * 16 + rcode % 16,
              optCookies pkt (a + 10 + rdl) pkt.length (a + 10) scookie)
          else (rcode, scookie)
        if a + 10 + rdl > pkt.length then st' else optScan pkt n (a + 10 + rdl) st'

/-- `response_opt_parse` on a reply of 12 octets or more: the extended response code and the server
cookie, empty where `slen` is 0. -/
def responseOptParse (pkt : Bytes) : Nat × Bytes :=
  let rcode := rcodeOf pkt
  match optQuestions pkt (qdcount pkt) 12 with
  | none => (rcode, [])
  | some off =>
    match optSkip pkt (ancount pkt + nscount pkt) off with
    | none => (rcode, [])
    | some off' => optScan pkt (arcount pkt) off' (rcode, [])

/-! ## The servers -/

/-- `upstream_proto_t`. -/
inductive UpstreamProto
  | udp
  | dot
  | tcp
  | doh
deriving DecidableEq, Repr

/-- What a call comes to: it does not return, or it returns a length that is not negative with as
many octets, or -1. -/
inductive Outcome
  | never
  | returns (reply : Option Bytes)
deriving DecidableEq, Repr

/-- One exchange: the values drawn for the query, and what comes back over each transport. -/
structure Exchange where
  /-- `csprng_u16()`. -/
  id : Nat
  /-- The random octets of `dns0x20_mix`. -/
  bits : Bytes
  /-- What is received over UDP, `none` where looking up the host, sending or receiving fails. -/
  datagram : Option Bytes
  /-- What the buffer held when the datagram came. -/
  held : Bytes
  /-- What `tcp_query` returns. -/
  tcp : Option Bytes
  /-- What `doh_query_on` comes to. -/
  doh : Outcome

/-- An upstream server: its configuration, `g_upstream_rtt_ema`, and the two exchanges there can
be. -/
structure Upstream where
  host : Text
  proto : UpstreamProto
  rttEma : Int
  first : Exchange
  retry : Exchange

/-- The settings of the random case: `dns0x20_enabled` and `dns0x20_disable`. -/
structure CaseConfig where
  enabled : Bool
  disable : Text

variable (cfg : CaseConfig)

/-- `dns0x20_active_for`. -/
def dns0x20ActiveFor (host : Text) : Bool :=
  if !cfg.enabled then false
  else if cfg.disable.isEmpty then true
  else !(strtok 44 (safeStrcpy cfg.disable 512)).any fun tok =>
    eqCI (tok.dropWhile (· = 32)) host

variable (qname : Text)

/-- `qname_sent`. -/
def qnameSent (u : Upstream) (e : Exchange) (qname : Text) : Text :=
  if dns0x20ActiveFor cfg u.host then dns0x20Mix e.bits qname 256 else safeStrcpy qname 256

/-- `response_matches_query` on what came back in an exchange. -/
def accepts (qtype : Nat) (u : Upstream) (e : Exchange) (resp : Bytes) : Bool :=
  responseMatchesQuery resp e.id (qnameSent cfg u e qname) qtype (dns0x20ActiveFor cfg u.host)

/-- The TC bit of the flags. -/
def hasTC (pkt : Bytes) : Bool := (get16 pkt 2).testBit 9

/-- `upstream_dispatch`. The flags are read from the buffer, also behind a datagram of two or three
octets. -/
def upstreamDispatch (proto : UpstreamProto) (e : Exchange) : Outcome :=
  match proto with
  | .dot | .tcp => .returns e.tcp
  | .doh => e.doh
  | .udp =>
    match e.datagram with
    | none => .returns none
    | some d =>
      if 2 ≤ d.length ∧ hasTC (d ++ e.held.drop d.length) then .returns e.tcp
      else .returns (some d)

/-- The filter behind a dispatch: a reply of 12 octets or more has to match. -/
def filtered (qtype : Nat) (u : Upstream) (e : Exchange) : Outcome :=
  match upstreamDispatch u.proto e with
  | .returns (some r) =>
    if r.length ≥ 12 ∧ !accepts cfg qname qtype u e r then .returns none else .returns (some r)
  | o => o

/-- A reply asks for the query again, with the cookie it brings. -/
def wantsCookie (resp : Bytes) : Bool :=
  let (fullRcode, scookie) := responseOptParse resp
  fullRcode == dnsRcodeBadcookie && !scookie.isEmpty

/-- `upstream_query_one`. -/
def upstreamQueryOne (qtype : Nat) (u : Upstream) : Outcome :=
  match filtered cfg qname qtype u u.first with
  | .returns (some r) =>
    if r.length ≥ 12 ∧ wantsCookie r then filtered cfg qname qtype u u.retry
    else .returns (some r)
  | o => o

/-! ## The order of the tries -/

/-- The inner loop of the insertion sort: `key` goes before the servers at the end of the list (it
is given from its end) that are slower. A server without a measured time stays where it is. -/
def place (key : Upstream) : List Upstream → List Upstream
  | [] => [key]
  | u :: us =>
    if u.rttEma > key.rttEma ∧ key.rttEma > 0 then u :: place key us else key :: u :: us

/-- `order`. -/
def order (ups : List Upstream) : List Upstream :=
  (ups.foldl (fun sorted key => place key sorted) []).reverse

theorem place_perm (key : Upstream) (us : List Upstream) : (place key us).Perm (key :: us) := by
  induction us with
  | nil => exact .refl _
  | cons u us ih =>
    rw [place]
    split
    · exact (ih.cons u).trans (.swap key u us)
    · exact .refl _

/-- Every server is tried, and none twice. -/
theorem order_perm (ups : List Upstream) : (order ups).Perm ups := by
  have hfold : ∀ (us sorted : List Upstream),
      (us.foldl (fun sorted key => place key sorted) sorted).Perm (us ++ sorted) := by
    intro us
    induction us with
    | nil => exact fun sorted => .refl _
    | cons u us ih =>
      intro sorted
      refine (ih (place u sorted)).trans (((place_perm u sorted).append_left us).trans ?_)
      exact perm_middle
  exact (reverse_perm _).trans (by simpa using hfold ups [])

/-! ## The routes -/

/-- An entry of `g_routes`. -/
structure Route where
  suffix : Text
  upstreamIdx : Nat

/-- The test of `route_find`: the name is the suffix, or ends in a dot and the suffix. -/
def routeMatches (sfx qname : Text) : Bool :=
  let sl := sfx.length
  let ql := qname.length
  (sl == ql && eqCI qname sfx) ||
    (decide (ql > sl + 1) && byteAt qname (ql - sl - 1) == dot && eqCI (qname.drop (ql - sl)) sfx)

/-- One step of the loop of `route_find`, on `best_idx` and `best_len`. -/
def routeStep (best : Option Nat × Nat) (r : Route) : Option Nat × Nat :=
  if r.suffix = [dot] then if best.2 = 0 then (some r.upstreamIdx, 1) else best
  else if routeMatches r.suffix qname ∧ r.suffix.length > best.2 then
    (some r.upstreamIdx, r.suffix.length)
  else best

/-- `route_find`. -/
def routeFind (routes : List Route) (qname : Text) : Option Nat :=
  (routes.foldl (routeStep qname) (none, 0)).1

/-! ## The failover -/

/-- The loop of `upstream_query`: it stops at the first reply that has an octet. -/
def tryEach (cfg : CaseConfig) (qname : Text) (qtype : Nat) : List Upstream → Outcome → Outcome
  | [], last => last
  | u :: us, _ =>
    match upstreamQueryOne cfg qname qtype u with
    | .never => .never
    | .returns none => tryEach cfg qname qtype us (.returns none)
    | .returns (some r) =>
      if r.length > 0 then .returns (some r) else tryEach cfg qname qtype us (.returns (some r))

/-- `upstream_query`. -/
def upstreamQuery (routes : List Route) (ups : List Upstream) (qname : Text) (qtype : Nat) :
    Outcome :=
  match (routeFind routes qname).bind fun routed => ups[routed]? with
  | some u => upstreamQueryOne cfg qname qtype u
  | none => tryEach cfg qname qtype (order ups) (.returns none)

section Failover

variable (cfg : CaseConfig) (qname : Text) (qtype : Nat)

variable (u : Upstream)

/-- An exchange brings an accepted reply. -/
def Accepted (e : Exchange) : Prop :=
  ∃ r, upstreamDispatch u.proto e = .returns (some r) ∧ accepts cfg qname qtype u e r

/-- An exchange brings a reply of less than 12 octets, but not an empty one. -/
def Short (e : Exchange) : Prop :=
  ∃ r, upstreamDispatch u.proto e = .returns (some r) ∧ 0 < r.length ∧ r.length < 12

/-- An exchange that does not end. -/
def Hangs (e : Exchange) : Prop := upstreamDispatch u.proto e = .never

/-- The first exchange brings an accepted BADCOOKIE with a cookie. -/
def AskedAgain : Prop :=
  ∃ r, upstreamDispatch u.proto u.first = .returns (some r) ∧ accepts cfg qname qtype u u.first r ∧
    wantsCookie r

open Classical in
/-- The last exchange with a server: the second one, if the first asks for it. -/
noncomputable def lastExchange (u : Upstream) : Exchange :=
  if AskedAgain cfg qname qtype u then u.retry else u.first

variable {cfg qname qtype} {u : Upstream} {e : Exchange} {r : Bytes}

theorem length_of_accepts (h : accepts cfg qname qtype u e r = true) : 12 ≤ r.length := by
  by_contra hlt
  rw [accepts, responseMatchesQuery, if_pos (not_le.mp hlt)] at h
  cases h

/-- What the filter lets through. -/
theorem filtered_eq_some : filtered cfg qname qtype u e = .returns (some r) ↔
    upstreamDispatch u.proto e = .returns (some r) ∧
      (r.length < 12 ∨ accepts cfg qname qtype u e r) := by
  unfold filtered
  split
  · rename_i r' heq
    split
    · rename_i hdrop
      simp only [heq, Outcome.returns.injEq, Option.some.injEq, reduceCtorEq, false_iff]
      rintro ⟨rfl, hlt | hacc⟩
      · omega
      · simp [hacc] at hdrop
    · rename_i hkeep
      simp only [heq, Outcome.returns.injEq, Option.some.injEq]
      refine ⟨?_, And.left⟩
      rintro rfl
      refine ⟨rfl, (Nat.lt_or_ge _ _).imp_right fun hge => ?_⟩
      simpa [hge] using hkeep
  · rename_i hne
    exact ⟨fun h => absurd h (hne r), fun h => absurd h.1 (hne r)⟩

theorem filtered_eq_never : filtered cfg qname qtype u e = .never ↔ Hangs u e := by
  unfold filtered Hangs
  split
  · rename_i r' heq
    rw [heq]
    split <;> simp
  · rfl

/-- **One server returns what the filter leaves of its last exchange.** -/
theorem upstreamQueryOne_eq (u : Upstream) :
    upstreamQueryOne cfg qname qtype u =
      filtered cfg qname qtype u (lastExchange cfg qname qtype u) := by
  have hagain : AskedAgain cfg qname qtype u ↔
      ∃ r, filtered cfg qname qtype u u.first = .returns (some r) ∧ r.length ≥ 12 ∧
        wantsCookie r := by
    refine exists_congr fun r => ?_
    rw [filtered_eq_some]
    constructor
    · rintro ⟨heq, hacc, hwants⟩
      exact ⟨⟨heq, .inr hacc⟩, length_of_accepts hacc, hwants⟩
    · rintro ⟨⟨heq, hshort⟩, hge, hwants⟩
      exact ⟨heq, hshort.resolve_left (by omega), hwants⟩
  rw [upstreamQueryOne, lastExchange]
  split
  · rename_i r heq
    simp only [heq, Outcome.returns.injEq, Option.some.injEq, exists_eq_left'] at hagain
    by_cases hwants : r.length ≥ 12 ∧ wantsCookie r
    · rw [if_pos hwants, if_pos (hagain.mpr hwants)]
    · rw [if_neg hwants, if_neg (mt hagain.mp hwants), heq]
  · rename_i hne
    have hnot : ¬ AskedAgain cfg qname qtype u := by
      rw [hagain]
      rintro ⟨r, heq, -⟩
      exact hne r heq
    rw [if_neg hnot]

/-- The loop goes on at a server: what comes back has no octet. -/
def Passes (o : Outcome) : Prop := o = .returns none ∨ o = .returns (some [])

variable (cfg qname qtype) in
theorem tryEach_cons (u : Upstream) (us : List Upstream) (last : Outcome) :
    (Passes (upstreamQueryOne cfg qname qtype u) ∧
      tryEach cfg qname qtype (u :: us) last =
        tryEach cfg qname qtype us (upstreamQueryOne cfg qname qtype u)) ∨
    (¬ Passes (upstreamQueryOne cfg qname qtype u) ∧
      tryEach cfg qname qtype (u :: us) last = upstreamQueryOne cfg qname qtype u) := by
  rw [tryEach]
  split
  · rename_i heq
    exact .inr ⟨by simp [Passes, heq], heq.symm⟩
  · rename_i heq
    exact .inl ⟨.inl heq, by rw [heq]⟩
  · rename_i r heq
    by_cases hr : r = []
    · subst hr
      exact .inl ⟨.inr heq, by rw [heq]; rfl⟩
    · refine .inr ⟨by simp [Passes, heq, hr], ?_⟩
      rw [if_pos (length_pos_iff.mpr hr), heq]

/-- The loop returns a reply that has octets exactly if the first server that does not pass does. -/
theorem tryEach_eq_some (hr : r ≠ []) (us : List Upstream) {last : Outcome} (hlast : Passes last) :
    tryEach cfg qname qtype us last = .returns (some r) ↔
      ∃ pre u post, us = pre ++ u :: post ∧
        (∀ v ∈ pre, Passes (upstreamQueryOne cfg qname qtype v)) ∧
        upstreamQueryOne cfg qname qtype u = .returns (some r) := by
  have hpass : ∀ {o : Outcome}, Passes o → o ≠ .returns (some r) := by
    rintro o (rfl | rfl) heq
    · cases heq
    · cases heq
      exact hr rfl
  induction us generalizing last with
  | nil =>
    refine ⟨fun h => absurd h (hpass hlast), ?_⟩
    rintro ⟨pre, u, post, heq, -⟩
    cases pre <;> cases heq
  | cons u us ih =>
    rcases tryEach_cons cfg qname qtype u us last with ⟨hu, heq⟩ | ⟨hu, heq⟩
    · rw [heq]
      refine (ih hu).trans ⟨?_, ?_⟩
      · rintro ⟨pre, v, post, rfl, hpre, hv⟩
        exact ⟨u :: pre, v, post, rfl, forall_mem_cons.mpr ⟨hu, hpre⟩, hv⟩
      · rintro ⟨pre, v, post, hsplit, hpre, hv⟩
        cases pre with
        | nil =>
          cases hsplit
          exact absurd hv (hpass hu)
        | cons w pre =>
          cases hsplit
          exact ⟨pre, v, post, rfl, (forall_mem_cons.mp hpre).2, hv⟩
    · rw [heq]
      constructor
      · exact fun h => ⟨[], u, us, rfl, fun _ hv => absurd hv not_mem_nil, h⟩
      · rintro ⟨pre, v, post, hsplit, hpre, hv⟩
        cases pre with
        | nil =>
          cases hsplit
          exact hv
        | cons w pre =>
          cases hsplit
          exact absurd (forall_mem_cons.mp hpre).1 hu

/-- A server is passed if its last exchange ends and brings neither a short reply nor an accepted
one. -/
theorem passes_iff (u : Upstream) : Passes (upstreamQueryOne cfg qname qtype u) ↔
    ¬ Short u (lastExchange cfg qname qtype u) ∧ ¬ Hangs u (lastExchange cfg qname qtype u) ∧
      ¬ Accepted cfg qname qtype u (lastExchange cfg qname qtype u) := by
  rw [upstreamQueryOne_eq]
  generalize lastExchange cfg qname qtype u = e
  constructor
  · intro h
    refine ⟨?_, ?_, ?_⟩
    · rintro ⟨r, heq, hpos, hlt⟩
      have hsome : filtered cfg qname qtype u e = .returns (some r) :=
        filtered_eq_some.mpr ⟨heq, .inl hlt⟩
      rcases h with h | h
      · cases hsome.symm.trans h
      · cases hsome.symm.trans h
        exact absurd hpos (lt_irrefl 0)
    · intro hhangs
      rcases h with h | h <;> cases (filtered_eq_never.mpr hhangs).symm.trans h
    · rintro ⟨r, heq, hacc⟩
      have hsome := filtered_eq_some.mpr ⟨heq, .inr hacc⟩
      have hlen := length_of_accepts hacc
      rcases h with h | h
      · cases hsome.symm.trans h
      · cases hsome.symm.trans h
        cases hlen
  · rintro ⟨hshort, hhangs, hacc⟩
    cases heq : filtered cfg qname qtype u e with
    | never => exact absurd (filtered_eq_never.mp heq) hhangs
    | returns reply =>
      cases reply with
      | none => exact .inl rfl
      | some r =>
        obtain ⟨hback, hlt | hr⟩ := filtered_eq_some.mp heq
        · by_cases hne : r = []
          · exact .inr (congrArg (Outcome.returns ∘ some) hne)
          · exact absurd ⟨r, hback, length_pos_iff.mpr hne, hlt⟩ hshort
        · exact absurd ⟨r, hback, hr⟩ hacc

variable (cfg qname qtype) in
/-- A server whose last exchange brings an accepted reply is tried before every one whose last
exchange is short or does not end. -/
def AcceptedFirst (tries : List Upstream) : Prop :=
  ∃ pre u post, tries = pre ++ u :: post ∧
    Accepted cfg qname qtype u (lastExchange cfg qname qtype u) ∧
    ∀ v ∈ pre, ¬ Short v (lastExchange cfg qname qtype v) ∧
      ¬ Hangs v (lastExchange cfg qname qtype v)

variable (cfg qname qtype) in
/-- An accepted reply of one of the servers is returned. -/
def ReturnsAccepted (routes : List Route) (ups : List Upstream) : Prop :=
  ∃ r, upstreamQuery cfg routes ups qname qtype = .returns (some r) ∧ 12 ≤ r.length ∧
    ∃ u ∈ ups, ∃ e, (e = u.first ∨ e = u.retry) ∧
      upstreamDispatch u.proto e = .returns (some r) ∧ accepts cfg qname qtype u e r

theorem lastExchange_cases (u : Upstream) :
    lastExchange cfg qname qtype u = u.first ∨ lastExchange cfg qname qtype u = u.retry := by
  unfold lastExchange
  split
  · exact .inr rfl
  · exact .inl rfl

/-- The first of the servers with an accepted reply. -/
theorem acceptedFirst_iff (tries : List Upstream) : AcceptedFirst cfg qname qtype tries ↔
    ∃ pre u post, tries = pre ++ u :: post ∧
      (∀ v ∈ pre, Passes (upstreamQueryOne cfg qname qtype v)) ∧
      Accepted cfg qname qtype u (lastExchange cfg qname qtype u) := by
  constructor
  · rintro ⟨pre, u, post, rfl, hu, hpre⟩
    -- another server of `pre` may have one; the first of them is taken
    induction pre with
    | nil => exact ⟨[], u, post, rfl, fun _ hv => absurd hv not_mem_nil, hu⟩
    | cons v pre ih =>
      obtain ⟨hv, hpre⟩ := forall_mem_cons.mp hpre
      by_cases hacc : Accepted cfg qname qtype v (lastExchange cfg qname qtype v)
      · exact ⟨[], v, pre ++ u :: post, rfl, fun _ hw => absurd hw not_mem_nil, hacc⟩
      · obtain ⟨pre', u', post', heq, hpass, hu'⟩ := ih hpre
        refine ⟨v :: pre', u', post', congrArg (v :: ·) heq, ?_, hu'⟩
        exact forall_mem_cons.mpr ⟨(passes_iff v).mpr ⟨hv.1, hv.2, hacc⟩, hpass⟩
  · rintro ⟨pre, u, post, heq, hpre, hu⟩
    refine ⟨pre, u, post, heq, hu, fun v hv => ?_⟩
    obtain ⟨hshort, hhangs, -⟩ := (passes_iff v).mp (hpre v hv)
    exact ⟨hshort, hhangs⟩

theorem returnsAccepted_iff {routes : List Route} (hroute : routeFind routes qname = none)
    (ups : List Upstream) :
    ReturnsAccepted cfg qname qtype routes ups ↔ AcceptedFirst cfg qname qtype (order ups) := by
  have hquery : upstreamQuery cfg routes ups qname qtype =
      tryEach cfg qname qtype (order ups) (.returns none) := by
    rw [upstreamQuery, hroute]
    rfl
  rw [acceptedFirst_iff, ReturnsAccepted, hquery]
  constructor
  · rintro ⟨r, heq, hlen, -⟩
    have hne : r ≠ [] := length_pos_iff.mp (by omega)
    obtain ⟨pre, u, post, hsplit, hpre, hu⟩ :=
      (tryEach_eq_some hne (order ups) (.inl rfl)).mp heq
    rw [upstreamQueryOne_eq] at hu
    obtain ⟨hback, hlt | hacc⟩ := filtered_eq_some.mp hu
    · omega
    · exact ⟨pre, u, post, hsplit, hpre, r, hback, hacc⟩
  · rintro ⟨pre, u, post, hsplit, hpre, r, hback, hacc⟩
    have hlen := length_of_accepts hacc
    have hne : r ≠ [] := length_pos_iff.mp (by omega)
    have hone : upstreamQueryOne cfg qname qtype u = .returns (some r) := by
      rw [upstreamQueryOne_eq]
      exact filtered_eq_some.mpr ⟨hback, .inr hacc⟩
    have hmem : u ∈ order ups := by
      rw [hsplit]
      exact mem_append_right _ mem_cons_self
    exact ⟨r, (tryEach_eq_some hne (order ups) (.inl rfl)).mpr ⟨pre, u, post, hsplit, hpre, hone⟩,
      hlen, u, (order_perm ups).mem_iff.mp hmem, _, lastExchange_cases u, hback, hacc⟩

/-- **The failover finds the accepted reply of a server exactly if a server whose last exchange
brings one is tried before every one whose last exchange is short or does not end.** -/
theorem failover_iff (cfg : CaseConfig) (qname : Text) (qtype : Nat) (routes : List Route)
    (ups : List Upstream) (hroute : routeFind routes qname = none) :
    ((∃ u ∈ ups, Accepted cfg qname qtype u u.first) →
        ReturnsAccepted cfg qname qtype routes ups) ↔
      ((∃ u ∈ ups, Accepted cfg qname qtype u u.first) →
        AcceptedFirst cfg qname qtype (order ups)) :=
  imp_congr_right fun _ => returnsAccepted_iff hroute ups

end Failover

/-! ## Two servers -/

/-- An exchange over UDP with the id 7. -/
def sampleExchange (datagram : Option Bytes) : Exchange :=
  ⟨7, [], datagram, [], none, .returns none⟩

/-- A server that was not measured yet, with the answer to each query. -/
def sampleUpstream (datagram : Option Bytes) : Upstream :=
  ⟨lit "h", .udp, 0, sampleExchange datagram, sampleExchange datagram⟩

/-- A server that echoes the question. -/
def echoing : Upstream := sampleUpstream (some (sampleReply [lit "a", lit "b"]))

theorem echoing_accepted :
    Accepted ⟨true, []⟩ (lit "a.b") RRType.A echoing echoing.first :=
  ⟨sampleReply [lit "a", lit "b"], by decide +kernel, by decide +kernel⟩

/-- A silent server is passed, and the reply of the one behind it is returned. -/
theorem silent_passed :
    routeFind [] (lit "a.b") = none ∧
      ReturnsAccepted ⟨true, []⟩ (lit "a.b") RRType.A [] [sampleUpstream none, echoing] := by
  refine ⟨rfl, (failover_iff _ _ _ [] _ rfl).mpr (fun _ => ?_) ⟨echoing, by simp, echoing_accepted⟩⟩
  have hsilent : Passes (upstreamQueryOne ⟨true, []⟩ (lit "a.b") RRType.A (sampleUpstream none)) :=
    .inl (by decide +kernel)
  have hlast : lastExchange ⟨true, []⟩ (lit "a.b") RRType.A echoing = echoing.first := by
    rcases lastExchange_cases echoing with h | h <;> exact h
  refine (acceptedFirst_iff _).mpr ⟨[sampleUpstream none], echoing, [], rfl, ?_, ?_⟩
  · exact forall_mem_singleton.mpr hsilent
  · rw [hlast]
    exact echoing_accepted

/-- **A datagram of one octet is returned, and the server that would answer is not asked.** -/
theorem short_datagram_returned :
    routeFind [] (lit "a.b") = none ∧
      Accepted ⟨true, []⟩ (lit "a.b") RRType.A echoing echoing.first ∧
      upstreamQuery ⟨true, []⟩ [] [sampleUpstream (some [0]), echoing] (lit "a.b") RRType.A =
        .returns (some [0]) ∧
      ¬ ReturnsAccepted ⟨true, []⟩ (lit "a.b") RRType.A []
          [sampleUpstream (some [0]), echoing] := by
  have hquery : upstreamQuery ⟨true, []⟩ [] [sampleUpstream (some [0]), echoing] (lit "a.b")
      RRType.A = .returns (some [0]) := by decide +kernel
  refine ⟨rfl, echoing_accepted, hquery, ?_⟩
  rintro ⟨r, heq, hlen, -⟩
  cases hquery.symm.trans heq
  exact absurd hlen (by decide)

end SimpleDns.Resolver
