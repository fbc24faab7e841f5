import SimpleDns.Lib.Threads
import SimpleDns.Resolver.Aggressive
import SimpleDns.Resolver.Cache

/-!
# Resolving a query (`resolverd.c:3803-4184`)

`dns_resolve_core` as a program over the resolver's shared state: the cache, the denial spans and
the prefetch queue are updated by its operations; the clock, the upstream servers, multicast and the
persistent tier answer as they like. The foreground threads and the prefetch worker interleave
operation by operation (`Lib.Machine`).

* `dnsResolveCore`, `serveCachedEntry`, `cacheServfail`, `prefetchDo`, `prefetchAsync` follow the
  source; `mdnsAttempt`, `searchAttempt`, `cacheAttempt` and `upstreamAttempt` are the numbered
  parts of `dns_resolve_core`.
* An insertion carries where its entry came from (`Origin`), which the C code forgets.
* `validated_inserts`: in every run in which no refresh reply is bogus, nothing that validation
  rejects is inserted. The foreground path needs nothing for that: `prefetchDo` is the only one
  that inserts without validating.
-/

namespace SimpleDns.Resolver

open Wire Lib RRType
open Prog (always_ite always_perform always_pure always_bind)

/-! ## Results -/

/-- One row of the answer arrays of `resolve_result_t`. -/
structure Answer where
  name : Text
  type : Nat
  ttl : Nat
  text : Text
deriving DecidableEq, Repr

/-- `resolve_result_t`; `ancount` is the number of answers. -/
structure ResolveResult where
  fromCache : Nat
  cacheTtlRemaining : Nat
  rcode : Nat
  dnssecStatus : DnssecStatus
  answers : List Answer
deriving DecidableEq, Repr

/-- `result_init`. -/
def resultInit : ResolveResult := ⟨0, 0, 0, .unchecked, []⟩

/-- Rows in the answer arrays. -/
def maxAnswers : Nat := 32

/-- `MAX_CNAME_HOPS`. -/
def maxCnameHops : Nat := 8

/-! ## Operations -/

/-- A reply of an upstream server, with what the DNSKEY fetches of its validation would return. -/
structure Reply where
  resp : Bytes
  fetch : Text → Bytes

/-- Who asks an upstream server. -/
inductive Asker
  | foreground
  | prefetch
deriving DecidableEq, Repr

/-- Where an inserted entry comes from. -/
inductive Origin
  | unicast (E : Env) (resp : Bytes) (qname : Text)
  | multicast
  | servfail

/-- What a thread does to the world outside its stack. -/
inductive Op
  | time
  | mdnsQuery (qname : Text) (qtype : Nat)
  | cacheLookup (qname : Text) (qtype : Nat) (allowStale : Bool) (now : Nat)
  | loadPersist (qname : Text) (qtype : Nat)
  | aggressiveAnswer (qname : Text) (qtype now : Nat)
  | upstreamQuery (asker : Asker) (qname : Text) (qtype : Nat)
  | cacheInsert (origin : Origin) (e : CacheEntry)
  | storePersist (e : CacheEntry)
  | aggressiveInsert (proof : NsecProof) (ttlSecs now : Nat)
  | prefetchAsync (qname : Text) (qtype : Nat)
  | bufferText

/-- Their results. `bufferText` is what a text buffer holds that was not (or not fully) written. -/
def Op.Res : Op → Type
  | .time => Nat
  | .mdnsQuery _ _ => Option Bytes
  | .cacheLookup _ _ _ _ => Option CacheEntry
  | .loadPersist _ _ => Option CacheEntry
  | .aggressiveAnswer _ _ _ => Option Bool
  | .upstreamQuery _ _ _ => Option Reply
  | .cacheInsert _ _ => Unit
  | .storePersist _ => Unit
  | .aggressiveInsert _ _ _ => Unit
  | .prefetchAsync _ _ => Unit
  | .bufferText => Text

/-- Programs of the resolver's threads; the recursive function takes a name and a type and returns
a status and a result. -/
abbrev R := Prog Op Op.Res (Text × Nat) (Int × ResolveResult)

/-- One operation. -/
def perform (o : Op) : R o.Res := Prog.perform o

/-! ## Text of answers -/

/-- A class IN record of an answer section, as the result loop reads it. -/
structure RawAnswer where
  name : Text
  type : Nat
  ttl : Nat
  rdoff : Nat
  rdlen : Nat

/-- The result loop of `dns_resolve_core`: up to `room` records. -/
def rawAnswers (resp : Bytes) : Nat → Nat → Nat → List RawAnswer
  | 0, _, _ => []
  | n + 1, off, room =>
    if off < resp.length ∧ 0 < room then
      match nameFromWire resp off 256 with
      | none => []
      | some (rname, a) =>
        if a + 10 > resp.length then []
        else
          let rdlen := get16 resp (a + 8)
          if get16 resp (a + 2) = RRClass.IN ∧ get16 resp a ≠ OPT then
            ⟨rname, get16 resp a, get32 resp (a + 4), a + 10, rdlen⟩ ::
              rawAnswers resp n (a + 10 + rdlen) (room - 1)
          else rawAnswers resp n (a + 10 + rdlen) room
    else []

/-- The offset the result loop starts from; `none` when a question does not decode: the C loop then
goes on from offset `-1`, in front of the reply, where the model has no record. -/
def answersStart (resp : Bytes) : Option Nat := skipQuestions resp (qdcount resp) 12

/-- The text of one record: `rdata_to_str`, or what the buffer holds where that does not write all
of it or reads past the reply. -/
def answerText (pkt : Bytes) (rdoff rdlen type : Nat) : R Text :=
  if rdoff + rdlen > pkt.length then perform .bufferText
  else
    match rdataToStr pkt rdoff rdlen type 512 with
    | some t => pure t
    | none => perform .bufferText

/-- The rows for the raw answers of a reply. -/
def answerRows (resp : Bytes) : List RawAnswer → R (List Answer)
  | [] => pure []
  | a :: as => do
    let text ← answerText resp a.rdoff a.rdlen a.type
    let rest ← answerRows resp as
    pure (⟨a.name, a.type, a.ttl, text⟩ :: rest)

/-- "Populate result from raw response". -/
def populate (resp : Bytes) : R (List Answer) :=
  match answersStart resp with
  | none => pure []
  | some off => answerRows resp (rawAnswers resp (ancount resp) off maxAnswers)

/-- The text of a cached record: its rdata is printed from a packet of its own, `fake[512]`. -/
def cachedText (r : CacheRR) : R Text :=
  if r.rdata.length > 512 then perform .bufferText
  else answerText r.rdata 0 r.rdata.length r.type

/-- The rows of a cached entry. -/
def cachedRows (qname : Text) (now : Nat) : List CacheRR → R (List Answer)
  | [] => pure []
  | r :: rs => do
    let text ← cachedText r
    let rest ← cachedRows qname now rs
    pure (⟨qname, r.type, r.ttlOriginal - elapsed now r.insertedAt, text⟩ :: rest)

theorem perform_bind_bind {α β : Type} {o : Op} {f : o.Res → R α} {g : α → R β} :
    perform o >>= f >>= g = perform o >>= fun r => f r >>= g :=
  rfl

/-! ## The resolve path -/

section

variable (cfg : Config) (C : Crypto) (anchors : List Bytes)

/-- `is_local_name`. -/
def isLocalName (name : Text) : Bool :=
  6 < name.length && eqCI (name.drop (name.length - 6)) (lit ".local")

variable (qname : Text)

/-- A hit that is stale, or close to its end, asks for a refresh. -/
def prefetchIfDue (ce : CacheEntry) (qname : Text) (remaining : Nat) : R Unit :=
  if ce.servedStale ∨ (!ce.negative ∧ 0 < ce.prefetchTtl ∧ remaining ≤ ce.prefetchTtl) then
    perform (.prefetchAsync qname ce.qtype)
  else pure ()

/-- `serve_cached_entry`. -/
def serveCachedEntry (ce : CacheEntry) (qname : Text) : R (Int × ResolveResult) := do
  let now ← perform .time
  let remaining := entryRemainingTtl ce now
  let result : ResolveResult :=
    { resultInit with
      fromCache := if ce.servedStale then 2 else 1
      cacheTtlRemaining := remaining
      rcode := ce.rcode
      dnssecStatus := ce.dnssecStatus }
  prefetchIfDue ce qname remaining
  if ce.negative then pure (ce.rcode, result)
  else
    let rows ← cachedRows (safeStrcpy qname 256) now (ce.rrs.take maxAnswers)
    pure (0, { result with answers := rows })

variable (qtype : Nat)

/-- `cache_servfail`. -/
def cacheServfail : R Unit :=
  if cfg.servfailCacheTtl = 0 then pure ()
  else do
    let now ← perform .time
    let e : CacheEntry := ⟨safeStrcpy qname 256, qtype, [], true, 2, cfg.servfailCacheTtl, now, 0,
      false, .unchecked⟩
    perform (.cacheInsert .servfail e)
    perform (.storePersist e)

/-- Part -1: multicast for `.local` names. -/
def mdnsAttempt : R (Option ResolveResult) :=
  if !isLocalName qname then pure none
  else do
    match ← perform (.mdnsQuery qname qtype) with
    | none => pure none
    | some mresp =>
      let now ← perform .time
      match parseResponseToEntry cfg mresp qname qtype now with
      | none => pure none
      | some e =>
        if e.rrs.isEmpty then pure none
        else
          let mce := { e with dnssecStatus := .insecure }
          perform (.cacheInsert .multicast mce)
          perform (.storePersist mce)
          let rows ← populate mresp
          if rows.isEmpty then pure none
          else pure (some { resultInit with dnssecStatus := .insecure, answers := rows })

/-- Part 0: search domains for a name without a dot, until one resolves. -/
def searchAttempt (qname : Text) (qtype : Nat) : List Text → R (Option ResolveResult)
  | [] => pure none
  | d :: ds => do
    let (rc, sub) ← Prog.recurse (safeStrcpy (qname ++ [dot] ++ d) 256, qtype)
    if rc = 0 ∧ sub.rcode ≠ 3 then pure (some sub)
    else searchAttempt qname qtype ds

/-- Parts 1 and 2: the memory cache, then the persistent tier. -/
def cacheAttempt (allowStale : Bool) : R (Option CacheEntry) := do
  let now ← perform .time
  match ← perform (.cacheLookup qname qtype allowStale now) with
  | some ce => pure (some ce)
  | none =>
    match ← perform (.loadPersist qname qtype) with
    | none => pure none
    | some e => pure (serveWindow cfg e allowStale now)

/-- The verdict on a reply, by `dnssec_validate_negative` or `dnssec_validate_response`, and the
proofs of a negative one. -/
def validateEntry (E : Env) (resp : Bytes) (qname : Text) (negative : Bool) :
    DnssecStatus × List NsecProof :=
  if negative then dnssecValidateNegative E resp qname maxNegProofs
  else (dnssecValidateResponse E resp qname, [])

/-- The spans of a secure denial go into the table. -/
def insertProofs (ttlSecs now : Nat) : List NsecProof → R Unit
  | [] => pure ()
  | p :: ps => do
    perform (.aggressiveInsert p ttlSecs now)
    insertProofs ttlSecs now ps

/-- Following an alias: each hop resolves the target and appends its rows. -/
def chase (qtype : Nat) : Nat → Text → ResolveResult → R ResolveResult
  | 0, _, result => pure result
  | hops + 1, target, result =>
    if target = [] then pure result
    else do
      let (rc, sub) ← Prog.recurse (target, qtype)
      if rc < 0 then pure result
      else
        let result' :=
          { result with answers := (result.answers ++ sub.answers).take maxAnswers }
        match sub.answers with
        | [] => pure result'
        | a :: _ =>
          if a.type = CNAME then chase qtype hops (safeStrcpy a.text 256) result'
          else pure result'

/-- Part 5: the rows of the reply, and the alias they may start with. -/
def finish (resp : Bytes) (qtype : Nat) (result : ResolveResult) : R (Int × ResolveResult) := do
  let rows ← populate resp
  let result' := { result with answers := rows }
  match rows with
  | [] => pure (0, result')
  | a :: _ =>
    if a.type = CNAME ∧ qtype ≠ CNAME ∧ qtype ≠ ANY then
      let r ← chase qtype maxCnameHops (safeStrcpy a.text 256) result'
      pure (0, r)
    else pure (0, result')

/-- Part 4: parse and validate the reply; a bogus one is dropped, any other is cached. -/
def acceptReply (rep : Reply) (qname : Text) (qtype : Nat) : R (Int × ResolveResult) := do
  let now ← perform .time
  let result := { resultInit with rcode := rcodeOf rep.resp }
  match parseResponseToEntry cfg rep.resp qname qtype now with
  | none => finish rep.resp qtype result
  | some e =>
    let E : Env := ⟨C, anchors, rep.fetch⟩
    let (status, proofs) := validateEntry E rep.resp qname e.negative
    insertProofs e.negTtl now (if e.negative ∧ status = .secure then proofs else [])
    let result' := { result with dnssecStatus := status }
    if status = .bogus then pure (-2, result')
    else
      let ce := { e with dnssecStatus := status }
      perform (.cacheInsert (.unicast E rep.resp qname) ce)
      perform (.storePersist ce)
      finish rep.resp qtype result'

/-- The failure path: a stale entry if there is one, else the failure is cached. -/
def upstreamFailed (rcode : Nat) : R (Int × ResolveResult) := do
  match ← cacheAttempt cfg qname qtype true with
  | some sce => serveCachedEntry sce qname
  | none =>
    cacheServfail cfg qname qtype
    pure (-1, { resultInit with rcode := rcode })

/-- What part 3 does with what it gets. -/
def uponReply : Option Reply → R (Int × ResolveResult)
  | none => upstreamFailed cfg qname qtype 0
  | some rep =>
    if rep.resp.length < 12 then upstreamFailed cfg qname qtype 0
    else if rcodeOf rep.resp = 2 then upstreamFailed cfg qname qtype 2
    else acceptReply cfg C anchors rep qname qtype

/-- Part 3: ask upstream. -/
def upstreamAttempt : R (Int × ResolveResult) :=
  perform (.upstreamQuery .foreground qname qtype) >>= uponReply cfg C anchors qname qtype

/-- Parts 1 to 5: the name as it is. -/
def resolveExact : R (Int × ResolveResult) := do
  match ← cacheAttempt cfg qname qtype false with
  | some ce => serveCachedEntry ce qname
  | none =>
    let now ← perform .time
    match ← perform (.aggressiveAnswer qname qtype now) with
    | some isNxdomain =>
      let rcode : Nat := if isNxdomain then 3 else 0
      pure ((rcode : Int),
        { resultInit with fromCache := 1, rcode := rcode, dnssecStatus := .secure })
    | none => upstreamAttempt cfg C anchors qname qtype

/-- `dns_resolve_core`. -/
def dnsResolveCore (x : Text × Nat) : R (Int × ResolveResult) := do
  let qname := strlower (safeStrcpy x.1 256)
  match ← mdnsAttempt cfg qname x.2 with
  | some r => pure (0, r)
  | none =>
    if cfg.searchDomains ≠ [] ∧ ¬ qname.contains dot then
      match ← searchAttempt qname x.2 cfg.searchDomains with
      | some sub => pure (0, sub)
      | none => resolveExact cfg C anchors qname x.2
    else resolveExact cfg C anchors qname x.2

/-- `prefetch_do`: a refresh. Nothing is validated. -/
def prefetchDo : R (Int × ResolveResult) := do
  match ← perform (.upstreamQuery .prefetch qname qtype) with
  | none => pure (0, resultInit)
  | some rep =>
    if 12 ≤ rep.resp.length ∧ rcodeOf rep.resp ≠ 2 then
      let now ← perform .time
      match parseResponseToEntry cfg rep.resp qname qtype now with
      | none => pure (0, resultInit)
      | some e =>
        perform (.cacheInsert (.unicast ⟨C, anchors, rep.fetch⟩ rep.resp qname) e)
        perform (.storePersist e)
        pure (0, resultInit)
    else pure (0, resultInit)

end

/-! ## The resolver as a system of threads -/

/-- What the threads share: the cache, the denial spans and the prefetch queue. -/
structure Shared where
  cache : Cache
  agg : AggTable
  queue : List (Text × Nat)
deriving DecidableEq, Repr

/-- `PREFETCH_QUEUE_LEN`. -/
def prefetchQueueLen : Nat := 64

/-- `prefetch_async`: dropped when the queue is full or holds the job already. -/
def prefetchAsync (queue : List (Text × Nat)) (qname : Text) (qtype : Nat) : List (Text × Nat) :=
  if queue.length = prefetchQueueLen then queue
  else if queue.any fun j => j.2 == qtype && eqCI j.1 qname then queue
  else queue ++ [(safeStrcpy qname 256, qtype)]

section

variable (cfg : Config) (C : Crypto) (anchors : List Bytes)

/-- One operation: the shared state answers what it knows, `outside` the rest. -/
def act (outside : (o : Op) → o.Res) (s : Shared) : (o : Op) → o.Res × Shared
  | .cacheLookup qname qtype allowStale now =>
    let r := cacheLookup cfg s.cache qname qtype allowStale now
    (r.1, { s with cache := r.2 })
  | .aggressiveAnswer qname qtype now =>
    (aggressiveNsecAnswer C cfg.aggressiveNsecEnabled s.agg.slots qname qtype now, s)
  | .cacheInsert _ e => ((), { s with cache := cacheInsert cfg s.cache e })
  | .aggressiveInsert p ttlSecs now =>
    ((), { s with agg := aggressiveNsecInsert s.agg p ttlSecs now })
  | .prefetchAsync qname qtype => ((), { s with queue := prefetchAsync s.queue qname qtype })
  | o => (outside o, s)

/-- The threads that are started: a query, the worker's next refresh, a flush. -/
inductive Started (s : Shared) : R (Int × ResolveResult) → Shared → Prop
  | query (x : Text × Nat) : Started s (dnsResolveCore cfg C anchors x) s
  | refresh {qname : Text} {qtype : Nat} {rest : List (Text × Nat)}
      (h : s.queue = (qname, qtype) :: rest) :
      Started s (prefetchDo cfg C anchors qname qtype) { s with queue := rest }
  | flush (key : Option (Text × Nat)) :
      Started s (pure (0, resultInit)) { s with cache := cacheFlush s.cache key }

/-- The resolver. -/
def resolver : Machine Op Op.Res (Text × Nat) (Int × ResolveResult) Shared where
  body := dnsResolveCore cfg C anchors
  exec s o r s' := ∃ outside, act cfg C outside s o = (r, s')
  start s p s' := Started cfg C anchors s p s'

end

/-! ## What is inserted -/

/-- The operation inserts an entry of a unicast reply that validation rejects. -/
def BogusInsert : Op → Prop
  | .cacheInsert (.unicast E resp qname) e => (validateEntry E resp qname e.negative).1 = .bogus
  | _ => False

/-- The reply to a refresh of `qname` is one `prefetch_do` does not store, or not one validation
rejects. -/
def ReplySound (C : Crypto) (anchors : List Bytes) (qname : Text) (reply : Option Reply) : Prop :=
  ∀ rep ∈ reply, 12 ≤ rep.resp.length → rcodeOf rep.resp ≠ 2 →
    (entryQuestions rep.resp (qdcount rep.resp) 12).isSome →
    (validateEntry ⟨C, anchors, rep.fetch⟩ rep.resp qname (isNegative rep.resp)).1 ≠ .bogus

/-- An operation is answered soundly: only the reply to a refresh matters. -/
def RefreshSound (C : Crypto) (anchors : List Bytes) : (o : Op) → o.Res → Prop
  | .upstreamQuery .prefetch qname _, r => ReplySound C anchors qname r
  | _, _ => True

instance : DecidablePred BogusInsert
  | .cacheInsert (.unicast E resp qname) e =>
    inferInstanceAs (Decidable ((validateEntry E resp qname e.negative).1 = .bogus))
  | .cacheInsert .multicast _ | .cacheInsert .servfail _ => isFalse id
  | .time | .mdnsQuery _ _ | .cacheLookup _ _ _ _ | .loadPersist _ _ | .aggressiveAnswer _ _ _
  | .upstreamQuery _ _ _ | .storePersist _ | .aggressiveInsert _ _ _ | .prefetchAsync _ _
  | .bufferText => isFalse id

instance decReplySound (C : Crypto) (anchors : List Bytes) (qname : Text) (reply : Option Reply) :
    Decidable (ReplySound C anchors qname reply) :=
  inferInstanceAs (Decidable (∀ rep ∈ reply, 12 ≤ rep.resp.length → rcodeOf rep.resp ≠ 2 →
    (entryQuestions rep.resp (qdcount rep.resp) 12).isSome →
    (validateEntry ⟨C, anchors, rep.fetch⟩ rep.resp qname (isNegative rep.resp)).1 ≠ .bogus))

instance (C : Crypto) (anchors : List Bytes) :
    (o : Op) → (r : o.Res) → Decidable (RefreshSound C anchors o r)
  | .upstreamQuery .prefetch qname _, r => decReplySound C anchors qname r
  | .upstreamQuery .foreground _ _, _ => isTrue trivial
  | .time, _ | .mdnsQuery _ _, _ | .cacheLookup _ _ _ _, _ | .loadPersist _ _, _
  | .aggressiveAnswer _ _ _, _ | .cacheInsert _ _, _ | .storePersist _, _
  | .aggressiveInsert _ _ _, _ | .prefetchAsync _ _, _ | .bufferText, _ => isTrue trivial

/-- The name that `dns_resolve_core` works on fits its buffer. -/
theorem length_strlower_safeStrcpy_le (name : Text) :
    (strlower (safeStrcpy name 256)).length ≤ 255 := by
  rw [length_strlower, safeStrcpy, List.length_take]
  exact Nat.min_le_left _ _

section Always

variable {cfg : Config} {C : Crypto} {anchors : List Bytes}

/-- The property holds of every operation but an upstream query, a lookup of fresh entries, a look
at the denial spans and the insertion of a unicast reply or of a failure. -/
structure Routine (P : Op → Prop) : Prop where
  time : P .time
  mdnsQuery : ∀ qname qtype, P (.mdnsQuery qname qtype)
  staleLookup : ∀ qname qtype now, P (.cacheLookup qname qtype true now)
  loadPersist : ∀ qname qtype, P (.loadPersist qname qtype)
  multicast : ∀ e : CacheEntry, isLocalName e.qname = true → P (.cacheInsert .multicast e)
  storePersist : ∀ e, P (.storePersist e)
  aggressiveInsert : ∀ proof ttlSecs now, P (.aggressiveInsert proof ttlSecs now)
  prefetchAsync : ∀ qname qtype, P (.prefetchAsync qname qtype)
  bufferText : P .bufferText

section Routine

variable {P : Op → Prop} {A : (o : Op) → o.Res → Prop} (h : Routine P)
include h

theorem Routine.answerText (pkt : Bytes) (rdoff rdlen type : Nat) :
    (answerText pkt rdoff rdlen type).Always P A := by
  unfold Resolver.answerText
  refine always_ite (fun _ => always_perform h.bufferText) fun _ => ?_
  split
  · exact always_pure _
  · exact always_perform h.bufferText

theorem Routine.answerRows (resp : Bytes) :
    ∀ as : List RawAnswer, (answerRows resp as).Always P A
  | [] => always_pure _
  | _ :: as => always_bind (h.answerText _ _ _ _) fun _ =>
    always_bind (Routine.answerRows resp as) fun _ => always_pure _

theorem Routine.populate (resp : Bytes) : (populate resp).Always P A := by
  unfold Resolver.populate
  split
  · exact always_pure _
  · exact h.answerRows _ _

theorem Routine.cachedText (r : CacheRR) : (cachedText r).Always P A :=
  always_ite (fun _ => always_perform h.bufferText) fun _ => h.answerText _ _ _ _

theorem Routine.cachedRows (qname : Text) (now : Nat) :
    ∀ rs : List CacheRR, (cachedRows qname now rs).Always P A
  | [] => always_pure _
  | _ :: rs => always_bind (h.cachedText _) fun _ =>
    always_bind (Routine.cachedRows qname now rs) fun _ => always_pure _

theorem Routine.prefetchIfDue (ce : CacheEntry) (qname : Text) (remaining : Nat) :
    (prefetchIfDue ce qname remaining).Always P A :=
  always_ite (fun _ => always_perform (h.prefetchAsync _ _)) fun _ => always_pure _

theorem Routine.serveCachedEntry (ce : CacheEntry) (qname : Text) :
    (serveCachedEntry ce qname).Always P A := by
  unfold Resolver.serveCachedEntry
  refine always_bind (always_perform h.time) fun now => ?_
  refine always_bind (h.prefetchIfDue _ _ _) fun _ => ?_
  refine always_ite (fun _ => always_pure _) fun _ => ?_
  exact always_bind (h.cachedRows _ _ _) fun _ => always_pure _

variable {qname : Text} {qtype : Nat}

theorem Routine.cacheServfail
    (hinsert : ∀ e : CacheEntry, e.qname = safeStrcpy qname 256 → e.qtype = qtype →
      P (.cacheInsert .servfail e)) : (cacheServfail cfg qname qtype).Always P A := by
  unfold Resolver.cacheServfail
  refine always_ite (fun _ => always_pure _) fun _ => ?_
  refine always_bind (always_perform h.time) fun now => ?_
  exact always_bind (always_perform (hinsert _ rfl rfl)) fun _ =>
    always_perform (h.storePersist _)

theorem Routine.mdnsAttempt (hlen : qname.length ≤ 255) (qtype : Nat) :
    (mdnsAttempt cfg qname qtype).Always P A := by
  unfold Resolver.mdnsAttempt
  refine always_ite (fun _ => always_pure _) fun hlocal => ?_
  refine always_bind (always_perform (h.mdnsQuery _ _)) fun reply => ?_
  cases reply with
  | none => exact always_pure _
  | some mresp =>
    refine always_bind (always_perform h.time) fun now => ?_
    cases hp : parseResponseToEntry cfg mresp qname qtype now with
    | none => exact always_pure _
    | some e =>
      have hname : isLocalName e.qname = true := by
        rw [(parseResponseToEntry_spec hp).2.2.1, safeStrcpy, List.take_of_length_le hlen]
        simpa using hlocal
      refine always_ite (fun _ => always_pure _) fun _ => ?_
      refine always_bind (always_perform (h.multicast _ hname)) fun _ => ?_
      refine always_bind (always_perform (h.storePersist _)) fun _ => ?_
      refine always_bind (h.populate _) fun rows => ?_
      exact always_ite (fun _ => always_pure _) fun _ => always_pure _

omit h in
theorem always_searchAttempt (qname : Text) (qtype : Nat) :
    ∀ ds : List Text, (searchAttempt qname qtype ds).Always P A
  | [] => always_pure _
  | _ :: ds => always_bind (Prog.always_recurse _) fun _ =>
    always_ite (fun _ => always_pure _) fun _ => always_searchAttempt qname qtype ds

theorem Routine.cacheAttempt {allowStale : Bool}
    (hlookup : ∀ now, P (.cacheLookup qname qtype allowStale now)) :
    (cacheAttempt cfg qname qtype allowStale).Always P A := by
  unfold Resolver.cacheAttempt
  refine always_bind (always_perform h.time) fun now => ?_
  refine always_bind (always_perform (hlookup now)) fun hit => ?_
  cases hit with
  | some ce => exact always_pure _
  | none =>
    refine always_bind (always_perform (h.loadPersist _ _)) fun stored => ?_
    cases stored with
    | none | some e => exact always_pure _

theorem Routine.insertProofs (ttlSecs now : Nat) :
    ∀ ps : List NsecProof, (insertProofs ttlSecs now ps).Always P A
  | [] => always_pure _
  | _ :: ps => always_bind (always_perform (h.aggressiveInsert _ _ _)) fun _ =>
    Routine.insertProofs ttlSecs now ps

omit h in
theorem always_chase (qtype : Nat) :
    ∀ (hops : Nat) (target : Text) (result : ResolveResult),
      (chase qtype hops target result).Always P A
  | 0, _, _ => always_pure _
  | hops + 1, target, result => by
    unfold chase
    refine always_ite (fun _ => always_pure _) fun _ => ?_
    refine always_bind (Prog.always_recurse _) fun sub => ?_
    refine always_ite (fun _ => always_pure _) fun _ => ?_
    cases sub.2.answers with
    | nil => exact always_pure _
    | cons a rest =>
      exact always_ite (fun _ => always_chase qtype hops _ _) fun _ => always_pure _

theorem Routine.finish (resp : Bytes) (qtype : Nat) (result : ResolveResult) :
    (finish resp qtype result).Always P A := by
  unfold Resolver.finish
  refine always_bind (h.populate _) fun rows => ?_
  cases rows with
  | nil => exact always_pure _
  | cons a rest =>
    refine always_ite (fun _ => ?_) fun _ => always_pure _
    exact always_bind (always_chase _ _ _ _) fun _ => always_pure _

/-- The foreground path: a reply is inserted only behind the verdict. -/
theorem Routine.acceptReply {rep : Reply}
    (hinsert : ∀ e : CacheEntry, e.qname = safeStrcpy qname 256 → e.qtype = qtype →
      (validateEntry ⟨C, anchors, rep.fetch⟩ rep.resp qname e.negative).1 ≠ .bogus →
      P (.cacheInsert (.unicast ⟨C, anchors, rep.fetch⟩ rep.resp qname) e)) :
    (acceptReply cfg C anchors rep qname qtype).Always P A := by
  unfold Resolver.acceptReply
  refine always_bind (always_perform h.time) fun now => ?_
  cases hp : parseResponseToEntry cfg rep.resp qname qtype now with
  | none => exact h.finish _ _ _
  | some e =>
    refine always_bind (h.insertProofs _ _ _) fun _ => ?_
    refine always_ite (fun _ => always_pure _) fun hok => ?_
    obtain ⟨-, -, hname, htype⟩ := parseResponseToEntry_spec hp
    refine always_bind (always_perform (hinsert _ hname htype hok)) fun _ => ?_
    exact always_bind (always_perform (h.storePersist _)) fun _ => h.finish _ _ _

theorem Routine.upstreamFailed
    (hinsert : ∀ e : CacheEntry, e.qname = safeStrcpy qname 256 → e.qtype = qtype →
      P (.cacheInsert .servfail e)) (rcode : Nat) :
        (upstreamFailed cfg qname qtype rcode).Always P A := by
  unfold Resolver.upstreamFailed
  refine always_bind (h.cacheAttempt (h.staleLookup _ _)) fun stale => ?_
  cases stale with
  | some sce => exact h.serveCachedEntry _ _
  | none => exact always_bind (h.cacheServfail hinsert) fun _ => always_pure _

/-- What follows the upstream query. -/
theorem Routine.uponReply (reply : Option Reply)
    (hfailed : ∀ e : CacheEntry, e.qname = safeStrcpy qname 256 → e.qtype = qtype →
      P (.cacheInsert .servfail e))
    (hinsert : ∀ (rep : Reply) (e : CacheEntry), e.qname = safeStrcpy qname 256 → e.qtype = qtype →
      (validateEntry ⟨C, anchors, rep.fetch⟩ rep.resp qname e.negative).1 ≠ .bogus →
      P (.cacheInsert (.unicast ⟨C, anchors, rep.fetch⟩ rep.resp qname) e)) :
    (uponReply cfg C anchors qname qtype reply).Always P A := by
  cases reply with
  | none => exact h.upstreamFailed hfailed _
  | some rep =>
    refine always_ite (fun _ => h.upstreamFailed hfailed _) fun _ => ?_
    exact always_ite (fun _ => h.upstreamFailed hfailed _) fun _ => h.acceptReply (hinsert rep)

theorem Routine.resolveExact (hlookup : ∀ now, P (.cacheLookup qname qtype false now))
    (hspan : ∀ now, P (.aggressiveAnswer qname qtype now))
    (hup : (upstreamAttempt cfg C anchors qname qtype).Always P A) :
    (resolveExact cfg C anchors qname qtype).Always P A := by
  unfold Resolver.resolveExact
  refine always_bind (h.cacheAttempt hlookup) fun hit => ?_
  cases hit with
  | some ce => exact h.serveCachedEntry _ _
  | none =>
    refine always_bind (always_perform h.time) fun now => ?_
    refine always_bind (always_perform (hspan now)) fun span => ?_
    cases span with
    | some isNxdomain => exact always_pure _
    | none => exact hup

theorem Routine.dnsResolveCore {x : Text × Nat}
    (hexact : ∀ qname : Text, qname.length ≤ 255 →
      (Resolver.resolveExact cfg C anchors qname x.2).Always P A) :
    (dnsResolveCore cfg C anchors x).Always P A := by
  have hlen := length_strlower_safeStrcpy_le x.1
  unfold Resolver.dnsResolveCore
  refine always_bind (h.mdnsAttempt hlen _) fun local? => ?_
  cases local? with
  | some r => exact always_pure _
  | none =>
    refine always_ite (fun _ => ?_) fun _ => hexact _ hlen
    refine always_bind (always_searchAttempt _ _ _) fun sub => ?_
    cases sub with
    | some r => exact always_pure _
    | none => exact hexact _ hlen

end Routine

/-- Nothing bogus is inserted, as long as refreshes are answered soundly. -/
abbrev Clean (C : Crypto) (anchors : List Bytes) {α : Type} (p : R α) : Prop :=
  p.Always (fun o => ¬ BogusInsert o) (RefreshSound C anchors)

theorem routine_not_bogusInsert : Routine fun o => ¬ BogusInsert o :=
  ⟨id, fun _ _ => id, fun _ _ _ => id, fun _ _ => id, fun _ _ => id, fun _ => id,
    fun _ _ _ => id, fun _ _ => id, id⟩

theorem clean_upstreamAttempt (qname : Text) (qtype : Nat) :
    Clean C anchors (upstreamAttempt cfg C anchors qname qtype) := by
  rw [upstreamAttempt]
  refine always_bind (always_perform id) fun reply => ?_
  exact routine_not_bogusInsert.uponReply reply (fun _ _ _ => id) fun _ _ _ _ hok => hok

/-- `dns_resolve_core` inserts nothing that validation rejects, whatever it is answered. -/
theorem clean_dnsResolveCore (x : Text × Nat) :
    Clean C anchors (dnsResolveCore cfg C anchors x) :=
  routine_not_bogusInsert.dnsResolveCore fun _ _ =>
    routine_not_bogusInsert.resolveExact (fun _ => id) (fun _ => id) (clean_upstreamAttempt _ _)

/-- `prefetch_do` depends on what it is answered. -/
theorem clean_prefetchDo (qname : Text) (qtype : Nat) :
    Clean C anchors (prefetchDo cfg C anchors qname qtype) := by
  unfold prefetchDo
  refine Prog.always_perform_bind id fun reply hreply => ?_
  cases reply with
  | none => exact always_pure _
  | some rep =>
    refine always_ite (fun hst => ?_) fun _ => always_pure _
    refine always_bind (always_perform id) fun now => ?_
    cases hp : parseResponseToEntry cfg rep.resp qname qtype now with
    | none => exact always_pure _
    | some e =>
      obtain ⟨hq, hneg, -⟩ := parseResponseToEntry_spec hp
      have hok := hreply rep rfl hst.1 hst.2 hq
      rw [← hneg] at hok
      refine always_bind (always_perform hok) fun _ => ?_
      exact always_bind (always_perform id) fun _ => always_pure _

end Always

/-- **Nothing unvalidated is inserted, as long as refreshes are answered soundly.** In every
interleaving of queries, refreshes and flushes, with any clock, upstream, multicast and persistent
tier: if no reply to a refresh that `prefetch_do` stores is one validation would reject, no
insertion of the run is of a unicast reply that validation rejects. -/
theorem validated_inserts (cfg : Config) (C : Crypto) (anchors : List Bytes) (s : Shared)
    (evs : List (Machine.Event Op Op.Res))
    (c : Machine.Conf Op Op.Res (Text × Nat) (Int × ResolveResult) Shared)
    (hrun : (resolver cfg C anchors).Run ⟨s, []⟩ evs c)
    (hrefresh : ∀ e ∈ evs, RefreshSound C anchors e.1 e.2) :
    ∀ e ∈ evs, ¬ BogusInsert e.1 := by
  refine (Machine.Run.always (P := fun o => ¬ BogusInsert o) (A := RefreshSound C anchors)
    clean_dnsResolveCore ?_ hrun hrefresh (by simp)).1
  intro s p s' hstart
  cases hstart with
  | query x => exact clean_dnsResolveCore x
  | refresh h => exact clean_prefetchDo _ _
  | flush key => exact always_pure _

/-! ## A run with a refresh -/

/-- A small cache. -/
def sampleConfig : Config := ⟨16, 3600, 60, 600, 5, false, []⟩

abbrev sampleResolver := resolver sampleConfig .sample Env.sample.anchors

/-- The address of `a.b` with a TTL of 100 s, unsigned. -/
def plainAnswer : Option Bytes := do
  let m ← messageStart 7 0x8180 1 0 0 (lit "a.b") RRType.A
  appendRRPlain m 512 (lit "a.b") RRType.A RRClass.IN 100 [192, 0, 2, 1]

/-- Another address of `a.b` under the RRSIG of the address 192.0.2.1. -/
def forgedAnswer : Option Bytes := do
  let canon ← appendRRPlain [] 256 (lit "a.b") RRType.A RRClass.IN 60 [192, 0, 2, 1]
  let sig := sampleRrsig RRType.A 15 2 60 2000000000 1000000000 1 (lit "b") [canon]
  let m ← messageStart 7 0x8180 2 0 0 (lit "a.b") RRType.A
  let m ← appendRRPlain m 512 (lit "a.b") RRType.A RRClass.IN 60 [203, 0, 113, 9]
  appendRRPlain m 512 (lit "a.b") RRSIG RRClass.IN 60 sig

/-- The world at time `now`: upstream answers queries with `fg` and refreshes with `refresh`. -/
def world (now : Nat) (fg refresh : Option Bytes) : (o : Op) → o.Res
  | .time => now
  | .mdnsQuery _ _ | .cacheLookup _ _ _ _ | .loadPersist _ _ => none
  | .aggressiveAnswer _ _ _ => none
  | .upstreamQuery .foreground _ _ => fg.map fun b => ⟨b, Env.sample.fetch⟩
  | .upstreamQuery .prefetch _ _ => refresh.map fun b => ⟨b, Env.sample.fetch⟩
  | .cacheInsert _ _ | .storePersist _ | .aggressiveInsert _ _ _ | .prefetchAsync _ _ => ()
  | .bufferText => []

/-- A query for `a.b` or the next refresh, driven alone at `now`. -/
def sampleDrive (now : Nat) (refresh : Option Bytes) (s : Shared) (p : R (Int × ResolveResult)) :
    Machine.Driven Op Op.Res (Text × Nat) (Int × ResolveResult) Shared :=
  (resolver sampleConfig .sample Env.sample.anchors).drive
    (act sampleConfig .sample (world now plainAnswer refresh)) 40 s ⟨p, []⟩

/-- The query of the sample run. -/
def sampleQuery : R (Int × ResolveResult) :=
  dnsResolveCore sampleConfig .sample Env.sample.anchors (lit "a.b", RRType.A)

/-- The first query fills the cache, the second one finds the entry close to its end and asks for a
refresh, the third thread is that refresh. -/
def sampleFill : Machine.Driven Op Op.Res (Text × Nat) (Int × ResolveResult) Shared :=
  sampleDrive 1000 none ⟨[], ⟨[], 0⟩, []⟩ sampleQuery

/-- The second thread. -/
def sampleHit : Machine.Driven Op Op.Res (Text × Nat) (Int × ResolveResult) Shared :=
  sampleDrive 1095 none sampleFill.shared sampleQuery

/-- The third thread, with the reply it gets. -/
def sampleRefresh (reply : Option Bytes) :
    Machine.Driven Op Op.Res (Text × Nat) (Int × ResolveResult) Shared :=
  sampleDrive 1096 reply { sampleHit.shared with queue := [] }
    (prefetchDo sampleConfig .sample Env.sample.anchors (lit "a.b") RRType.A)

/-- The three threads are a run from the empty cache. -/
theorem sample_run (reply : Option Bytes) :
    sampleResolver.Run ⟨⟨[], ⟨[], 0⟩, []⟩, []⟩
      (sampleFill.events ++ sampleHit.events ++ (sampleRefresh reply).events)
      ⟨(sampleRefresh reply).shared,
        [sampleFill.thread, sampleHit.thread, (sampleRefresh reply).thread]⟩ := by
  have hact : ∀ (now : Nat) (refresh : Option Bytes) (s : Shared) (o : Op), sampleResolver.exec s o
      (act sampleConfig .sample (world now plainAnswer refresh) s o).1
      (act sampleConfig .sample (world now plainAnswer refresh) s o).2 :=
    fun now refresh s o => ⟨world now plainAnswer refresh, rfl⟩
  have hqueue : sampleHit.shared.queue = [(lit "a.b", RRType.A)] := by decide +kernel
  have h1 := (Machine.Run.refl (M := sampleResolver) ⟨⟨[], ⟨[], 0⟩, []⟩, []⟩).start_drive
    (.query (lit "a.b", RRType.A)) (hact 1000 none) 40
  have h2 := h1.start_drive (.query (lit "a.b", RRType.A)) (hact 1095 none) 40
  exact h2.start_drive (.refresh hqueue) (hact 1096 reply) 40

/-- A refresh answered with the plain address: nothing bogus is inserted. -/
theorem validated_inserts_plain :
    (∀ e ∈ sampleFill.events ++ sampleHit.events ++ (sampleRefresh plainAnswer).events,
      RefreshSound .sample Env.sample.anchors e.1 e.2) ∧
    ∀ e ∈ sampleFill.events ++ sampleHit.events ++ (sampleRefresh plainAnswer).events,
      ¬ BogusInsert e.1 := by
  have hsound : ∀ e ∈ sampleFill.events ++ sampleHit.events ++ (sampleRefresh plainAnswer).events,
      RefreshSound .sample Env.sample.anchors e.1 e.2 := by decide +kernel
  exact ⟨hsound, validated_inserts sampleConfig .sample Env.sample.anchors _ _ _
    (sample_run plainAnswer) hsound⟩

/-- **A refresh inserts a forgery**: started from the empty cache, the refresh of `a.b` is answered
with an address its RRSIG does not verify, and that reply is inserted. -/
theorem refresh_inserts_forgery :
    ∃ evs c, (resolver sampleConfig .sample Env.sample.anchors).Run ⟨⟨[], ⟨[], 0⟩, []⟩, []⟩ evs c ∧
      ∃ e ∈ evs, BogusInsert e.1 :=
  ⟨_, _, sample_run forgedAnswer, by decide +kernel⟩

end SimpleDns.Resolver
