import SimpleDns.Wire.RdataText
import SimpleDns.Resolver.Positive

/-!
# Cache entries (`resolverd.c:178-196`, `3119-3159`, `3681-3800`)

* `CacheEntry` is `cache_entry_t` without its list links, `parseResponseToEntry` is
  `parse_response_to_entry`.
* `entryRemainingTtl`, `entryExpiredFor`: ages are `(uint32_t) (now - inserted_at)`.
-/

namespace SimpleDns.Resolver

open Wire

/-- `cache_rr_t`. -/
structure CacheRR where
  type : Nat
  ttlOriginal : Nat
  rdata : Bytes
  insertedAt : Nat
deriving DecidableEq, Repr

/-- `cache_entry_t`. -/
structure CacheEntry where
  qname : Text
  qtype : Nat
  rrs : List CacheRR
  negative : Bool
  rcode : Nat
  negTtl : Nat
  insertedAt : Nat
  prefetchTtl : Nat
  servedStale : Bool
  dnssecStatus : DnssecStatus
deriving DecidableEq, Repr

/-- The settings of `g_cfg` the resolve path reads. -/
structure Config where
  cacheSize : Nat
  cacheTtlMax : Nat
  cacheNegTtl : Nat
  serveStaleMax : Nat
  servfailCacheTtl : Nat
  aggressiveNsecEnabled : Bool
  searchDomains : List Text
deriving DecidableEq, Repr

/-- `PREFETCH_RATIO`. -/
def prefetchRatio : Nat := 10

/-! ## Lifetimes -/

/-- `(uint32_t) (now - then)`. -/
def elapsed (now inserted : Nat) : Nat := (((now : Int) - inserted) % 2 ^ 32).toNat

/-- `entry_remaining_ttl`. -/
def entryRemainingTtl (e : CacheEntry) (now : Nat) : Nat :=
  if e.negative then e.negTtl - elapsed now e.insertedAt
  else
    match (e.rrs.map fun r => r.ttlOriginal - elapsed now r.insertedAt).min? with
    | some m => m
    | none => 0

/-- `entry_expired_for`. -/
def entryExpiredFor (e : CacheEntry) (now : Nat) : Nat :=
  if e.negative then elapsed now e.insertedAt - e.negTtl
  else
    match (e.rrs.map fun r => elapsed now r.insertedAt).max?,
      (e.rrs.map (·.ttlOriginal)).min? with
    | some age, some orig => age - orig
    | _, _ => 0

/-- The stale-window check of `cache_lookup` and `cache_load_persist`: a fresh entry as it is, an
expired one marked stale if that is allowed and it is within `serve_stale_max`. -/
def serveWindow (cfg : Config) (e : CacheEntry) (allowStale : Bool) (now : Nat) :
    Option CacheEntry :=
  if entryRemainingTtl e now = 0 then
    if !allowStale ∨ entryExpiredFor e now > cfg.serveStaleMax then none
    else some { e with servedStale := true }
  else some { e with servedStale := false }

/-! ## From a response -/

/-- The question loop of `parse_response_to_entry`, which has no end-of-packet test of its own. -/
def entryQuestions (resp : Bytes) : Nat → Nat → Option Nat :=
  passQuestions (fun off => (nameFromWire resp off 256).map (·.2)) resp

/-- The loop that skips the answers of a negative response; it stops where they end. -/
def entrySkip (resp : Bytes) : Nat → Nat → Nat
  | 0, off => off
  | n + 1, off =>
    if off < resp.length then
      match nameFromWire resp off 256 with
      | none => off
      | some (_, a) =>
        if a + 10 > resp.length then off else entrySkip resp n (a + 10 + get16 resp (a + 8))
    else off

/-- The `minimum` field of the SOA rdata at `a + 10`, where it is inside the packet. -/
def soaMinimum (resp : Bytes) (a : Nat) : Option Nat :=
  match nameFromWire resp (a + 10) 256 with
  | none => none
  | some (_, p) =>
    match nameFromWire resp p 256 with
    | none => none
    | some (_, q) => if q + 20 ≤ resp.length then some (get32 resp (q + 16)) else none

/-- The scan of the authority section for the smallest SOA minimum. -/
def soaMinLoop (resp : Bytes) : Nat → Nat → Nat → Nat
  | 0, _, soaMin => soaMin
  | n + 1, off, soaMin =>
    if off < resp.length then
      match nameFromWire resp off 256 with
      | none => soaMin
      | some (_, a) =>
        if a + 10 > resp.length then soaMin
        else
          let rdl := get16 resp (a + 8)
          let soaMin' :=
            if get16 resp a = RRType.SOA ∧ a + 10 + rdl ≤ resp.length then
              match soaMinimum resp a with
              | some m => min m soaMin
              | none => soaMin
            else soaMin
          soaMinLoop resp n (a + 10 + rdl) soaMin'
    else soaMin

/-- The answer loop: class IN records other than OPT, TTLs clamped. -/
def entryRRs (cfg : Config) (resp : Bytes) (now : Nat) : Nat → Nat → List CacheRR
  | 0, _ => []
  | n + 1, off =>
    if off < resp.length then
      match nameFromWire resp off 256 with
      | none => []
      | some (_, a) =>
        if a + 10 > resp.length then []
        else
          let rdlen := get16 resp (a + 8)
          if get16 resp (a + 2) ≠ RRClass.IN ∨ get16 resp a = RRType.OPT then
            entryRRs cfg resp now n (a + 10 + rdlen)
          else if a + 10 + rdlen > resp.length then []
          else
            ⟨get16 resp a, min (get32 resp (a + 4)) cfg.cacheTtlMax, slice resp (a + 10) rdlen, now⟩
              :: entryRRs cfg resp now n (a + 10 + rdlen)
    else []

/-- `rcode == 3 || (rcode == 0 && ancount == 0)`. -/
def isNegative (resp : Bytes) : Bool :=
  rcodeOf resp == 3 || (rcodeOf resp == 0 && ancount resp == 0)

/-- `parse_response_to_entry`. -/
def parseResponseToEntry (cfg : Config) (resp : Bytes) (qname : Text) (qtype now : Nat) :
    Option CacheEntry :=
  if resp.length < 12 then none
  else
    match entryQuestions resp (qdcount resp) 12 with
    | none => none
    | some off =>
      if isNegative resp then
        let soaMin :=
          soaMinLoop resp (nscount resp) (entrySkip resp (ancount resp) off) cfg.cacheNegTtl
        some ⟨safeStrcpy qname 256, qtype, [], true, rcodeOf resp, min soaMin cfg.cacheNegTtl, now,
          0, false, .unchecked⟩
      else
        let rrs := entryRRs cfg resp now (ancount resp) off
        let prefetch := match (rrs.map (·.ttlOriginal)).min? with
          | some m => m / prefetchRatio
          | none => 0
        some ⟨safeStrcpy qname 256, qtype, rrs, false, rcodeOf resp, 0, now, prefetch, false,
          .unchecked⟩

/-- What an entry that was parsed has in common with the response and the query. -/
theorem parseResponseToEntry_spec {cfg : Config} {resp : Bytes} {qname : Text} {qtype now : Nat}
    {e : CacheEntry} (h : parseResponseToEntry cfg resp qname qtype now = some e) :
    (entryQuestions resp (qdcount resp) 12).isSome ∧ e.negative = isNegative resp ∧
      e.qname = safeStrcpy qname 256 ∧ e.qtype = qtype := by
  unfold parseResponseToEntry at h
  split at h
  · cases h
  split at h
  · cases h
  rename_i off hoff
  rw [hoff]
  split at h
  · rename_i hneg
    cases h
    exact ⟨rfl, hneg.symm, rfl, rfl⟩
  · rename_i hneg
    cases h
    exact ⟨rfl, (Bool.eq_false_iff.mpr hneg).symm, rfl, rfl⟩

end SimpleDns.Resolver
