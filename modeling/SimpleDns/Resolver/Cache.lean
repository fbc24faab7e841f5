import SimpleDns.Resolver.Entry

/-!
# The in-memory cache (`resolverd.c:3104-3342`, `3474-3545`)

The hash table and the LRU list hold the same entries, so the cache is the list of its entries in
LRU order, most recently used first. Looking a name up compares within one hash bucket: the key test
is bucket, type and case-insensitive name.
-/

namespace SimpleDns.Resolver

open Wire

/-- `CACHE_BUCKETS`. -/
def cacheBuckets : Nat := 4096

/-- `cache_hash`: FNV-1a over the octets of the name, then the type. -/
def cacheHash (name : Text) (qtype : Nat) : Nat :=
  let step := fun (h : UInt32) (c : UInt32) => (h ^^^ c) * 16777619
  let h := name.foldl (fun h c => step h c.toUInt32) 2166136261
  (step h qtype.toUInt32).toNat % cacheBuckets

/-- The entry is the one a lookup of `(qname, qtype)` finds. -/
def CacheEntry.hasKey (e : CacheEntry) (qname : Text) (qtype : Nat) : Bool :=
  cacheHash e.qname e.qtype == cacheHash qname qtype && e.qtype == qtype && eqCI e.qname qname

/-- The entries, most recently used first. -/
abbrev Cache := List CacheEntry

/-- `cache_insert`: an entry of the same key is replaced, and past the capacity the least recently
used entry is evicted. -/
def cacheInsert (cfg : Config) (c : Cache) (e : CacheEntry) : Cache :=
  let c' := e :: c.eraseP (·.hasKey e.qname e.qtype)
  if c'.length > cfg.cacheSize then c'.dropLast else c'

/-- `cache_lookup`: a copy of the entry if it may be served, and the cache with the entry moved to
the front. -/
def cacheLookup (cfg : Config) (c : Cache) (qname : Text) (qtype : Nat) (allowStale : Bool)
    (now : Nat) : Option CacheEntry × Cache :=
  match c.find? (·.hasKey qname qtype) with
  | none => (none, c)
  | some e =>
    match serveWindow cfg e allowStale now with
    | none => (none, c)
    | some copy => (some copy, e :: c.eraseP (·.hasKey qname qtype))

/-- `cache_flush`: one key, or everything. -/
def cacheFlush (c : Cache) : Option (Text × Nat) → Cache
  | none => []
  | some (qname, qtype) => c.eraseP (·.hasKey qname qtype)

end SimpleDns.Resolver
