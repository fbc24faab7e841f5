import SimpleDns.Server.Finish
import SimpleDns.Server.Replica

/-!
# Full transfer (`axfr_send_runtime`, `axfr_thread`, `dns_server.c:8975-9166`, `10109-10254`)

The primary sends its SOA, the compiled-in records of the zone, the records of the store, its
zone-signing keys and the SOA again, one record a message. The secondary keeps of each record what
`xfr_rdata_to_store` makes of it and writes its `zone:` keys anew (`xfrPull`).

* `axfrStream` is what is sent. `Dnsd.held` lists, for an owner and a type, what the primary has of
  it, in the order it is sent (**`sent_eq_held`**).
* **`xfrPull_axfrStream`**: an accepted stream is applied as a full transfer. `writeAll_single` and
  `writeAll_grouped` say which value a key has behind it.
-/

namespace SimpleDns.Server

open Wire Lib List Option RRType

/-! ## What the primary sends -/

/-- `ztypes`. -/
def ztypes : List (Text × Nat) :=
  [(lit "A", RRType.A), (lit "AAAA", AAAA), (lit "CNAME", CNAME),
    (lit "MX", MX), (lit "TXT", TXT), (lit "NS", NS), (lit "SRV", SRV),
    (lit "CAA", CAA), (lit "SSHFP", SSHFP), (lit "TLSA", TLSA),
    (lit "DNAME", DNAME), (lit "LOC", LOC), (lit "URI", URI),
    (lit "NAPTR", NAPTR), (lit "PTR", PTR), (lit "SVCB", SVCB),
    (lit "HTTPS", HTTPS), (lit "ZONEMD", ZONEMD), (lit "CSYNC", CSYNC),
    (lit "DS", DS)]

/-- `dtypes`. -/
def dtypes : List (Text × Nat) :=
  [(lit "A", RRType.A), (lit "AAAA", AAAA), (lit "PTR", PTR)]

/-- `pass`: the provisioned records, then the leases. -/
inductive AxfrPass
  | zone
  | ddns
deriving DecidableEq, Repr

/-- `ns`. -/
def AxfrPass.ns : AxfrPass → Text
  | .zone => lit "zone"
  | .ddns => lit "ddns"

/-- `tt`. -/
def AxfrPass.types : AxfrPass → List (Text × Nat)
  | .zone => ztypes
  | .ddns => dtypes

/-- A reply of the transaction in `val[768]`; an empty value is skipped. -/
def axfrGet (s : Store) (key : Text) : Option Text := (vkGet s key 768).filter (· ≠ [])

/-- The rdata of a provisioned value. -/
def zoneRdata (type : Nat) (val : Text) : List Bytes :=
  let toks := strtok bar (splitTtl val).2
  if type = RRType.A then toks.filterMap inetPton4
  else if type = AAAA then toks.filterMap inetPton6
  else if type = NS then toks.filterMap (nameToWire · 300)
  else if type = DS then toks.filterMap dsEntry
  else (nonempty (storedRdata type (splitTtl val).2 512)).toList

/-- The rdata of a lease. -/
def leaseRdata (type : Nat) (val : Text) : List Bytes :=
  (if type = RRType.A then inetPton4 val
    else if type = AAAA then inetPton6 val
    else nameToWire val 300).toList

/-- What a pass sends for a key: TTLs and rdata. -/
def AxfrPass.values (pass : AxfrPass) (s : Store) (type : Nat) (key : Text) : List (Nat × Bytes) :=
  match axfrGet s key with
  | none => []
  | some val =>
    match pass with
    | .zone => (zoneRdata type val).map fun rd => ((splitTtl val).1, rd)
    | .ddns => (leaseRdata type val).map fun rd => (leaseTtl s key % 2 ^ 32, rd)

/-- A record as it is handed to `axfr_emit_one`: owner, type, TTL and rdata. -/
abbrev AxfrItem := Text × Nat × Nat × Bytes

/-- `axfr_emit_one`: nothing for an owner without a wire form. -/
def axfrEmitOne (i : AxfrItem) : Option XfrRR :=
  (wireOwner i.1).map fun n => .data n i.2.1 i.2.2.1 i.2.2.2

/-- The records of a pass of `axfr_send_runtime`. -/
def axfrPassItems (D : Dnsd) (zname : Text) (pass : AxfrPass) : List AxfrItem :=
  pass.types.flatMap fun p =>
    let pre := recordKey pass.ns zname p.1 []
    (D.scan (pre ++ lit "*")).flatMap fun key =>
      (pass.values D.store p.2 key).map fun v => (key.drop pre.length, p.2, v)

/-- The rdata `axfr_thread` sends for a compiled-in record: as in an answer, but no DNAME. -/
def DnsRec.axfrRdata (r : DnsRec) : Option Bytes :=
  if r.type = DNAME then none else r.rdata

/-- The loop of `axfr_thread` over `static_zone`. -/
def axfrStaticItems (zname : Text) : List AxfrItem :=
  (staticZone.filter fun r => zoneMatches zname r.name).flatMap fun r =>
    r.axfrRdata.toList.map fun rd => (r.name, r.type, r.ttl, rd)

/-- The DNSKEY records of `axfr_thread`. -/
def axfrKeyItems (Z : ServedZone) : List AxfrItem :=
  ((Z.keys.zsk.map (dnskeyRdata flagZsk algEcdsaP256)).toList ++
    (Z.keys.zskEd.map (dnskeyRdata flagZsk algEd25519)).toList).map fun rd =>
      (Z.name, DNSKEY, 3600, rd)

/-- Everything between the two SOAs; the two passes are `axfr_send_runtime`. -/
def axfrItems (D : Dnsd) (Z : ServedZone) : List AxfrItem :=
  axfrStaticItems Z.name ++ (axfrPassItems D Z.name .zone ++ axfrPassItems D Z.name .ddns) ++
    axfrKeyItems Z

/-- The records between the two SOAs. -/
def axfrData (D : Dnsd) (Z : ServedZone) : List XfrRR := (axfrItems D Z).filterMap axfrEmitOne

/-- The full transfer of `axfr_thread`. Without an SOA rdata the SOAs are missing. -/
def axfrStream (D : Dnsd) (Z : ServedZone) : List XfrRR :=
  let soa := (buildSoaRdata Z D.global).toList.map fun _ => XfrRR.soa Z.soaSerial
  soa ++ axfrData D Z ++ soa

/-! ## What the primary has -/

/-- The prefixes of the keys a transfer reads. -/
def axfrPrefixes (zname : Text) : List Text :=
  ztypes.map (fun p => recordKey (lit "zone") zname p.1 []) ++
    dtypes.map fun p => recordKey (lit "ddns") zname p.1 []

/-- The keys of the zone are canonical: each owner is spelled as it comes out of its wire form.
Valkey lists the keys with a prefix, each once. -/
structure CanonicalKeys (D : Dnsd) (zname : Text) : Prop where
  noColon : colon ∉ zname
  short : zname.length ≤ 255
  nodup : ∀ pre ∈ axfrPrefixes zname, (D.scan (pre ++ lit "*")).Nodup
  scan : ∀ pre ∈ axfrPrefixes zname, ∀ key,
    key ∈ D.scan (pre ++ lit "*") ↔ pre <+: key ∧ (D.store key).isSome = true
  owner : ∀ pre ∈ axfrPrefixes zname, ∀ n, (D.store (pre ++ n)).isSome = true → wireOwner n = some n

/-- What the compiled-in zone has for an owner and a type. -/
def heldStatic (zname : Text) (type : Nat) (n : Text) : List (Nat × Bytes) :=
  (staticZone.filter fun r => zoneMatches zname r.name && r.type == type && r.name == n).flatMap
    fun r => r.axfrRdata.toList.map fun rd => (r.ttl, rd)

/-- What the keys of a pass have. -/
def AxfrPass.held (pass : AxfrPass) (s : Store) (zname : Text) (p : Text × Nat) (n : Text) :
    List (Nat × Bytes) :=
  if p ∈ pass.types then pass.values s p.2 (recordKey pass.ns zname p.1 n) else []

/-- What the primary has for an owner and a type. -/
def Dnsd.held (D : Dnsd) (zname : Text) (p : Text × Nat) (n : Text) : List (Nat × Bytes) :=
  heldStatic zname p.2 n ++ AxfrPass.zone.held D.store zname p n ++
    AxfrPass.ddns.held D.store zname p n

/-- The record is one of the owner and the type. -/
def XfrRR.at (n : Text) (type : Nat) : XfrRR → Option (Nat × Bytes)
  | .soa _ => none
  | .data o t ttl rd => if o = n ∧ t = type then some (ttl, rd) else none

/-- What is sent for a list of values under one name and one type. -/
theorem sent_at {α : Type} (name n : Text) (t type : Nat) (l : List α) (f : α → Nat × Bytes) :
    (l.map fun v => (name, t, f v)).filterMap (fun i => (axfrEmitOne i).bind (XfrRR.at n type)) =
      if wireOwner name = some n ∧ t = type then l.map f else [] := by
  rw [filterMap_map]
  by_cases h : wireOwner name = some n ∧ t = type
  · simp [axfrEmitOne, XfrRR.at, h]
  · rw [if_neg h]
    cases hw : wireOwner name with
    | none => simp [axfrEmitOne, hw]
    | some m =>
      rw [hw, some.injEq] at h
      simp [axfrEmitOne, XfrRR.at, hw, h]

/-- Only one element of a list without repetitions contributes. -/
theorem flatMap_single {α β : Type} {l : List α} {a : α} {f : α → List β} (hl : l.Nodup)
    (h : ∀ b ∈ l, b ≠ a → f b = []) (ha : a ∉ l → f a = []) : l.flatMap f = f a := by
  induction l with
  | nil => exact (ha not_mem_nil).symm
  | cons b l ih =>
    rw [flatMap_cons]
    obtain ⟨hb, hl⟩ := nodup_cons.mp hl
    by_cases hba : b = a
    · subst hba
      have hrest : l.flatMap f = [] := by
        rw [flatMap_eq_nil_iff]
        intro c hc
        exact h c (mem_cons_of_mem _ hc) fun heq => hb (heq ▸ hc)
      rw [hrest, append_nil]
    · rw [h b mem_cons_self hba, nil_append]
      refine ih hl (fun c hc => h c (mem_cons_of_mem _ hc)) fun hmem => ha ?_
      rw [mem_cons, not_or]
      exact ⟨fun heq => hba heq.symm, hmem⟩

theorem recordKey_append (ns zone type n : Text) :
    recordKey ns zone type n = recordKey ns zone type [] ++ n := by
  simp [recordKey]

variable {pass : AxfrPass} {p : Text × Nat}

theorem prefix_mem_axfrPrefixes (hp : p ∈ pass.types) (zname : Text) :
    recordKey pass.ns zname p.1 [] ∈ axfrPrefixes zname := by
  rw [axfrPrefixes, mem_append]
  cases pass with
  | zone => exact .inl (mem_map_of_mem hp)
  | ddns => exact .inr (mem_map_of_mem hp)

theorem values_of_none {s : Store} {key : Text} (h : s key = none) (type : Nat) :
    pass.values s type key = [] := by
  simp [AxfrPass.values, axfrGet, vkGet, h]

variable {D : Dnsd}

/-- The keys of one type: those of the owner contribute. -/
theorem scanned_at {zname : Text} (hD : CanonicalKeys D zname) (hp : p ∈ pass.types) (n : Text) :
    ((D.scan (recordKey pass.ns zname p.1 [] ++ lit "*")).flatMap fun key =>
      if wireOwner (key.drop (recordKey pass.ns zname p.1 []).length) = some n then
        pass.values D.store p.2 key else []) =
      pass.values D.store p.2 (recordKey pass.ns zname p.1 n) := by
  have hpre := prefix_mem_axfrPrefixes hp zname
  rw [recordKey_append pass.ns zname p.1 n]
  generalize recordKey pass.ns zname p.1 [] = pre at hpre ⊢
  -- what one key contributes
  have hkey : ∀ m, (if wireOwner ((pre ++ m).drop pre.length) = some n then
      pass.values D.store p.2 (pre ++ m) else []) =
        if m = n then pass.values D.store p.2 (pre ++ m) else [] := by
    intro m
    cases hs : D.store (pre ++ m) with
    | none => simp [values_of_none hs]
    | some c =>
      rw [drop_left, hD.owner pre hpre m (by rw [hs]; rfl)]
      simp only [some.injEq]
  rw [flatMap_single (a := pre ++ n) (hD.nodup pre hpre)]
  · rw [hkey, if_pos rfl]
  · intro key hmem hne
    obtain ⟨⟨m, rfl⟩, -⟩ := (hD.scan pre hpre key).mp hmem
    rw [hkey, if_neg]
    rintro rfl
    exact hne rfl
  · intro hmem
    have hnone : D.store (pre ++ n) = none := by
      by_contra hsome
      exact hmem ((hD.scan pre hpre _).mpr
        ⟨prefix_append _ _, isSome_iff_ne_none.mpr hsome⟩)
    rw [hkey, if_pos rfl, values_of_none hnone]

/-- The numbers of the types tell the entries of the tables apart. -/
theorem types_inj {q : Text × Nat} (hp : p ∈ ztypes) (hq : q ∈ pass.types) (h : q.2 = p.2) :
    q = p := by
  have hall : ∀ p ∈ ztypes, ∀ q ∈ ztypes ++ dtypes, q.2 = p.2 → q = p := by decide
  refine hall p hp q (mem_append.mpr ?_) h
  cases pass with
  | zone => exact .inl hq
  | ddns => exact .inr hq

theorem passItems_at {zname : Text} (hD : CanonicalKeys D zname) (pass : AxfrPass)
    (hp : p ∈ ztypes) (n : Text) :
    (axfrPassItems D zname pass).filterMap (fun i => (axfrEmitOne i).bind (XfrRR.at n p.2)) =
      pass.held D.store zname p n := by
  have hother : ∀ q ∈ pass.types, q ≠ p → q.2 ≠ p.2 := fun q hq hne h => hne (types_inj hp hq h)
  have hnodup : pass.types.Nodup := by cases pass <;> decide
  have hone : ∀ name t (l : List (Nat × Bytes)), (l.map fun v => (name, t, v)).filterMap
      (fun i => (axfrEmitOne i).bind (XfrRR.at n p.2)) =
        if wireOwner name = some n ∧ t = p.2 then l else [] := fun name t l =>
    (sent_at name n t p.2 l id).trans (by rw [List.map_id])
  simp only [axfrPassItems, filterMap_flatMap, hone]
  unfold AxfrPass.held
  by_cases hmem : p ∈ pass.types
  · rw [if_pos hmem, flatMap_single hnodup (fun q hq hne => by simp [hother q hq hne])
      fun h => absurd hmem h]
    simpa using scanned_at hD hmem n
  · rw [if_neg hmem, flatMap_eq_nil_iff]
    intro q hq
    simp [hother q hq fun heq => hmem (heq ▸ hq)]

theorem staticItems_at (zname n : Text) (type : Nat) :
    (axfrStaticItems zname).filterMap (fun i => (axfrEmitOne i).bind (XfrRR.at n type)) =
      heldStatic zname type n := by
  have hwire : ∀ r ∈ staticZone, wireOwner r.name = some r.name := by decide +kernel
  unfold axfrStaticItems heldStatic
  generalize staticZone = l at hwire ⊢
  induction l with
  | nil => rfl
  | cons r l ih =>
    have hr := hwire r mem_cons_self
    have ih := ih fun r hr => hwire r (mem_cons_of_mem _ hr)
    cases hz : zoneMatches zname r.name with
    | false => simpa [hz] using ih
    | true =>
      rw [filter_cons_of_pos (by simpa using hz), flatMap_cons, filterMap_append,
        ih, sent_at, hr]
      simp only [some.injEq]
      have hpos : (zoneMatches zname r.name && r.type == type && r.name == n) = true ↔
          r.name = n ∧ r.type = type := by
        rw [hz]
        simp [and_comm]
      by_cases h : r.name = n ∧ r.type = type
      · rw [if_pos h, filter_cons, if_pos (hpos.mpr h), flatMap_cons]
      · rw [if_neg h, filter_cons, if_neg (hpos.not.mpr h), nil_append]

variable {Z : ServedZone}

/-- **The stream carries what the primary has**, for every owner and every type of the table. -/
theorem sent_eq_held (hD : CanonicalKeys D Z.name) (hp : p ∈ ztypes) (n : Text) :
    (axfrData D Z).filterMap (XfrRR.at n p.2) = D.held Z.name p n := by
  have hkey : p.2 ≠ DNSKEY := (by decide : ∀ p ∈ ztypes, p.2 ≠ DNSKEY) p hp
  rw [axfrData, filterMap_filterMap, axfrItems, filterMap_append, filterMap_append,
    filterMap_append, staticItems_at, passItems_at hD .zone hp, passItems_at hD .ddns hp,
    axfrKeyItems, sent_at, if_neg fun h => hkey h.2.symm, append_nil, ← append_assoc, Dnsd.held]

/-! ## What the secondary reads -/

/-- The record `xfr_pull` keeps of a data record. -/
def XfrRR.toRec : XfrRR → Option XfrRec
  | .soa _ => none
  | .data o t ttl rd => (xfrRdataToStore t rd).map fun val => ⟨o, t, ttl, val⟩

/-- The records up to `p'` were read into `p`, none of them an SOA. -/
structure Pulled (l : List XfrRR) (p p' : Pull) : Prop where
  recs : p'.recs = p.recs ++ l.filterMap XfrRR.toRec
  done : p'.done = false
  soaCount : p'.soaCount = p.soaCount
  target : p'.target = p.target
  mode : p'.mode ≠ .incremental

theorem pulled_data {p p' : Pull} {o : Text} {t ttl : Nat} {rd : Bytes} (hd : p.done = false)
    (hm : p.mode ≠ .incremental) (h : pullStep p (.data o t ttl rd) = some p') :
    Pulled [.data o t ttl rd] p p' := by
  have hmode : (if p.soaCount = 1 ∧ p.mode = .unknown then PullMode.full else p.mode) ≠
      .incremental := by
    split
    · decide
    · exact hm
  rw [pullStep, if_neg (by simp [hd])] at h
  cases hval : xfrRdataToStore t rd with
  | none =>
    rw [hval] at h
    cases h
    exact ⟨by simp [XfrRR.toRec, hval], hd, rfl, rfl, hmode⟩
  | some val =>
    rw [hval] at h
    dsimp only at h
    rw [if_neg hmode] at h
    split at h
    · cases h
    · cases h
      exact ⟨by simp [XfrRR.toRec, hval], hd, rfl, rfl, hmode⟩

/-- A run over data records keeps what each of them leaves. -/
theorem pulled_foldlM {l : List XfrRR} (hl : ∀ rr ∈ l, ∃ o t ttl rd, rr = .data o t ttl rd)
    {p p' : Pull} (hd : p.done = false) (hm : p.mode ≠ .incremental)
    (h : l.foldlM pullStep p = some p') : Pulled l p p' := by
  induction l generalizing p with
  | nil =>
    cases h
    exact ⟨by simp, hd, rfl, rfl, hm⟩
  | cons rr l ih =>
    rw [foldlM_cons] at h
    obtain ⟨q, hq, hrest⟩ := bind_eq_some_iff.mp h
    obtain ⟨o, t, ttl, rd, rfl⟩ := hl rr mem_cons_self
    have hone := pulled_data hd hm hq
    have htail := ih (fun x hx => hl x (mem_cons_of_mem _ hx)) hone.done hone.mode hrest
    refine ⟨?_, htail.done, htail.soaCount.trans hone.soaCount, htail.target.trans hone.target,
      htail.mode⟩
    rw [htail.recs, hone.recs, append_assoc, ← filterMap_append, singleton_append]

/-- Every record between the SOAs is a data record whose owner came out of a wire form. -/
theorem axfrData_spec {rr : XfrRR} (h : rr ∈ axfrData D Z) :
    ∃ name o t ttl rd, wireOwner name = some o ∧ rr = .data o t ttl rd := by
  obtain ⟨i, -, hi⟩ := mem_filterMap.mp h
  obtain ⟨o, ho, rfl⟩ := map_eq_some_iff.mp hi
  exact ⟨i.1, o, _, _, _, ho, rfl⟩

/-- **An accepted stream is applied as a full transfer** of the records it carries. -/
theorem xfrPull_axfrStream {S : Settings} {sec sec' : State}
    (h : xfrPull S sec Z.name (axfrStream D Z) = some sec') :
    sec' = xfrApply S sec Z.name ((axfrData D Z).filterMap XfrRR.toRec) Z.soaSerial := by
  have hdata : ∀ rr ∈ axfrData D Z, ∃ o t ttl rd, rr = .data o t ttl rd := by
    intro rr hrr
    obtain ⟨-, o, t, ttl, rd, -, rfl⟩ := axfrData_spec hrr
    exact ⟨o, t, ttl, rd, rfl⟩
  rw [xfrPull, xfrRead] at h
  split at h
  · cases h
  rename_i p hp
  cases hsoa : buildSoaRdata Z D.global with
  | none =>
    -- nothing opens the stream, so nothing closes it
    simp only [axfrStream, hsoa, toList_none, map_nil, nil_append,
      append_nil] at hp
    have hpulled := pulled_foldlM hdata rfl (by decide) hp
    rw [if_neg (by simp [hpulled.done]), if_neg (by simp [hpulled.soaCount, Pull.initial])] at h
    cases h
  | some w =>
    simp only [axfrStream, hsoa, toList_some, map_cons, map_nil,
      singleton_append, foldlM_append, foldlM_cons, foldlM_nil] at hp
    obtain ⟨q, hq, hlast⟩ := bind_eq_some_iff.mp hp
    obtain ⟨q₀, hfirst, hmid⟩ := bind_eq_some_iff.mp hq
    obtain rfl : q₀ = ⟨1, .unknown, false, false, Z.soaSerial, [], []⟩ :=
      (some.inj hfirst).symm
    have hpulled := pulled_foldlM hdata rfl (by simp) hmid
    obtain ⟨q', hclose, heq⟩ := bind_eq_some_iff.mp hlast
    cases heq
    rw [pullStep, if_neg (by simp [hpulled.done])] at hclose
    rw [hpulled.soaCount, hpulled.target, if_neg (by simp), if_pos (by simp)] at hclose
    cases hclose
    rw [if_pos rfl, if_neg hpulled.mode] at h
    cases h
    rw [hpulled.recs]
    rfl

/-! ## What the secondary writes -/

/-- The types `xfr_rdata_to_store` keeps. -/
def storedTypes : List Nat :=
  [RRType.A, AAAA, NS, CNAME, DNAME, MX, TXT, SRV]

/-- A kept record of a stream: a lowercased owner that fits its buffer and a type that is kept. -/
structure XfrRec.Plain (r : XfrRec) : Prop where
  lower : strlower r.name = r.name
  short : r.name.length ≤ 255
  type : r.type ∈ storedTypes

/-- The record is one of the owner and the type. -/
def XfrRec.at (n : Text) (type : Nat) (r : XfrRec) : Bool := r.type = type ∧ r.name = n

theorem mem_storedTypes {type : Nat} {rd : Bytes} {val : Text}
    (h : xfrRdataToStore type rd = some val) : type ∈ storedTypes := by
  unfold xfrRdataToStore at h
  simp only [storedTypes, mem_cons, not_mem_nil, or_false]
  by_contra hnone
  simp only [not_or] at hnone
  simp [hnone] at h

theorem plain_of_toRec {r : XfrRec} (h : r ∈ (axfrData D Z).filterMap XfrRR.toRec) : r.Plain := by
  obtain ⟨rr, hrr, hrec⟩ := mem_filterMap.mp h
  obtain ⟨name, o, t, ttl, rd, howner, rfl⟩ := axfrData_spec hrr
  obtain ⟨val, hval, rfl⟩ := map_eq_some_iff.mp hrec
  obtain ⟨w, -, hdec⟩ := bind_eq_some_iff.mp howner
  obtain ⟨⟨m, a⟩, hname, rfl⟩ := map_eq_some_iff.mp hdec
  refine ⟨?_, length_nameFromWire_le hname, mem_storedTypes hval⟩
  obtain ⟨res, -, heq⟩ := map_eq_some_iff.mp hname
  obtain ⟨rfl, -⟩ := Prod.mk.inj heq
  exact strlower_strlower _

theorem joins_iff {r r' : XfrRec} (h : r.Plain) (h' : r'.Plain) :
    r.joins r' = true ↔ r'.type = r.type ∧ r'.name = r.name := by
  simp only [XfrRec.joins, decide_eq_true_eq, eqCI_iff, h.lower, h'.lower]

section Writes

variable {zone : Text} {p : Text × Nat} {n : Text}

section

variable (hshort : zone.length ≤ 255) (hp : p ∈ ztypes)

include hshort hp

/-- One write changes the value of its own type and owner. -/
theorem xfrWrite_at {r : XfrRec} (hr : r.Plain) (s : Store) (val : Text) :
    xfrWrite zone s r val (zkey zone p.1 n) =
      if r.at n p.2 then some ⟨val, none⟩ else s (zkey zone p.1 n) := by
  have htable : ∀ t ∈ storedTypes, ∀ p ∈ ztypes, colon ∉ type2str t ∧ colon ∉ p.1 ∧
      (type2str t).length ≤ 16 ∧ (p.1 = type2str t ↔ t = p.2) := by decide +kernel
  obtain ⟨hcolon, hcolon', hlen, htype⟩ := htable r.type hr.type p hp
  have hkey : zkey zone p.1 n = zkey (zone.take 255) ((type2str r.type).take 16)
      (r.name.take 255) ↔ r.type = p.2 ∧ r.name = n := by
    rw [take_of_length_le hshort, take_of_length_le hlen,
      take_of_length_le hr.short, zkey, zkey,
      recordKey_inj (by decide) (by decide) hcolon' hcolon, htype]
    simp [eq_comm]
  unfold xfrWrite vkSet
  by_cases h : r.type = p.2 ∧ r.name = n
  · rw [← hkey.mpr h, Function.update_self, if_pos (by simpa [XfrRec.at] using h)]
    rfl
  · rw [Function.update_of_ne (hkey.not.mpr h), if_neg (by simpa [XfrRec.at] using h)]

/-- The last record of a type that is not grouped stays. -/
theorem writeAll_single (htype : p.2 ≠ RRType.A ∧ p.2 ≠ AAAA ∧ p.2 ≠ NS)
    {recs heads : List XfrRec} (hrecs : ∀ r ∈ recs, r.Plain)
    (hheads : ∀ r ∈ heads, r.grouped = true) (s : Store) :
    xfrWriteAll zone recs heads s (zkey zone p.1 n) =
      match (recs.filter (XfrRec.at n p.2)).getLast? with
      | none => s (zkey zone p.1 n)
      | some r => some ⟨safeStrcpy (decimal r.ttl ++ [124] ++ r.val) 1024, none⟩ := by
  induction recs generalizing heads s with
  | nil => rfl
  | cons r rs ih =>
    have hr := hrecs r mem_cons_self
    have ih := fun heads => @ih heads fun r hr => hrecs r (mem_cons_of_mem _ hr)
    rw [xfrWriteAll]
    by_cases hat : r.at n p.2 = true
    · -- a record of the type is neither grouped nor joined to a group
      have hty : r.type = p.2 := by
        simp only [XfrRec.at, decide_eq_true_eq] at hat
        exact hat.1
      have hgroup : r.grouped = false := by simp [XfrRec.grouped, hty, htype]
      have hany : heads.any (·.joins r) = false := by
        rw [List.any_eq_false]
        intro h hh hjoin
        have hg := hheads h hh
        simp only [XfrRec.joins, decide_eq_true_eq] at hjoin
        simp [XfrRec.grouped, ← hjoin.1, hty, htype] at hg
      rw [if_neg (by simp [hany]), if_neg (by simp [hgroup]), ih heads hheads,
        filter_cons_of_pos hat, getLast?_cons]
      cases hlast : (rs.filter (XfrRec.at n p.2)).getLast? with
      | none => simp [xfrWrite_at hshort hp hr, hat]
      | some r' => rfl
    · rw [filter_cons_of_neg hat]
      split
      · exact ih heads hheads s
      split
      · rename_i hg
        rw [ih _ (by simpa [hg] using hheads), xfrWrite_at hshort hp hr, if_neg hat]
      · rw [ih heads hheads, xfrWrite_at hshort hp hr, if_neg hat]

/-- The records of a grouped type end up in one value, in their order, behind the first TTL. -/
theorem writeAll_grouped (htype : p.2 = RRType.A ∨ p.2 = AAAA ∨ p.2 = NS)
    {recs heads : List XfrRec} (hrecs : ∀ r ∈ recs, r.Plain) (hheads : ∀ r ∈ heads, r.Plain)
    (s : Store) :
    xfrWriteAll zone recs heads s (zkey zone p.1 n) =
      if heads.any (XfrRec.at n p.2) then s (zkey zone p.1 n)
      else
        match recs.filter (XfrRec.at n p.2) with
        | [] => s (zkey zone p.1 n)
        | r :: rs => some ⟨groupText r.ttl (r.val :: rs.map (·.val)), none⟩ := by
  induction recs generalizing heads s with
  | nil =>
    rw [xfrWriteAll]
    split <;> rfl
  | cons r rs ih =>
    have hr := hrecs r mem_cons_self
    have hrs := fun r hr => hrecs r (mem_cons_of_mem _ hr)
    have ih := fun heads => @ih heads hrs
    have hplain : ∀ h ∈ r :: heads, h.Plain := forall_mem_cons.mpr ⟨hr, hheads⟩
    rw [xfrWriteAll]
    by_cases hat : r.at n p.2 = true
    · have hat' := hat
      simp only [XfrRec.at, decide_eq_true_eq] at hat'
      have hjoin : ∀ h : XfrRec, h.Plain → h.joins r = h.at n p.2 := by
        intro h hh
        rw [Bool.eq_iff_iff, joins_iff hh hr, hat'.1, hat'.2, XfrRec.at, decide_eq_true_eq]
        exact and_congr eq_comm eq_comm
      have hgroup : r.grouped = true := by simpa [XfrRec.grouped, hat'.1] using htype
      have hany : heads.any (·.joins r) = heads.any (XfrRec.at n p.2) := by
        rw [Bool.eq_iff_iff, List.any_eq_true, List.any_eq_true]
        refine exists_congr fun h => and_congr_right fun hh => ?_
        rw [hjoin h (hheads h hh)]
      rw [hany]
      by_cases hhead : heads.any (XfrRec.at n p.2) = true
      · rw [if_pos hhead, ih heads hheads, if_pos hhead, if_pos hhead]
      · have hrest : rs.filter r.joins = rs.filter (XfrRec.at n p.2) := by
          refine filter_congr fun r' hr' => ?_
          rw [Bool.eq_iff_iff, joins_iff hr (hrs r' hr'), hat'.1, hat'.2]
          simp [XfrRec.at]
        rw [if_neg hhead, if_pos hgroup, ih _ hplain, if_pos (by simp [hat]),
          xfrWrite_at hshort hp hr, if_pos hat, if_neg hhead, filter_cons_of_pos hat, hrest]
    · rw [filter_cons_of_neg hat]
      split
      · exact ih heads hheads s
      split
      · rw [ih _ hplain, xfrWrite_at hshort hp hr, if_neg hat, any_cons,
          eq_false_of_ne_true hat, Bool.false_or]
      · rw [ih heads hheads, xfrWrite_at hshort hp hr, if_neg hat]

end

theorem xfrClear_zkey (hshort : zone.length ≤ 255) (s : Store) (type : Text) :
    xfrClear zone s (zkey zone type n) = none := by
  have hkey : zkey zone type n = (lit "zone:" ++ zone ++ lit ":") ++ (type ++ [colon] ++ n) := by
    simp [zkey, recordKey, lit, colon]
  rw [xfrClear, take_of_length_le hshort, hkey, if_pos]
  simp

end Writes

end SimpleDns.Server
