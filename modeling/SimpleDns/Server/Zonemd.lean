import SimpleDns.Lib.Runs
import SimpleDns.Server.CanonStored
import SimpleDns.Server.SignedTransfer

/-!
# The zone digest (`zonemd_compute`, `dns_server.c:8616-8909`)

`zonemd_compute` collects the records of a zone in canonical form, sorts them, leaves out
repetitions and hashes what is left. A secondary verifies the digest over the records of a transfer
(RFC 8976), so the two have to enumerate the same ones; the source says they "can never diverge".

* `zmdItems` lists the records `zonemd_compute` hands to `zmd_add`, `zmdCollect` what that keeps of
  them. `Hashed` is the list that is hashed: `qsort` may leave records that differ in their TTL only
  in any order.
* `transferred` is what the transfer of `SignedTransfer.lean` sends, in canonical form and without
  the ZONEMD of the apex.
* **`zonemdExact_iff`**: for a zone within the limits of both (`Bounded`) the two agree exactly when
  the store holds no NS, DS or CSYNC record and no ZONEMD below the apex, every address of a lease
  with several is held otherwise as well, and no record is met twice where another one differs from
  it in the TTL only. `stored_rdata` has no case for NS, so the digest leaves out every delegation
  and the name servers of the zone itself.
* `nameServer_not_hashed`: a zone with a stored name server.
-/

namespace SimpleDns.Server

open Wire Lib List Option RRType
open Resolver (canonRRMax)

/-! ## Canonical records -/

/-- A record in canonical form (RFC 4034 §6.2), its owner on the wire. -/
structure CanonRR where
  owner : Bytes
  type : Nat
  ttl : Nat
  rdata : Bytes
deriving DecidableEq, Repr

/-- `wire`. -/
def CanonRR.wire (r : CanonRR) : Bytes := r.owner ++ recordTail r.type RRClass.IN r.ttl r.rdata

/-- An owner as `append_rr` writes it, in lower case. -/
def canonOwner (name : Text) : Bytes := nameWire (ownerLabels (strlower (safeStrcpy name 256)))

/-- The canonical form of a record that is sent. -/
def AxfrItem.canonical (i : AxfrItem) : CanonRR :=
  ⟨canonOwner i.1, i.2.1, i.2.2.1 % 2 ^ 32,
    (canonRdata i.2.2.2 0 i.2.2.2.length i.2.1 canonRRMax).getD i.2.2.2⟩

/-! ## What is hashed -/

/-- `zmd_rr_t`: the lowercased owner and the record. -/
structure ZmdRR where
  owner : Text
  rr : CanonRR
deriving DecidableEq, Repr

/-- `wire`. -/
def ZmdRR.wire (e : ZmdRR) : Bytes := e.rr.wire

/-- `ZMD_MAX_RR`. -/
def zmdMaxRr : Nat := 200000

/-- `zmd_add` where there is room. -/
def zmdAdd (i : AxfrItem) : Option ZmdRR :=
  let low := strlower (safeStrcpy i.1 256)
  (canonRdata i.2.2.2 0 i.2.2.2.length i.2.1 canonRRMax).bind fun canon =>
    (nameToWire low 256).map fun ow => ⟨low, ow, i.2.1, i.2.2.1 % 2 ^ 32, canon⟩

/-- `zmd_cmp`: the owner, the type, the rdata. The TTL is not compared. -/
def zmdCmp (a b : ZmdRR) : Ordering :=
  (canonNameCmp a.owner b.owner).then
    ((compare a.rr.type b.rr.type).then (compare a.rr.rdata b.rr.rdata))

/-- `ztypes` of `zonemd_compute`. -/
def zmdZtypes : List Nat :=
  [RRType.A, AAAA, CNAME, MX, TXT, NS, SRV, CAA,
    SSHFP, TLSA, DNAME, LOC, URI, NAPTR, PTR,
    SVCB, HTTPS]

/-- `dtypes` of `zonemd_compute`. -/
def zmdDtypes : List Nat := [RRType.A, AAAA, PTR]

/-- `tt` of `zonemd_compute`. -/
def AxfrPass.zmdTypes : AxfrPass → List Nat
  | .zone => zmdZtypes
  | .ddns => zmdDtypes

/-- `zmd_add_addr`. -/
def zmdAddr (type : Nat) (iplist : Text) : List Bytes :=
  (strtok bar iplist).filterMap (if type = AAAA then inetPton6 else inetPton4)

/-- What a pass of `zonemd_compute` makes of a key: TTLs and rdata. -/
def AxfrPass.zmdValues (pass : AxfrPass) (s : Store) (type : Nat) (key : Text) :
    List (Nat × Bytes) :=
  match axfrGet s key with
  | none => []
  | some val =>
    match pass with
    | .zone =>
      (if type = RRType.A ∨ type = AAAA then zmdAddr type (splitTtl val).2
        else (nonempty (storedRdata type (splitTtl val).2 512)).toList).map
          fun rd => ((splitTtl val).1, rd)
    | .ddns =>
      (if type = RRType.A ∨ type = AAAA then zmdAddr type val
        else (nameToWire val 300).toList).map fun rd => (leaseTtl s key % 2 ^ 32, rd)

variable (D : Dnsd)

/-- One pass of `zonemd_compute`. -/
def zmdPassItems (zname : Text) (pass : AxfrPass) : List AxfrItem :=
  pass.zmdTypes.flatMap fun type =>
    let pre := recordKey pass.ns zname (type2str type) []
    (D.scan (pre ++ lit "*")).flatMap fun key =>
      (pass.zmdValues D.store type key).map fun v => (key.drop pre.length, type, v)

variable (Z : ServedZone)

/-- The SOA with a serial, as the digest and the transfer have it. -/
def soaItems (global : ServedZone) (serial : Nat) : List AxfrItem :=
  (buildSoaRdataSerial Z global serial 512).toList.map fun rd =>
    (Z.name, SOA, Z.soa.minimum, rd)

/-- The calls of `zmd_add` in `zonemd_compute(z, serial, _)`. The loop over `static_zone` and the
DNSKEY records are the text of `axfr_thread`. -/
def zmdItems (serial : Nat) : List AxfrItem :=
  soaItems Z D.global serial ++ axfrStaticItems Z.name ++
    (zmdPassItems D Z.name .zone ++ zmdPassItems D Z.name .ddns) ++ axfrKeyItems Z

/-- `arr` before it is sorted: a record past the limit is dropped. -/
def zmdCollect (serial : Nat) : List ZmdRR :=
  ((zmdItems D Z serial).filterMap zmdAdd).take zmdMaxRr

/-- The records that are hashed, one after the other. -/
def Hashed (serial : Nat) (rs : List CanonRR) : Prop :=
  ∃ arr, Sorted zmdCmp (zmdCollect D Z serial) arr ∧ rs = (suppress ZmdRR.wire arr).map ZmdRR.rr

/-! ## What is transferred -/

/-- The records of a transfer, from SOA to SOA. -/
def sentItems (qid : Nat) : List AxfrItem :=
  (soaItems Z D.global Z.soaSerial ++ axfrItems D Z ++ soaItems Z D.global Z.soaSerial).filter
    fun i => (axfrMessage qid i).isSome

/-- The ZONEMD of the apex. -/
def CanonRR.apexZonemd (zname : Text) (r : CanonRR) : Bool :=
  r.type = ZONEMD ∧ r.owner = canonOwner zname

/-- What a secondary verifies the digest over. -/
def transferred (qid : Nat) : List CanonRR :=
  ((sentItems D Z qid).map AxfrItem.canonical).filter fun r => !r.apexZonemd Z.name

/-- The digest is one of the set of records that are transferred. -/
def ZonemdExact (qid : Nat) : Prop :=
  ∀ rs, Hashed D Z Z.soaSerial rs → (rs : Multiset CanonRR) = (transferred D Z qid).toFinset.val

/-! ## The two enumerations -/

/-- The types of the transfer that have no record in the digest. -/
def omittedTypes : List Nat := [NS, ZONEMD, CSYNC, DS]

variable {D : Dnsd} {zname : Text} {pass : AxfrPass} {i : AxfrItem}

theorem mem_axfrPassItems : i ∈ axfrPassItems D zname pass ↔ ∃ p ∈ pass.types,
      ∃ key ∈ D.scan (recordKey pass.ns zname p.1 [] ++ lit "*"),
        ∃ v ∈ pass.values D.store p.2 key,
          (key.drop (recordKey pass.ns zname p.1 []).length, p.2, v) = i := by
  simp [axfrPassItems]

theorem mem_zmdPassItems : i ∈ zmdPassItems D zname pass ↔ ∃ type ∈ pass.zmdTypes,
      ∃ key ∈ D.scan (recordKey pass.ns zname (type2str type) [] ++ lit "*"),
        ∃ v ∈ pass.zmdValues D.store type key,
          (key.drop (recordKey pass.ns zname (type2str type) []).length, type, v) = i := by
  simp [zmdPassItems]

/-- `stored_rdata` has no case for NS; every other value is encoded as for the transfer. -/
theorem zmdValues_zone (s : Store) {type : Nat} (htype : type ∈ zmdZtypes) (key : Text) :
    AxfrPass.zone.zmdValues s type key =
      if type = NS then [] else AxfrPass.zone.values s type key := by
  have hds : type ≠ DS := fun h => absurd (h ▸ htype) (by decide)
  unfold AxfrPass.zmdValues AxfrPass.values
  cases axfrGet s key with
  | none => simp
  | some val =>
    unfold zoneRdata zmdAddr
    by_cases ha : type = RRType.A
    · subst ha
      rfl
    by_cases haaaa : type = AAAA
    · subst haaaa
      rfl
    by_cases hns : type = NS
    · subst hns
      rfl
    · simp [ha, haaaa, hns, hds]

/-- The zone pass of the digest is that of the transfer without four types. -/
theorem mem_zmdPassItems_zone : i ∈ zmdPassItems D zname .zone ↔
      i ∈ axfrPassItems D zname .zone ∧ i.2.1 ∉ omittedTypes := by
  rw [mem_zmdPassItems, mem_axfrPassItems]
  constructor
  · rintro ⟨type, htype, key, hkey, v, hv, rfl⟩
    rw [zmdValues_zone D.store htype] at hv
    split at hv
    · cases hv
    · rename_i hns
      have htable : ∀ t ∈ zmdZtypes, t ≠ NS → (type2str t, t) ∈ ztypes ∧
          t ∉ omittedTypes := by decide
      obtain ⟨hmem, hnot⟩ := htable type htype hns
      exact ⟨⟨(type2str type, type), hmem, key, hkey, v, hv, rfl⟩, hnot⟩
  · rintro ⟨⟨p, hp, key, hkey, v, hv, rfl⟩, hnot⟩
    have htable : ∀ p ∈ ztypes, p.2 ∉ omittedTypes →
        p.2 ∈ zmdZtypes ∧ type2str p.2 = p.1 ∧ p.2 ≠ NS := by decide
    obtain ⟨hmem, hname, hns⟩ := htable p hp hnot
    refine ⟨p.2, hmem, key, hname.symm ▸ hkey, v, ?_, by rw [hname]⟩
    rwa [zmdValues_zone D.store hmem, if_neg hns]

variable {s : Text}

/-- No address has a bar in its text. -/
theorem pton_of_bar (f : Family) (h : bar ∈ s) : f.pton s = none := by
  refine eq_none_iff_forall_ne_some.mpr fun b hb => ?_
  exact absurd ((Family.pton_spec hb).2.2 bar h) (by decide)

/-- The addresses of the leases that list several. -/
def listLeases (D : Dnsd) (zname : Text) : List AxfrItem :=
  [Family.inet, Family.inet6].flatMap fun f =>
    let pre := recordKey (lit "ddns") zname f.typeName []
    (D.scan (pre ++ lit "*")).flatMap fun key =>
      match axfrGet D.store key with
      | none => []
      | some val =>
        if bar ∈ val then
          ((strtok bar val).filterMap f.pton).map fun rd =>
            (key.drop pre.length, f.rrtype, leaseTtl D.store key % 2 ^ 32, rd)
        else []

/-- An address lease: the digest splits its value, the transfer does not. -/
theorem mem_zmdValues_address {s : Store} {f : Family} {key : Text} {v : Nat × Bytes} :
    v ∈ AxfrPass.ddns.zmdValues s f.rrtype key ↔ v ∈ AxfrPass.ddns.values s f.rrtype key ∨
      ∃ val, axfrGet s key = some val ∧ bar ∈ val ∧
        v ∈ ((strtok bar val).filterMap f.pton).map fun rd => (leaseTtl s key % 2 ^ 32, rd) := by
  unfold AxfrPass.zmdValues AxfrPass.values
  cases hget : axfrGet s key with
  | none => simp
  | some val =>
    dsimp only
    have hread : zmdAddr f.rrtype val = (strtok bar val).filterMap f.pton ∧
        leaseRdata f.rrtype val = (f.pton val).toList := by cases f <;> exact ⟨rfl, rfl⟩
    rw [if_pos (by cases f <;> decide), hread.1, hread.2]
    have hne : val ≠ [] := by
      have := (filter_eq_some_iff.mp hget).2
      simpa using this
    by_cases hbar : bar ∈ val
    · simp [pton_of_bar f hbar, hbar]
    · simp [strtok_of_notMem hbar hne, hbar]

theorem mem_listLeases : i ∈ listLeases D zname ↔ ∃ f : Family,
      ∃ key ∈ D.scan (recordKey (lit "ddns") zname f.typeName [] ++ lit "*"),
        ∃ val, axfrGet D.store key = some val ∧ bar ∈ val ∧
          ∃ v ∈ ((strtok bar val).filterMap f.pton).map fun rd =>
              (leaseTtl D.store key % 2 ^ 32, rd),
            (key.drop (recordKey (lit "ddns") zname f.typeName []).length, f.rrtype, v) = i := by
  simp only [listLeases, mem_flatMap]
  constructor
  · rintro ⟨f, -, key, hkey, h⟩
    split at h
    · cases h
    · rename_i val hval
      split at h
      · rename_i hbar
        obtain ⟨rd, hrd, rfl⟩ := mem_map.mp h
        exact ⟨f, key, hkey, val, hval, hbar, _, mem_map_of_mem hrd, rfl⟩
      · cases h
  · rintro ⟨f, key, hkey, val, hval, hbar, v, hv, rfl⟩
    refine ⟨f, by cases f <;> simp, key, hkey, ?_⟩
    rw [hval]
    dsimp only
    rw [if_pos hbar]
    obtain ⟨rd, hrd, rfl⟩ := mem_map.mp hv
    exact mem_map_of_mem hrd

/-- The lease pass of the digest is that of the transfer and the leases with several addresses. -/
theorem mem_zmdPassItems_ddns :
    i ∈ zmdPassItems D zname .ddns ↔ i ∈ axfrPassItems D zname .ddns ∨ i ∈ listLeases D zname := by
  have hfamily : ∀ t ∈ zmdDtypes, t = PTR ∨ ∃ f : Family, f.rrtype = t := by
    intro t ht
    simp only [zmdDtypes, mem_cons, not_mem_nil, or_false] at ht
    rcases ht with rfl | rfl | rfl
    · exact .inr ⟨.inet, rfl⟩
    · exact .inr ⟨.inet6, rfl⟩
    · exact .inl rfl
  have hname : ∀ f : Family, type2str f.rrtype = f.typeName ∧ f.rrtype ∈ zmdDtypes ∧
      (f.typeName, f.rrtype) ∈ dtypes := by
    intro f
    cases f <;> decide
  rw [mem_zmdPassItems, mem_axfrPassItems, mem_listLeases]
  constructor
  · rintro ⟨type, htype, key, hkey, v, hv, rfl⟩
    rcases hfamily type htype with rfl | ⟨f, rfl⟩
    · exact .inl ⟨(lit "PTR", PTR), by decide, key, hkey, v, hv, rfl⟩
    · obtain ⟨htext, -, hmem⟩ := hname f
      rw [htext] at hkey ⊢
      rcases mem_zmdValues_address.mp hv with hv | ⟨val, hval, hbar, hv⟩
      · exact .inl ⟨(f.typeName, f.rrtype), hmem, key, hkey, v, hv, rfl⟩
      · exact .inr ⟨f, key, hkey, val, hval, hbar, v, hv, rfl⟩
  · rintro (⟨p, hp, key, hkey, v, hv, rfl⟩ | ⟨f, key, hkey, val, hval, hbar, v, hv, rfl⟩)
    · have htable : ∀ p ∈ dtypes, p.2 ∈ zmdDtypes ∧ type2str p.2 = p.1 := by decide
      obtain ⟨hmem, htext⟩ := htable p hp
      refine ⟨p.2, hmem, key, htext.symm ▸ hkey, v, ?_, by rw [htext]⟩
      rcases hfamily p.2 hmem with heq | ⟨f, heq⟩
      · rw [heq] at hv ⊢
        exact hv
      · rw [← heq] at hv ⊢
        exact mem_zmdValues_address.mpr (.inl hv)
    · obtain ⟨htext, hmem, -⟩ := hname f
      refine ⟨f.rrtype, hmem, key, htext.symm ▸ hkey, v, ?_, by rw [htext]; rfl⟩
      exact mem_zmdValues_address.mpr (.inr ⟨val, hval, hbar, hv⟩)

/-! ## Zones within the limits of both -/

/-- A name that `name_to_wire_c` does not cut. -/
structure WholeName (name : Text) : Prop extends OwnerName name where
  labels_le : (labels name).length ≤ 64

/-- The owners of the zone are written whole, and the digest has room for its records. -/
structure Bounded (D : Dnsd) (Z : ServedZone) : Prop where
  apex : WholeName Z.name
  owners : ∀ pre ∈ axfrPrefixes Z.name, ∀ key ∈ D.scan (pre ++ lit "*"),
    WholeName (key.drop pre.length)
  count : (zmdItems D Z Z.soaSerial).length ≤ zmdMaxRr

variable {name : Text}

theorem canonOwner_eq (h : WholeName name) :
    canonOwner name = nameWire (labels (strlower name)) := by
  rw [canonOwner, safeStrcpy_eq h.short, ownerLabels, take_of_length_le]
  rw [labels_strlower, length_map]
  exact h.labels_le

theorem WholeName.labels_lower (h : WholeName name) :
    ∀ l ∈ labels (strlower name), l ≠ [] ∧ l.length ≤ 63 :=
  short_labels_strlower h.labels_short

theorem nameToWire_strlower (h : WholeName name) :
    nameToWire (strlower name) 256 = some (nameWire (labels (strlower name))) := by
  have hlen : (strlower name).length ≤ 255 := by
    rw [length_strlower]
    exact h.short
  refine (nameToWire_eq_some_iff hlen).mpr ⟨fun l hl => (h.labels_lower l hl).2, rfl, ?_⟩
  rw [labels_strlower, length_nameWire_strlower]
  exact h.length_wire.trans (by decide)

/-- The record is one that both encoders take as it is. -/
structure AxfrItem.Fine (i : AxfrItem) : Prop where
  name : WholeName i.1
  type : i.2.1 < 2 ^ 16
  rdata : Canonizable i.2.1 i.2.2.2

/-- The entry of `arr` for a record. -/
def AxfrItem.entry (i : AxfrItem) : ZmdRR := ⟨strlower i.1, i.canonical⟩

theorem zmdAdd_eq (h : i.Fine) : zmdAdd i = some i.entry := by
  obtain ⟨c, hc⟩ := isSome_iff_exists.mp h.rdata.form
  rw [zmdAdd, hc, bind_some, safeStrcpy_eq h.name.short, nameToWire_strlower h.name,
    map_some, AxfrItem.entry, AxfrItem.canonical, canonOwner_eq h.name, hc,
    getD_some]

variable {Z : ServedZone}

theorem fine_soa {global : ServedZone} {serial : Nat} (hz : WholeName Z.name)
    (h : i ∈ soaItems Z global serial) : i.Fine := by
  obtain ⟨rd, hrd, rfl⟩ := mem_map.mp h
  refine ⟨hz, (by decide : SOA < 2 ^ 16), ?_⟩
  rw [mem_toList] at hrd
  unfold buildSoaRdataSerial at hrd
  simp only [bind_eq_bind, bind_eq_some_iff] at hrd
  obtain ⟨m, hm, r, hr, hrd⟩ := hrd
  split at hrd
  · cases hrd
  · cases hrd
    refine ⟨?_, ?_⟩
    · rename_i hroom
      rw [canonRRMax]
      simp only [length_append, length_put32]
      omega
    have htail : (put32 serial ++ put32 Z.soa.refresh ++ put32 Z.soa.retry ++ put32 Z.soa.expire ++
        put32 Z.soa.minimum).length = 20 := rfl
    simpa only [← append_assoc] using canonRdata_soa hm hr htail
      (by decide : 534 ≤ canonRRMax)

theorem fine_static (h : i ∈ axfrStaticItems zname) : i.Fine := by
  obtain ⟨r, hr, hi⟩ := mem_flatMap.mp h
  obtain ⟨rd, hrd, rfl⟩ := mem_map.mp hi
  have hnames : ∀ r ∈ staticZone, 0 ∉ r.name ∧ r.name.length ≤ 255 ∧
      (nameToWire r.name 255).isSome = true ∧ (labels r.name).length ≤ 64 ∧ r.type < 2 ^ 16 := by
    decide +kernel
  have hforms : ∀ r ∈ staticZone, ∀ rd ∈ r.axfrRdata, rd.length ≤ canonRRMax ∧
      (canonRdata rd 0 rd.length r.type canonRRMax).isSome = true := by decide +kernel
  have hmem := (mem_filter.mp hr).1
  obtain ⟨hnul, hshort, hwire, hlabels, htype⟩ := hnames r hmem
  obtain ⟨hsize, hform⟩ := hforms r hmem rd (mem_toList.mp hrd)
  exact ⟨⟨⟨hnul, hshort, isSome_iff_exists.mp hwire⟩, hlabels⟩, htype, hsize, hform⟩

theorem fine_keys (hz : WholeName Z.name) (h : i ∈ axfrKeyItems Z) : i.Fine := by
  obtain ⟨rd, hrd, rfl⟩ := mem_map.mp h
  have hkey : ∀ (k : Option KeyPair) (flags alg : Nat),
      rd ∈ (k.map (dnskeyRdata flags alg)).toList → rd.length ≤ canonRRMax := by
    intro k flags alg hmem
    obtain ⟨key, -, rfl⟩ := map_eq_some_iff.mp (mem_toList.mp hmem)
    have := key.length_pub
    rw [dnskeyRdata, canonRRMax]
    simp only [length_append, length_put16, length_cons, length_nil]
    omega
  refine ⟨hz, (by decide : DNSKEY < 2 ^ 16),
    canonizable_of_length (by decide : DNSKEY ∉ nameTypes) ?_⟩
  rcases mem_append.mp hrd with hrd | hrd
  · exact hkey _ _ _ hrd
  · exact hkey _ _ _ hrd

theorem fine_pass (hb : Bounded D Z) (h : i ∈ axfrPassItems D Z.name pass) : i.Fine := by
  obtain ⟨p, hp, key, hkey, v, hv, rfl⟩ := mem_axfrPassItems.mp h
  have htype : p.2 < 2 ^ 16 := by
    have hall : ∀ p ∈ ztypes ++ dtypes, p.2 < 2 ^ 16 := by decide
    refine hall p (mem_append.mpr ?_)
    cases pass with
    | zone => exact .inl hp
    | ddns => exact .inr hp
  refine ⟨hb.owners _ (prefix_mem_axfrPrefixes hp Z.name) key hkey, htype, ?_⟩
  unfold AxfrPass.values at hv
  split at hv
  · cases hv
  · split at hv
    · obtain ⟨rd, hrd, rfl⟩ := mem_map.mp hv
      exact canonizable_zoneRdata hrd
    · obtain ⟨rd, hrd, rfl⟩ := mem_map.mp hv
      unfold leaseRdata at hrd
      rw [mem_toList] at hrd
      split at hrd
      · rename_i ha
        rw [ha]
        exact canonizable_address (f := .inet) hrd
      split at hrd
      · rename_i haaaa
        rw [haaaa]
        exact canonizable_address (f := .inet6) hrd
      · rename_i ha haaaa
        have hptr : p.2 = PTR := by
          have hall : ∀ p ∈ dtypes, p.2 ≠ RRType.A → p.2 ≠ AAAA → p.2 = PTR := by
            decide
          exact hall p hp ha haaaa
        exact canonizable_name hrd (by decide) (.inr (.inr (.inl hptr)))

theorem fine_listLeases (hb : Bounded D Z) (h : i ∈ listLeases D Z.name) : i.Fine := by
  obtain ⟨f, key, hkey, val, -, -, v, hv, rfl⟩ := mem_listLeases.mp h
  obtain ⟨rd, hrd, rfl⟩ := mem_map.mp hv
  obtain ⟨tok, -, htok⟩ := mem_filterMap.mp hrd
  have hp : (f.typeName, f.rrtype) ∈ AxfrPass.ddns.types := by cases f <;> decide
  have htype : f.rrtype < 2 ^ 16 := by cases f <;> decide
  exact ⟨hb.owners _ (prefix_mem_axfrPrefixes hp Z.name) key hkey, htype, canonizable_address htok⟩

/-- The records that the digest and the transfer both have. -/
def Common (D : Dnsd) (Z : ServedZone) (i : AxfrItem) : Prop :=
  i ∈ soaItems Z D.global Z.soaSerial ∨ i ∈ axfrStaticItems Z.name ∨
    (i ∈ axfrPassItems D Z.name .zone ∧ i.2.1 ∉ omittedTypes) ∨
    i ∈ axfrPassItems D Z.name .ddns ∨ i ∈ axfrKeyItems Z

theorem mem_zmdItems :
    i ∈ zmdItems D Z Z.soaSerial ↔ Common D Z i ∨ i ∈ listLeases D Z.name := by
  simp only [zmdItems, mem_append, mem_zmdPassItems_zone, mem_zmdPassItems_ddns, Common]
  tauto

/-- The digest leaves out four types of the store. -/
theorem mem_axfr_iff : i ∈ soaItems Z D.global Z.soaSerial ∨ i ∈ axfrItems D Z ↔
    Common D Z i ∨ i ∈ axfrPassItems D Z.name .zone ∧ i.2.1 ∈ omittedTypes := by
  simp only [axfrItems, mem_append, Common]
  tauto

theorem Common.fine (hb : Bounded D Z) (h : Common D Z i) : i.Fine := by
  rcases h with h | h | ⟨h, -⟩ | h | h
  · exact fine_soa hb.apex h
  · exact fine_static h
  · exact fine_pass hb h
  · exact fine_pass hb h
  · exact fine_keys hb.apex h

theorem fine_of_mem_zmdItems (hb : Bounded D Z) (h : i ∈ zmdItems D Z Z.soaSerial) : i.Fine :=
  (mem_zmdItems.mp h).elim (·.fine hb) (fine_listLeases hb)

/-- Nothing is dropped. -/
theorem zmdCollect_eq (hb : Bounded D Z) :
    zmdCollect D Z Z.soaSerial = (zmdItems D Z Z.soaSerial).map AxfrItem.entry := by
  have hall : (zmdItems D Z Z.soaSerial).filterMap zmdAdd = _ :=
    filterMap_eq_map_iff_forall_eq_some.mpr fun i hi => zmdAdd_eq (fine_of_mem_zmdItems hb hi)
  rw [zmdCollect, hall, take_of_length_le]
  rw [length_map]
  exact hb.count

/-! ## The order and the repetitions -/

/-- Records are told apart by their octets. -/
theorem canonical_of_wire {j : AxfrItem} (hi : i.Fine) (hj : j.Fine)
    (h : i.canonical.wire = j.canonical.wire) : i.canonical = j.canonical := by
  unfold CanonRR.wire recordTail AxfrItem.canonical at h
  rw [canonOwner_eq hi.name, canonOwner_eq hj.name] at h
  obtain ⟨hlabels, htail⟩ :=
    nameWire_append_inj (by decide) hi.name.labels_lower hj.name.labels_lower h
  simp only [append_assoc] at htail
  obtain ⟨htype, htail⟩ := append_inj htail rfl
  obtain ⟨-, htail⟩ := append_inj htail rfl
  obtain ⟨httl, htail⟩ := append_inj htail rfl
  obtain ⟨-, hrdata⟩ := append_inj htail rfl
  unfold AxfrItem.canonical
  rw [canonOwner_eq hi.name, canonOwner_eq hj.name, hlabels, hrdata,
    put16_inj hi.type hj.type htype,
    put32_inj (Nat.mod_lt _ (by decide)) (Nat.mod_lt _ (by decide)) httl]

instance : Std.TransCmp zmdCmp :=
  inferInstanceAs (Std.TransCmp (compareLex (compareOn fun e : ZmdRR => canonLabels e.owner)
    (compareLex (compareOn fun e : ZmdRR => e.rr.type) (compareOn fun e : ZmdRR => e.rr.rdata))))

/-- The comparison tells records apart up to their TTL. -/
theorem zmdCmp_entry {j : AxfrItem} (hi : i.Fine) (hj : j.Fine) :
    zmdCmp i.entry j.entry = .eq ↔ i.canonical.owner = j.canonical.owner ∧
      i.canonical.type = j.canonical.type ∧ i.canonical.rdata = j.canonical.rdata := by
  have hlabels : ∀ {n : Text}, WholeName n →
      canonLabels (strlower n) = (labels (strlower n)).reverse := by
    intro n hn
    rw [canonLabels_eq (by rw [length_strlower]; exact hn.short), strlower_strlower]
  have howner : canonLabels i.entry.owner = canonLabels j.entry.owner ↔
      i.canonical.owner = j.canonical.owner := by
    rw [AxfrItem.entry, AxfrItem.entry, hlabels hi.name, hlabels hj.name, reverse_inj]
    constructor
    · intro h
      rw [AxfrItem.canonical, AxfrItem.canonical, canonOwner_eq hi.name, canonOwner_eq hj.name, h]
    · intro h
      rw [AxfrItem.canonical, AxfrItem.canonical, canonOwner_eq hi.name, canonOwner_eq hj.name] at h
      have hwire : nameWire (labels (strlower i.1)) ++ [] =
          nameWire (labels (strlower j.1)) ++ [] := congrArg (· ++ []) h
      exact (nameWire_append_inj (by decide) hi.name.labels_lower hj.name.labels_lower hwire).1
  rw [zmdCmp, Ordering.then_eq_eq, Ordering.then_eq_eq, canonNameCmp, Std.compare_eq_iff_eq,
    Std.compare_eq_iff_eq, Std.compare_eq_iff_eq, howner]
  rfl

/-! ## The digest and the transfer -/

/-- A record with an omitted type that the digest has is compiled in. -/
theorem static_of_omitted (hi : i ∈ zmdItems D Z Z.soaSerial) (htype : i.2.1 ∈ omittedTypes) :
    i ∈ axfrStaticItems Z.name := by
  rcases mem_zmdItems.mp hi with (h | h | ⟨-, h⟩ | h | h) | h
  · obtain ⟨rd, -, rfl⟩ := mem_map.mp h
    exact absurd htype (by decide : SOA ∉ omittedTypes)
  · exact h
  · exact absurd htype h
  · obtain ⟨p, hp, key, -, v, -, rfl⟩ := mem_axfrPassItems.mp h
    exact absurd htype ((by decide : ∀ p ∈ dtypes, p.2 ∉ omittedTypes) p hp)
  · obtain ⟨rd, -, rfl⟩ := mem_map.mp h
    exact absurd htype (by decide : DNSKEY ∉ omittedTypes)
  · obtain ⟨f, key, -, val, -, -, v, -, rfl⟩ := mem_listLeases.mp h
    exact absurd htype (by cases f <;> decide : f.rrtype ∉ omittedTypes)

theorem apexZonemd_of_mem (hi : i ∈ zmdItems D Z Z.soaSerial) :
    i.canonical.apexZonemd Z.name = false := by
  have htype : i.2.1 ≠ ZONEMD := by
    intro heq
    have hstatic := static_of_omitted hi (by rw [heq]; decide)
    obtain ⟨r, hr, hmem⟩ := mem_flatMap.mp hstatic
    obtain ⟨rd, -, rfl⟩ := mem_map.mp hmem
    have hall : ∀ r ∈ staticZone, r.type ≠ ZONEMD := by decide
    exact hall r (mem_filter.mp hr).1 heq
  simp [CanonRR.apexZonemd, AxfrItem.canonical, htype]

/-- The records that are collected, in canonical form. -/
def zmdRecords (D : Dnsd) (Z : ServedZone) : List CanonRR :=
  (zmdItems D Z Z.soaSerial).map AxfrItem.canonical

/-- What the store has to be like. -/
structure Digestible (D : Dnsd) (Z : ServedZone) : Prop where
  /-- An NS, DS, CSYNC or ZONEMD record of the store is the ZONEMD of the apex or compiled in. -/
  omitted : ∀ i ∈ axfrPassItems D Z.name .zone, i.2.1 ∈ omittedTypes →
    i.canonical.apexZonemd Z.name = true ∨
      i.canonical ∈ (axfrStaticItems Z.name).map AxfrItem.canonical
  /-- An address of a lease that lists several is also held on its own. -/
  leases : ∀ i ∈ listLeases D Z.name, ∃ j ∈ axfrStaticItems Z.name ++
    axfrPassItems D Z.name .zone ++ axfrPassItems D Z.name .ddns, j.canonical = i.canonical
  /-- A record that is met twice does not differ from another one in its TTL alone. -/
  ttls : ∀ r ∈ zmdRecords D Z, ∀ r' ∈ zmdRecords D Z, r.owner = r'.owner → r.type = r'.type →
    r.rdata = r'.rdata → r.ttl ≠ r'.ttl → (zmdRecords D Z).count r ≤ 1

section Iff

variable {D : Dnsd} {Z : ServedZone} (hb : Bounded D Z)

include hb

/-- Every record of the zone is sent. -/
theorem mem_transferred {qid : Nat} {r : CanonRR} :
    r ∈ transferred D Z qid ↔ (∃ i, (Common D Z i ∨
      i ∈ axfrPassItems D Z.name .zone ∧ i.2.1 ∈ omittedTypes) ∧ i.canonical = r) ∧
        r.apexZonemd Z.name = false := by
  simp only [← mem_axfr_iff, transferred, sentItems, mem_filter, List.mem_map, mem_append,
    Bool.not_eq_true']
  constructor
  · rintro ⟨⟨i, ⟨hi, -⟩, rfl⟩, hapex⟩
    exact ⟨⟨i, hi.elim id .inl, rfl⟩, hapex⟩
  · rintro ⟨⟨i, hi, rfl⟩, hapex⟩
    have hfine : i.Fine := (mem_axfr_iff.mp hi).elim (·.fine hb) fun h => fine_pass hb h.1
    have hsize := hfine.rdata.size
    have hroom : (header qid axfrFlags 0 1 0 0).length + 265 + i.2.2.2.length ≤ axfrBufSize := by
      rw [length_header, axfrBufSize]
      rw [canonRRMax] at hsize
      omega
    obtain ⟨msg, hmsg⟩ := appendRR_of_room hfine.name.toOwnerName [] i.2.1 RRClass.IN i.2.2.1 hroom
    have hsent : (axfrMessage qid i).isSome = true := by
      rw [axfrMessage, hmsg]
      rfl
    exact ⟨⟨i, ⟨.inl hi, hsent⟩, rfl⟩, hapex⟩

/-- An entry that is collected is that of a record. -/
theorem mem_zmdCollect {e : ZmdRR} : e ∈ zmdCollect D Z Z.soaSerial ↔
    ∃ i ∈ zmdItems D Z Z.soaSerial, i.Fine ∧ i.entry = e := by
  rw [zmdCollect_eq hb, List.mem_map]
  exact ⟨fun ⟨i, hi, he⟩ => ⟨i, hi, fine_of_mem_zmdItems hb hi, he⟩,
    fun ⟨i, hi, _, he⟩ => ⟨i, hi, he⟩⟩

section

variable {e e' : ZmdRR} (he : e ∈ zmdCollect D Z Z.soaSerial)
  (he' : e' ∈ zmdCollect D Z Z.soaSerial)

include he he'

/-- Entries are told apart by their octets. -/
theorem rr_of_wire (h : e.wire = e'.wire) : e.rr = e'.rr := by
  obtain ⟨i, -, hfi, rfl⟩ := (mem_zmdCollect hb).mp he
  obtain ⟨j, -, hfj, rfl⟩ := (mem_zmdCollect hb).mp he'
  exact canonical_of_wire hfi hfj h

/-- The comparison tells entries apart up to their TTL. -/
theorem zmdCmp_eq_iff : zmdCmp e e' = .eq ↔
      e.rr.owner = e'.rr.owner ∧ e.rr.type = e'.rr.type ∧ e.rr.rdata = e'.rr.rdata := by
  obtain ⟨i, -, hfi, rfl⟩ := (mem_zmdCollect hb).mp he
  obtain ⟨j, -, hfj, rfl⟩ := (mem_zmdCollect hb).mp he'
  exact zmdCmp_entry hfi hfj

end

variable {arr : List ZmdRR}

theorem zmdRecords_eq : zmdRecords D Z = (zmdCollect D Z Z.soaSerial).map ZmdRR.rr := by
  rw [zmdCollect_eq hb, List.map_map]
  rfl

/-- Every record is hashed. -/
theorem mem_hashed (hs : Sorted zmdCmp (zmdCollect D Z Z.soaSerial) arr) {r : CanonRR} :
    r ∈ (suppress ZmdRR.wire arr).map ZmdRR.rr ↔ r ∈ zmdRecords D Z := by
  rw [zmdRecords_eq hb, ← (hs.perm.map ZmdRR.rr).mem_iff]
  constructor
  · intro h
    obtain ⟨e, he, rfl⟩ := mem_map.mp h
    exact mem_map_of_mem (suppressFrom_subset he)
  · intro h
    obtain ⟨e, he, rfl⟩ := mem_map.mp h
    obtain ⟨e', he', hwire⟩ := mem_map.mp
      (mem_map_suppress.mpr (mem_map_of_mem (f := ZmdRR.wire) he))
    rw [← rr_of_wire hb (hs.perm.subset (suppressFrom_subset he')) (hs.perm.subset he) hwire]
    exact mem_map_of_mem he'

theorem nodup_hashed (hs : Sorted zmdCmp (zmdCollect D Z Z.soaSerial) arr) :
    ((suppress ZmdRR.wire arr).map ZmdRR.rr).Nodup ↔
      ((suppress ZmdRR.wire arr).map ZmdRR.wire).Nodup := by
  have hwire : (suppress ZmdRR.wire arr).map ZmdRR.wire =
      ((suppress ZmdRR.wire arr).map ZmdRR.rr).map CanonRR.wire := by
    rw [List.map_map]
    rfl
  rw [hwire]
  constructor
  · intro h
    refine h.map_on fun r hr r' hr' heq => ?_
    obtain ⟨e, he, rfl⟩ := mem_map.mp hr
    obtain ⟨e', he', rfl⟩ := mem_map.mp hr'
    exact rr_of_wire hb (hs.perm.subset (suppressFrom_subset he))
      (hs.perm.subset (suppressFrom_subset he')) heq
  · exact List.Nodup.of_map _

/-- No record is hashed twice, whatever the order `qsort` leaves, exactly when the TTLs allow it. -/
theorem uniform_iff : Uniform zmdCmp ZmdRR.wire (zmdCollect D Z Z.soaSerial) ↔
    ∀ r ∈ zmdRecords D Z, ∀ r' ∈ zmdRecords D Z, r.owner = r'.owner → r.type = r'.type →
      r.rdata = r'.rdata → r.ttl ≠ r'.ttl → (zmdRecords D Z).count r ≤ 1 := by
  rw [zmdRecords_eq hb]
  simp only [List.forall_mem_map]
  refine forall₂_congr fun e he => forall₂_congr fun e' he' => ?_
  have hcount : ((zmdCollect D Z Z.soaSerial).map ZmdRR.rr).count e.rr =
      (zmdCollect D Z Z.soaSerial).countP (fun x => decide (x.wire = e.wire)) := by
    rw [count_eq_countP, countP_map]
    refine countP_congr fun x hx => ?_
    simp only [Function.comp_apply, beq_iff_eq, decide_eq_true_eq]
    exact ⟨congrArg CanonRR.wire, rr_of_wire hb hx he⟩
  rw [zmdCmp_eq_iff hb he he', hcount]
  constructor
  · intro h howner htype hrdata httl
    exact h ⟨howner, htype, hrdata⟩ fun hw => httl (congrArg CanonRR.ttl (rr_of_wire hb he he' hw))
  · rintro h ⟨howner, htype, hrdata⟩ hne
    refine h howner htype hrdata fun httl => hne (congrArg CanonRR.wire ?_)
    rw [CanonRR.mk.injEq]
    exact ⟨howner, htype, httl, hrdata⟩

theorem looksEqual_zmd : LooksEqual zmdCmp ZmdRR.wire (zmdCollect D Z Z.soaSerial) := by
  intro e he e' he' hwire
  have hsame := rr_of_wire hb he he' hwire
  exact (zmdCmp_eq_iff hb he he').mpr ⟨by rw [hsame], by rw [hsame], by rw [hsame]⟩

/-- The digest has the set of records of the transfer and none of them twice. -/
theorem zonemdExact_split (qid : Nat) : ZonemdExact D Z qid ↔
    (∀ r, r ∈ zmdRecords D Z ↔ r ∈ transferred D Z qid) ∧
      Uniform zmdCmp ZmdRR.wire (zmdCollect D Z Z.soaSerial) := by
  have hlist : ∀ l m : List CanonRR, (l : Multiset CanonRR) = m.toFinset.val ↔
      l.Nodup ∧ ∀ r, r ∈ l ↔ r ∈ m := by
    intro l m
    constructor
    · intro h
      refine ⟨Multiset.coe_nodup.mp (h ▸ m.toFinset.nodup), fun r => ?_⟩
      rw [← Multiset.mem_coe, h, Finset.mem_val, List.mem_toFinset]
    · rintro ⟨hnodup, hmem⟩
      refine (Multiset.Nodup.ext (Multiset.coe_nodup.mpr hnodup) m.toFinset.nodup).mpr fun r => ?_
      rw [Multiset.mem_coe, Finset.mem_val, List.mem_toFinset, hmem]
  rw [← nodup_suppress_iff (looksEqual_zmd hb)]
  constructor
  · intro h
    have hall : ∀ arr, Sorted zmdCmp (zmdCollect D Z Z.soaSerial) arr →
        ((suppress ZmdRR.wire arr).map ZmdRR.rr).Nodup ∧
          ∀ r, r ∈ (suppress ZmdRR.wire arr).map ZmdRR.rr ↔ r ∈ transferred D Z qid :=
      fun arr hs => (hlist _ _).mp (h _ ⟨arr, hs, rfl⟩)
    refine ⟨fun r => ?_, fun arr hs => (nodup_hashed hb hs).mp (hall arr hs).1⟩
    obtain ⟨arr, hs⟩ := exists_sorted zmdCmp (zmdCollect D Z Z.soaSerial)
    rw [← mem_hashed hb hs]
    exact (hall arr hs).2 r
  · rintro ⟨hset, hnodup⟩ rs ⟨arr, hs, rfl⟩
    rw [hlist]
    refine ⟨(nodup_hashed hb hs).mpr (hnodup arr hs), fun r => ?_⟩
    rw [mem_hashed hb hs, hset]

end Iff

/-- **The digest is one of what is transferred** exactly when the store is `Digestible`. -/
theorem zonemdExact_iff {D : Dnsd} {Z : ServedZone} (hb : Bounded D Z) (qid : Nat) :
    ZonemdExact D Z qid ↔ Digestible D Z := by
  rw [zonemdExact_split hb, uniform_iff hb]
  have hmem : ∀ {j : AxfrItem}, j ∈ zmdItems D Z Z.soaSerial → j.canonical ∈ zmdRecords D Z :=
    fun hj => mem_map_of_mem hj
  have haddress : ∀ i ∈ listLeases D Z.name, i.2.1 ≠ SOA ∧ i.2.1 ≠ DNSKEY ∧
      i.2.1 ∉ omittedTypes := by
    intro i hi
    obtain ⟨f, key, -, val, -, -, v, -, rfl⟩ := mem_listLeases.mp hi
    dsimp only
    cases f <;> decide
  constructor
  · rintro ⟨hset, httls⟩
    refine ⟨fun i hi htype => ?_, fun i hi => ?_, httls⟩
    · cases hapex : i.canonical.apexZonemd Z.name with
      | true => exact .inl rfl
      | false =>
        obtain ⟨j, hj, heq⟩ := mem_map.mp
          ((hset i.canonical).mpr ((mem_transferred hb).mpr ⟨⟨i, .inr ⟨hi, htype⟩, rfl⟩, hapex⟩))
        have hjtype : j.2.1 = i.2.1 := congrArg CanonRR.type heq
        rw [← heq]
        exact .inr (mem_map_of_mem (static_of_omitted hj (hjtype ▸ htype)))
    · obtain ⟨⟨j, hj, heq⟩, -⟩ := (mem_transferred hb).mp
        ((hset i.canonical).mp (hmem (mem_zmdItems.mpr (.inr hi))))
      have hjtype : j.2.1 = i.2.1 := congrArg CanonRR.type heq
      obtain ⟨hsoa, hkey, -⟩ := haddress i hi
      rw [← hjtype] at hsoa hkey
      refine ⟨j, ?_, heq⟩
      simp only [mem_append]
      rcases hj with (hj | hj | hj | hj | hj) | hj
      · obtain ⟨rd, -, rfl⟩ := mem_map.mp hj
        exact absurd rfl hsoa
      · exact .inl (.inl hj)
      · exact .inl (.inr hj.1)
      · exact .inr hj
      · obtain ⟨rd, -, rfl⟩ := mem_map.mp hj
        exact absurd rfl hkey
      · exact .inl (.inr hj.1)
  · rintro ⟨homitted, hleases, httls⟩
    refine ⟨fun r => ⟨fun hr => ?_, fun hr => ?_⟩, httls⟩
    · obtain ⟨i, hi, rfl⟩ := mem_map.mp hr
      refine (mem_transferred hb).mpr ⟨?_, apexZonemd_of_mem hi⟩
      rcases mem_zmdItems.mp hi with h | h
      · exact ⟨i, .inl h, rfl⟩
      · obtain ⟨j, hj, heq⟩ := hleases i h
        have hjtype : j.2.1 = i.2.1 := congrArg CanonRR.type heq
        have hnot := (haddress i h).2.2
        rw [← hjtype] at hnot
        refine ⟨j, .inl ?_, heq⟩
        simp only [mem_append] at hj
        unfold Common
        tauto
    · obtain ⟨⟨i, hi, rfl⟩, hapex⟩ := (mem_transferred hb).mp hr
      rcases hi with h | ⟨h, htype⟩
      · exact hmem (mem_zmdItems.mpr (.inl h))
      · obtain ⟨j, hj, heq⟩ := mem_map.mp
          ((homitted i h htype).resolve_left (by rw [hapex]; exact Bool.false_ne_true))
        rw [← heq]
        exact hmem (mem_zmdItems.mpr (.inl (.inr (.inl hj))))

theorem wholeName_of_check {n : Text} (h : 0 ∉ n ∧ n.length ≤ 255 ∧
    (nameToWire n 255).isSome = true ∧ (labels n).length ≤ 64) : WholeName n :=
  ⟨⟨h.1, h.2.1, isSome_iff_exists.mp h.2.2.1⟩, h.2.2.2⟩

/-- Two names with an address each are within the limits. -/
theorem bounded_twoHosts : Bounded (twoHosts 1) (plainZone (lit "z")) := by
  have hnames : ∀ pre ∈ axfrPrefixes (lit "z"), ∀ key ∈ (twoHosts 1).scan (pre ++ lit "*"),
      0 ∉ key.drop pre.length ∧ (key.drop pre.length).length ≤ 255 ∧
        (nameToWire (key.drop pre.length) 255).isSome = true ∧
          (labels (key.drop pre.length)).length ≤ 64 := by decide +kernel
  exact ⟨wholeName_of_check (by decide +kernel),
    fun pre hpre key hkey => wholeName_of_check (hnames pre hpre key hkey), by decide +kernel⟩

/-- Their digest is one of what is transferred. -/
theorem two_addresses_hashed : ZonemdExact (twoHosts 1) (plainZone (lit "z")) 7 :=
  (zonemdExact_iff bounded_twoHosts 7).mpr
    ⟨by decide +kernel, by decide +kernel, by decide +kernel⟩

/-- A primary of the zone `z` with a name server. -/
def nsServer : Dnsd :=
  { plainServer [(lit "zone:z:NS:z", lit "3600|ns.z")] with
    scan := fun pat => if pat = lit "zone:z:NS:*" then [lit "zone:z:NS:z"] else [] }

/-- **The name server of a zone is transferred and not hashed.** -/
theorem nameServer_not_hashed :
    (⟨[1, 122, 0], NS, 3600, [2, 110, 115, 1, 122, 0]⟩ : CanonRR) ∈
        transferred nsServer (plainZone (lit "z")) 7 ∧
      ¬ZonemdExact nsServer (plainZone (lit "z")) 7 := by
  have hsent : (⟨[1, 122, 0], NS, 3600, [2, 110, 115, 1, 122, 0]⟩ : CanonRR) ∈
      transferred nsServer (plainZone (lit "z")) 7 := by decide +kernel
  have hnone : ∀ e ∈ zmdCollect nsServer (plainZone (lit "z")) (plainZone (lit "z")).soaSerial,
      e.rr.type ≠ NS := by decide +kernel
  refine ⟨hsent, fun hexact => ?_⟩
  obtain ⟨arr, hs⟩ := exists_sorted zmdCmp
    (zmdCollect nsServer (plainZone (lit "z")) (plainZone (lit "z")).soaSerial)
  have hmem := mem_toFinset.mpr hsent
  rw [← Finset.mem_val, ← hexact _ ⟨arr, hs, rfl⟩, Multiset.mem_coe] at hmem
  obtain ⟨e, he, heq⟩ := mem_map.mp hmem
  exact hnone e (hs.perm.mem_iff.mp (suppressFrom_subset he)) (congrArg CanonRR.type heq)

end SimpleDns.Server
