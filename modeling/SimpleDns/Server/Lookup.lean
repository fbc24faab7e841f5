import SimpleDns.Server.Grow

/-!
# What the lookups of a query find

`Locates G c b₀ p f` says of one lookup `f` when it finds the name, in the sense of the goal `G`:
under `p`, and otherwise it leaves the response as it is. The lookups of `typedLookups` compose
(`Locates.bind`, `Locates.comp`), so that the whole sequence finds the name exactly under one of
their conditions (`locates_typedLookups`).
-/

namespace SimpleDns.Server

open Wire List Option RRType

/-! ## Values in the store -/

/-- The key holds a value. -/
def Ctx.Stored (c : Ctx) (key : Text) : Prop := (c.server.store key).isSome = true

/-- The key holds a value that is not empty. -/
def Ctx.Filled (c : Ctx) (key : Text) : Prop :=
  ∃ cell, c.server.store key = some cell ∧ cell.value ≠ []

variable {key : Text}

theorem vkGet_eq_none_iff {s : Store} {n : Nat} : vkGet s key n = none ↔ s key = none :=
  map_eq_none_iff

variable {c : Ctx}

theorem stored_iff (n : Nat) : c.Stored key ↔ ∃ val, vkGet c.server.store key n = some val := by
  unfold Ctx.Stored vkGet
  cases c.server.store key <;> simp

theorem not_stored_iff (n : Nat) : ¬c.Stored key ↔ vkGet c.server.store key n = none := by
  rw [vkGet_eq_none_iff, Ctx.Stored, isSome_iff_ne_none, not_not]

theorem filled_iff {n : Nat} (hn : 1 < n) :
    c.Filled key ↔ ∃ val, vkGet c.server.store key n = some val ∧ val ≠ [] := by
  have htake : ∀ v : Text, safeStrcpy v n ≠ [] ↔ v ≠ [] := by
    intro v
    unfold safeStrcpy
    rw [Ne, take_eq_nil_iff]
    simp only [not_or, and_iff_right_iff_imp]
    intro _
    omega
  constructor
  · rintro ⟨cell, hcell, hne⟩
    exact ⟨_, by rw [vkGet, hcell]; rfl, (htake _).mpr hne⟩
  · rintro ⟨val, hval, hne⟩
    obtain ⟨cell, hcell, rfl⟩ := map_eq_some_iff.mp hval
    exact ⟨cell, hcell, (htake _).mp hne⟩

/-! ## Lookups -/

/-- A minimal ANY answer does not end at `b`. -/
def Ctx.Free (c : Ctx) (b : Build) : Prop := c.qtype = ANY → b.answer.count = 0

/-- What it is to have found the name: the flag implies it, and it is never lost. -/
structure Goal where
  holds : Build → Prop
  up : ∀ {b b' : Build}, b.Extends Rec.Own b' → holds b → holds b'
  found : ∀ {b : Build}, b.found = true → holds b

/-- The flag is set or something is answered: the answer is not NXDOMAIN. -/
def Goal.hit : Goal := ⟨Build.Hit, fun h => h.hit, .inl⟩

/-- The flag is set: the alias and the wildcard are not tried. -/
def Goal.flag : Goal := ⟨fun b => b.found = true, fun h => h.found, id⟩

/-- The lookup `f` finds the name of the query from `b₀` exactly under `p`. -/
structure Locates (G : Goal) (c : Ctx) (b₀ : Build) (p : Prop) (f : Build → Except Build Build) :
    Prop where
  ext : ∀ b : Build, b.Extends Rec.Own (atFinish (f b))
  quiet : ¬p → ∀ b, c.Free b → f b = .ok b
  hit : p → G.holds (atFinish (f b₀))

section Lookups

variable {G : Goal} {c : Ctx} {b₀ : Build} {p q : Prop}

variable {f : Build → Except Build Build}

/-- A lookup that is not made. -/
theorem Locates.idle (hp : ¬p) (hf : ∀ b, f b = .ok b) : Locates G c b₀ p f := by
  refine ⟨fun b => ?_, fun _ b _ => hf b, fun h => absurd h hp⟩
  rw [hf b]
  exact .refl Rec.Own b

/-- A lookup that sets the flag and goes on. -/
theorem Locates.sure (hp : p) (hf : ∀ b : Build, b.find.Extends Rec.Own (atFinish (f b))) :
    Locates G c b₀ p f :=
  ⟨fun b => (extends_find Rec.Own b).trans (hf b), fun h => absurd hp h,
    fun _ => G.up (hf b₀) (G.found rfl)⟩

theorem Locates.congr (h : Locates G c b₀ p f) (hpq : p ↔ q) : Locates G c b₀ q f := by
  rwa [propext hpq] at h

/-- A lookup for a type in the zone of the query. -/
theorem Locates.inZone {t : Nat} {p : ServedZone → Prop}
    (hidle : c.wants t = false ∨ c.zone = none → ∀ b, f b = .ok b)
    (hf : ∀ Z, c.wants t = true → c.zone = some Z → Locates G c b₀ (p Z) f) :
    Locates G c b₀ (c.wants t = true ∧ ∃ Z, c.zone = some Z ∧ p Z) f := by
  cases hw : c.wants t with
  | false => exact .idle (fun h => absurd h.1 (by decide)) (hidle (.inl hw))
  | true =>
    cases hz : c.zone with
    | none => exact .idle (by simp) (hidle (.inr hz))
    | some Z => exact (hf Z hw hz).congr (by simp)

theorem Locates.bind {g : Build → Except Build Build} (hf : Locates G c b₀ p f)
    (hg : Locates G c b₀ q g) (h₀ : c.Free b₀) : Locates G c b₀ (p ∨ q) fun b => f b >>= g := by
  refine ⟨fun b => (hf.ext b).bind hg.ext, ?_, ?_⟩
  · intro hnot b hb
    rw [hf.quiet (fun h => hnot (.inl h)) b hb]
    exact hg.quiet (fun h => hnot (.inr h)) b hb
  · intro h
    by_cases hp : p
    · have hx := hf.hit hp
      revert hx
      cases f b₀ with
      | error e => exact id
      | ok b => exact G.up (hg.ext b)
    · rw [hf.quiet hp b₀ h₀]
      exact hg.hit (h.resolve_left hp)

/-- A lookup that never jumps, in front of another. -/
theorem Locates.comp {g : Build → Build} (hg : Locates G c b₀ p fun b => .ok (g b))
    (hf : Locates G c b₀ q f) (h₀ : c.Free b₀) : Locates G c b₀ (p ∨ q) fun b => f (g b) :=
  hg.bind hf h₀

variable {α : Type}

/-- A loop of lookups finds the name if one of its rounds does. -/
theorem Locates.loop {step : α → Build → Except Build Build} {p : α → Prop}
    {run : List α → Build → Except Build Build} (hnil : ∀ b, run [] b = .ok b)
    (hcons : ∀ x xs b, run (x :: xs) b = step x b >>= run xs)
    (hstep : ∀ x, Locates G c b₀ (p x) (step x)) (h₀ : c.Free b₀) (xs : List α) :
    Locates G c b₀ (∃ x ∈ xs, p x) (run xs) := by
  induction xs with
  | nil => exact .idle (by simp) hnil
  | cons x xs ih =>
    have hrun : run (x :: xs) = fun b => step x b >>= run xs := funext (hcons x xs)
    rw [hrun]
    simpa only [exists_mem_cons_iff] using (hstep x).bind ih h₀

/-- A step over a list that adds at some of the elements. -/
theorem locates_foldl {g : Build → α → Build} {p : α → Prop}
    (hext : ∀ (b : Build) x, b.Extends Rec.Own (g b x)) (hquiet : ∀ b x, ¬p x → g b x = b)
    (hhit : ∀ x, p x → G.holds (g b₀ x)) (xs : List α) :
    Locates G c b₀ (∃ x ∈ xs, p x) fun b => .ok (xs.foldl g b) := by
  refine ⟨fun b => .foldl hext xs b, ?_, ?_⟩
  · intro h b _
    refine congrArg Except.ok ?_
    induction xs generalizing b with
    | nil => rfl
    | cons x xs ih =>
      rw [foldl_cons, hquiet b x fun hx => h ⟨x, mem_cons_self, hx⟩]
      exact ih (fun ⟨y, hy, hpy⟩ => h ⟨y, mem_cons_of_mem x hy, hpy⟩) b ‹_›
  · rintro ⟨y, hy, hpy⟩
    induction xs with
    | nil => cases hy
    | cons x xs ih =>
      by_cases hx : p x
      · exact G.up (Build.Extends.foldl hext xs _) (hhit x hx)
      · rw [foldl_cons, hquiet b₀ x hx]
        rcases mem_cons.mp hy with rfl | hy
        · exact absurd hpy hx
        · exact ih hy

/-! ## Minimal ANY -/

theorem atFinish_minimalAny (c : Ctx) (b : Build) : atFinish (minimalAny c b) = b := by
  unfold minimalAny
  split <;> rfl

theorem minimalAny_of_free {b : Build} (h : c.Free b) : minimalAny c b = .ok b := by
  unfold minimalAny
  rw [if_neg]
  rintro ⟨hany, hcount⟩
  rw [h hany] at hcount
  exact absurd hcount (lt_irrefl 0)

theorem Locates.minimal {g : Build → Build} (hg : Locates G c b₀ p fun b => .ok (g b)) :
    Locates G c b₀ p fun b => minimalAny c (g b) := by
  refine ⟨fun b => ?_, fun h b hb => ?_, fun h => ?_⟩
  · rw [atFinish_minimalAny]
    exact hg.ext b
  · rw [Except.ok.inj (hg.quiet h b hb), minimalAny_of_free hb]
  · rw [atFinish_minimalAny]
    exact hg.hit h

/-! ## One stored value -/

variable {P : Rec → Prop}

theorem extends_ifStored (b : Build) (key : Text) (n : Nat) {f : Text → Build → Build}
    (hf : ∀ val (b : Build), b.Extends P (f val b)) : b.Extends P (b.ifStored c key n f) := by
  unfold Build.ifStored
  split
  · exact (extends_find P b).trans (hf _ _)
  · exact .refl P b

variable {n : Nat}

theorem ifStored_quiet {f : Text → Build → Build} (h : ¬c.Stored key) (b : Build) :
    b.ifStored c key n f = b := by
  rw [Build.ifStored, (not_stored_iff n).mp h]

theorem Ctx.Filled.stored (h : c.Filled key) : c.Stored key := by
  obtain ⟨cell, hcell, -⟩ := h
  rw [Ctx.Stored, hcell]
  rfl

/-- The lookup of one stored value. -/
theorem locates_ifStored (key : Text) (n : Nat) {f : Text → Build → Build}
    (hf : ∀ val (b : Build), b.Extends Rec.Own (f val b)) :
    Locates G c b₀ (c.Stored key) fun b => .ok (b.ifStored c key n f) := by
  cases hval : vkGet c.server.store key n with
  | none =>
    have hno := (not_stored_iff n).mpr hval
    exact .idle hno fun b => by rw [ifStored_quiet hno]
  | some val =>
    refine .sure ((stored_iff n).mpr ⟨val, hval⟩) fun b => ?_
    simp only [atFinish, Build.ifStored, hval]
    exact hf val _

theorem locates_ifFilled (key : Text) (hn : 1 < n) {f : Text → Build → Build}
    (hf : ∀ val (b : Build), b.Extends Rec.Own (f val b)) :
    Locates G c b₀ (c.Filled key) fun b => .ok (b.ifFilled c key n f) := by
  refine .congr ?_ (filled_iff hn).symm
  cases hval : vkGet c.server.store key n with
  | none => exact .idle (by simp) fun b => by rw [Build.ifFilled, hval]
  | some val =>
    by_cases hne : val = []
    · exact .idle (by simpa using hne) fun b => by simp only [Build.ifFilled, hval, if_pos hne]
    · refine .sure ⟨val, rfl, hne⟩ fun b => ?_
      simp only [atFinish, Build.ifFilled, hval, if_neg hne]
      exact hf val _

/-- A lookup guarded by the queried type. -/
theorem Locates.guard {t : Nat} {g : Build → Build} (hg : Locates G c b₀ p fun b => .ok (g b)) :
    Locates G c b₀ (c.wants t = true ∧ p) fun b => .ok (if c.wants t then g b else b) := by
  by_cases ht : c.wants t = true
  · simpa [ht] using hg
  · exact .idle (fun h => ht h.1) fun b => by rw [if_neg ht]

theorem extends_emitOwn (b : Build) (type ttl : Nat) (rd : Option Bytes) :
    b.Extends Rec.Own (b.emitOwn c type ttl rd) := by
  unfold Build.emitOwn
  split
  · exact extends_emit b c rfl
  · exact .refl Rec.Own b

theorem extends_own_emitAddrRrset (b : Build) (owner : Text) (f : Family) (val : Text) :
    b.Extends Rec.Own (b.emitAddrRrset c owner owner f val) :=
  extends_emitAddrRrset b c f val fun _ ho hs _ _ => hs.trans ho.symm

/-! ## Listings, keys and the SOA -/

theorem own_dnsxlRrset {val : Text} : ∀ r ∈ dnsxlRrset c val, Rec.Own r := by
  intro r hr
  rcases mem_append.mp hr with hr | hr
  · split at hr
    · rw [mem_singleton.mp hr]
      rfl
    · cases hr
  · split at hr
    · obtain ⟨rd, -, rfl⟩ := map_eq_some_iff.mp (mem_toList.mp hr)
      rfl
    · cases hr

theorem locates_dnsxlTry :
    Locates G c b₀ ((dnsxlListing c.server c.qname).isSome = true) (dnsxlTry c) := by
  cases hval : dnsxlListing c.server c.qname with
  | none => exact .idle (by simp) fun b => by rw [dnsxlTry, hval]
  | some val =>
    refine .sure rfl fun b => ?_
    rw [dnsxlTry, hval]
    exact extends_emitAll _ c own_dnsxlRrset

/-- The zone of the query publishes a key. -/
def Ctx.Publishes (c : Ctx) : Prop :=
  ∃ Z, c.zone = some Z ∧ ∃ k ∈ Z.keys.published, k.2.2.2.isSome = true

/-- The zone of the query advertises a key to its parent. -/
def Ctx.Advertises (c : Ctx) : Prop :=
  ∃ Z, c.zone = some Z ∧ ∃ k ∈ Z.keys.advertised, k.2.isSome = true

theorem extends_appendKey (b : Build) (flags alg : Nat) (incoming : Bool) (key : Option KeyPair) :
    b.Extends Rec.Own (b.appendKey c flags alg incoming key) := by
  unfold Build.appendKey
  split
  · exact .refl Rec.Own b
  · rename_i k
    set rd := dnskeyRdata flags alg k
    set E : Response := ⟨b.msg, b.cc, b.answer.count⟩ with hE
    have hle := E.le_append c.blen c.qname DNSKEY 3600 rd
    set E₁ := E.append c.blen c.qname DNSKEY 3600 rd with hE₁
    have hle' : E₁.Le (if flags = flagKsk ∧ c.dnssecOk = true then
        E₁.appendRrsig c.now c.blen c.keyZone c.qname DNSKEY 3600 rd (some k.toZoneKey) alg
      else E₁) := by
      split
      · exact E₁.le_appendRrsig ..
      · exact .refl E₁
    have htot := hle.trans hle'
    refine ⟨fun h => by simp [h], htot.answers, htot.length, rfl, ?_⟩
    dsimp only [Section.push]
    split
    · exact ⟨[], (append_nil _).symm, by simp⟩
    · exact ⟨[_], rfl, by simp [Rec.Own]⟩

theorem extends_dnskeyLookup (b : Build) : b.Extends Rec.Own (atFinish (dnskeyLookup c b)) := by
  unfold dnskeyLookup
  split
  · rw [atFinish_minimalAny]
    exact .foldl (fun b k => extends_appendKey b ..) _ b
  · exact .refl Rec.Own b

theorem length_dnskeyRdata (flags alg : Nat) (k : KeyPair) :
    (dnskeyRdata flags alg k).length ≤ 68 := by
  have := k.length_pub
  simp only [dnskeyRdata, length_append, length_put16, length_cons, length_nil]
  omega

section Fresh

variable (hq : OwnerName c.qname) (hroom : b₀.Room c 512)

include hq hroom

/-- The first key of an answer fits. -/
theorem hit_appendKey (flags alg : Nat) (incoming : Bool) (k : KeyPair) :
    (b₀.appendKey c flags alg incoming (some k)).Hit := by
  have hlen := length_dnskeyRdata flags alg k
  have hfit : b₀.msg.length + 265 + (dnskeyRdata flags alg k).length ≤ c.blen := by
    unfold Build.Room recordMax at hroom
    omega
  obtain ⟨msg, hmsg⟩ := appendRR_of_room hq b₀.cc DNSKEY RRClass.IN 3600 hfit
  refine .inr ?_
  unfold Build.appendKey
  dsimp only
  have hcount : 0 < (Response.append ⟨b₀.msg, b₀.cc, b₀.answer.count⟩ c.blen c.qname DNSKEY
      3600 (dnskeyRdata flags alg k)).answers := by
    simp [Response.append, hmsg]
  split
  · exact lt_of_lt_of_le hcount (Response.le_appendRrsig _ ..).answers
  · exact hcount

/-- DNSKEY finds every name of a zone that publishes a key. -/
theorem locates_dnskeyLookup :
    Locates .hit c b₀ (c.wants DNSKEY = true ∧ c.Publishes) (dnskeyLookup c) := by
  refine .inZone (fun h b => ?_) fun Z hw hz => ?_
  · rcases h with h | h <;> simp [dnskeyLookup, h]
  have hrun : dnskeyLookup c = fun b => minimalAny c
      (Z.keys.published.foldl (fun b k => b.appendKey c k.1 k.2.1 k.2.2.1 k.2.2.2) b) := by
    funext b
    rw [dnskeyLookup, hw, hz]
  rw [hrun]
  refine (locates_foldl (fun b k => extends_appendKey b ..) ?_ ?_ _).minimal
  · intro b k hk
    rw [not_isSome_iff_eq_none.mp hk]
    rfl
  · intro k hk
    obtain ⟨key, hkey⟩ := isSome_iff_exists.mp hk
    rw [hkey]
    exact hit_appendKey hq hroom ..

theorem hit_emit {r : Rec} (howner : r.owner = c.qname) (hrd : r.rdata.length ≤ 512) :
    (b₀.emit c r).Hit := by
  have hr : r.Sendable 512 := ⟨howner ▸ hq, hrd⟩
  have hcount := (emit_of_room hr hroom).count
  exact .inr (lt_of_lt_of_le (Nat.succ_pos _) hcount)

/-- The DS of a key can be built for an owner name. -/
theorem hit_emitDsLike (type alg : Nat) (k : KeyPair) :
    (b₀.emitDsLike c type alg (some k)).Hit := by
  have hwire : nameToWire c.qname 512 = some (nameWire (labels c.qname)) := by
    have hlen := hq.length_wire
    exact (nameToWire_eq_some_iff hq.short).mpr ⟨hq.labels_short, rfl, by omega⟩
  have hlen := hq.length_wire
  have hkey := length_dnskeyRdata flagKsk alg k
  unfold Build.emitDsLike dsRdataFromDnskey
  simp only [hwire]
  rw [if_neg (by omega)]
  refine hit_emit hq hroom rfl ?_
  have hsha := c.server.length_sha256
  simp [hsha, length_put16]

end Fresh

theorem extends_advertised (b : Build) (type : Nat) (k : Nat × Option KeyPair) :
    b.Extends Rec.Own (if type = CDNSKEY then b.emitCdnskey c k.1 k.2
      else b.emitDsLike c type k.1 k.2) := by
  split
  · unfold Build.emitCdnskey
    split
    · exact .refl Rec.Own b
    · exact extends_emit b c rfl
  · unfold Build.emitDsLike
    split
    · exact .refl Rec.Own b
    · split
      · exact .refl Rec.Own b
      · exact extends_emit b c rfl

theorem extends_advertise (b : Build) (type : Nat) : b.Extends Rec.Own (advertise c type b) := by
  unfold advertise
  split
  · rename_i Z _ _
    have hext := Build.Extends.foldl (fun b k => extends_advertised (c := c) b type k)
      Z.keys.advertised b
    exact ⟨fun hf => Bool.or_eq_true_iff.mpr (.inl (hext.found hf)), hext.count, hext.length,
      hext.authority, hext.recs⟩
  · exact .refl Rec.Own b

/-- CDS, CDNSKEY and DS find every name of a zone that advertises a key. -/
theorem locates_advertise (type : Nat) (hq : OwnerName c.qname) (hroom : b₀.Room c 512) :
    Locates .hit c b₀ (c.wants type = true ∧ c.Advertises) fun b => .ok (advertise c type b) := by
  refine .inZone (fun h b => ?_) fun Z hw hz => ?_
  · rcases h with h | h <;> simp [advertise, h]
  have hfold : Locates .hit c b₀ (∃ k ∈ Z.keys.advertised, k.2.isSome = true) fun b =>
      .ok (Z.keys.advertised.foldl (fun b k => if type = CDNSKEY then
        b.emitCdnskey c k.1 k.2 else b.emitDsLike c type k.1 k.2) b) := by
    refine locates_foldl (fun b k => extends_advertised b type k) ?_ ?_ _
    · intro b k hk
      rw [not_isSome_iff_eq_none.mp hk]
      split <;> rfl
    · intro k hk
      obtain ⟨key, hkey⟩ := isSome_iff_exists.mp hk
      rw [hkey]
      split
      · exact hit_emit hq hroom rfl (le_trans (length_dnskeyRdata flagKsk k.1 key) (by decide))
      · exact hit_emitDsLike hq hroom type k.1 key
  refine ⟨fun b => extends_advertise b type, fun h b hb => ?_, fun h => ?_⟩
  · simp [advertise, hw, hz, Except.ok.inj (hfold.quiet h b hb)]
  · simp only [atFinish, advertise, hw, hz]
    exact (hfold.hit h).imp (fun hf => Bool.or_eq_true_iff.mpr (.inl hf)) id

theorem locates_soaLookup :
    Locates G c b₀ (c.wants SOA = true ∧ ∃ Z, c.zone = some Z ∧ eqCI c.qname Z.name = true ∧
      (buildSoaRdata Z c.server.global).isSome = true) (soaLookup c) := by
  refine .inZone (fun h b => ?_) fun Z hw hz => ?_
  · rcases h with h | h <;> simp [soaLookup, h]
  by_cases happ : eqCI c.qname Z.name = true
  · cases hrd : buildSoaRdata Z c.server.global with
    | none => exact .idle (by simp) fun b => by simp only [soaLookup, hw, hz, happ, if_true, hrd]
    | some rd =>
      refine .sure ⟨happ, rfl⟩ fun b => ?_
      simp only [soaLookup, hw, hz, happ, if_true, hrd, atFinish_minimalAny]
      exact extends_emit _ c rfl
  · exact .idle (fun h => happ h.1) fun b => by simp [soaLookup, hw, hz, happ]

/-! ## The compiled-in zone -/

theorem extends_emitStatic (b : Build) (owner : Text) (r : DnsRec)
    (h : ∀ ttl rd, P ⟨owner, r.type, ttl, rd, r.name⟩) : b.Extends P (b.emitStatic c owner r) := by
  unfold Build.emitStatic
  split
  · split
    · exact extends_emit b c (h _ _)
    · exact .refl P b
  · exact .refl P b

/-- One round of the loop over `static_zone`. -/
def staticRound (c : Ctx) (r : DnsRec) (b : Build) : Except Build Build :=
  if eqCI r.name c.qname then minimalAny c (b.find.emitStatic c r.name r) else .ok b

theorem staticLookup_cons (c : Ctx) (r : DnsRec) (rs : List DnsRec) (b : Build) :
    staticLookup c (r :: rs) b = staticRound c r b >>= staticLookup c rs := by
  unfold staticRound
  rw [staticLookup]
  split
  · cases minimalAny c (b.find.emitStatic c r.name r) <;> rfl
  · rfl

theorem locates_staticRound (r : DnsRec) :
    Locates G c b₀ (eqCI r.name c.qname = true) (staticRound c r) := by
  by_cases hr : eqCI r.name c.qname = true
  · refine .sure hr fun b => ?_
    rw [staticRound, if_pos hr, atFinish_minimalAny]
    exact extends_emitStatic b.find r.name r fun _ _ => rfl
  · exact .idle hr fun b => if_neg hr

theorem locates_staticLookup (h₀ : c.Free b₀) (rs : List DnsRec) :
    Locates G c b₀ (∃ r ∈ rs, eqCI r.name c.qname = true) (staticLookup c rs) :=
  .loop (fun _ => rfl) (staticLookup_cons c) locates_staticRound h₀ rs

/-! ## The store -/

theorem own_nsRrset {owner val : Text} : ∀ r ∈ nsRrset owner val, Rec.Own r := by
  intro r hr
  obtain ⟨ns, -, hns⟩ := mem_filterMap.mp hr
  obtain ⟨rd, -, rfl⟩ := map_eq_some_iff.mp hns
  rfl

/-- A name has addresses of the family: leased, provisioned or registered. -/
def Ctx.HasAddr (c : Ctx) (f : Family) (name : Text) : Prop :=
  c.Stored (dkey c.keyZone f.typeName name) ∨ c.Stored (zkey c.keyZone f.typeName name) ∨
    c.Stored (skey c.keyZone f.typeName name)

theorem locates_addrLookup (f : Family) (h₀ : c.Free b₀) :
    Locates G c b₀ (c.wants f.rrtype = true ∧ c.HasAddr f c.qname)
      fun b => .ok (addrLookup c f b) := by
  have hlease : ∀ key, Locates G c b₀ (c.Stored key) fun b => .ok (b.ifStored c key (addrBuffer f)
      fun val b => b.emitOwn c f.rrtype (leaseTtl c.server.store key) (f.pton val)) :=
    fun key => locates_ifStored key _ fun val b => extends_emitOwn b ..
  have hstored : ∀ key, Locates G c b₀ (c.Stored key) fun b => .ok (b.ifStored c key (addrBuffer f)
      fun val b => b.emitAddrRrset c c.qname c.qname f val) :=
    fun key => locates_ifStored key _ fun val b => extends_own_emitAddrRrset b c.qname f val
  exact ((hlease _).comp ((hstored _).comp (hstored _) h₀) h₀).guard

/-- A registered instance is listed under the name. -/
def Ctx.HasInstance (c : Ctx) : Prop :=
  ∃ key ∈ c.server.scan (instancePrefix c ++ [42]), (instancePrefix c).length < key.length

theorem locates_instances :
    Locates G c b₀ c.HasInstance fun b =>
      .ok ((c.server.scan (instancePrefix c ++ [42])).foldl (·.emitInstance c) b) := by
  refine locates_foldl (fun b key => ?_) (fun b key h => ?_) (fun key hkey => ?_) _
  · unfold Build.emitInstance
    split
    · exact (extends_find Rec.Own b).trans (extends_emitOwn _ _ _ _)
    · exact .refl Rec.Own b
  · rw [Build.emitInstance, if_neg h]
  · rw [Build.emitInstance, if_pos hkey]
    exact G.up (extends_emitOwn b₀.find _ _ _) (G.found rfl)

theorem locates_ptrLookup (h₀ : c.Free b₀) :
    Locates G c b₀ (c.wants PTR = true ∧ (c.Filled (dkey c.keyZone (lit "PTR") c.qname) ∨
      c.Filled (zkey c.keyZone (lit "PTR") c.qname) ∨ c.HasInstance))
      fun b => .ok (ptrLookup c b) := by
  have hfilled : ∀ key (ttl : Text → Nat) (name : Text → Text),
      Locates G c b₀ (c.Filled key) fun b => .ok (b.ifFilled c key 512 fun val b =>
        b.emitOwn c PTR (ttl val) (nameToWire (name val) 300)) := fun key ttl name =>
    locates_ifFilled key (by decide) fun val b => extends_emitOwn b _ _ _
  exact ((hfilled _ (fun _ => leaseTtl c.server.store (dkey c.keyZone (lit "PTR") c.qname)) id).comp
    ((hfilled _ (fun val => (splitTtl val).1) fun val => (splitTtl val).2).comp
      locates_instances h₀) h₀).guard

theorem locates_srpLookup (h₀ : c.Free b₀) :
    Locates G c b₀ ((c.wants SRV = true ∧ c.Filled (skey c.keyZone (lit "SRV") c.qname)) ∨
      (c.wants TXT = true ∧ c.Filled (skey c.keyZone (lit "TXT") c.qname)))
      fun b => .ok (srpLookup c b) := by
  have hfilled : ∀ (type : Nat) (key : Text) (n : Nat) (rd : Text → Option Bytes), 1 < n →
      Locates G c b₀ (c.wants type = true ∧ c.Filled key) fun b => .ok (if c.wants type then
        b.ifFilled c key n fun val b => b.emitOwn c type (splitTtl val).1 (rd val) else b) :=
    fun type key n rd hn => (locates_ifFilled key hn fun val b => extends_emitOwn b ..).guard
  exact (hfilled SRV _ 600 _ (by decide)).comp (hfilled TXT _ 950 _ (by decide)) h₀

/-- One round of the loop over the provisioned types. -/
def provisionedRound (c : Ctx) (t : Nat) (b : Build) : Except Build Build :=
  if c.wants t then
    match vkGet c.server.store (zkey c.keyZone (type2str t) c.qname) 512 with
    | none => .ok b
    | some val =>
      match storedRdata t (splitTtl val).2 512 with
      | none => .ok b.find
      | some rd => minimalAny c (b.find.emit c ⟨c.qname, t, (splitTtl val).1, rd, c.qname⟩)
  else .ok b

theorem provisionedLookup_cons (c : Ctx) (t : Nat) (ts : List Nat) (b : Build) :
    provisionedLookup c (t :: ts) b = provisionedRound c t b >>= provisionedLookup c ts := by
  unfold provisionedRound
  rw [provisionedLookup]
  split
  · rcases vkGet c.server.store (zkey c.keyZone (type2str t) c.qname) 512 with _ | val
    · rfl
    dsimp only
    rcases storedRdata t (splitTtl val).2 512 with _ | rd
    · rfl
    dsimp only
    cases minimalAny c (b.find.emit c ⟨c.qname, t, (splitTtl val).1, rd, c.qname⟩) <;> rfl
  · rfl

theorem locates_provisionedRound (t : Nat) :
    Locates G c b₀ (c.wants t = true ∧ c.Stored (zkey c.keyZone (type2str t) c.qname))
      (provisionedRound c t) := by
  cases hw : c.wants t with
  | false => exact .idle (by simp) fun b => by simp [provisionedRound, hw]
  | true =>
    cases hval : vkGet c.server.store (zkey c.keyZone (type2str t) c.qname) 512 with
    | none =>
      refine .idle (fun h => (not_stored_iff 512).mpr hval h.2) fun b => ?_
      rw [provisionedRound, if_pos hw, hval]
    | some val =>
      refine .sure ⟨rfl, (stored_iff 512).mpr ⟨val, hval⟩⟩ fun b => ?_
      rw [provisionedRound, if_pos hw, hval]
      dsimp only
      split
      · exact .refl Rec.Own b.find
      · rw [atFinish_minimalAny]
        exact extends_emit _ c rfl

theorem locates_provisionedLookup (h₀ : c.Free b₀) (ts : List Nat) :
    Locates G c b₀ (∃ t ∈ ts, c.wants t = true ∧ c.Stored (zkey c.keyZone (type2str t) c.qname))
      (provisionedLookup c ts) :=
  .loop (fun _ => rfl) (provisionedLookup_cons c) locates_provisionedRound h₀ ts

/-! ## All typed lookups -/

/-- The store has a record of the type at the name. -/
inductive Ctx.HasData (c : Ctx) : Nat → Prop
  | ns (h : c.Stored (zkey c.keyZone (lit "NS") c.qname)) : c.HasData NS
  | addr (f : Family) (h : c.HasAddr f c.qname) : c.HasData f.rrtype
  | ptr (h : c.Filled (dkey c.keyZone (lit "PTR") c.qname) ∨
      c.Filled (zkey c.keyZone (lit "PTR") c.qname) ∨ c.HasInstance) : c.HasData PTR
  | srv (h : c.Filled (skey c.keyZone (lit "SRV") c.qname)) : c.HasData SRV
  | txt (h : c.Filled (skey c.keyZone (lit "TXT") c.qname)) : c.HasData TXT
  | provisioned (t : Nat) (ht : t ∈ provisionedTypes)
      (h : c.Stored (zkey c.keyZone (type2str t) c.qname)) : c.HasData t

/-- What the lookups of the queried type find the name under. -/
inductive Ctx.Located (c : Ctx) : Prop
  | listing (h : (dnsxlListing c.server c.qname).isSome = true)
  | dnskey (hw : c.wants DNSKEY = true) (Z : ServedZone) (hZ : c.zone = some Z)
      (hk : ∃ k ∈ Z.keys.published, k.2.2.2.isSome = true)
  | advertised (t : Nat) (ht : t ∈ [CDS, CDNSKEY, DS]) (hw : c.wants t = true)
      (Z : ServedZone) (hZ : c.zone = some Z) (hk : ∃ k ∈ Z.keys.advertised, k.2.isSome = true)
  | soa (hw : c.wants SOA = true) (Z : ServedZone) (hZ : c.zone = some Z)
      (hapex : eqCI c.qname Z.name = true)
      (hrd : (buildSoaRdata Z c.server.global).isSome = true)
  | static (h : ∃ r ∈ staticZone, eqCI r.name c.qname = true)
  | data (t : Nat) (hw : c.wants t = true) (h : c.HasData t)

/-- The lookups in the store find the name where it has a record of the queried type. -/
theorem locates_storeLookups (h₀ : c.Free b₀) :
    Locates G c b₀ (∃ t, c.wants t = true ∧ c.HasData t) fun b =>
      provisionedLookup c provisionedTypes (srpLookup c (ptrLookup c
        (addrLookup c .inet6 (addrLookup c .inet (nsLookup c b))))) := by
  have hns : Locates G c b₀ (c.wants NS = true ∧ c.Stored (zkey c.keyZone (lit "NS") c.qname))
      fun b => .ok (nsLookup c b) :=
    (locates_ifStored _ 512 fun _ b => extends_emitAll b c own_nsRrset).guard
  have hall := hns.comp ((locates_addrLookup .inet h₀).comp
    ((locates_addrLookup .inet6 h₀).comp ((locates_ptrLookup h₀).comp ((locates_srpLookup h₀).comp
      (locates_provisionedLookup h₀ provisionedTypes) h₀) h₀) h₀) h₀) h₀
  refine hall.congr ⟨?_, ?_⟩
  · rintro (⟨hw, h⟩ | ⟨hw, h⟩ | ⟨hw, h⟩ | ⟨hw, h⟩ | (⟨hw, h⟩ | ⟨hw, h⟩) | ⟨t, ht, hw, h⟩)
    · exact ⟨_, hw, .ns h⟩
    · exact ⟨_, hw, .addr .inet h⟩
    · exact ⟨_, hw, .addr .inet6 h⟩
    · exact ⟨_, hw, .ptr h⟩
    · exact ⟨_, hw, .srv h⟩
    · exact ⟨_, hw, .txt h⟩
    · exact ⟨t, hw, .provisioned t ht h⟩
  · rintro ⟨t, hw, h⟩
    cases h with
    | ns h | ptr h | srv h | txt h => simp only [hw, h, and_self, true_or, or_true]
    | addr f h => cases f <;> simp only [hw, h, and_self, true_or, or_true]
    | provisioned _ ht h => exact .inr (.inr (.inr (.inr (.inr ⟨t, ht, hw, h⟩))))

theorem locates_typedLookups_of (h₀ : c.Free b₀)
    (hdnskey : Locates G c b₀ (c.wants DNSKEY = true ∧ c.Publishes) (dnskeyLookup c))
    (hadvertise : ∀ t ∈ [CDS, CDNSKEY, DS],
      Locates G c b₀ (c.wants t = true ∧ c.Advertises) fun b => .ok (advertise c t b)) :
    Locates G c b₀ c.Located (typedLookups c) := by
  have hkeys := (hadvertise CDS (by simp)).comp ((hadvertise CDNSKEY (by simp)).comp
    ((hadvertise DS (by simp)).comp (locates_soaLookup.bind
      ((locates_staticLookup h₀ staticZone).bind (locates_storeLookups h₀) h₀) h₀) h₀) h₀) h₀
  have hall := locates_dnsxlTry.bind (hdnskey.bind hkeys h₀) h₀
  refine hall.congr ⟨?_, ?_⟩
  · rintro (h | ⟨hw, Z, hZ, hk⟩ | ⟨hw, Z, hZ, hk⟩ | ⟨hw, Z, hZ, hk⟩ | ⟨hw, Z, hZ, hk⟩ |
      ⟨hw, Z, hZ, hapex, hrd⟩ | h | ⟨t, hw, h⟩)
    · exact .listing h
    · exact .dnskey hw Z hZ hk
    · exact .advertised _ (by simp) hw Z hZ hk
    · exact .advertised _ (by simp) hw Z hZ hk
    · exact .advertised _ (by simp) hw Z hZ hk
    · exact .soa hw Z hZ hapex hrd
    · exact .static h
    · exact .data t hw h
  · intro h
    cases h with
    | listing h => exact .inl h
    | dnskey hw Z hZ hk => exact .inr (.inl ⟨hw, Z, hZ, hk⟩)
    | advertised t ht hw Z hZ hk =>
      have hadv : c.Advertises := ⟨Z, hZ, hk⟩
      simp only [mem_cons, not_mem_nil, or_false] at ht
      rcases ht with rfl | rfl | rfl <;> simp only [hw, hadv, and_self, true_or, or_true]
    | soa hw Z hZ hapex hrd =>
      exact .inr (.inr (.inr (.inr (.inr (.inl ⟨hw, Z, hZ, hapex, hrd⟩)))))
    | static h => exact .inr (.inr (.inr (.inr (.inr (.inr (.inl h))))))
    | data t hw h => exact .inr (.inr (.inr (.inr (.inr (.inr (.inr ⟨t, hw, h⟩))))))

/-- The typed lookups only add. -/
theorem extends_typedLookups (b : Build) : b.Extends Rec.Own (atFinish (typedLookups c b)) := by
  -- what a lookup adds does not depend on where the search for the name starts
  have h₀ : c.Free { b with answer := .empty } := fun _ => rfl
  have hstore := (locates_storeLookups (G := .hit) h₀).ext
  have hstatic := (locates_staticLookup (G := .hit) h₀ staticZone).ext
  have hsoa : ∀ b : Build, b.Extends Rec.Own (atFinish (soaLookup c b)) :=
    (locates_soaLookup (G := .hit) : Locates _ c b _ _).ext
  have hlisting : ∀ b : Build, b.Extends Rec.Own (atFinish (dnsxlTry c b)) :=
    (locates_dnsxlTry (G := .hit) : Locates _ c b _ _).ext
  refine (hlisting b).bind fun b => (extends_dnskeyLookup b).bind fun b => ?_
  have hkeys : b.Extends Rec.Own
      (advertise c DS (advertise c CDNSKEY (advertise c CDS b))) :=
    ((extends_advertise b _).trans (extends_advertise _ _)).trans (extends_advertise _ _)
  exact hkeys.trans ((hsoa _).bind fun b => (hstatic b).bind hstore)

/-- **The typed lookups find the name exactly where one of them does.** -/
theorem locates_typedLookups (hq : OwnerName c.qname) (hroom : b₀.Room c 512) (h₀ : c.Free b₀) :
    Locates .hit c b₀ c.Located (typedLookups c) :=
  locates_typedLookups_of h₀ (locates_dnskeyLookup hq hroom) fun t _ => locates_advertise t hq hroom

theorem wants_of_qtype {f : Family} (hf : c.qtype = f.rrtype) (g : Family) :
    c.wants g.rrtype = true ↔ g = f := by
  unfold Ctx.wants
  rw [hf]
  cases f <;> cases g <;> decide

theorem unwanted_of_qtype {f : Family} (hf : c.qtype = f.rrtype) (t : Nat)
    (ht : t ≠ RRType.A ∧ t ≠ AAAA) : c.wants t = false := by
  have hne : f.rrtype ≠ t ∧ f.rrtype ≠ ANY := by
    cases f
    · exact ⟨ht.1.symm, by decide⟩
    · exact ⟨ht.2.symm, by decide⟩
  simp [Ctx.wants, hf, hne]

/-- For an address type the typed lookups that find the name set the flag. -/
theorem locates_typedLookups_addr {f : Family} (hf : c.qtype = f.rrtype) :
    Locates G c b₀ c.Located (typedLookups c) := by
  have hany : c.qtype ≠ ANY := by
    rw [hf]
    cases f <;> decide
  refine locates_typedLookups_of (fun h => absurd h hany) ?_ fun t ht => ?_
  · have hw := unwanted_of_qtype hf DNSKEY (by decide)
    exact .idle (by simp [hw]) fun b => by rw [dnskeyLookup, hw]
  · have hne : ∀ t ∈ [CDS, CDNSKEY, DS], t ≠ RRType.A ∧ t ≠ AAAA := by decide
    have hw := unwanted_of_qtype hf t (hne t ht)
    exact .idle (by simp [hw]) fun b => by rw [advertise, hw]

end Lookups

end SimpleDns.Server
