import SimpleDns.Server.Agree

/-!
# A signed RRset in a response

The records `emit_rr` writes for an RRset are followed from the response buffer to the validator's
scan of it: `Laid` lists what lies between two offsets, `Response.Grown` says that a step of the
emission added those records and kept the compression context true.

* `emitRRset_fills`: an RRset emitted in full is its records, each with its RRSIGs behind it.
* **`rebuilt_eq_signed_iff`**: for the first RRSIG of the set the validator rebuilds what was signed
  exactly when the set has one record, the owner's labels are counted alike, and the record fits.
* **`two_records_disagree`**: two addresses of one name.
-/

namespace SimpleDns.Server

open Wire Resolver List Option RRType

/-! ## Records between two offsets -/

/-- The records (type and rdata) from one offset to another, all with one owner and TTL. -/
def Laid (pkt : Bytes) (owner : Text) (ttl : Nat) : Nat → List (Nat × Bytes) → Nat → Prop
  | off, [], e => off = e
  | off, x :: xs, e => ∃ a, RecordAt pkt off owner x.1 RRClass.IN ttl x.2 a ∧
      Laid pkt owner ttl (a + 10 + x.2.length) xs e

/-- A scanned record is the one that was laid. -/
structure Scanned (pkt : Bytes) (owner : Text) (ttl : Nat) (r : RR) (x : Nat × Bytes) : Prop where
  ownerEq : r.owner = owner
  typeEq : r.type = x.1
  rdlenEq : r.rdlen = x.2.length
  rdataEq : r.rdata pkt = x.2
  record : ∃ a, RecordAt pkt r.start owner x.1 RRClass.IN ttl x.2 a

section Scan

variable {pkt : Bytes} {owner : Text} {ttl : Nat}

variable {xs : List (Nat × Bytes)}

theorem laid_append {off mid e : Nat} {ys : List (Nat × Bytes)} (h : Laid pkt owner ttl off xs mid)
    (h' : Laid pkt owner ttl mid ys e) : Laid pkt owner ttl off (xs ++ ys) e := by
  induction xs generalizing off with
  | nil =>
    obtain rfl : off = mid := h
    exact h'
  | cons x xs ih =>
    obtain ⟨a, hrec, hrest⟩ := h
    exact ⟨a, hrec, ih hrest⟩

/-- **The scan finds what was laid.** -/
theorem scanRRs_laid {off e : Nat} (h : Laid pkt owner ttl off xs e) :
    ∃ rrs, scanRRs pkt xs.length off = (rrs, e) ∧
      List.Forall₂ (Scanned pkt owner ttl) rrs xs := by
  induction xs generalizing off with
  | nil =>
    obtain rfl : off = e := h
    exact ⟨[], rfl, .nil⟩
  | cons x xs ih =>
    obtain ⟨a, hrec, hrest⟩ := h
    obtain ⟨rrs, hscan, hall⟩ := ih hrest
    refine ⟨⟨off, owner, x.1, RRClass.IN, ttl, a + 10, x.2.length⟩ :: rrs, ?_, .cons ?_ hall⟩
    · simp only [length_cons, scanRRs, if_pos hrec.lt, hrec.parseRR, hscan]
    · exact ⟨rfl, rfl, rfl, hrec.fields.rdataAt, a, hrec⟩

/-- The offsets of an RRset among the scanned records. -/
theorem rrsetOffs_scanned {rrs : List RR} (type : Nat)
    (h : List.Forall₂ (Scanned pkt owner ttl) rrs xs) :
    List.Forall₂ (fun off x => ∃ a, RecordAt pkt off owner type RRClass.IN ttl x a)
      (rrsetOffs rrs owner type) ((xs.filter fun x => x.1 = type).map (·.2)) := by
  induction h with
  | nil => exact .nil
  | @cons r x rrs xs hrx hrest ih =>
    unfold rrsetOffs at ih ⊢
    by_cases htype : x.1 = type
    · rw [filter_cons_of_pos (by simp [hrx.typeEq, hrx.ownerEq, htype]),
        filter_cons_of_pos (by simpa using htype)]
      exact .cons (htype ▸ hrx.record) ih
    · rw [filter_cons_of_neg (by simp [hrx.typeEq, htype]),
        filter_cons_of_neg (by simpa using htype)]
      exact ih

/-- The RRSIG behind the first record is the one the validator takes. -/
theorem firstRrsig_scanned {rrs : List RR} {type : Nat} {rd sig : Bytes}
    (h : List.Forall₂ (Scanned pkt owner ttl) rrs ((type, rd) :: (RRSIG, sig) :: xs))
    (htype : type ≠ RRSIG) (hsig : 0 < sig.length ∧ sig.length ≤ 512) :
    ∃ r, firstRrsig rrs = some r ∧ Scanned pkt owner ttl r (RRSIG, sig) := by
  cases h with
  | @cons r _ _ _ hr h =>
    cases h with
    | @cons r' _ _ _ hr' h =>
      refine ⟨r', ?_, hr'⟩
      unfold firstRrsig
      rw [find?_cons_of_neg (by simp [hr.typeEq, htype]), find?_cons_of_pos]
      simpa [hr'.typeEq, hr'.rdlenEq] using hsig

end Scan

/-! ## Emission -/

/-- The records `xs` of one owner were added behind the response. -/
structure Response.Grown (E E' : Response) (name : Text) (ttl : Nat) (xs : List (Nat × Bytes)) :
    Prop where
  count : E'.answers = E.answers + xs.length
  ext : ∃ ext, E'.msg = E.msg ++ ext
  registered : Registered E'.msg E'.cc
  laid : ∀ post, Laid (E'.msg ++ post) (emittedOwner name) ttl E.msg.length xs E'.msg.length

section Emission

variable {E E' E'' : Response} {name : Text} {ttl : Nat}

theorem Response.Grown.refl (h : Registered E.msg E.cc) : E.Grown E name ttl [] :=
  ⟨rfl, ⟨[], (append_nil _).symm⟩, h, fun _ => rfl⟩

theorem Response.Grown.trans {xs ys : List (Nat × Bytes)} (h : E.Grown E' name ttl xs)
    (h' : E'.Grown E'' name ttl ys) : E.Grown E'' name ttl (xs ++ ys) := by
  obtain ⟨ext, hext⟩ := h.ext
  obtain ⟨ext', hext'⟩ := h'.ext
  refine ⟨by rw [h'.count, h.count, length_append, Nat.add_assoc],
    ⟨ext ++ ext', by rw [hext', hext, append_assoc]⟩, h'.registered, fun post => ?_⟩
  have hfirst := h.laid (ext' ++ post)
  rw [← append_assoc, ← hext'] at hfirst
  exact laid_append hfirst (h'.laid post)

variable {type : Nat}

/-- An appended record. -/
theorem grown_appendRR {blen : Nat} {rdata msg' : Bytes} {cc' : CompressCtx} (ho : OwnerName name)
    (hreg : Registered E.msg E.cc) (htype : type < 2 ^ 16) (httl : ttl < 2 ^ 32)
    (hrd : rdata.length < 2 ^ 16)
    (h : appendRR blen E.msg E.cc name type RRClass.IN ttl rdata = (some msg', cc')) :
    E.Grown ⟨msg', cc', E.answers + 1⟩ name ttl [(type, rdata)] := by
  obtain ⟨ext, a, rfl, hreg', hlen, hrec⟩ :=
    appendRR_spec ho.writable hreg htype (by decide) httl hrd h
  exact ⟨rfl, ⟨ext, rfl⟩, hreg', fun post => ⟨a, hrec post, hlen.symm⟩⟩

/-- A step of the emission counts at most `n` records; where it counts all of them, it added `xs`
and `P` holds. -/
structure Response.Fills (E E' : Response) (name : Text) (ttl n : Nat) (xs : List (Nat × Bytes))
    (P : Prop) : Prop where
  le : E'.answers ≤ E.answers + n
  full : Registered E.msg E.cc → E'.answers = E.answers + n → P ∧ E.Grown E' name ttl xs

theorem Response.Fills.trans {n m : Nat} {xs ys : List (Nat × Bytes)} {P Q : Prop}
    (h : E.Fills E' name ttl n xs P) (h' : E'.Fills E'' name ttl m ys Q) :
    E.Fills E'' name ttl (n + m) (xs ++ ys) (P ∧ Q) := by
  have hle := h.le
  have hle' := h'.le
  refine ⟨by omega, fun hreg heq => ?_⟩
  obtain ⟨hp, hgrown⟩ := h.full hreg (by omega)
  obtain ⟨hq, hgrown'⟩ := h'.full hgrown.registered (by omega)
  exact ⟨⟨hp, hq⟩, hgrown.trans hgrown'⟩

/-- A step that counts nothing, where it could have. -/
theorem fills_of_eq (h : E'.answers = E.answers) {n : Nat} (hn : 0 < n)
    (xs : List (Nat × Bytes)) (P : Prop) : E.Fills E' name ttl n xs P :=
  ⟨by omega, fun _ heq => absurd heq (by omega)⟩

theorem fills_append {blen : Nat} {rdata : Bytes} (ho : OwnerName name) (htype : type < 2 ^ 16)
    (httl : ttl < 2 ^ 32) (hrd : rdata.length < 2 ^ 16) :
    E.Fills (E.append blen name type ttl rdata) name ttl 1 [(type, rdata)] True := by
  unfold Response.append
  cases hr : (appendRR blen E.msg E.cc name type RRClass.IN ttl rdata).1 with
  | none => exact fills_of_eq (by simp [hr]) Nat.one_pos _ _
  | some msg' =>
    simp only [hr]
    exact ⟨le_rfl, fun hreg _ => ⟨trivial, grown_appendRR ho hreg htype httl hrd (Prod.ext hr rfl)⟩⟩

variable {zone : Text}

/-- An RRSIG is a header and a signature over the header and the record. -/
theorem makeRrsig_eq_some {now alg : Nat} {rd sig : Bytes} {key : ZoneKey}
    (h : makeRrsig now name zone type ttl rd key alg = some sig) :
    ∃ hdr rr s, rrsigHeader now name zone type ttl alg key.tag = some hdr ∧
      canonicalRR name type ttl rd = some rr ∧ key.sign (hdr ++ rr) = some s ∧
      sig = hdr ++ s := by
  obtain ⟨hdr, hhdr, h⟩ := bind_eq_some_iff.mp h
  obtain ⟨rr, hrr, h⟩ := bind_eq_some_iff.mp h
  obtain ⟨s, hs, h⟩ := map_eq_some_iff.mp h
  exact ⟨hdr, rr, s, hhdr, hrr, hs, h.symm⟩

theorem length_makeRrsig {now alg : Nat} {rd sig : Bytes} {key : ZoneKey} (hz : ZoneName zone)
    (h : makeRrsig now name zone type ttl rd key alg = some sig) :
    0 < sig.length ∧ sig.length ≤ 512 := by
  obtain ⟨hdr, rr, s, hhdr, -, hs, rfl⟩ := makeRrsig_eq_some h
  have hsig := key.length_sign _ _ hs
  have hwire := length_nameWire_le zone
  have hlen : hdr.length = 18 + (nameWire (labels zone)).length := by
    rw [rrsigHeader_eq hhdr, length_append, length_rrsigFixed, safeStrcpy_eq hz.short,
      labels_strlower, length_nameWire_strlower]
  have hshort := hz.short
  rw [length_append]
  omega

/-- One RRSIG block. -/
theorem fills_appendRrsig (now blen type alg : Nat) (rd : Bytes) (key : Option ZoneKey)
    (ho : OwnerName name) (hz : ZoneName zone) (httl : ttl < 2 ^ 32) :
    E.Fills (E.appendRrsig now blen zone name type ttl rd key alg) name ttl
      (if key.isSome then 1 else 0)
      ((key.bind (makeRrsig now name zone type ttl rd · alg)).toList.map (RRSIG, ·))
      (∀ k ∈ key, ∃ sig, makeRrsig now name zone type ttl rd k alg = some sig) := by
  unfold Response.appendRrsig
  cases key with
  | none => exact ⟨le_rfl, fun hreg _ => ⟨nofun, .refl hreg⟩⟩
  | some k =>
    cases hsig : makeRrsig now name zone type ttl rd k alg with
    | none => exact fills_of_eq (by simp [hsig]) Nat.one_pos _ _
    | some sig =>
      have hlen := length_makeRrsig hz hsig
      have happend : E.Fills (E.append blen name RRSIG ttl sig) name ttl 1 _ True :=
        fills_append ho (by decide) httl (by omega)
      simp only [hsig, bind_some]
      exact ⟨happend.le, fun hreg heq => ⟨by simp [hsig], (happend.full hreg heq).2⟩⟩

theorem ttlClamp_lt (ttl : Nat) : ttlClamp ttl < 2 ^ 32 := by
  unfold ttlClamp
  split
  · decide
  · rename_i h
    exact lt_of_le_of_lt (not_lt.mp h) (by decide)

end Emission

/-! ## A zone outside rollover -/

/-- A zone with a current P-256 key and no rollover in progress. -/
structure Signer where
  zone : SigningZone
  key : ZoneKey
  zsk_eq : zone.zsk = some key
  roll_eq : zone.rollPhase = .none
  named : ZoneName zone.name

/-- The RRSIGs of one record. -/
def Signer.rrsigs (S : Signer) (now : Nat) (name : Text) (type ttl : Nat) (rd : Bytes) :
    List Bytes :=
  (makeRrsig now name S.zone.name type ttl rd S.key algEcdsaP256).toList ++
    (S.zone.zskEd.bind (makeRrsig now name S.zone.name type ttl rd · algEd25519)).toList

/-- What one record leaves in the response, with its RRSIGs. -/
def Signer.items (S : Signer) (now : Nat) (name : Text) (type ttl : Nat) (rd : Bytes) :
    List (Nat × Bytes) :=
  (type, rd) :: (S.rrsigs now name type ttl rd).map (RRSIG, ·)

/-- The number of records `emit_rr` writes for one record under the DO bit. -/
def Signer.recordsPer (S : Signer) : Nat := 2 + if S.zone.zskEd.isSome then 1 else 0

section Emission

variable (S : Signer) (now blen : Nat) (E : Response) (name : Text) (type ttl : Nat)

/-- `emit_rr` under the DO bit, outside a key rollover. -/
theorem Signer.emitRR_eq (rd : Bytes) :
    let r := appendRR blen E.msg E.cc name type RRClass.IN (ttlClamp ttl) rd
    emitRR (some S.zone) now blen true E name type ttl rd =
      match r.1 with
      | none => { E with cc := r.2 }
      | some msg =>
        Response.appendRrsig
          (Response.appendRrsig ⟨msg, r.2, E.answers + 1⟩ now blen S.zone.name name type
            (ttlClamp ttl) rd (some S.key) algEcdsaP256)
          now blen S.zone.name name type (ttlClamp ttl) rd S.zone.zskEd algEd25519 := by
  have hnext : S.zone.useNext = false := by simp [SigningZone.useNext, S.roll_eq]
  simp only [emitRR]
  generalize appendRR blen E.msg E.cc name type RRClass.IN (ttlClamp ttl) rd = r
  obtain ⟨_ | msg, cc⟩ := r
  · rfl
  · simp [S.zsk_eq, hnext]

variable {E name type}

/-- **A record is emitted in full, or it counts for less than its share.** -/
theorem Signer.emitRR_fills {rd : Bytes} (ho : OwnerName name) (htype : type < 2 ^ 16)
    (hrd : rd.length < 2 ^ 16) :
    E.Fills (emitRR (some S.zone) now blen true E name type ttl rd) name (ttlClamp ttl)
      S.recordsPer (S.items now name type (ttlClamp ttl) rd)
      (∃ sig, makeRrsig now name S.zone.name type (ttlClamp ttl) rd S.key algEcdsaP256 =
        some sig) := by
  have httl := ttlClamp_lt ttl
  rw [S.emitRR_eq]
  cases hr : (appendRR blen E.msg E.cc name type RRClass.IN (ttlClamp ttl) rd).1 with
  | none =>
    refine fills_of_eq ?_ ?_ _ _
    · rfl
    · exact Nat.lt_add_right _ Nat.two_pos
  | some msg =>
    have hrecord : E.Fills ⟨msg, _, E.answers + 1⟩ name (ttlClamp ttl) 1 [(type, rd)] True :=
      ⟨le_rfl, fun hreg _ => ⟨trivial, grown_appendRR ho hreg htype httl hrd (Prod.ext hr rfl)⟩⟩
    have hsigned := (hrecord.trans (fills_appendRrsig now blen type algEcdsaP256 rd (some S.key) ho
      S.named httl)).trans (fills_appendRrsig now blen type algEd25519 rd S.zone.zskEd ho S.named
        httl)
    refine ⟨hsigned.le, fun hreg heq => ?_⟩
    obtain ⟨⟨⟨-, hsig⟩, -⟩, hgrown⟩ := hsigned.full hreg heq
    exact ⟨hsig _ rfl, by simpa [Signer.items, Signer.rrsigs] using hgrown⟩

/-- **An RRset emitted in full**: every record is there, with its RRSIGs behind it. -/
theorem Signer.emitRRset_fills {rds : List Bytes} (ho : OwnerName name) (htype : type < 2 ^ 16)
    (hrds : ∀ rd ∈ rds, rd.length < 2 ^ 16) :
    E.Fills (emitRRset (some S.zone) now blen true E name type ttl rds) name (ttlClamp ttl)
      (rds.length * S.recordsPer) (rds.flatMap (S.items now name type (ttlClamp ttl)))
      (∀ rd ∈ rds, ∃ sig,
        makeRrsig now name S.zone.name type (ttlClamp ttl) rd S.key algEcdsaP256 = some sig) := by
  induction rds generalizing E with
  | nil =>
    rw [length_nil, Nat.zero_mul]
    exact ⟨le_rfl, fun hreg _ => ⟨nofun, .refl hreg⟩⟩
  | cons rd rds ih =>
    obtain ⟨hrd, hrds⟩ := forall_mem_cons.mp hrds
    rw [length_cons, Nat.succ_mul, Nat.add_comm, forall_mem_cons]
    exact (S.emitRR_fills now blen ttl ho htype hrd).trans (ih hrds)

end Emission

/-! ## The validator's view -/

/-- An RRset `emit_rr` is called for, first record first. -/
structure RRset where
  name : Text
  type : Nat
  first : Bytes
  rest : List Bytes
  owner : OwnerName name
  type_lt : type < 2 ^ 16
  type_ne : type ≠ RRSIG
  rdata_lt : ∀ rd ∈ first :: rest, rd.length < 2 ^ 16
  plain : ∀ rd ∈ first :: rest, PlainRdata type rd

section Items

variable (S : Signer) (now : Nat) (name : Text) {type : Nat} (ttl : Nat)

theorem Signer.filter_items (htype : type ≠ RRSIG) (rd : Bytes) :
    ((S.items now name type ttl rd).filter fun x => x.1 = type).map (·.2) = [rd] := by
  simp [Signer.items, List.filter_map, htype.symm, Function.comp_def]

theorem Signer.filter_flatMap_items (htype : type ≠ RRSIG) (rds : List Bytes) :
    ((rds.flatMap (S.items now name type ttl)).filter fun x => x.1 = type).map (·.2) = rds := by
  induction rds with
  | nil => rfl
  | cons rd rds ih =>
    rw [flatMap_cons, filter_append, map_append, S.filter_items now name ttl htype, ih]
    rfl

theorem Signer.length_items_le (rd : Bytes) : (S.items now name type ttl rd).length ≤ 3 := by
  have h : ∀ o : Option Bytes, o.toList.length ≤ 1 := by
    rintro (_ | _) <;> simp
  simp only [Signer.items, Signer.rrsigs, length_cons, length_map, length_append]
  have h₁ := h (makeRrsig now name S.zone.name type ttl rd S.key algEcdsaP256)
  have h₂ := h (S.zone.zskEd.bind (makeRrsig now name S.zone.name type ttl rd · algEd25519))
  omega

/-- A window of four records shows the first record of the set, and a second one if there is one. -/
theorem Signer.window {m : Nat} (htype : type ≠ RRSIG) (hm : 4 ≤ m) (rd : Bytes)
    (rds : List Bytes) :
    ∃ rds', ((((rd :: rds).flatMap (S.items now name type ttl)).take m).filter
        fun x => x.1 = type).map (·.2) = rd :: rds' ∧ rds' ⊆ rds ∧ (rds' = [] ↔ rds = []) := by
  have hlen : (S.items now name type ttl rd).length ≤ 3 := S.length_items_le now name ttl rd
  obtain ⟨k, hk⟩ : ∃ k, m - (S.items now name type ttl rd).length = k + 1 :=
    ⟨m - (S.items now name type ttl rd).length - 1, by omega⟩
  rw [flatMap_cons, take_append, take_of_length_le (by omega), hk,
    filter_append, map_append, S.filter_items now name ttl htype]
  refine ⟨_, rfl, ?_, ?_⟩
  · have hsub := (((take_sublist (k + 1) (rds.flatMap (S.items now name type ttl))).filter
      fun x => x.1 = type).map (·.2)).subset
    rwa [S.filter_flatMap_items now name ttl htype] at hsub
  · cases rds with
    | nil => simp
    | cons rd' rds => simp [Signer.items]

end Items

/-- Records that are canonical and free of pointers. -/
theorem signedRecords {pkt : Bytes} {name : Text} {type ttl : Nat} {offs : List Nat}
    {rds : List Bytes}
    (h : List.Forall₂ (fun off rd =>
      ∃ a, RecordAt pkt off (emittedOwner name) type RRClass.IN ttl rd a) offs rds)
    (hrds : ∀ rd ∈ rds, (∃ rr, canonicalRR name type ttl rd = some rr) ∧ PlainRdata type rd) :
    List.Forall₂ (SignedRecord pkt name type ttl) offs rds := by
  induction h with
  | nil => exact .nil
  | cons hrec _ ih =>
    obtain ⟨⟨hcanon, hplain⟩, hrest⟩ := forall_mem_cons.mp hrds
    exact .cons ⟨hrec, hcanon, hplain⟩ (ih hrest)

/-- **What is verified is what was signed, exactly for one record that the two sides see alike.** -/
theorem rebuilt_eq_signed_iff (S : Signer) (R : RRset) (now blen ttl : Nat) (E : Response)
    (post : Bytes) (hreg : Registered E.msg E.cc)
    (hfull : (emitRRset (some S.zone) now blen true E R.name R.type ttl
      (R.first :: R.rest)).answers =
      E.answers + (R.first :: R.rest).length * S.recordsPer) :
    let E' := emitRRset (some S.zone) now blen true E R.name R.type ttl (R.first :: R.rest)
    let pkt := E'.msg ++ post
    let rrs := (scanRRs pkt (E'.answers - E.answers) E.msg.length).1
    ∃ sig, firstRrsig rrs = some sig ∧
      (signedData pkt (rrsetOffs (rrs.take dnssecMaxRRs) sig.owner (covered pkt sig))
          (sig.rdata pkt) =
        signedMessage now R.name S.zone.name R.type (ttlClamp ttl) R.first algEcdsaP256 S.key.tag ↔
      R.rest = [] ∧ LabelsAgree R.name ∧ FitsCanon R.name R.type R.first) := by
  intro E' pkt rrs
  obtain ⟨hsigs, hgrown⟩ := (S.emitRRset_fills now blen ttl R.owner R.type_lt R.rdata_lt).full
    hreg hfull
  obtain ⟨rrs', hscan, hall⟩ := scanRRs_laid (hgrown.laid post)
  have hrrs : rrs = rrs' := by
    rw [show rrs = (scanRRs pkt (E'.answers - E.answers) E.msg.length).1 from rfl,
      show E'.answers = _ from hgrown.count, Nat.add_sub_cancel_left, hscan]
  rw [hrrs]
  clear hrrs hscan
  obtain ⟨sig, hsig⟩ := hsigs R.first mem_cons_self
  obtain ⟨hdr, rr, s, hhdr, hrr, -, rfl⟩ := makeRrsig_eq_some hsig
  have hmsg : signedMessage now R.name S.zone.name R.type (ttlClamp ttl) R.first algEcdsaP256
      S.key.tag = some (hdr ++ rr) := by
    simp [signedMessage, hhdr, hrr]
  have hread := readsHeader S.named R.owner.short R.type_lt (ttlClamp_lt ttl) hhdr s
  obtain ⟨more, hitems⟩ : ∃ more, (R.first :: R.rest).flatMap
      (S.items now R.name R.type (ttlClamp ttl)) =
        (R.type, R.first) :: (RRSIG, hdr ++ s) :: more := by
    simp [Signer.items, Signer.rrsigs, hsig]
  obtain ⟨r, hfirst, hr⟩ := firstRrsig_scanned (hitems ▸ hall) R.type_ne
    (length_makeRrsig S.named hsig)
  obtain ⟨rds', hwindow, hsub, hnil⟩ := S.window now R.name (ttlClamp ttl) R.type_ne
    (show 4 ≤ dnssecMaxRRs by decide) R.first R.rest
  have hoffs := rrsetOffs_scanned R.type (forall₂_take dnssecMaxRRs hall)
  rw [hwindow] at hoffs
  have hrecs := signedRecords hoffs fun rd hrd => by
    have hmem : rd ∈ R.first :: R.rest := cons_subset_cons _ hsub hrd
    obtain ⟨sig, hsig⟩ := hsigs rd hmem
    obtain ⟨-, rr, -, -, hrr, -⟩ := makeRrsig_eq_some hsig
    exact ⟨⟨rr, hrr⟩, R.plain rd hmem⟩
  refine ⟨r, hfirst, ?_⟩
  rw [hmsg, hr.ownerEq, covered, hr.rdataEq, hread.covered, ← hnil]
  generalize rrsetOffs (rrs'.take dnssecMaxRRs) (emittedOwner R.name) R.type = offs at hrecs ⊢
  cases hrecs with
  | cons hrec hrecs => exact signedData_eq_iff R.owner hrec hrecs hread hrr

/-! ## One address and two -/

/-- A key that returns the head of the message as its signature. -/
def sampleKey : ZoneKey where
  sign m := some (padTo 64 m)
  tag := 7
  length_sign m s h := by
    cases h
    simp [padTo]

/-- The zone `z`, with one key. -/
def sampleSigner : Signer where
  zone := ⟨lit "z", some sampleKey, none, none, none, .none⟩
  key := sampleKey
  zsk_eq := rfl
  roll_eq := rfl
  named := ⟨by decide, by decide⟩

/-- The address 192.0.2.1 of `a.z`, and 192.0.2.n for each `n` of a list. -/
def addresses (ns : List UInt8) : RRset where
  name := lit "a.z"
  type := RRType.A
  first := [192, 0, 2, 1]
  rest := ns.map fun n => [192, 0, 2, n]
  owner := ⟨by decide, by decide, _, rfl⟩
  type_lt := by decide
  type_ne := by decide
  rdata_lt rd h := by
    obtain rfl | ⟨n, -, rfl⟩ : rd = [192, 0, 2, 1] ∨ ∃ n ∈ ns, [192, 0, 2, n] = rd := by
      simpa using h
    · decide
    · simp
  plain _ _ := trivial

/-- An answer section that is still empty. -/
def emptyAnswer : Response := ⟨replicate 12 0, [], 0⟩

/-- One address is rebuilt as it was signed. -/
theorem rebuilt_one_address :
    let S := sampleSigner
    let R := addresses []
    let E' := emitRRset (some S.zone) 1000 512 true emptyAnswer R.name R.type 60 (R.first :: R.rest)
    let rrs := (scanRRs (E'.msg ++ []) (E'.answers - emptyAnswer.answers) emptyAnswer.msg.length).1
    ∃ sig, firstRrsig rrs = some sig ∧
      signedData (E'.msg ++ []) (rrsetOffs (rrs.take dnssecMaxRRs) sig.owner
          (covered (E'.msg ++ []) sig)) (sig.rdata (E'.msg ++ [])) =
        signedMessage 1000 R.name S.zone.name R.type (ttlClamp 60) R.first algEcdsaP256
          S.key.tag := by
  obtain ⟨sig, hfirst, hiff⟩ := rebuilt_eq_signed_iff sampleSigner (addresses []) 1000 512 60
    emptyAnswer [] (fun p hp => nomatch hp) (by decide +kernel)
  exact ⟨sig, hfirst, hiff.mpr (by decide)⟩

/-- **Two addresses do not**: each RRSIG covers one of them, the validator rebuilds both. -/
theorem two_records_disagree :
    let S := sampleSigner
    let R := addresses [2]
    let E' := emitRRset (some S.zone) 1000 512 true emptyAnswer R.name R.type 60 (R.first :: R.rest)
    let rrs := (scanRRs E'.msg (E'.answers - emptyAnswer.answers) emptyAnswer.msg.length).1
    E'.answers = emptyAnswer.answers + (R.first :: R.rest).length * S.recordsPer ∧
      ∃ sig ∈ firstRrsig rrs,
        signedData E'.msg (rrsetOffs (rrs.take dnssecMaxRRs) sig.owner (covered E'.msg sig))
            (sig.rdata E'.msg) ≠
          signedMessage 1000 R.name S.zone.name R.type (ttlClamp 60) R.first algEcdsaP256
            S.key.tag := by
  decide +kernel

end SimpleDns.Server
