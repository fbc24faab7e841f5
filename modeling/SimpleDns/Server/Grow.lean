import SimpleDns.Server.Query
import SimpleDns.Server.Signed

/-!
# What emission adds to a response

Two facts about every function that emits records: it only ever adds (`Build.Extends`), and where
the records end within the buffer it adds every one (`emitAll_roomy`).
-/

namespace SimpleDns.Server

open Wire List Option

/-! ## Octets and counters only grow -/

/-- `E'` has at least the octets and the count of `E`, and the same octets at the same count. -/
structure Response.Le (E E' : Response) : Prop where
  answers : E.answers ≤ E'.answers
  length : E.msg.length ≤ E'.msg.length
  still : E'.answers = E.answers → E'.msg = E.msg

theorem Response.Le.refl (E : Response) : E.Le E := ⟨le_rfl, le_rfl, fun _ => rfl⟩

theorem Response.Le.trans {E₁ E₂ E₃ : Response} (h : E₁.Le E₂) (h' : E₂.Le E₃) : E₁.Le E₃ := by
  refine ⟨h.answers.trans h'.answers, h.length.trans h'.length, fun heq => ?_⟩
  have h1 := h.answers
  have h2 := h'.answers
  rw [h'.still (by omega), h.still (by omega)]

variable {blen : Nat}

theorem length_lt_of_appendRR {msg msg' : Bytes} {cc : CompressCtx} {name : Text}
    {type cls ttl : Nat} {rd : Bytes}
    (h : (appendRR blen msg cc name type cls ttl rd).1 = some msg') : msg.length < msg'.length := by
  unfold appendRR at h
  dsimp only at h
  split at h
  · cases h
  · simp only at h
    split at h
    · cases h
    · cases h
      simp [recordTail]

theorem Response.le_append (E : Response) (blen : Nat) (name : Text) (type ttl : Nat) (rd : Bytes) :
    E.Le (E.append blen name type ttl rd) := by
  unfold Response.append
  dsimp only
  split
  · exact ⟨le_rfl, le_rfl, fun _ => rfl⟩
  · rename_i msg hmsg
    exact ⟨Nat.le_succ _, (length_lt_of_appendRR hmsg).le,
      fun h => absurd h (Nat.succ_ne_self E.answers)⟩

theorem Response.le_appendRrsig (E : Response) (now blen : Nat) (zone name : Text) (type ttl : Nat)
    (rd : Bytes) (key : Option ZoneKey) (alg : Nat) :
    E.Le (E.appendRrsig now blen zone name type ttl rd key alg) := by
  unfold Response.appendRrsig
  split
  · exact .refl E
  · split
    · exact .refl E
    · exact E.le_append ..

/-- `emit_rr` is `append_rr`, and where that succeeds up to two RRSIGs. -/
theorem emitRR_cases (zone : Option SigningZone) (now : Nat) (dnssecOk : Bool) (E : Response)
    (name : Text) (type ttl : Nat) (rd : Bytes) :
    (∀ blen, emitRR zone now blen dnssecOk E name type ttl rd =
      E.append blen name type (ttlClamp ttl) rd) ∨
    ∃ Z k k', ∀ blen, let E₁ := E.append blen name type (ttlClamp ttl) rd
      emitRR zone now blen dnssecOk E name type ttl rd = if E.answers < E₁.answers then
        (E₁.appendRrsig now blen Z name type (ttlClamp ttl) rd k algEcdsaP256).appendRrsig now blen
          Z name type (ttlClamp ttl) rd k' algEd25519 else E₁ := by
  unfold emitRR Response.append
  by_cases hplain : ∀ Z ∈ zone, (!dnssecOk || Z.zsk.isNone) = true
  · refine .inl fun blen => ?_
    dsimp only
    split
    · rfl
    · split
      · rfl
      · exact if_pos (hplain _ rfl)
  · push Not at hplain
    obtain ⟨Z, rfl, hsigns⟩ := hplain
    refine .inr ⟨Z.name, if Z.useNext then Z.zskNext else Z.zsk,
      if Z.useNext then Z.zskEdNext else Z.zskEd, fun blen => ?_⟩
    dsimp only
    split
    · exact (if_neg (lt_irrefl _)).symm
    · rw [if_neg hsigns, if_pos (Nat.lt_succ_self _)]

theorem le_emitRR (zone : Option SigningZone) (now blen : Nat) (dnssecOk : Bool) (E : Response)
    (name : Text) (type ttl : Nat) (rd : Bytes) :
    E.Le (emitRR zone now blen dnssecOk E name type ttl rd) := by
  rcases emitRR_cases zone now dnssecOk E name type ttl rd with h | ⟨Z, k, k', h⟩
  · rw [h]
    exact E.le_append ..
  · rw [h]
    split
    · exact ((E.le_append ..).trans (Response.le_appendRrsig ..)).trans (Response.le_appendRrsig ..)
    · exact E.le_append ..

/-! ## Room for a record -/

section Room

variable {name : Text} {blen : Nat}

variable {rd : Bytes}

/-- A record that is appended takes at most 265 octets beside its rdata. -/
theorem length_appendRR_le (ho : OwnerName name) {msg msg' : Bytes} {cc : CompressCtx}
    {type cls ttl : Nat} (h : (appendRR blen msg cc name type cls ttl rd).1 = some msg') :
    msg'.length ≤ msg.length + 265 + rd.length := by
  unfold appendRR nameToWireC at h
  rw [ownerLabels_eq ho.writable] at h
  dsimp only at h
  split at h
  · cases h
  · rename_i w hw
    split at h
    · cases h
    · cases h
      have hle := length_wrote_le (wrote_of_wireLoopC hw) fun l hl =>
        (ownerLabels_short ho.writable l hl).1
      have hname := length_nameWire_ownerLabels ho
      simp only [recordTail, length_append, length_put16, length_put32]
      omega

theorem appendRR_of_room (ho : OwnerName name) {msg : Bytes} (cc : CompressCtx) (type cls ttl : Nat)
    (hroom : msg.length + 265 + rd.length ≤ blen) :
    ∃ msg', (appendRR blen msg cc name type cls ttl rd).1 = some msg' := by
  have hname := length_nameWire_ownerLabels ho
  exact appendRR_of_fits ho.writable cc type cls ttl (by omega)

theorem length_signerLoop_le {ls : List Text} {hp : Nat} {w : Bytes} (hhp : hp ≤ 511)
    (h : signerLoop ls hp = some w) : hp + w.length ≤ 512 := by
  induction ls generalizing hp w with
  | nil =>
    cases h
    simp only [length_singleton]
    omega
  | cons l ls ih =>
    unfold signerLoop at h
    split at h
    · cases h
    · obtain ⟨w', hw', rfl⟩ := map_eq_some_iff.mp h
      have := ih (by omega) hw'
      simp only [labelWire, length_append, length_cons]
      omega

/-- An RRSIG has at most 576 octets of rdata. -/
theorem length_makeRrsig_le {now type ttl alg : Nat} {zone : Text} {sig : Bytes} {key : ZoneKey}
    (h : makeRrsig now name zone type ttl rd key alg = some sig) : sig.length ≤ 576 := by
  obtain ⟨hdr, rr, s, hhdr, -, hs, rfl⟩ := makeRrsig_eq_some h
  obtain ⟨w, hw, rfl⟩ := map_eq_some_iff.mp hhdr
  have hsign := key.length_sign _ _ hs
  have hsigner := length_signerLoop_le (by decide) hw
  rw [length_append, length_append, length_rrsigFixed]
  omega

/-- The octets a record with `m` octets of rdata and its two RRSIGs take at most. -/
def recordMax (m : Nat) : Nat := 1947 + m

/-- Where there is room for a signed record, `emit_rr` emits the record. -/
theorem emitRR_of_room (ho : OwnerName name) (zone : Option SigningZone) (now : Nat)
    (dnssecOk : Bool) {E : Response} (type ttl : Nat) {m : Nat} (hrd : rd.length ≤ m)
    (hroom : E.msg.length + recordMax m ≤ blen) :
    E.answers < (emitRR zone now blen dnssecOk E name type ttl rd).answers := by
  unfold recordMax at hroom
  have hlt : E.answers < (E.append blen name type (ttlClamp ttl) rd).answers := by
    have hfit : E.msg.length + 265 + rd.length ≤ blen := by omega
    obtain ⟨msg', hmsg'⟩ := appendRR_of_room ho E.cc type RRClass.IN (ttlClamp ttl) hfit
    simp [Response.append, hmsg']
  rcases emitRR_cases zone now dnssecOk E name type ttl rd with h | ⟨Z, k, k', h⟩
  · rw [h]
    exact hlt
  · rw [h, if_pos hlt]
    set E₁ := E.append blen name type (ttlClamp ttl) rd
    have hle := (E₁.le_appendRrsig now blen Z name type (ttlClamp ttl) rd k algEcdsaP256).trans
      (Response.le_appendRrsig _ now blen Z name type (ttlClamp ttl) rd k' algEd25519)
    exact lt_of_lt_of_le hlt hle.answers

variable {E : Response} {N : Nat}

theorem Response.append_of_fits (ho : OwnerName name) {type ttl : Nat}
    (hroom : E.msg.length + 265 + rd.length ≤ N)
    (hfit : (E.append N name type ttl rd).msg.length ≤ blen) :
    E.append blen name type ttl rd = E.append N name type ttl rd := by
  obtain ⟨msg', hmsg⟩ := appendRR_of_room ho E.cc type RRClass.IN ttl hroom
  simp only [Response.append, hmsg] at hfit ⊢
  simp only [appendRR_of_length_le hmsg hfit, hmsg]

theorem Response.appendRrsig_of_fits (ho : OwnerName name) {now type ttl alg : Nat} {zone : Text}
    {key : Option ZoneKey} (hroom : E.msg.length + 841 ≤ N)
    (hfit : (E.appendRrsig now N zone name type ttl rd key alg).msg.length ≤ blen) :
    E.appendRrsig now blen zone name type ttl rd key alg =
      E.appendRrsig now N zone name type ttl rd key alg := by
  unfold Response.appendRrsig at hfit ⊢
  cases key with
  | none => rfl
  | some k =>
    dsimp only at hfit ⊢
    cases hsig : makeRrsig now name zone type ttl rd k alg with
    | none => rfl
    | some sig =>
      rw [hsig] at hfit
      have hlen := length_makeRrsig_le hsig
      exact Response.append_of_fits ho (by omega) hfit

/-- **A record that fits is emitted as in a buffer with room to spare.** -/
theorem emitRR_of_fits (ho : OwnerName name) {zone : Option SigningZone} {now m type ttl : Nat}
    {dnssecOk : Bool} (hrd : rd.length ≤ m) (hroom : blen + recordMax m ≤ N)
    (hfit : (emitRR zone now N dnssecOk E name type ttl rd).msg.length ≤ blen) :
    emitRR zone now blen dnssecOk E name type ttl rd =
      emitRR zone now N dnssecOk E name type ttl rd := by
  unfold recordMax at hroom
  have hlen := (le_emitRR zone now N dnssecOk E name type ttl rd).length.trans hfit
  have happ : E.answers < (E.append N name type (ttlClamp ttl) rd).answers := by
    obtain ⟨msg', hmsg'⟩ := appendRR_of_room ho E.cc type RRClass.IN (ttlClamp ttl)
      (show E.msg.length + 265 + rd.length ≤ N by omega)
    simp [Response.append, hmsg']
  rcases emitRR_cases zone now dnssecOk E name type ttl rd with h | ⟨Z, k, k', h⟩
  · rw [h, h]
    rw [h] at hfit
    exact Response.append_of_fits ho (by omega) hfit
  · rw [h N, if_pos happ] at hfit ⊢
    set E₁ := E.append N name type (ttlClamp ttl) rd
    have hle₁ := E₁.le_appendRrsig now N Z name type (ttlClamp ttl) rd k algEcdsaP256
    set E₂ := E₁.appendRrsig now N Z name type (ttlClamp ttl) rd k algEcdsaP256
    have hle₂ := E₂.le_appendRrsig now N Z name type (ttlClamp ttl) rd k' algEd25519
    have hfit₂ := hle₂.length.trans hfit
    have hfit₁ := hle₁.length.trans hfit₂
    have hsame : E.append blen name type (ttlClamp ttl) rd = E₁ :=
      Response.append_of_fits ho (by omega) hfit₁
    rw [h blen, hsame, if_pos happ, Response.appendRrsig_of_fits (E := E₁) ho (by omega) hfit₂,
      Response.appendRrsig_of_fits (E := E₂) ho (by omega) hfit]

end Room

/-! ## Builds only grow -/

/-- From `b` to `b'` nothing is taken back, the records added to the answer satisfy `P`, and the
authority section is the same. -/
structure Build.Extends (P : Rec → Prop) (b b' : Build) : Prop where
  found : b.found = true → b'.found = true
  count : b.answer.count ≤ b'.answer.count
  length : b.msg.length ≤ b'.msg.length
  authority : b'.authority = b.authority
  recs : ∃ new, b'.answer.recs = b.answer.recs ++ new ∧ ∀ r ∈ new, P r

/-- The name has been found, or something has been answered. -/
def Build.Hit (b : Build) : Prop := b.found = true ∨ 0 < b.answer.count

namespace Build.Extends

variable {P : Rec → Prop} {b b₁ b₂ : Build}

/-- Where no record joins the answer. -/
theorem of_recs_eq (P : Rec → Prop) (hf : b.found = true → b₁.found = true)
    (hc : b.answer.count ≤ b₁.answer.count) (hl : b.msg.length ≤ b₁.msg.length)
    (ha : b₁.authority = b.authority) (hr : b₁.answer.recs = b.answer.recs) : b.Extends P b₁ :=
  ⟨hf, hc, hl, ha, [], by rw [hr, append_nil], by simp⟩

theorem refl (P : Rec → Prop) (b : Build) : b.Extends P b := of_recs_eq P id le_rfl le_rfl rfl rfl

theorem trans (h : b.Extends P b₁) (h' : b₁.Extends P b₂) : b.Extends P b₂ := by
  obtain ⟨new, hnew, hP⟩ := h.recs
  obtain ⟨new', hnew', hP'⟩ := h'.recs
  refine ⟨h'.found ∘ h.found, h.count.trans h'.count, h.length.trans h'.length,
    h'.authority.trans h.authority, new ++ new', ?_, ?_⟩
  · rw [hnew', hnew, append_assoc]
  · intro r hr
    exact (mem_append.mp hr).elim (hP r) (hP' r)

theorem hit (h : b.Extends P b₁) (hb : b.Hit) : b₁.Hit :=
  hb.imp h.found fun hc => lt_of_lt_of_le hc h.count

theorem foldl {α : Type} {f : Build → α → Build} (hf : ∀ (b : Build) x, b.Extends P (f b x))
    (xs : List α)
    (b : Build) : b.Extends P (xs.foldl f b) := by
  induction xs generalizing b with
  | nil => exact refl P b
  | cons x xs ih => exact (hf b x).trans (ih (f b x))

/-- A jump to the end keeps what is there. -/
theorem bind {x : Except Build Build} {f : Build → Except Build Build}
    (hx : b.Extends P (atFinish x)) (hf : ∀ b : Build, b.Extends P (atFinish (f b))) :
    b.Extends P (atFinish (x >>= f)) := by
  cases x with
  | error e => exact hx
  | ok b₁ => exact hx.trans (hf b₁)

end Build.Extends

/-- A record found under its own owner. -/
def Rec.Own (r : Rec) : Prop := r.source = r.owner

variable {P : Rec → Prop} {r : Rec}

theorem extends_emit (b : Build) (c : Ctx) (h : P { r with ttl := ttlClamp r.ttl }) :
    b.Extends P (b.emit c r) := by
  have hle := le_emitRR (c.zone.map (·.signing)) c.now c.blen c.dnssecOk
    ⟨b.msg, b.cc, b.answer.count⟩ r.owner r.type r.ttl r.rdata
  refine ⟨id, hle.answers, hle.length, rfl, ?_⟩
  unfold Build.emit emitSection Section.push
  dsimp only
  split
  · exact ⟨[], (append_nil _).symm, by simp⟩
  · refine ⟨[_], rfl, ?_⟩
    intro r' hr'
    rwa [mem_singleton.mp hr']

theorem extends_emitAll (b : Build) (c : Ctx) {rs : List Rec}
    (h : ∀ r ∈ rs, P { r with ttl := ttlClamp r.ttl }) : b.Extends P (b.emitAll c rs) := by
  unfold Build.emitAll
  induction rs generalizing b with
  | nil => exact .refl P b
  | cons r rs ih =>
    exact (extends_emit b c (h r mem_cons_self)).trans
      (ih (b.emit c r) fun r' hr' => h r' (mem_cons_of_mem r hr'))

theorem extends_find (P : Rec → Prop) (b : Build) : b.Extends P b.find :=
  .of_recs_eq P (fun _ => rfl) le_rfl le_rfl rfl rfl

section AddrRrset

variable {D : Dnsd} {lb : LbState} {owner source : Text} {f : Family} {val : Text}

/-- The records of an address value have the owner and source they were asked for, and their rdata
are addresses of the value. -/
theorem mem_addrRrset (h : r ∈ (addrRrset D lb owner source f val).1) :
    r.owner = owner ∧ r.source = source ∧ r.type = f.rrtype ∧
      ∃ ip ∈ lbSet D val, f.pton ip = some r.rdata := by
  unfold addrRrset at h
  dsimp only at h
  split at h
  · cases h
  · obtain ⟨ip, hmem, hip⟩ := mem_filterMap.mp h
    obtain ⟨rd, hrd, rfl⟩ := map_eq_some_iff.mp hip
    exact ⟨rfl, rfl, rfl, ip, mem_rotate.mp hmem, hrd⟩

/-- Every address of the set to emit has its record. -/
theorem exists_addrRrset {ip : Text} {rd : Bytes} (hip : ip ∈ lbSet D val)
    (hrd : f.pton ip = some rd) (lb : LbState) (owner source : Text) :
    ∃ r ∈ (addrRrset D lb owner source f val).1, r.rdata = rd := by
  unfold addrRrset
  rw [if_neg (ne_nil_of_mem hip)]
  refine ⟨⟨owner, f.rrtype, (splitTtl val).1, rd, source⟩, mem_filterMap.mpr ⟨ip, ?_, ?_⟩, rfl⟩
  · exact mem_rotate.mpr hip
  · rw [hrd]
    rfl

/-- A record whose owner can be written and whose rdata has at most `m` octets. -/
structure Rec.Sendable (m : Nat) (r : Rec) : Prop where
  owner : OwnerName r.owner
  rdata : r.rdata.length ≤ m

theorem sendable_addrRrset {m : Nat} (howner : OwnerName owner) (hm : 16 ≤ m)
    (h : r ∈ (addrRrset D lb owner source f val).1) : r.Sendable m := by
  obtain ⟨hro, -, -, ip, -, hip⟩ := mem_addrRrset h
  refine ⟨hro ▸ howner, le_trans ?_ hm⟩
  rw [(Family.pton_spec hip).1]
  cases f <;> decide

end AddrRrset

theorem extends_emitAddrRrset (b : Build) (c : Ctx) {owner source : Text} (f : Family) (val : Text)
    (h : ∀ r : Rec, r.owner = owner → r.source = source → r.type = f.rrtype → (∃ ip ∈ lbSet
      c.server val, f.pton ip = some r.rdata) → P r) :
    b.Extends P (b.emitAddrRrset c owner source f val) := by
  have hlb : ∀ lb, b.Extends P { b with lb := lb } := fun _ =>
    .of_recs_eq P id le_rfl le_rfl rfl rfl
  refine (hlb _).trans (extends_emitAll _ c fun r hr => ?_)
  obtain ⟨howner, hsource, htype, hip⟩ := mem_addrRrset hr
  exact h _ howner hsource htype hip

/-! ## Builds with room -/

/-- The record as `emit_rr` emits it. -/
def Rec.clamped (r : Rec) : Rec := { r with ttl := ttlClamp r.ttl }

/-- The buffer has room for one more signed record of `m` octets of rdata. -/
def Build.Room (c : Ctx) (m : Nat) (b : Build) : Prop := b.msg.length + recordMax m ≤ c.blen

/-- `rs` have joined the answer, and nothing else has changed but octets and rotation. -/
structure Build.Emitted (b b' : Build) (rs : List Rec) : Prop where
  recs : b'.answer.recs = b.answer.recs ++ rs
  count : b.answer.count + rs.length ≤ b'.answer.count
  found : b'.found = b.found
  isReferral : b'.isReferral = b.isReferral

theorem Build.Emitted.trans {b b' b'' : Build} {rs rs' : List Rec} (h : b.Emitted b' rs)
    (h' : b'.Emitted b'' rs') : b.Emitted b'' (rs ++ rs') := by
  refine ⟨?_, ?_, h'.found.trans h.found, h'.isReferral.trans h.isReferral⟩
  · rw [h'.recs, h.recs, append_assoc]
  · rw [length_append, ← Nat.add_assoc]
    exact (Nat.add_le_add_right h.count _).trans h'.count

variable {b : Build} {c : Ctx} {m : Nat}

theorem emit_of_room (hr : r.Sendable m) (hroom : b.Room c m) :
    b.Emitted (b.emit c r) [r.clamped] := by
  have hlt := emitRR_of_room hr.owner (c.zone.map (·.signing)) c.now c.dnssecOk
    (E := ⟨b.msg, b.cc, b.answer.count⟩) r.type r.ttl hr.rdata hroom
  refine ⟨?_, hlt, rfl, rfl⟩
  unfold Build.emit emitSection Section.push
  dsimp only
  rw [if_neg (Nat.ne_of_gt hlt)]
  rfl

/-- The context with room for one more record of 255 octets of rdata behind the end of its
buffer. -/
def Ctx.roomy (c : Ctx) : Ctx := { c with blen := c.blen + recordMax 255 }

/-- **A record that ends within the buffer is emitted**, as where there is room to spare. -/
theorem emit_roomy (hr : r.Sendable 255) (hfit : (b.emit c.roomy r).msg.length ≤ c.blen) :
    b.emit c r = b.emit c.roomy r ∧ b.Emitted (b.emit c r) [r.clamped] := by
  have hle := (extends_emit (P := fun _ => True) (r := r) b c.roomy trivial).length.trans hfit
  have hroom : b.Room c.roomy 255 := Nat.add_le_add_right hle _
  have hsame : b.emit c r = b.emit c.roomy r := by
    have hspare : c.blen + recordMax 255 ≤ c.roomy.blen := le_rfl
    have hemit := emitRR_of_fits (E := ⟨b.msg, b.cc, b.answer.count⟩) hr.owner hr.rdata hspare hfit
    unfold Build.emit emitSection
    dsimp only
    rw [← hemit]
    rfl
  exact ⟨hsame, hsame ▸ emit_of_room hr hroom⟩

/-- **Records that end within the buffer are emitted.** -/
theorem emitAll_roomy {rs : List Rec} (hrs : ∀ r ∈ rs, r.Sendable 255)
    (hfit : (b.emitAll c.roomy rs).msg.length ≤ c.blen) :
    b.emitAll c rs = b.emitAll c.roomy rs ∧ b.Emitted (b.emitAll c rs) (rs.map Rec.clamped) := by
  unfold Build.emitAll at hfit ⊢
  induction rs generalizing b with
  | nil => exact ⟨rfl, (append_nil _).symm, le_rfl, rfl, rfl⟩
  | cons r rs ih =>
    have hfirst : (b.emit c.roomy r).msg.length ≤ c.blen :=
      (extends_emitAll (P := fun _ => True) _ c.roomy fun _ _ => trivial).length.trans hfit
    obtain ⟨hone, hemit⟩ := emit_roomy (hrs r mem_cons_self) hfirst
    obtain ⟨hall, hrest⟩ := ih (fun r' hr' => hrs r' (mem_cons_of_mem r hr')) hfit
    rw [foldl_cons, foldl_cons, hone]
    exact ⟨hall, (hone ▸ hemit).trans hrest⟩

end SimpleDns.Server
