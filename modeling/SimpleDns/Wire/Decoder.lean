import SimpleDns.Wire.Compress

/-!
# What the name decoder accepts (`dns_wire.c:348-388`)

`NameAt` is a name of RFC 1035 §4.1.4: length octets of at most 63, strictly backward pointers, a
zero octet at the end. `name_from_wire` takes every octet that is not a pointer's for a length, so
that its labels may have up to 191 octets; after 128 elements it stops and returns what it has; it
accepts 255 characters; and its result is a C string, which ends at an octet 0 of a label.

* `Walk`: elements of a name as the decoder takes them.
* `nameFromWire_eq_some_iff`: the decoder returns the text of a walk that fits its buffer and ends
  at a zero octet or has 128 elements.
* **`decodesExactly_iff`**: the decoder agrees with RFC 1035 at an offset exactly if such a walk
  from it has short labels, 254 characters, no octet 0, and nothing behind it.
-/

namespace SimpleDns.Wire

open List

/-! ## Walks -/

/-- `n` elements from `pos` on have the labels `ls` and lead to `p`; behind the first pointer stands
`j`. -/
inductive Walk (pkt : Bytes) : Nat → Nat → List Text → Nat → Option Nat → Prop
  | nil (pos : Nat) : Walk pkt 0 pos [] pos none
  | label {n pos p : Nat} {l : Text} {ls : List Text} {j : Option Nat} (ne_nil : l ≠ [])
      (long : l.length ≤ 191) (le : pos + 1 + l.length ≤ pkt.length)
      (octet : byteAt pkt pos = l.length.toUInt8) (octets : slice pkt (pos + 1) l.length = l)
      (rest : Walk pkt n (pos + 1 + l.length) ls p j) : Walk pkt (n + 1) pos (l :: ls) p j
  | pointer {n pos o p : Nat} {ls : List Text} {j : Option Nat} (lt : pos + 1 < pkt.length)
      (octets : slice pkt pos 2 = pointerTo o) (small : o < 0x4000) (prior : o < pos)
      (rest : Walk pkt n o ls p j) : Walk pkt (n + 1) pos ls p (some (pos + 2))

/-- A zero octet ends the name. -/
def EndsAt (pkt : Bytes) (p : Nat) : Prop := p < pkt.length ∧ byteAt pkt p = 0

section Octets

/-- The two octets of a pointer, read. -/
theorem pointerTo_eq {c d : UInt8} (hp : isPointer c = true) :
    [c, d] = pointerTo ((c &&& 0x3F).toNat * 256 + d.toNat) ∧
      (c &&& 0x3F).toNat * 256 + d.toNat < 0x4000 := by
  have hall : ∀ c, isPointer c = true → 0xC0 ||| (c &&& 0x3F) = c ∧ (c &&& 0x3F).toNat < 64 := by
    decide +kernel
  obtain ⟨hc, hlt⟩ := hall c hp
  have hd := d.toNat_lt
  refine ⟨?_, by omega⟩
  have hhigh : ((c &&& 0x3F).toNat * 256 + d.toNat) / 256 = (c &&& 0x3F).toNat := by omega
  have hlow : ((c &&& 0x3F).toNat * 256 + d.toNat).toUInt8 = d := by
    apply UInt8.toNat_inj.mp
    simp
  rw [pointerTo, hhigh, hlow]
  simp [hc]

end Octets

/-! ## The loop follows a walk -/

section Loop

variable {pkt : Bytes} {n pos p : Nat} {ls : List Text} {j : Option Nat}

theorem Walk.ne_nil (h : Walk pkt n pos ls p j) : ∀ l ∈ ls, l ≠ [] := by
  induction h with
  | nil => exact fun _ hl => absurd hl not_mem_nil
  | label ne_nil _ _ _ _ _ ih => exact forall_mem_cons.mpr ⟨ne_nil, ih⟩
  | pointer _ _ _ _ _ ih => exact ih

theorem slice_pair (h : pos + 1 < pkt.length) :
    slice pkt pos 2 = [byteAt pkt pos, byteAt pkt (pos + 1)] := by
  have hpos : pos < pkt.length := by omega
  rw [slice, drop_eq_getElem_cons hpos, drop_eq_getElem_cons h, take_succ_cons,
    take_succ_cons, take_zero]
  simp [byteAt, getD_eq_getElem?_getD, hpos, h]

/-- The loop gets to the end of a walk that fits. -/
theorem nameLoop_of_walk (h : Walk pkt n pos ls p j) {fuel : Nat} {out : Text} {jret : Option Nat}
    (hlen : (joinOnto out ls).length ≤ 255) :
    nameLoop pkt 256 (n + fuel) pos out jret =
      nameLoop pkt 256 fuel p (joinOnto out ls) (jret <|> j) := by
  induction h generalizing out jret with
  | nil pos => simp [joinOnto]
  | @label n pos p l ls j ne_nil long le octet octets rest ih =>
    obtain ⟨hptr, hzero, hval⟩ := not_pointer_of_length (by simpa using ne_nil) long
    have hroom := fits_of_joinOnto (long.trans (by decide)) hlen
    have hfit : ¬(pos + 1 + l.length > pkt.length ∨ out.length + l.length + 1 ≥ 256) := by omega
    rw [show n + 1 + fuel = n + fuel + 1 by omega, nameLoop, if_neg (by omega)]
    simp only [octet, hptr, Bool.false_eq_true, if_false, hzero, hval, if_neg hfit, octets]
    exact ih hlen
  | @pointer n pos o p ls j lt octets small prior rest ih =>
    obtain ⟨hptr, htarget⟩ := pointerTo_spec small
    obtain ⟨h0, h1⟩ := pointer_octets octets
    rw [show n + 1 + fuel = n + fuel + 1 by omega, nameLoop, if_neg (by omega)]
    simp only [h0, hptr, if_true, if_neg (show ¬pos + 1 ≥ pkt.length by omega), h1, htarget,
      if_neg (show ¬o ≥ pos by omega)]
    rw [ih hlen]
    cases jret <;> rfl

/-- Where the loop returns, it has made a walk that fits, up to a zero octet or to its last step. -/
theorem Decodes.walk {fuel : Nat} {out : Text} {jret : Option Nat} {r : Text × Nat}
    (h : Decodes pkt 256 r fuel pos out jret) (hout : out.length ≤ 255) :
    ∃ n ls p j, Walk pkt n pos ls p j ∧ (joinOnto out ls).length ≤ 255 ∧
      (n = fuel ∨ n < fuel ∧ EndsAt pkt p) := by
  induction h with
  | @stop pos => exact ⟨0, [], pos, none, .nil pos, hout, .inl rfl⟩
  | @root fuel pos out jret lt zero =>
    exact ⟨0, [], pos, none, .nil pos, hout, .inr ⟨by omega, lt, zero⟩⟩
  | @pointer fuel pos ptr out jret lt octet target prior _ ih =>
    obtain ⟨n, ls, p, j, hwalk, hlen, hstop⟩ := ih hout
    obtain ⟨hoctets, hsmall⟩ := pointerTo_eq (d := byteAt pkt (pos + 1)) octet
    rw [target] at hoctets hsmall
    exact ⟨n + 1, ls, p, _, .pointer lt ((slice_pair lt).trans hoctets) hsmall prior hwalk, hlen,
      hstop.imp (congrArg (· + 1)) (And.imp_left Nat.succ_lt_succ)⟩
  | @label fuel pos out l jret octet size ne_nil le octets room _ ih =>
    obtain ⟨n, ls, p, j, hwalk, hlen, hstop⟩ := ih (by rw [length_append_label]; split <;> omega)
    have hoctet : byteAt pkt pos = l.length.toUInt8 := by
      rw [← size]
      simp
    exact ⟨n + 1, l :: ls, p, j,
      .label ne_nil (size ▸ length_octet octet) le hoctet octets hwalk, hlen,
      hstop.imp (congrArg (· + 1)) (And.imp_left Nat.succ_lt_succ)⟩

end Loop

/-! ## What is returned -/

/-- The walk that `name_from_wire` makes at an offset with 256 octets for the text. -/
structure Reading (pkt : Bytes) (off n : Nat) (ls : List Text) (p : Nat) (j : Option Nat) :
    Prop where
  walk : Walk pkt n off ls p j
  fits : (joinDots ls).length ≤ 255
  stops : n = 128 ∨ n < 128 ∧ EndsAt pkt p

/-- Where the reader resumes if it saw no pointer: behind the zero octet, if it got there. -/
def resumeAt (n p : Nat) : Nat := if n = 128 then p else p + 1

variable {pkt : Bytes} {off e : Nat} {t : Text}

variable {n p : Nat} {ls : List Text} {j : Option Nat}

theorem Reading.nameFromWire_eq (h : Reading pkt off n ls p j) :
    nameFromWire pkt off 256 = some (strlower (cstr (joinDots ls)), j.getD (resumeAt n p)) := by
  have hjoin := joinOnto_eq_joinDots h.walk.ne_nil
  have hloop : nameLoop pkt 256 (n + (128 - n)) off [] none =
      nameLoop pkt 256 (128 - n) p (joinOnto [] ls) j :=
    nameLoop_of_walk h.walk (hjoin ▸ h.fits)
  have hlast : nameLoop pkt 256 (128 - n) p (joinDots ls) j =
      some (joinDots ls, j.getD (resumeAt n p)) := by
    rcases h.stops with rfl | ⟨hlt, hp, hzero⟩
    · rfl
    · have hresume : resumeAt n p = p + 1 := if_neg (by omega)
      rw [show 128 - n = 127 - n + 1 by omega, nameLoop, if_neg (by omega), hresume]
      simp [hzero, isPointer]
  have hsteps : n + (128 - n) = 128 := by
    rcases h.stops with rfl | ⟨hlt, -⟩ <;> omega
  rw [hsteps, hjoin, hlast] at hloop
  rw [nameFromWire, hloop, Option.map_some]

/-- **The decoder returns the text of its reading.** -/
theorem nameFromWire_eq_some_iff : nameFromWire pkt off 256 = some (t, e) ↔
    ∃ n ls p j, Reading pkt off n ls p j ∧ t = strlower (cstr (joinDots ls)) ∧
      e = j.getD (resumeAt n p) := by
  constructor
  · intro h
    obtain ⟨r, hr, -⟩ := Option.map_eq_some_iff.mp h
    obtain ⟨n, ls, p, j, hwalk, hlen, hstop⟩ := (Decodes.of_nameLoop hr).walk (by simp)
    have hread : Reading pkt off n ls p j :=
      ⟨hwalk, joinOnto_eq_joinDots hwalk.ne_nil ▸ hlen, hstop⟩
    rw [hread.nameFromWire_eq, Option.some_inj, Prod.mk.injEq] at h
    exact ⟨n, ls, p, j, hread, h.1.symm, h.2.symm⟩
  · rintro ⟨n, ls, p, j, hread, rfl, rfl⟩
    exact hread.nameFromWire_eq

/-! ## The names of RFC 1035 -/

section Names

variable {n k p : Nat} {ls : List Text} {j : Option Nat}

/-- A walk with short labels, up to the end of a name, is one. -/
theorem Walk.nameAt (h : Walk pkt n off ls p j) (hshort : ∀ l ∈ ls, l.length ≤ 63)
    (hrest : NameAt pkt k p [] e) : NameAt pkt (n + k) off ls (j.getD e) := by
  induction h with
  | nil pos => simpa using hrest
  | @label n pos p l ls j ne_nil long le octet octets rest ih =>
    rw [show n + 1 + k = n + k + 1 by omega]
    exact .label ne_nil (hshort l mem_cons_self) le octet octets
      (ih (fun m hm => hshort m (mem_cons_of_mem _ hm)) hrest)
  | @pointer n pos o p ls j lt octets small prior rest ih =>
    rw [show n + 1 + k = n + k + 1 by omega]
    exact .pointer lt octets small prior (ih hshort hrest)

/-- A walk from the beginning of a name is a part of it. -/
theorem Walk.split {ls' : List Text} (h : Walk pkt n off ls p j) (hname : NameAt pkt k off ls' e) :
    ∃ m ls₂ e₂, k = n + m ∧ ls' = ls ++ ls₂ ∧ NameAt pkt m p ls₂ e₂ ∧ e = j.getD e₂ := by
  induction h generalizing k ls' e with
  | nil pos => exact ⟨k, ls', e, (Nat.zero_add k).symm, rfl, hname, rfl⟩
  | @label n pos p l ls j ne_nil long le octet octets rest ih =>
    obtain ⟨hptr, hzero, hval⟩ := not_pointer_of_length (by simpa using ne_nil) long
    cases hname with
    | root _ zero => exact absurd (octet.symm.trans zero) hzero
    | @label k _ _ l' ls' ne_nil' short' _ octet' octets' rest' =>
      obtain ⟨-, -, hval'⟩ := label_octet_spec (by simpa using ne_nil') short'
      have hlen : l'.length = l.length := by
        rw [← hval', ← hval, ← octet, ← octet']
      have hl : l' = l := by rw [← octets, ← octets', hlen]
      subst hl
      obtain ⟨m, ls₂, e₂, rfl, rfl, hrest, he⟩ := ih rest'
      exact ⟨m, ls₂, e₂, by omega, rfl, hrest, he⟩
    | @pointer k _ o _ _ _ octets' small _ _ =>
      rw [← octet, (pointer_octets octets').1, (pointerTo_spec small).1] at hptr
      cases hptr
  | @pointer n pos o p ls j lt octets small prior rest ih =>
    obtain ⟨h0, h1⟩ := pointer_octets octets
    obtain ⟨hptr, htarget⟩ := pointerTo_spec small
    cases hname with
    | root _ zero =>
      rw [← h0, zero] at hptr
      cases hptr
    | label ne_nil' short' _ octet' _ _ =>
      rw [← h0, octet', (label_octet_spec (by simpa using ne_nil') short').1] at hptr
      cases hptr
    | @pointer k _ o' e' _ _ octets' small' _ rest' =>
      obtain ⟨h0', h1'⟩ := pointer_octets octets'
      have ho : o' = o := by
        rw [← htarget, ← (pointerTo_spec small').2, ← h0, ← h1, ← h0', ← h1']
      subst ho
      obtain ⟨m, ls₂, e₂, rfl, rfl, hrest, he⟩ := ih rest'
      exact ⟨m, ls₂, e₂, by omega, rfl, hrest, rfl⟩

/-- The first elements of a name. -/
theorem NameAt.walk (h : NameAt pkt k off ls e) (hn : n ≤ k) :
    ∃ ls₁ p j, Walk pkt n off ls₁ p j := by
  induction n generalizing k off ls e with
  | zero => exact ⟨[], off, none, .nil off⟩
  | succ n ih =>
    cases h with
    | root => cases hn
    | label ne_nil short le octet octets rest =>
      obtain ⟨ls₁, p, j, hwalk⟩ := ih rest (Nat.le_of_succ_le_succ hn)
      exact ⟨_ :: ls₁, p, j, .label ne_nil (short.trans (by decide)) le octet octets hwalk⟩
    | pointer lt octets small prior rest =>
      obtain ⟨ls₁, p, j, hwalk⟩ := ih rest (Nat.le_of_succ_le_succ hn)
      exact ⟨ls₁, p, some (off + 2), .pointer lt octets small prior hwalk⟩

/-- At a zero octet a name has no labels. -/
theorem NameAt.of_endsAt (h : NameAt pkt k off ls e) (hend : EndsAt pkt off) :
    ls = [] ∧ e = off + 1 := by
  cases h with
  | root => exact ⟨rfl, rfl⟩
  | label ne_nil short _ octet =>
    have hne := (label_octet_spec (by simpa using ne_nil) short).2.1
    exact absurd (octet.symm.trans hend.2) hne
  | pointer _ octets small =>
    have hptr := (pointerTo_spec small).1
    rw [← (pointer_octets octets).1, hend.2] at hptr
    cases hptr

/-- A name is a walk to a zero octet. -/
theorem NameAt.reading (h : NameAt pkt k off ls e) :
    ∃ p j, Walk pkt k off ls p j ∧ EndsAt pkt p ∧ e = j.getD (p + 1) := by
  induction h with
  | @root pos lt zero => exact ⟨pos, none, .nil pos, ⟨lt, zero⟩, rfl⟩
  | @label k pos e l ls ne_nil short le octet octets rest ih =>
    obtain ⟨p, j, hwalk, hend, he⟩ := ih
    exact ⟨p, j, .label ne_nil (short.trans (by decide)) le octet octets hwalk, hend, he⟩
  | @pointer k pos o e ls lt octets small prior rest ih =>
    obtain ⟨p, j, hwalk, hend, -⟩ := ih
    exact ⟨p, some (pos + 2), .pointer lt octets small prior hwalk, hend, rfl⟩

/-- The octets at an offset spell one name. -/
theorem NameAt.unique {k' e' : Nat} {ls' : List Text} (h : NameAt pkt k off ls e)
    (h' : NameAt pkt k' off ls' e') : ls = ls' ∧ e = e' := by
  obtain ⟨p, j, hwalk, hend, rfl⟩ := h.reading
  obtain ⟨m, ls₂, e₂, -, rfl, hrest, rfl⟩ := hwalk.split h'
  obtain ⟨rfl, rfl⟩ := hrest.of_endsAt hend
  exact ⟨(append_nil ls).symm, rfl⟩

theorem NameAt.ne_nil (h : NameAt pkt k off ls e) : ∀ l ∈ ls, l ≠ [] := by
  obtain ⟨p, j, hwalk, -⟩ := h.reading
  exact hwalk.ne_nil

theorem NameAt.short (h : NameAt pkt k off ls e) : ∀ l ∈ ls, l.length ≤ 63 := by
  induction h with
  | root => exact fun _ hl => absurd hl not_mem_nil
  | label _ short _ _ _ _ ih => exact forall_mem_cons.mpr ⟨short, ih⟩
  | pointer _ _ _ _ _ ih => exact ih

end Names

/-- **A name of RFC 1035** at an offset: its text is the labels, lowercased and joined by dots, and
`e` is just past the terminator or the first pointer. -/
def RfcName (pkt : Bytes) (off : Nat) (t : Text) (e : Nat) : Prop :=
  ∃ k ls, NameAt pkt k off ls e ∧ (joinDots ls).length ≤ 254 ∧ t = strlower (joinDots ls)

/-- The decoder accepts the names of RFC 1035 at the offset, and returns them. -/
def DecodesExactly (pkt : Bytes) (off : Nat) : Prop :=
  ∀ t e, nameFromWire pkt off 256 = some (t, e) ↔ RfcName pkt off t e

/-- A reading that is a name of RFC 1035: short labels, at most 254 characters, no octet 0, and only
pointers between its last element and the end of the name. -/
structure Sound (pkt : Bytes) (ls : List Text) (p : Nat) : Prop where
  short : ∀ l ∈ ls, l.length ≤ 63
  chars : (joinDots ls).length ≤ 254
  noNul : 0 ∉ joinDots ls
  complete : ∃ k e, NameAt pkt k p [] e

theorem length_joinDots_append_cons (ls : List Text) (m : Text) (ms : List Text) (hm : m ≠ []) :
    (joinDots ls).length < (joinDots (ls ++ m :: ms)).length := by
  have hpos := length_pos_of_ne_nil hm
  have hfront := length_lt_nameWire ls
  have hback := length_lt_nameWire ms
  have hwire := length_nameWire_append ls (m :: ms)
  rw [length_nameWire_cons] at hwire
  rw [length_joinDots, length_joinDots]
  omega

theorem two_mul_length_le (h : ∀ l ∈ ls, l ≠ []) : 2 * ls.length ≤ (joinDots ls).length + 1 := by
  have hwire := two_mul_length_nameWire h
  rw [length_joinDots]
  omega

theorem notMem_of_length_cstr {x : Text} (h : x.length ≤ (cstr x).length) : 0 ∉ x := by
  have hall : cstr x = x := (List.takeWhile_prefix _).eq_of_length_le h
  exact hall ▸ notMem_cstr x

/-- A walk without a pointer has a label for each element. -/
theorem Walk.length_of_none (h : Walk pkt n off ls p none) : ls.length = n := by
  generalize hj : (none : Option Nat) = j at h
  induction h with
  | nil => rfl
  | label _ _ _ _ _ _ ih => rw [length_cons, ih hj]
  | pointer => cases hj

/-- A walk with a label for each element has no pointer. -/
theorem Walk.none_of_length (h : Walk pkt n off ls p j) :
    ls.length ≤ n ∧ (ls.length = n → j = none) := by
  induction h with
  | nil => exact ⟨Nat.le_refl _, fun _ => rfl⟩
  | label _ _ _ _ _ _ ih =>
    exact ⟨Nat.succ_le_succ ih.1, fun hn => ih.2 (Nat.succ.inj hn)⟩
  | pointer _ _ _ _ _ ih =>
    refine ⟨Nat.le_succ_of_le ih.1, fun hn => ?_⟩
    have := ih.1
    omega

/-- A sound reading is a name, and its end is where the reader resumes. -/
theorem Reading.nameAt (h : Reading pkt off n ls p j) (hs : Sound pkt ls p) :
    ∃ k, NameAt pkt k off ls (j.getD (resumeAt n p)) := by
  rcases h.stops with rfl | ⟨hlt, hend⟩
  · -- 128 labels have more than 254 characters, so there was a pointer
    obtain ⟨k, e, hrest⟩ := hs.complete
    have hname := h.walk.nameAt hs.short hrest
    cases j with
    | some j => exact ⟨_, hname⟩
    | none =>
      have hcount := h.walk.length_of_none
      have := two_mul_length_le h.walk.ne_nil
      have := hs.chars
      omega
  · rw [resumeAt, if_neg (by omega)]
    exact ⟨_, h.walk.nameAt hs.short (.root hend.1 hend.2)⟩

/-- A name of at most 254 characters is what the decoder reads of it, if its readings are sound. -/
theorem NameAt.decoded {k : Nat} (hname : NameAt pkt k off ls e)
    (hchars : (joinDots ls).length ≤ 254)
    (h : ∀ n ls p j, Reading pkt off n ls p j → Sound pkt ls p) :
    nameFromWire pkt off 256 = some (strlower (joinDots ls), e) := by
  obtain ⟨n, ls₁, p, j, hread⟩ : ∃ n ls₁ p j, Reading pkt off n ls₁ p j := by
    by_cases hk : k < 128
    · obtain ⟨p, j, hwalk, hend, -⟩ := hname.reading
      exact ⟨k, ls, p, j, hwalk, by omega, .inr ⟨hk, hend⟩⟩
    · obtain ⟨ls₁, p, j, hwalk⟩ := hname.walk (Nat.le_of_not_lt hk)
      obtain ⟨m, ls₂, e₂, -, rfl, -⟩ := hwalk.split hname
      have hle := length_joinDots_take (ls₁ ++ ls₂) ls₁.length
      rw [take_left] at hle
      exact ⟨128, ls₁, p, j, hwalk, by omega, .inl rfl⟩
  have hsound := h n ls₁ p j hread
  obtain ⟨k', hname'⟩ := hread.nameAt hsound
  obtain ⟨rfl, rfl⟩ := hname.unique hname'
  rw [hread.nameFromWire_eq, cstr_eq_self hsound.noNul]

/-- **The decoder accepts exactly the names of RFC 1035** at the offset iff the walk it makes there,
with every octet up to 191 for a length and at most 128 elements, is one. -/
theorem decodesExactly_iff : DecodesExactly pkt off ↔
    ∀ n ls p j, Reading pkt off n ls p j → Sound pkt ls p := by
  constructor
  · intro h n ls p j hread
    obtain ⟨k, ls', hname, hchars, htext⟩ := (h _ _).mp hread.nameFromWire_eq
    obtain ⟨m, ls₂, e₂, -, rfl, hrest, -⟩ := hread.walk.split hname
    have hlen : (cstr (joinDots ls)).length = (joinDots (ls ++ ls₂)).length := by
      simpa using congrArg length htext
    have hcut : (cstr (joinDots ls)).length ≤ (joinDots ls).length :=
      (List.takeWhile_prefix _).length_le
    cases ls₂ with
    | nil =>
      rw [append_nil] at hname hchars hlen
      exact ⟨hname.short, hchars, notMem_of_length_cstr hlen.ge, m, e₂, hrest⟩
    | cons l ls₂ =>
      have hlt := length_joinDots_append_cons ls l ls₂ (hrest.ne_nil l mem_cons_self)
      omega
  · intro h t e
    constructor
    · intro hread
      obtain ⟨n, ls, p, j, hr, rfl, rfl⟩ := nameFromWire_eq_some_iff.mp hread
      have hsound := h n ls p j hr
      obtain ⟨k, hname⟩ := hr.nameAt hsound
      refine ⟨k, ls, hname, hsound.chars, ?_⟩
      rw [cstr_eq_self hsound.noNul]
    · rintro ⟨k, ls, hname, hchars, rfl⟩
      exact hname.decoded hchars h

/-- A length octet with the reserved bits `01`, 64 octets `a`, and the root. -/
def oversizedLabel : Bytes := 64 :: (replicate 64 97 ++ [0])

/-- **A label of 64 octets is decoded.** No name of RFC 1035 starts with its length octet. -/
theorem oversized_label_decoded : ¬ DecodesExactly oversizedLabel 0 := by
  intro h
  have hdecoded : nameFromWire oversizedLabel 0 256 = some (replicate 64 97, 66) := by
    decide +kernel
  obtain ⟨k, ls, hname, -, -⟩ := (h _ _).mp hdecoded
  cases hname with
  -- the root and a pointer would end elsewhere
  | label ne_nil short _ octet =>
    have hval := (label_octet_spec (by simpa using ne_nil) short).2.2
    have hfirst : (byteAt oversizedLabel 0).toNat = 64 := by decide
    rw [octet, hval] at hfirst
    omega

end SimpleDns.Wire
