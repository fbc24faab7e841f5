import SimpleDns.Wire.Labels

/-!
# Compressed names and records (`dns_wire.c:409-512`)

Every owner name of a response goes through `name_to_wire_c`: a suffix that was written before is
replaced by a pointer to it, and every new suffix is remembered in a per-message context of 128
entries. `NameAt` says which labels the octets at an offset spell, and in how many steps of
`name_from_wire`.

* `nameToWireC`, `appendRR` are `name_to_wire_c` and `append_rr`.
* `Registered` says that the context tells the truth about the message.
* **`nameToWireC_spec`**: an owner written in a truthful context spells that owner (up to case), and
  leaves a truthful context.
* **`nameFromWire_of_spelled`**: `name_from_wire` reads back what the octets spell. Its 128 steps
  are enough: a name of `n` labels takes at most `2n`, and at most 64 labels are ever written.
* **`owner_reads_back`**: in a message of any records every owner reads back, lowercased, up to the
  record's type field.
-/

namespace SimpleDns.Wire

open List Option

/-! ## Writing -/

/-- `compress_ctx_t`: the suffixes written so far with their offsets. -/
abbrev CompressCtx := List (Text × Nat)

/-- The suffix composed in `char suffix[256]` from the labels on. -/
def composeSuffix : Text → List Text → Text
  | sp, [] => sp
  | sp, l :: ls =>
    if sp.length + l.length + 1 ≥ 256 then sp
    else composeSuffix (sp ++ (if sp.isEmpty then [] else [dot]) ++ l) ls

/-- The two octets of a pointer. -/
def pointerTo (o : Nat) : Bytes := [0xC0 ||| (o / 256).toUInt8, o.toUInt8]

/-- The label loop of `name_to_wire_c` at offset `pos`: the octets written, `none` for `-1`, and the
context. -/
def wireLoopC (blen : Nat) : List Text → Nat → CompressCtx → Option Bytes × CompressCtx
  | [], pos, cc => (if pos ≥ blen then none else some [0], cc)
  | l :: ls, pos, cc =>
    let suffix := composeSuffix [] (l :: ls)
    match cc.find? fun p => eqCI p.1 suffix with
    | some p => (if pos + 2 > blen then none else some (pointerTo p.2), cc)
    | none =>
      let cc' := if cc.length < 128 ∧ pos < 0x4000 then cc ++ [(suffix, pos)] else cc
      if l.length > 63 then (none, cc')
      else if pos + l.length + 1 ≥ blen then (none, cc')
      else
        let r := wireLoopC blen ls (pos + l.length + 1) cc'
        (r.1.map (labelWire l ++ ·), r.2)

/-- `name_to_wire_c(name, buf, pos, blen, pos)`. -/
def nameToWireC (blen : Nat) (name : Text) (pos : Nat) (cc : CompressCtx) :
    Option Bytes × CompressCtx :=
  wireLoopC blen ((labels (safeStrcpy name 256)).take 64) pos cc

/-- The octets of a record behind its owner. -/
def recordTail (type cls ttl : Nat) (rdata : Bytes) : Bytes :=
  put16 type ++ put16 cls ++ put32 ttl ++ put16 rdata.length ++ rdata

/-- `append_rr(buf, off, blen, ..)` on a message of `off` octets. -/
def appendRR (blen : Nat) (msg : Bytes) (cc : CompressCtx) (name : Text) (type cls ttl : Nat)
    (rdata : Bytes) : Option Bytes × CompressCtx :=
  let r := nameToWireC blen name msg.length cc
  match r.1 with
  | none => (none, r.2)
  | some w =>
    (if msg.length + w.length + 10 + rdata.length > blen then none
      else some (msg ++ w ++ recordTail type cls ttl rdata), r.2)

/-! ## What the octets at an offset spell -/

/-- The name at `pos` has the labels `ls`, is read in `k` steps before its last octet, and the
reader resumes at `e`. -/
inductive NameAt (pkt : Bytes) : Nat → Nat → List Text → Nat → Prop
  | root {pos : Nat} (lt : pos < pkt.length) (zero : byteAt pkt pos = 0) :
      NameAt pkt 0 pos [] (pos + 1)
  | label {k pos e : Nat} {l : Text} {ls : List Text} (ne_nil : l ≠ []) (short : l.length ≤ 63)
      (le : pos + 1 + l.length ≤ pkt.length) (octet : byteAt pkt pos = l.length.toUInt8)
      (octets : slice pkt (pos + 1) l.length = l)
      (rest : NameAt pkt k (pos + 1 + l.length) ls e) : NameAt pkt (k + 1) pos (l :: ls) e
  | pointer {k pos o e : Nat} {ls : List Text} (lt : pos + 1 < pkt.length)
      (octets : slice pkt pos 2 = pointerTo o) (small : o < 0x4000) (prior : o < pos)
      (rest : NameAt pkt k o ls e) : NameAt pkt (k + 1) pos ls (pos + 2)

variable {b : Bytes} {i : Nat}

theorem byteAt_append_left {a : Bytes} (h : i < a.length) : byteAt (a ++ b) i = byteAt a i := by
  simp [byteAt, getD_eq_getElem?_getD, getElem?_append_left h]

theorem byteAt_append_right (a b : Bytes) (i : Nat) :
    byteAt (a ++ b) (a.length + i) = byteAt b i := by
  simp [byteAt, getD_eq_getElem?_getD, getElem?_append_right]

variable {n : Nat}

theorem slice_append_left {a : Bytes} (h : i + n ≤ a.length) :
    slice (a ++ b) i n = slice a i n := by
  rw [slice, slice, drop_append_of_le_length (by omega),
    take_append_of_le_length (by rw [length_drop]; omega)]

theorem slice_append_right (a b : Bytes) (i n : Nat) :
    slice (a ++ b) (a.length + i) n = slice b i n := by
  rw [slice, slice, ← drop_drop, drop_left]

variable {pkt : Bytes} {k pos e : Nat} {ls : List Text}

/-- More octets behind a packet change nothing. -/
theorem NameAt.append (h : NameAt pkt k pos ls e) (post : Bytes) :
    NameAt (pkt ++ post) k pos ls e := by
  induction h with
  | root lt zero =>
    exact .root (by rw [length_append]; omega) (by rw [byteAt_append_left lt, zero])
  | label ne_nil short le octet octets rest ih =>
    refine .label ne_nil short (by rw [length_append]; omega) ?_ ?_ ih
    · rw [byteAt_append_left (by omega), octet]
    · rw [slice_append_left le, octets]
  | pointer lt octets small prior rest ih =>
    refine .pointer (by rw [length_append]; omega) ?_ small prior ih
    rw [slice_append_left (by omega), octets]

theorem NameAt.lt (h : NameAt pkt k pos ls e) : pos < pkt.length := by
  cases h with
  | root lt _ => exact lt
  | label _ _ le => omega
  | pointer lt => omega

theorem NameAt.length_le (h : NameAt pkt k pos ls e) : ls.length ≤ k := by
  induction h with
  | root => exact Nat.le_refl _
  | label _ _ _ _ _ _ ih => exact Nat.succ_le_succ ih
  | pointer _ _ _ _ _ ih => exact Nat.le_succ_of_le ih

/-- A label on the wire, wherever it stands. -/
theorem labelWire_at (l : Text) (pre post : Bytes) :
    byteAt (pre ++ labelWire l ++ post) pre.length = l.length.toUInt8 ∧
      slice (pre ++ labelWire l ++ post) (pre.length + 1) l.length = l ∧
      (pre ++ labelWire l).length = pre.length + 1 + l.length := by
  have hpkt : pre ++ labelWire l ++ post = pre ++ (l.length.toUInt8 :: (l ++ post)) := by
    simp [labelWire]
  refine ⟨?_, ?_, ?_⟩
  · rw [hpkt, ← Nat.add_zero pre.length, byteAt_append_right]
    rfl
  · rw [hpkt, slice_append_right]
    simp [slice]
  · simp [labelWire]
    omega

/-- Labels on the wire are spelled by their octets. -/
theorem nameAt_nameWire (hne : ∀ l ∈ ls, l ≠ []) (hshort : ∀ l ∈ ls, l.length ≤ 63)
    (pre post : Bytes) : NameAt (pre ++ nameWire ls ++ post) ls.length pre.length ls
      (pre.length + (nameWire ls).length) := by
  induction ls generalizing pre with
  | nil =>
    refine .root ?_ ?_
    · simp [nameWire]
    · rw [append_assoc, ← Nat.add_zero pre.length, byteAt_append_right]
      rfl
  | cons l ls ih =>
    have hrest := ih (fun m hm => hne m (mem_cons_of_mem _ hm))
      (fun m hm => hshort m (mem_cons_of_mem _ hm)) (pre ++ labelWire l)
    obtain ⟨hoctet, hslice, hlen⟩ := labelWire_at l pre (nameWire ls ++ post)
    rw [append_assoc, hlen] at hrest
    have hend : pre.length + (nameWire (l :: ls)).length =
        pre.length + 1 + l.length + (nameWire ls).length := by
      rw [length_nameWire_cons]
      omega
    rw [hend, nameWire_cons, ← append_assoc, append_assoc]
    refine .label (hne l mem_cons_self) (hshort l mem_cons_self) ?_ hoctet hslice hrest
    rw [length_append, hlen]
    omega

/-! ## Reading back -/

/-- The labels behind what was read so far. -/
def joinOnto (out : Text) (ls : List Text) : Text :=
  ls.foldl (fun out l => out ++ (if out.isEmpty then [] else [dot]) ++ l) out

theorem length_joinOnto_ge (out : Text) (ls : List Text) :
    out.length ≤ (joinOnto out ls).length := by
  induction ls generalizing out with
  | nil => exact le_rfl
  | cons l ls ih =>
    refine le_trans ?_ (ih _)
    simp only [length_append]
    omega

variable {out l : Text}

/-- A label of a name of at most 255 characters fits the buffer behind what was read so far. -/
theorem fits_of_joinOnto (hl : l.length ≤ 254) (h : (joinOnto out (l :: ls)).length ≤ 255) :
    out.length + l.length + 1 < 256 := by
  have hge := length_joinOnto_ge (out ++ (if out.isEmpty then [] else [dot]) ++ l) ls
  have hle : (out ++ (if out.isEmpty then [] else [dot]) ++ l).length ≤ 255 := hge.trans h
  cases out with
  | nil =>
    rw [length_nil]
    omega
  | cons c cs =>
    simp only [isEmpty_cons, Bool.false_eq_true, if_false, length_append,
      length_singleton] at hle
    omega

theorem pointerTo_spec {o : Nat} (h : o < 0x4000) :
    isPointer (0xC0 ||| (o / 256).toUInt8) = true ∧
      ((0xC0 ||| (o / 256).toUInt8) &&& 0x3F).toNat * 256 + o.toUInt8.toNat = o := by
  have hhigh : ∀ q < 64, isPointer (0xC0 ||| q.toUInt8) = true ∧
      ((0xC0 ||| q.toUInt8) &&& 0x3F).toNat = q := by decide
  obtain ⟨hp, hq⟩ := hhigh (o / 256) (by omega)
  refine ⟨hp, ?_⟩
  rw [hq]
  simp
  omega

/-- An octet that is no pointer's is the length of a label. -/
theorem length_octet : ∀ {c : UInt8}, isPointer c = false → c.toNat ≤ 191 := by
  decide +kernel

theorem not_pointer_of_length (h0 : n ≠ 0) (h : n ≤ 191) :
    isPointer n.toUInt8 = false ∧ n.toUInt8 ≠ 0 ∧ n.toUInt8.toNat = n := by
  have hall : ∀ n ≤ 191, n ≠ 0 → isPointer n.toUInt8 = false ∧ n.toUInt8 ≠ 0 ∧
      n.toUInt8.toNat = n := by decide +kernel
  exact hall n h h0

theorem label_octet_spec (h0 : n ≠ 0) (h : n ≤ 63) :
    isPointer n.toUInt8 = false ∧ n.toUInt8 ≠ 0 ∧ n.toUInt8.toNat = n :=
  not_pointer_of_length h0 (h.trans (by decide))

theorem byteAt_slice {o : Nat} (h : i < n) : byteAt (slice b o n) i = byteAt b (o + i) := by
  simp [byteAt, slice, getD_eq_getElem?_getD, getElem?_take_of_lt h]

/-- The octets of a pointer at `pos`. -/
theorem pointer_octets {o : Nat} (h : slice pkt pos 2 = pointerTo o) :
    byteAt pkt pos = 0xC0 ||| (o / 256).toUInt8 ∧ byteAt pkt (pos + 1) = o.toUInt8 := by
  constructor
  · rw [← Nat.add_zero pos, ← byteAt_slice (n := 2) (by decide), h]
    rfl
  · rw [← byteAt_slice (n := 2) (by decide), h]
    rfl

/-- The reader follows the spelling. Out of steps at the root octet, it stops in front of it, unless
it has jumped before that. -/
theorem nameLoop_of_nameAt (h : NameAt pkt k pos ls e) {fuel : Nat} (jret : Option Nat)
    (hk : k ≤ fuel) (hlen : (joinOnto out ls).length ≤ 255) :
    ∃ a, nameLoop pkt 256 fuel pos out jret = some (joinOnto out ls, jret.getD a) ∧
      a ≤ e ∧ e ≤ a + 1 ∧ (k < fuel ∨ isPointer (byteAt pkt pos) = true → a = e) := by
  simp only [nameLoop_eq_some_iff]
  induction h generalizing fuel out jret with
  | @root pos lt zero =>
    cases fuel with
    | zero => exact ⟨pos, .stop rfl, by omega, le_rfl, by simp [zero, isPointer]⟩
    | succ fuel => exact ⟨pos + 1, .root lt zero rfl, le_rfl, by omega, fun _ => rfl⟩
  | @label k pos e l ls ne_nil short le octet octets rest ih =>
    obtain ⟨fuel, rfl⟩ : ∃ f, fuel = f + 1 := ⟨fuel - 1, by omega⟩
    obtain ⟨hptr, -, hval⟩ := label_octet_spec (by simpa using ne_nil) short
    rw [← octet] at hptr hval
    have hroom := fits_of_joinOnto (short.trans (by decide)) hlen
    obtain ⟨a, hread, hle, hge, hend⟩ := ih jret (Nat.le_of_succ_le_succ hk) hlen
    refine ⟨a, .label hptr hval ne_nil le octets hroom hread, hle, hge, ?_⟩
    rw [hptr]
    exact fun h => hend (.inl (Nat.lt_of_succ_lt_succ (h.resolve_right (by decide))))
  | @pointer k pos o e ls lt octets small prior rest ih =>
    obtain ⟨fuel, rfl⟩ : ∃ f, fuel = f + 1 := ⟨fuel - 1, by omega⟩
    obtain ⟨hptr, htarget⟩ := pointerTo_spec small
    obtain ⟨h0, h1⟩ := pointer_octets octets
    rw [← h0] at hptr
    rw [← h0, ← h1] at htarget
    obtain ⟨a, hread, -⟩ := ih (some (jret.getD (pos + 2))) (Nat.le_of_succ_le_succ hk) hlen
    exact ⟨pos + 2, .pointer lt hptr htarget prior hread, le_rfl, by omega, fun _ => rfl⟩

/-! ## Joined labels -/

/-- The labels are neither empty nor cut by a dot. -/
def Proper (ls : List Text) : Prop := ∀ l ∈ ls, l ≠ [] ∧ dot ∉ l

theorem Proper.tail (h : Proper (l :: ls)) : Proper ls :=
  fun m hm => h m (mem_cons_of_mem _ hm)

theorem labels_joinDots (h : Proper ls) : labels (joinDots ls) = ls :=
  strtok_intercalate (fun l hl => (h l hl).2) fun l hl => (h l hl).1

theorem proper_labels (s : Text) : Proper (labels s) := by
  intro l hl
  refine ⟨ne_nil_of_mem_labels hl, ?_⟩
  simp only [labels, strtok, mem_filter] at hl
  exact notMem_of_mem_splitOn hl.1

theorem joinOnto_of_ne_nil (h : out ≠ []) (ls : List Text) :
    joinOnto out ls = out ++ ls.flatMap fun m => dot :: m := by
  induction ls generalizing out with
  | nil => simp [joinOnto]
  | cons l ls ih =>
    have hstep : joinOnto out (l :: ls) = joinOnto (out ++ [dot] ++ l) ls := by
      rw [joinOnto, foldl_cons, if_neg (by simpa using h)]
      rfl
    rw [hstep, ih (by simp)]
    simp

theorem joinOnto_eq_joinDots (h : ∀ l ∈ ls, l ≠ []) : joinOnto [] ls = joinDots ls := by
  cases ls with
  | nil => rfl
  | cons l ls =>
    have hstep : joinOnto [] (l :: ls) = joinOnto l ls := by simp [joinOnto]
    rw [hstep, joinOnto_of_ne_nil (h l mem_cons_self), joinDots_cons]

theorem joinOnto_nil (h : Proper ls) : joinOnto [] ls = joinDots ls :=
  joinOnto_eq_joinDots fun l hl => (h l hl).1

theorem composeSuffix_eq {sp : Text} (hls : ∀ l ∈ ls, l.length ≤ 63)
    (h : (joinOnto sp ls).length ≤ 255) : composeSuffix sp ls = joinOnto sp ls := by
  induction ls generalizing sp with
  | nil => rfl
  | cons l ls ih =>
    have hstep : joinOnto sp (l :: ls) =
        joinOnto (sp ++ (if sp.isEmpty then [] else [dot]) ++ l) ls := rfl
    have hfit := fits_of_joinOnto ((hls l mem_cons_self).trans (by decide)) h
    rw [hstep] at h ⊢
    rw [composeSuffix, if_neg (by omega), ih (fun m hm => hls m (mem_cons_of_mem _ hm)) h]

theorem length_joinDots_lt (ls : List Text) (h : l ≠ []) :
    (joinDots ls).length < (joinDots (l :: ls)).length := by
  have hpos := length_pos_of_ne_nil h
  have hwire := length_lt_nameWire ls
  rw [length_joinDots, length_joinDots, length_nameWire_cons]
  omega

/-- Joined labels that agree up to case agree label by label. -/
theorem map_strlower_of_eqCI {ls' : List Text} (h : Proper ls) (h' : Proper ls')
    (heq : eqCI (joinDots ls) (joinDots ls') = true) : ls.map strlower = ls'.map strlower := by
  have hlow := congrArg labels (eqCI_iff.mp heq)
  rwa [labels_strlower, labels_strlower, labels_joinDots h, labels_joinDots h'] at hlow

/-! ## The context -/

/-- The entry tells the truth: the octets at its offset spell its suffix up to case, and start with
a label. -/
structure Good (msg : Bytes) (p : Text × Nat) : Prop where
  small : p.2 < 0x4000
  spells : ∃ ls ls' k e, p.1 = joinDots ls ∧ Proper ls ∧ ls'.map strlower = ls.map strlower ∧
    NameAt msg k p.2 ls' e ∧ k < 2 * ls.length

/-- The context tells the truth. -/
def Registered (msg : Bytes) (cc : CompressCtx) : Prop := ∀ p ∈ cc, Good msg p

variable {msg : Bytes}

theorem Good.append {p : Text × Nat} (h : Good msg p) (post : Bytes) : Good (msg ++ post) p := by
  obtain ⟨hsmall, ls, ls', k, e, htext, hproper, hlow, hname, hk⟩ := h
  exact ⟨hsmall, ls, ls', k, e, htext, hproper, hlow, hname.append post, hk⟩

/-- The octets at `pos` spell the labels up to case, in few enough steps to be read. -/
structure Spelled (pkt : Bytes) (pos : Nat) (ls : List Text) (e : Nat) : Prop where
  spells : ∃ ls' k, ls'.map strlower = ls.map strlower ∧ NameAt pkt k pos ls' e ∧
    (k < 2 * ls.length ∨ k ≤ 2 * ls.length ∧ (ls = [] ∨ isPointer (byteAt pkt pos) = true))

theorem Spelled.append (h : Spelled pkt pos ls e) (post : Bytes) :
    Spelled (pkt ++ post) pos ls e := by
  obtain ⟨ls', k, hlow, hname, hk⟩ := h
  refine ⟨ls', k, hlow, hname.append post, ?_⟩
  rwa [byteAt_append_left hname.lt]

theorem slice_append_self (a b : Bytes) : slice (a ++ b) a.length b.length = b := by
  have := slice_append_right a b 0 b.length
  rwa [Nat.add_zero, slice, slice, drop_zero, take_length] at this

/-- A pointer to a true entry. -/
theorem spelled_pointer {p : Text × Nat} (hls : Proper ls) (h : Good msg p)
    (heq : eqCI p.1 (joinDots ls) = true) :
    Spelled (msg ++ pointerTo p.2) msg.length ls (msg.length + 2) := by
  obtain ⟨hsmall, ls₀, ls', k, e, htext, hproper, hlow, hname, hk⟩ := h
  rw [htext] at heq
  have hmap := map_strlower_of_eqCI hproper hls heq
  have hlen : ls₀.length = ls.length := by simpa using congrArg length hmap
  have hslice : slice (msg ++ pointerTo p.2) msg.length 2 = pointerTo p.2 :=
    slice_append_self msg (pointerTo p.2)
  have hoctet : byteAt (msg ++ pointerTo p.2) msg.length = 0xC0 ||| (p.2 / 256).toUInt8 :=
    byteAt_append_right msg (pointerTo p.2) 0
  refine ⟨ls', k + 1, hlow.trans hmap, ?_, .inr ⟨by omega, .inr ?_⟩⟩
  · refine .pointer ?_ hslice hsmall hname.lt (hname.append _)
    simp [pointerTo]
  · rw [hoctet]
    exact (pointerTo_spec hsmall).1

/-- A label in front of a spelled name. -/
theorem spelled_label {w : Bytes} (hl : l ≠ []) (hshort : l.length ≤ 63)
    (h : Spelled (msg ++ labelWire l ++ w) (msg.length + l.length + 1) ls e) :
    ∃ ls' k, ls'.map strlower = (l :: ls).map strlower ∧
      NameAt (msg ++ labelWire l ++ w) k msg.length ls' e ∧ k < 2 * (l :: ls).length := by
  obtain ⟨ls', k, hlow, hname, hk⟩ := h
  obtain ⟨hoctet, hslice, hlen⟩ := labelWire_at l msg w
  refine ⟨l :: ls', k + 1, by simp [hlow], .label hl hshort ?_ hoctet hslice ?_, ?_⟩
  · rw [length_append, hlen]
    omega
  · rwa [show msg.length + 1 + l.length = msg.length + l.length + 1 by omega]
  · rw [length_cons]
    omega

variable {blen : Nat}

/-- The label loop. While the name is being written its own suffixes are in the context ahead of
their octets; they are longer than every suffix still looked up. -/
theorem wireLoopC_spec {w : Bytes} {cc cc' : CompressCtx} (hls : Proper ls)
    (hshort : ∀ l ∈ ls, l.length ≤ 63) (hlen : (joinDots ls).length ≤ 255)
    (hcc : ∀ p ∈ cc, Good msg p ∨ (joinDots ls).length < p.1.length)
    (h : wireLoopC blen ls msg.length cc = (some w, cc')) :
    Spelled (msg ++ w) msg.length ls (msg.length + w.length) ∧
      ∀ p ∈ cc', p ∈ cc ∨ Good (msg ++ w) p := by
  induction ls generalizing msg cc w with
  | nil =>
    simp only [wireLoopC, Prod.mk.injEq] at h
    obtain ⟨hw, rfl⟩ := h
    split at hw
    · cases hw
    cases hw
    refine ⟨⟨[], 0, rfl, .root ?_ ?_, .inr ⟨le_rfl, .inl rfl⟩⟩, fun p hp => .inl hp⟩
    · simp
    · exact byteAt_append_right msg [0] 0
  | cons l ls ih =>
    have hl := hls l mem_cons_self
    have hsuffix : composeSuffix [] (l :: ls) = joinDots (l :: ls) := by
      rw [composeSuffix_eq hshort (by rwa [joinOnto_nil hls]), joinOnto_nil hls]
    simp only [wireLoopC, hsuffix] at h
    cases hfind : cc.find? fun p => eqCI p.1 (joinDots (l :: ls)) with
    | some p =>
      simp only [hfind, Prod.mk.injEq] at h
      obtain ⟨hw, rfl⟩ := h
      split at hw
      · cases hw
      cases hw
      have heq : eqCI p.1 (joinDots (l :: ls)) = true := by simpa using find?_some hfind
      have hsame : p.1.length = (joinDots (l :: ls)).length := by
        rw [← length_strlower, eqCI_iff.mp heq, length_strlower]
      have hgood : Good msg p := by
        refine (hcc p (mem_of_find?_eq_some hfind)).resolve_right ?_
        omega
      exact ⟨spelled_pointer hls hgood heq, fun q hq => .inl hq⟩
    | none =>
      simp only [hfind] at h
      obtain ⟨cc₁, hcc₁⟩ : ∃ cc₁, cc₁ = if cc.length < 128 ∧ msg.length < 0x4000 then
          cc ++ [(joinDots (l :: ls), msg.length)] else cc := ⟨_, rfl⟩
      have hmem : ∀ p ∈ cc₁, p ∈ cc ∨ p = (joinDots (l :: ls), msg.length) ∧
          msg.length < 0x4000 := by
        intro p hp
        rw [hcc₁] at hp
        split at hp
        · rename_i hroom
          obtain hp | hp := mem_append.mp hp
          · exact .inl hp
          · exact .inr ⟨mem_singleton.mp hp, hroom.2⟩
        · exact .inl hp
      rw [← hcc₁] at h
      have hl63 : ¬l.length > 63 := Nat.not_lt.mpr (hshort l mem_cons_self)
      by_cases hroom : msg.length + l.length + 1 ≥ blen
      · simp [hl63, hroom] at h
      rw [if_neg hl63, if_neg hroom, Prod.mk.injEq] at h
      obtain ⟨hw, hctx⟩ := h
      obtain ⟨w₁, hw₁, rfl⟩ := map_eq_some_iff.mp hw
      have hpos : (msg ++ labelWire l).length = msg.length + l.length + 1 := by
        simp [labelWire]
        omega
      have hlt := length_joinDots_lt ls hl.1
      have hcc' : ∀ p ∈ cc₁, Good (msg ++ labelWire l) p ∨ (joinDots ls).length < p.1.length := by
        intro p hp
        obtain hp | ⟨rfl, -⟩ := hmem p hp
        · exact (hcc p hp).imp (fun hg => hg.append _) fun hlong => by omega
        · exact .inr hlt
      have hrec : wireLoopC blen ls (msg ++ labelWire l).length cc₁ = (some w₁, cc') := by
        rw [hpos, ← hw₁, ← hctx]
      obtain ⟨hspelled, hctx'⟩ :=
        ih hls.tail (fun m hm => hshort m (mem_cons_of_mem _ hm)) (by omega) hcc' hrec
      rw [hpos] at hspelled
      have hpkt : msg ++ (labelWire l ++ w₁) = msg ++ labelWire l ++ w₁ :=
        (append_assoc ..).symm
      have hend : msg.length + l.length + 1 + w₁.length =
          msg.length + (labelWire l ++ w₁).length := by
        simp only [labelWire, length_append, length_cons]
        omega
      rw [hend] at hspelled
      obtain ⟨ls', k, hlow, hname, hk⟩ := spelled_label hl.1 (by omega) hspelled
      rw [hpkt]
      refine ⟨⟨ls', k, hlow, hname, .inl hk⟩, fun p hp => ?_⟩
      obtain hp | hp := hctx' p hp
      · obtain hp | ⟨rfl, hsmall⟩ := hmem p hp
        · exact .inl hp
        · exact .inr ⟨hsmall, l :: ls, ls', k, _, rfl, hls, hlow, hname, hk⟩
      · exact .inr hp

/-- What the label loop writes for some labels. -/
inductive Wrote : List Text → Bytes → Prop
  | root : Wrote [] [0]
  | pointer (o : Nat) (l : Text) (ls : List Text) : Wrote (l :: ls) (pointerTo o)
  | label {l : Text} {ls : List Text} {w : Bytes} (short : l.length ≤ 63) (rest : Wrote ls w) :
      Wrote (l :: ls) (labelWire l ++ w)

theorem wrote_of_wireLoopC {w : Bytes} {cc : CompressCtx}
    (h : (wireLoopC blen ls pos cc).1 = some w) : Wrote ls w := by
  induction ls generalizing pos cc w with
  | nil =>
    obtain ⟨-, h⟩ := ite_none_left_eq_some.mp h
    exact some.inj h ▸ .root
  | cons l ls ih =>
    rw [wireLoopC] at h
    split at h
    · obtain ⟨-, h⟩ := ite_none_left_eq_some.mp h
      exact some.inj h ▸ .pointer _ l ls
    · dsimp only at h
      split at h
      · cases h
      split at h
      · cases h
      · obtain ⟨w', hw', rfl⟩ := map_eq_some_iff.mp h
        exact .label (by omega) (ih hw')

/-- A compressed name is no longer than the plain one. -/
theorem length_wrote_le {ls : List Text} {w : Bytes} (h : Wrote ls w) (hne : ∀ l ∈ ls, l ≠ []) :
    w.length ≤ (nameWire ls).length := by
  induction h with
  | root => simp [nameWire]
  | pointer o l ls =>
    have hl := length_pos_iff.mpr (hne l mem_cons_self)
    rw [length_nameWire_cons]
    simp only [pointerTo, length_cons, length_nil]
    omega
  | label _ _ ih =>
    have hle := ih fun m hm => hne m (mem_cons_of_mem _ hm)
    rw [length_nameWire_cons]
    simp only [labelWire, length_append, length_cons]
    omega

theorem wireLoopC_of_room {ls : List Text} (hls : ∀ l ∈ ls, l ≠ [] ∧ l.length ≤ 63) {pos : Nat}
    (cc : CompressCtx) (hroom : pos + (nameWire ls).length ≤ blen) :
    ∃ w, (wireLoopC blen ls pos cc).1 = some w := by
  induction ls generalizing pos cc with
  | nil =>
    have : pos < blen := by
      simp only [nameWire, flatMap_nil, nil_append, length_singleton] at hroom
      omega
    exact ⟨[0], by simp [wireLoopC, this]⟩
  | cons l ls ih =>
    obtain ⟨hne, hshort⟩ := hls l mem_cons_self
    have hl : 0 < l.length := length_pos_iff.mpr hne
    have hpos := length_lt_nameWire ls
    rw [length_nameWire_cons] at hroom
    unfold wireLoopC
    dsimp only
    split
    · exact ⟨_, if_neg (by omega)⟩
    · rw [if_neg (by omega), if_neg (by omega)]
      have hrest : pos + l.length + 1 + (nameWire ls).length ≤ blen := by omega
      obtain ⟨w, hw⟩ := ih (fun m hm => hls m (mem_cons_of_mem l hm)) _ hrest
      exact ⟨labelWire l ++ w, by rw [hw]; rfl⟩

/-- **What fits is written**: the loop writes into a smaller buffer what it has written into
another, if the octets fit. -/
theorem wireLoopC_of_length_le {blen' : Nat} {ls : List Text} {pos : Nat} {cc : CompressCtx}
    {w : Bytes} (h : (wireLoopC blen' ls pos cc).1 = some w)
    (hfit : pos + w.length ≤ blen) : wireLoopC blen ls pos cc = wireLoopC blen' ls pos cc := by
  induction ls generalizing pos cc w with
  | nil =>
    obtain ⟨hlt, hw⟩ := ite_none_left_eq_some.mp h
    cases hw
    rw [length_singleton] at hfit
    rw [wireLoopC, wireLoopC, if_neg hlt, if_neg (by omega)]
  | cons l ls ih =>
    rw [wireLoopC] at h ⊢
    rw [wireLoopC]
    split at h
    · obtain ⟨hle, hw⟩ := ite_none_left_eq_some.mp h
      cases hw
      simp only [pointerTo, length_cons, length_nil] at hfit
      rw [if_neg hle, if_neg (by omega)]
    · dsimp only at h ⊢
      split at h
      · cases h
      rename_i hshort
      split at h
      · cases h
      rename_i hroom
      obtain ⟨w', hw', rfl⟩ := map_eq_some_iff.mp h
      simp only [labelWire, length_append, length_cons] at hfit
      have hpos : 0 < w'.length := by
        cases wrote_of_wireLoopC hw' <;> simp [pointerTo, labelWire]
      rw [if_neg hshort, if_neg hshort, if_neg (by omega), if_neg hroom, ih hw' (by omega)]

/-! ## Owner names -/

/-- The labels `name_to_wire_c` writes: the first 64 of the name. -/
def ownerLabels (name : Text) : List Text := (labels name).take 64

/-- A name as a C string of a 256-octet buffer whose wire form has at most 255 octets. -/
structure OwnerName (name : Text) : Prop where
  noNul : 0 ∉ name
  short : name.length ≤ 255
  wire : ∃ w, nameToWire name 255 = some w

/-- A name as a C string of a 256-octet buffer with labels of at most 63 octets. Its wire form may
have up to 257 octets. -/
structure Writable (name : Text) : Prop where
  noNul : 0 ∉ name
  short : name.length ≤ 255
  labels_short : ∀ l ∈ labels name, l.length ≤ 63

section Owner

variable {name : Text}

theorem OwnerName.labels_short (ho : OwnerName name) : ∀ l ∈ labels name, l.length ≤ 63 := by
  obtain ⟨w, hw⟩ := ho.wire
  exact ((nameToWire_eq_some_iff ho.short).mp hw).1

theorem OwnerName.writable (ho : OwnerName name) : Writable name :=
  ⟨ho.noNul, ho.short, ho.labels_short⟩

theorem OwnerName.length_wire (ho : OwnerName name) : (nameWire (labels name)).length ≤ 255 := by
  obtain ⟨w, hw⟩ := ho.wire
  obtain ⟨-, rfl, hle⟩ := (nameToWire_eq_some_iff ho.short).mp hw
  exact hle

theorem length_joinDots_labels (s : Text) : (joinDots (labels s)).length ≤ s.length := by
  have hwire := length_nameWire_le s
  rw [length_joinDots]
  omega

theorem length_joinDots_take (ls : List Text) (n : Nat) :
    (joinDots (ls.take n)).length ≤ (joinDots ls).length := by
  rw [length_joinDots, length_joinDots]
  exact Nat.sub_le_sub_right (length_nameWire_take ls n) 2

theorem proper_ownerLabels (name : Text) : Proper (ownerLabels name) := fun l hl =>
  proper_labels name l (mem_of_mem_take hl)

theorem length_nameWire_ownerLabels (ho : OwnerName name) :
    (nameWire (ownerLabels name)).length ≤ 255 :=
  (length_nameWire_take _ _).trans ho.length_wire

theorem OwnerName.length_joinDots (ho : OwnerName name) :
    (joinDots (ownerLabels name)).length ≤ 254 := by
  have hwire := length_nameWire_ownerLabels ho
  rw [Wire.length_joinDots]
  omega

theorem Writable.length_joinDots (ho : Writable name) :
    (joinDots (ownerLabels name)).length ≤ 255 :=
  ((length_joinDots_take _ _).trans (length_joinDots_labels name)).trans ho.short

/-- The labels of an owner as `name_to_wire_c` takes them. -/
theorem ownerLabels_eq (ho : Writable name) :
    (labels (safeStrcpy name 256)).take 64 = ownerLabels name := by
  rw [safeStrcpy_eq ho.short, ownerLabels]

theorem ownerLabels_short (ho : Writable name) :
    ∀ l ∈ ownerLabels name, l ≠ [] ∧ l.length ≤ 63 := by
  intro l hl
  have hmem := mem_of_mem_take hl
  exact ⟨ne_nil_of_mem_labels hmem, ho.labels_short l hmem⟩

variable {cc cc' : CompressCtx}

/-- **An owner is spelled as it is**, and the context stays true. -/
theorem nameToWireC_spec {w : Bytes} (ho : Writable name) (hcc : Registered msg cc)
    (h : nameToWireC blen name msg.length cc = (some w, cc')) :
    Spelled (msg ++ w) msg.length (ownerLabels name) (msg.length + w.length) ∧
      Registered (msg ++ w) cc' := by
  rw [nameToWireC, safeStrcpy_eq ho.short] at h
  obtain ⟨hspelled, hctx⟩ := wireLoopC_spec (proper_ownerLabels name)
    (fun l hl => ho.labels_short l (mem_of_mem_take hl)) ho.length_joinDots
    (fun p hp => .inl (hcc p hp)) h
  refine ⟨hspelled, fun p hp => ?_⟩
  obtain hp | hp := hctx p hp
  · exact (hcc p hp).append w
  · exact hp

/-- An octet without another case is in neither spelling or in both. -/
theorem notMem_of_map_strlower {x : UInt8} (hx : ∀ c, lowerByte c = x ↔ c = x) {ls' : List Text}
    (h : ls'.map strlower = ls.map strlower) (hz : ∀ l ∈ ls, x ∉ l) : ∀ l ∈ ls', x ∉ l := by
  intro l hl hmem
  have hlower : strlower l ∈ ls.map strlower := h ▸ mem_map_of_mem hl
  obtain ⟨m, hm, hml⟩ := mem_map.mp hlower
  have hx' : x ∈ strlower m := by
    rw [hml]
    exact mem_map.mpr ⟨x, hmem, (hx x).mpr rfl⟩
  obtain ⟨c, hc, hcx⟩ := mem_map.mp hx'
  exact hz m hm ((hx c).mp hcx ▸ hc)

theorem Proper.of_map_strlower {ls' : List Text} (h : Proper ls)
    (hlow : ls'.map strlower = ls.map strlower) : Proper ls' := by
  intro l hl
  refine ⟨?_, notMem_of_map_strlower (fun _ => lowerByte_eq_dot) hlow (fun m hm => (h m hm).2) l hl⟩
  rintro rfl
  have hmem : strlower [] ∈ ls.map strlower := hlow ▸ mem_map_of_mem hl
  obtain ⟨m, hm, hnil⟩ := mem_map.mp hmem
  exact (h m hm).1 (map_eq_nil_iff.mp hnil)

theorem notMem_joinDots {x : UInt8} (hx : x ≠ dot) (h : ∀ l ∈ ls, x ∉ l) : x ∉ joinDots ls := by
  intro hmem
  obtain hd | ⟨l, hl, hxl⟩ := mem_intercalate_singleton hmem
  · exact hx hd
  · exact h l hl hxl

theorem strlower_joinDots (ls : List Text) :
    strlower (joinDots ls) = joinDots (ls.map strlower) := by
  cases ls with
  | nil => rfl
  | cons l ls =>
    rw [map_cons, joinDots_cons, joinDots_cons]
    simp only [strlower, map_append, map_flatMap, flatMap_map, map_cons,
      lowerByte_eq_dot.mpr rfl]

theorem notMem_cstr (b : Bytes) : 0 ∉ cstr b := fun h => by
  simpa using mem_takeWhile_imp h

theorem cstr_eq_self {t : Text} (h : 0 ∉ t) : cstr t = t := takeWhile_ne_self h

/-- **The reader reads what is spelled.** -/
theorem nameFromWire_of_spelled {pos e : Nat} (ho : Writable name)
    (h : Spelled pkt pos (ownerLabels name) e) :
    nameFromWire pkt pos 256 = some (strlower (joinDots (ownerLabels name)), e) := by
  obtain ⟨ls', k, hlow, hname, hk⟩ := h.spells
  have hproper' := (proper_ownerLabels name).of_map_strlower hlow
  have hlen : (ownerLabels name).length ≤ 64 := length_take_le _ _
  have hzero : 0 ∉ joinDots ls' := by
    refine notMem_joinDots (by decide) (notMem_of_map_strlower (fun _ => lowerByte_eq_zero) hlow ?_)
    exact fun l hl h0 => ho.noNul (mem_of_mem_labels (mem_of_mem_take hl) h0)
  have hjoin : (joinOnto [] ls').length ≤ 255 := by
    rw [joinOnto_nil hproper', ← length_strlower, strlower_joinDots, hlow, ← strlower_joinDots,
      length_strlower]
    exact ho.length_joinDots
  have hsteps : k < 128 ∨ k ≤ 128 ∧ isPointer (byteAt pkt pos) = true := by
    obtain hk | ⟨hk, hnil | hptr⟩ := hk
    · exact .inl (by omega)
    · rw [hnil] at hk
      exact .inl (Nat.lt_of_le_of_lt hk (by decide))
    · exact .inr ⟨by omega, hptr⟩
  have hread : nameLoop pkt 256 128 pos [] none = some (joinOnto [] ls', e) := by
    obtain ⟨a, hread, -, -, hend⟩ :=
      nameLoop_of_nameAt hname none (show k ≤ 128 by omega) hjoin
    rwa [← hend (hsteps.imp_right And.right)]
  rw [nameFromWire, hread, map_some, joinOnto_nil hproper', cstr_eq_self hzero,
    strlower_joinDots, hlow, ← strlower_joinDots]

/-! ## Records -/

theorem get16_append_right (a b : Bytes) (i : Nat) : get16 (a ++ b) (a.length + i) = get16 b i := by
  rw [get16, get16, byteAt_append_right, Nat.add_assoc, byteAt_append_right]

theorem get32_append_right (a b : Bytes) (i : Nat) : get32 (a ++ b) (a.length + i) = get32 b i := by
  simp only [get32, Nat.add_assoc, byteAt_append_right]

theorem get16_put16 {v : Nat} (h : v < 2 ^ 16) (pre rest : Bytes) :
    get16 (pre ++ (put16 v ++ rest)) pre.length = v := by
  rw [← Nat.add_zero pre.length, get16_append_right]
  simp [get16, put16, byteAt]
  omega

theorem get32_put32 {v : Nat} (h : v < 2 ^ 32) (pre rest : Bytes) :
    get32 (pre ++ (put32 v ++ rest)) pre.length = v := by
  rw [← Nat.add_zero pre.length, get32_append_right]
  simp [get32, put32, byteAt]
  omega

variable {a : Nat}

theorem put16_inj {b : Nat} (ha : a < 2 ^ 16) (hb : b < 2 ^ 16) (h : put16 a = put16 b) :
    a = b := by
  have hget := get16_put16 ha [] []
  rw [h, get16_put16 hb] at hget
  exact hget.symm

theorem put32_inj {b : Nat} (ha : a < 2 ^ 32) (hb : b < 2 ^ 32) (h : put32 a = put32 b) :
    a = b := by
  have hget := get32_put32 ha [] []
  rw [h, get32_put32 hb] at hget
  exact hget.symm

@[simp] theorem length_header (id flags qd an ns ar : Nat) :
    (header id flags qd an ns ar).length = 12 := rfl

section Header

variable {id flags qd an ns ar : Nat} (rest : Bytes)

theorem flags_header (h : flags < 2 ^ 16) :
    get16 (header id flags qd an ns ar ++ rest) 2 = flags := by
  have := get16_put16 h (put16 id) (put16 qd ++ put16 an ++ put16 ns ++ put16 ar ++ rest)
  simpa [header] using this

theorem qdcount_header (h : qd < 2 ^ 16) : qdcount (header id flags qd an ns ar ++ rest) = qd := by
  have := get16_put16 h (put16 id ++ put16 flags) (put16 an ++ put16 ns ++ put16 ar ++ rest)
  simpa [qdcount, header] using this

theorem ancount_header (h : an < 2 ^ 16) : ancount (header id flags qd an ns ar ++ rest) = an := by
  have := get16_put16 h (put16 id ++ put16 flags ++ put16 qd) (put16 ns ++ put16 ar ++ rest)
  simpa [ancount, header] using this

theorem nscount_header (h : ns < 2 ^ 16) : nscount (header id flags qd an ns ar ++ rest) = ns := by
  have := get16_put16 h (put16 id ++ put16 flags ++ put16 qd ++ put16 an) (put16 ar ++ rest)
  simpa [nscount, header] using this

theorem arcount_header (h : ar < 2 ^ 16) : arcount (header id flags qd an ns ar ++ rest) = ar := by
  have := get16_put16 h (put16 id ++ put16 flags ++ put16 qd ++ put16 an ++ put16 ns) rest
  simpa [arcount, header] using this

end Header

/-- The fields behind an owner. -/
structure FieldsAt (pkt : Bytes) (a type cls ttl : Nat) (rdata : Bytes) : Prop where
  typeAt : get16 pkt a = type
  clsAt : get16 pkt (a + 2) = cls
  ttlAt : get32 pkt (a + 4) = ttl
  rdlenAt : get16 pkt (a + 8) = rdata.length
  rdataAt : slice pkt (a + 10) rdata.length = rdata
  le : a + 10 + rdata.length ≤ pkt.length

variable {type cls ttl : Nat} {rdata : Bytes}

theorem fieldsAt_recordTail (htype : type < 2 ^ 16) (hcls : cls < 2 ^ 16) (httl : ttl < 2 ^ 32)
    (hrd : rdata.length < 2 ^ 16) (pre post : Bytes) :
    FieldsAt (pre ++ recordTail type cls ttl rdata ++ post) pre.length type cls ttl rdata := by
  have hpkt : pre ++ recordTail type cls ttl rdata ++ post =
      pre ++ (put16 type ++ (put16 cls ++ (put32 ttl ++ (put16 rdata.length ++
        (rdata ++ post))))) := by
    simp [recordTail]
  rw [hpkt]
  constructor
  · exact get16_put16 htype ..
  · simpa using get16_put16 hcls (pre ++ put16 type) _
  · simpa using get32_put32 httl (pre ++ put16 type ++ put16 cls) _
  · simpa using get16_put16 hrd (pre ++ put16 type ++ put16 cls ++ put32 ttl) _
  · have := slice_append_right (pre ++ put16 type ++ put16 cls ++ put32 ttl ++ put16 rdata.length)
      (rdata ++ post) 0 rdata.length
    simpa [slice] using this
  · simp only [length_append, length_put16, length_put32]
    omega

/-- A record at `off`, with its fields at `a`. -/
structure RecordAt (pkt : Bytes) (off : Nat) (owner : Text) (type cls ttl : Nat) (rdata : Bytes)
    (a : Nat) : Prop where
  name : nameFromWire pkt off 256 = some (owner, a)
  fields : FieldsAt pkt a type cls ttl rdata

theorem RecordAt.parseRR {off : Nat} {owner : Text}
    (h : RecordAt pkt off owner type cls ttl rdata a) :
    parseRR pkt off = some ⟨off, owner, type, cls, ttl, a + 10, rdata.length⟩ := by
  have hle := h.fields.le
  simp only [Wire.parseRR, h.name, h.fields.typeAt, h.fields.clsAt, h.fields.ttlAt,
    h.fields.rdlenAt]
  rw [if_neg (by omega), if_neg (by omega)]

theorem lt_of_nameFromWire {off n : Nat} {r : Text × Nat} (h : nameFromWire pkt off n = some r) :
    off < pkt.length := by
  by_contra hge
  rw [nameFromWire, nameLoop, if_pos (by omega)] at h
  cases h

theorem RecordAt.lt {off : Nat} {owner : Text} (h : RecordAt pkt off owner type cls ttl rdata a) :
    off < pkt.length :=
  lt_of_nameFromWire h.name

/-- What `append_rr` puts behind the message. -/
theorem appendRR_eq {msg' : Bytes}
    (h : appendRR blen msg cc name type cls ttl rdata = (some msg', cc')) :
    ∃ w, nameToWireC blen name msg.length cc = (some w, cc') ∧
      msg' = msg ++ w ++ recordTail type cls ttl rdata := by
  rw [appendRR] at h
  cases hw : (nameToWireC blen name msg.length cc).1 with
  | none => simp [hw] at h
  | some w =>
    simp only [hw, Prod.mk.injEq] at h
    obtain ⟨hmsg, hctx⟩ := h
    split at hmsg
    · cases hmsg
    cases hmsg
    exact ⟨w, Prod.ext hw hctx, rfl⟩

theorem length_recordTail (type cls ttl : Nat) (rdata : Bytes) :
    (recordTail type cls ttl rdata).length = 10 + rdata.length := by
  simp only [recordTail, length_append, length_put16, length_put32]

theorem appendRR_of_fits (ho : Writable name) (cc : CompressCtx) (type cls ttl : Nat)
    (hroom : msg.length + (nameWire (ownerLabels name)).length + 10 + rdata.length ≤ blen) :
    ∃ msg', (appendRR blen msg cc name type cls ttl rdata).1 = some msg' := by
  have hfit : msg.length + (nameWire (ownerLabels name)).length ≤ blen := by omega
  obtain ⟨w, hw⟩ := wireLoopC_of_room (ownerLabels_short ho) cc hfit
  have hle := length_wrote_le (wrote_of_wireLoopC hw) fun l hl => (ownerLabels_short ho l hl).1
  unfold appendRR nameToWireC
  rw [ownerLabels_eq ho]
  simp only [hw]
  exact ⟨_, if_neg (by omega)⟩

theorem appendRR_of_length_le {blen' : Nat} {msg' : Bytes}
    (h : (appendRR blen' msg cc name type cls ttl rdata).1 = some msg')
    (hfit : msg'.length ≤ blen) : appendRR blen msg cc name type cls ttl rdata =
      appendRR blen' msg cc name type cls ttl rdata := by
  obtain ⟨w, hw, rfl⟩ := appendRR_eq (Prod.ext h rfl)
  simp only [length_append, length_recordTail] at hfit
  have hname : nameToWireC blen name msg.length cc = nameToWireC blen' name msg.length cc :=
    wireLoopC_of_length_le (congrArg Prod.fst hw) (by omega)
  unfold appendRR at h ⊢
  rw [hname]
  simp only [hw] at h ⊢
  split at h
  · cases h
  · rename_i hroom
    rw [if_neg hroom, if_neg (by omega)]

/-- **A record reads back** from behind a message, whatever follows it. -/
theorem appendRR_spec {msg' : Bytes} (ho : Writable name) (hcc : Registered msg cc)
    (htype : type < 2 ^ 16) (hcls : cls < 2 ^ 16) (httl : ttl < 2 ^ 32)
    (hrd : rdata.length < 2 ^ 16)
    (h : appendRR blen msg cc name type cls ttl rdata = (some msg', cc')) :
    ∃ ext a, msg' = msg ++ ext ∧ Registered msg' cc' ∧ msg'.length = a + 10 + rdata.length ∧
      ∀ post, RecordAt (msg' ++ post) msg.length (strlower (joinDots (ownerLabels name))) type cls
        ttl rdata a := by
  obtain ⟨w, hw, rfl⟩ := appendRR_eq h
  obtain ⟨hspelled, hreg⟩ := nameToWireC_spec ho hcc hw
  refine ⟨w ++ recordTail type cls ttl rdata, (msg ++ w).length, append_assoc ..,
    fun p hp => (hreg p hp).append _, ?_, fun post => ⟨?_, ?_⟩⟩
  · rw [length_append, length_recordTail]
    omega
  · rw [length_append]
    refine nameFromWire_of_spelled ho ?_
    rw [append_assoc (msg ++ w)]
    exact hspelled.append _
  · exact fieldsAt_recordTail htype hcls httl hrd (msg ++ w) post

end Owner

/-! ## Messages -/

/-- The arguments of an `append_rr`, behind octets that other writers put into the message (the
header and the question in front of the first record). -/
structure RecordArgs where
  gap : Bytes
  name : Text
  type : Nat
  cls : Nat
  ttl : Nat
  rdata : Bytes

/-- The message and the context after a successful call. -/
def RecordArgs.append (blen : Nat) (m : Bytes × CompressCtx) (r : RecordArgs) :
    Option (Bytes × CompressCtx) :=
  let res := appendRR blen (m.1 ++ r.gap) m.2 r.name r.type r.cls r.ttl r.rdata
  res.1.map fun msg => (msg, res.2)

/-- A C string of at most 255 characters with at most 64 labels, each of 1 to 63 octets. -/
structure DottedName (name : Text) : Prop where
  noNul : 0 ∉ name
  short : name.length ≤ 255
  spelled : ∃ ls : List Text, name = joinDots ls ∧ ls.length ≤ 64 ∧
    ∀ l ∈ ls, l ≠ [] ∧ dot ∉ l ∧ l.length ≤ 63

variable {name : Text}

theorem DottedName.labels_eq (h : name = joinDots ls)
    (hls : ∀ l ∈ ls, l ≠ [] ∧ dot ∉ l ∧ l.length ≤ 63) : labels name = ls := by
  rw [h, labels_joinDots fun l hl => ⟨(hls l hl).1, (hls l hl).2.1⟩]

theorem DottedName.writable (h : DottedName name) : Writable name := by
  obtain ⟨ls, hname, -, hls⟩ := h.spelled
  refine ⟨h.noNul, h.short, fun l hl => ?_⟩
  rw [labels_eq hname hls] at hl
  exact (hls l hl).2.2

/-- Such a name is written as a whole. -/
theorem DottedName.joinDots_ownerLabels (h : DottedName name) :
    joinDots (ownerLabels name) = name := by
  obtain ⟨ls, hname, hlen, hls⟩ := h.spelled
  rw [ownerLabels, labels_eq hname hls, take_of_length_le hlen, hname]

variable {m m' : Bytes × CompressCtx}

theorem RecordArgs.append_eq {r : RecordArgs} (h : r.append blen m = some m') :
    ∃ w, nameToWireC blen r.name (m.1 ++ r.gap).length m.2 = (some w, m'.2) ∧
      m'.1 = m.1 ++ r.gap ++ w ++ recordTail r.type r.cls r.ttl r.rdata := by
  obtain ⟨msg, hmsg, rfl⟩ := map_eq_some_iff.mp h
  exact appendRR_eq (Prod.ext hmsg rfl)

/-- One call keeps the context true, and only adds to the message. -/
theorem RecordArgs.append_registered {r : RecordArgs} (hname : DottedName r.name)
    (hcc : Registered m.1 m.2) (h : r.append blen m = some m') :
    Registered m'.1 m'.2 ∧ m.1 <+: m'.1 := by
  obtain ⟨w, hw, hmsg⟩ := append_eq h
  obtain ⟨-, hreg⟩ := nameToWireC_spec hname.writable (fun p hp => (hcc p hp).append r.gap) hw
  rw [hmsg]
  refine ⟨fun p hp => (hreg p hp).append _, ?_⟩
  rw [append_assoc, append_assoc]
  exact prefix_append _ _

/-- So does a sequence of calls. -/
theorem registered_foldlM {rs : List RecordArgs} (hnames : ∀ r ∈ rs, DottedName r.name)
    (hcc : Registered m.1 m.2) (h : rs.foldlM (RecordArgs.append blen) m = some m') :
    Registered m'.1 m'.2 ∧ m.1 <+: m'.1 := by
  induction rs generalizing m with
  | nil =>
    cases h
    exact ⟨hcc, prefix_refl _⟩
  | cons r rs ih =>
    rw [foldlM_cons] at h
    obtain ⟨m₁, h₁, hrest⟩ := bind_eq_some_iff.mp h
    obtain ⟨hreg, hpre⟩ := RecordArgs.append_registered (hnames r mem_cons_self) hcc h₁
    obtain ⟨hreg', hpre'⟩ := ih (fun x hx => hnames x (mem_cons_of_mem _ hx)) hreg hrest
    exact ⟨hreg', hpre.trans hpre'⟩

/-- The owner of a record reads back from every message that goes on behind it. -/
theorem RecordArgs.reads_back {r : RecordArgs} {final : Bytes} (hname : DottedName r.name)
    (hcc : Registered m.1 m.2) (hr : r.append blen m = some m') (hfinal : m'.1 <+: final) :
    ∃ a, a + 10 + r.rdata.length = m'.1.length ∧ slice final a 2 = put16 r.type ∧
      nameFromWire final (m.1 ++ r.gap).length 256 = some (strlower r.name, a) := by
  obtain ⟨post, hpost⟩ := hfinal
  obtain ⟨w, hw, hmsg⟩ := RecordArgs.append_eq hr
  obtain ⟨hspelled, -⟩ :=
    nameToWireC_spec hname.writable (fun p hp => (hcc p hp).append r.gap) hw
  have hfinal : final = m.1 ++ r.gap ++ w ++ (put16 r.type ++
      (put16 r.cls ++ put32 r.ttl ++ put16 r.rdata.length ++ r.rdata ++ post)) := by
    rw [← hpost, hmsg, recordTail]
    simp
  have hlen : (m.1 ++ r.gap ++ w).length = (m.1 ++ r.gap).length + w.length := length_append
  refine ⟨(m.1 ++ r.gap ++ w).length, ?_, ?_, ?_⟩
  · have htail := congrArg length hmsg
    rw [length_append, length_recordTail] at htail
    omega
  · rw [hfinal]
    exact slice_append_right _ _ 0 2
  · rw [hfinal, hlen, ← hname.joinDots_ownerLabels]
    exact nameFromWire_of_spelled hname.writable (hspelled.append _)

/-- **Every owner of a message reads back**, whatever records stand before and behind it, and the
reader stops at the record's type field. -/
theorem owner_reads_back {blen : Nat} {before after : List RecordArgs} {r : RecordArgs}
    {m m' final : Bytes × CompressCtx}
    (hnames : ∀ x ∈ before ++ r :: after, DottedName x.name)
    (hbefore : before.foldlM (RecordArgs.append blen) ([], []) = some m)
    (hr : r.append blen m = some m')
    (hafter : after.foldlM (RecordArgs.append blen) m' = some final) :
    ∃ a, a + 10 + r.rdata.length = m'.1.length ∧ slice final.1 a 2 = put16 r.type ∧
      nameFromWire final.1 (m.1 ++ r.gap).length 256 = some (strlower r.name, a) := by
  have hname := hnames r (by simp)
  have hcc : Registered m.1 m.2 :=
    (registered_foldlM (fun x hx => hnames x (by simp [hx])) (fun _ => not_mem_nil.elim)
      hbefore).1
  have hcc' := (RecordArgs.append_registered hname hcc hr).1
  exact RecordArgs.reads_back hname hcc hr
    (registered_foldlM (fun x hx => hnames x (by simp [hx])) hcc' hafter).2

/-- An address record whose owner has a label in front of `example`. -/
def sampleRecord (gap : Bytes) (host : Text) : RecordArgs :=
  ⟨gap, host ++ lit ".example", RRType.A, RRClass.IN, 60, [192, 0, 2, 1]⟩

theorem dottedName_sample {host : Text} (hne : host ≠ []) (hdot : dot ∉ host) (hnul : 0 ∉ host)
    (hlen : host.length ≤ 63) : DottedName (host ++ lit ".example") := by
  refine ⟨?_, ?_, [host, lit "example"], rfl, by simp, ?_⟩
  · rw [mem_append]
    exact fun h => h.elim hnul (by decide)
  · have hext : (lit ".example").length = 8 := rfl
    rw [length_append, hext]
    omega
  · intro l hl
    rcases mem_cons.mp hl with rfl | hl
    · exact ⟨hne, hdot, hlen⟩
    · obtain rfl := mem_singleton.mp hl
      exact ⟨by decide, by decide, by decide⟩

/-- The second of three owners is a label and a pointer, the third a pointer to it. -/
theorem second_owner_reads_back : ∃ m m' final : Bytes × CompressCtx, ∃ a,
    [sampleRecord (header 7 0x8180 0 3 0 0) (lit "www")].foldlM (RecordArgs.append 512) ([], []) =
        some m ∧
      (sampleRecord [] (lit "MAIL")).append 512 m = some m' ∧
      [sampleRecord [] (lit "mail")].foldlM (RecordArgs.append 512) m' = some final ∧
      a + 14 = m'.1.length ∧
      nameFromWire final.1 (m.1 ++ []).length 256 = some (lit "mail.example", a) := by
  obtain ⟨m, hm, m', hm', final, hfinal⟩ :
      ∃ m, [sampleRecord (header 7 0x8180 0 3 0 0) (lit "www")].foldlM (RecordArgs.append 512)
          ([], []) = some m ∧
        ∃ m', (sampleRecord [] (lit "MAIL")).append 512 m = some m' ∧
        ∃ final, [sampleRecord [] (lit "mail")].foldlM (RecordArgs.append 512) m' =
          some final := by decide +kernel
  have hnames : ∀ x ∈ [sampleRecord (header 7 0x8180 0 3 0 0) (lit "www")] ++
      sampleRecord [] (lit "MAIL") :: [sampleRecord [] (lit "mail")], DottedName x.name := by
    simp only [cons_append, nil_append, forall_mem_cons]
    refine ⟨?_, ?_, ?_, nofun⟩
    all_goals exact dottedName_sample (by decide) (by decide) (by decide) (by decide)
  obtain ⟨a, hlen, -, hread⟩ := owner_reads_back hnames hm hm' hfinal
  exact ⟨m, m', final, a, hm, hm', hfinal, hlen, hread⟩

/-! ## Calls that fail -/

/-- The message and the context after a call; a caller that was refused keeps its offset. -/
def RecordArgs.attempt (blen : Nat) (m : Bytes × CompressCtx) (r : RecordArgs) :
    Bytes × CompressCtx :=
  let res := appendRR blen (m.1 ++ r.gap) m.2 r.name r.type r.cls r.ttl r.rdata
  (res.1.getD (m.1 ++ r.gap), res.2)

/-- A call that registers no suffix without its octets: there is room for the record uncompressed,
its owner is in the context, or nothing can be registered any more. -/
inductive RecordArgs.Clean (blen : Nat) (m : Bytes × CompressCtx) (r : RecordArgs) : Prop
  | room (h : (m.1 ++ r.gap).length + (nameWire (ownerLabels r.name)).length + 10 + r.rdata.length ≤
      blen)
  | known (h : ∃ p ∈ m.2, eqCI p.1 r.name = true)
  | full (h : 128 ≤ m.2.length)
  | far (h : 0x4000 ≤ (m.1 ++ r.gap).length)

/-- Every call of a sequence is clean in the state it meets. -/
def AllClean (blen : Nat) : Bytes × CompressCtx → List RecordArgs → Prop
  | _, [] => True
  | m, r :: rs => r.Clean blen m ∧ AllClean blen (r.attempt blen m) rs

/-- Where nothing is registered the context stays as it is. -/
theorem wireLoopC_unregistered {pos : Nat} {cc : CompressCtx}
    (h : 128 ≤ cc.length ∨ 0x4000 ≤ pos ∨ ∃ p ∈ cc, eqCI p.1 (composeSuffix [] ls) = true) :
    (wireLoopC blen ls pos cc).2 = cc := by
  induction ls generalizing pos with
  | nil => rfl
  | cons l ls ih =>
    unfold wireLoopC
    dsimp only
    split
    · rfl
    · rename_i hfind
      have hend : 128 ≤ cc.length ∨ 0x4000 ≤ pos := by
        rcases h with h | h | ⟨p, hp, heq⟩
        · exact .inl h
        · exact .inr h
        · exact absurd heq (find?_eq_none.mp hfind p hp)
      have hkeep : (if cc.length < 128 ∧ pos < 0x4000 then
          cc ++ [(composeSuffix [] (l :: ls), pos)] else cc) = cc := if_neg (by omega)
      rw [hkeep]
      split
      · rfl
      · split
        · rfl
        · exact ih (hend.imp_right fun hpos => .inl (by omega))

theorem RecordArgs.prefix_attempt (r : RecordArgs) (m : Bytes × CompressCtx) :
    m.1 <+: (r.attempt blen m).1 := by
  cases h : (appendRR blen (m.1 ++ r.gap) m.2 r.name r.type r.cls r.ttl r.rdata).1 with
  | none =>
    rw [attempt, h]
    exact prefix_append ..
  | some msg =>
    obtain ⟨w, -, rfl⟩ := appendRR_eq (Prod.ext h rfl)
    rw [attempt, h]
    simp [append_assoc]

theorem RecordArgs.attempt_of_append {r : RecordArgs} (h : r.append blen m = some m') :
    r.attempt blen m = m' := by
  obtain ⟨msg, hmsg, rfl⟩ := map_eq_some_iff.mp h
  rw [attempt, hmsg]
  rfl

/-- A clean call that fails changes nothing. -/
theorem RecordArgs.attempt_of_none {r : RecordArgs} (hname : DottedName r.name)
    (hclean : r.Clean blen m) (h : r.append blen m = none) :
    r.attempt blen m = (m.1 ++ r.gap, m.2) := by
  have hnone := Option.map_eq_none_iff.mp h
  have hctx : (appendRR blen (m.1 ++ r.gap) m.2 r.name r.type r.cls r.ttl r.rdata).2 =
      (wireLoopC blen (ownerLabels r.name) (m.1 ++ r.gap).length m.2).2 := by
    rw [← ownerLabels_eq hname.writable, appendRR]
    split <;> rfl
  rw [attempt, hnone]
  refine Prod.ext rfl (hctx.trans (wireLoopC_unregistered ?_))
  cases hclean with
  | room hroom =>
    obtain ⟨msg', hmsg⟩ := appendRR_of_fits hname.writable m.2 r.type r.cls r.ttl hroom
    rw [hnone] at hmsg
    cases hmsg
  | known hknown =>
    have hproper := proper_ownerLabels r.name
    rw [composeSuffix_eq (fun l hl => (ownerLabels_short hname.writable l hl).2)
      (by rw [joinOnto_nil hproper]; exact hname.writable.length_joinDots), joinOnto_nil hproper,
      hname.joinDots_ownerLabels]
    exact .inr (.inr hknown)
  | full hfull => exact .inl hfull
  | far hfar => exact .inr (.inl hfar)

/-- A clean call keeps the context true, also where it fails. -/
theorem RecordArgs.attempt_registered {r : RecordArgs} (hname : DottedName r.name)
    (hclean : r.Clean blen m) (hcc : Registered m.1 m.2) :
    Registered (r.attempt blen m).1 (r.attempt blen m).2 := by
  cases h : r.append blen m with
  | some m' =>
    rw [attempt_of_append h]
    exact (append_registered hname hcc h).1
  | none =>
    rw [attempt_of_none hname hclean h]
    exact fun p hp => (hcc p hp).append r.gap

/-- So does a sequence of clean calls. -/
theorem registered_foldl {rs : List RecordArgs} (hnames : ∀ r ∈ rs, DottedName r.name)
    (hclean : AllClean blen m rs) (hcc : Registered m.1 m.2) :
    Registered (rs.foldl (RecordArgs.attempt blen) m).1
      (rs.foldl (RecordArgs.attempt blen) m).2 := by
  induction rs generalizing m with
  | nil => exact hcc
  | cons r rs ih =>
    exact ih (fun x hx => hnames x (mem_cons_of_mem _ hx)) hclean.2
      (RecordArgs.attempt_registered (hnames r mem_cons_self) hclean.1 hcc)

/-- No call changes what is written. -/
theorem prefix_foldl_attempt (rs : List RecordArgs) (m : Bytes × CompressCtx) :
    m.1 <+: (rs.foldl (RecordArgs.attempt blen) m).1 := by
  induction rs generalizing m with
  | nil => exact prefix_refl _
  | cons r rs ih => exact (r.prefix_attempt m).trans (ih _)

/-- **Records that did not fit leave no trace** if every call before is clean: the owner of a record
that was appended reads back from the message in the end, whatever calls follow. -/
theorem owner_reads_back_after_failures {blen : Nat} {before : List RecordArgs}
    {r : RecordArgs} {m₀ m' : Bytes × CompressCtx} (hcc : Registered m₀.1 m₀.2)
    (hnames : ∀ x ∈ before ++ [r], DottedName x.name) (hclean : AllClean blen m₀ before)
    (hr : r.append blen (before.foldl (RecordArgs.attempt blen) m₀) = some m')
    (after : List RecordArgs) :
    ∃ a, nameFromWire (after.foldl (RecordArgs.attempt blen) m').1
      ((before.foldl (RecordArgs.attempt blen) m₀).1 ++ r.gap).length 256 =
        some (strlower r.name, a) := by
  have hreg := registered_foldl (fun x hx => hnames x (by simp [hx])) hclean hcc
  obtain ⟨a, -, -, hread⟩ :=
    RecordArgs.reads_back (hnames r (by simp)) hreg hr (prefix_foldl_attempt after m')
  exact ⟨a, hread⟩

/-- A record of 600 octets of rdata. -/
def longRecord (host : Text) : RecordArgs := { sampleRecord [] host with rdata := replicate 600 0 }

/-- A record, and one of the same owner that does not fit. -/
def twoTries : List RecordArgs :=
  [sampleRecord (header 7 0x8180 0 2 0 0) (lit "www"), longRecord (lit "WWW")]

theorem owner_reads_back_behind_long : ∃ m' a,
    (sampleRecord [] (lit "mail")).append 512
        (twoTries.foldl (RecordArgs.attempt 512) ([], [])) = some m' ∧
      nameFromWire m'.1 ((twoTries.foldl (RecordArgs.attempt 512) ([], [])).1 ++ []).length 256 =
        some (lit "mail.example", a) := by
  obtain ⟨m', hm'⟩ : ∃ m', (sampleRecord [] (lit "mail")).append 512
      (twoTries.foldl (RecordArgs.attempt 512) ([], [])) = some m' := by decide +kernel
  have hnames : ∀ x ∈ twoTries ++ [sampleRecord [] (lit "mail")], DottedName x.name := by
    simp only [twoTries, cons_append, nil_append, forall_mem_cons]
    refine ⟨?_, ?_, ?_, nofun⟩
    all_goals exact dottedName_sample (by decide) (by decide) (by decide) (by decide)
  obtain ⟨a, hread⟩ := owner_reads_back_after_failures (fun _ => not_mem_nil.elim) hnames
    ⟨.room (by decide +kernel), .known (by decide +kernel), trivial⟩ hm' []
  exact ⟨m', a, hm', hread⟩

/-- **A record that did not fit is pointed at**: with its owner again, a record that fits gets a
pointer to itself. -/
theorem failed_owner_unreadable : DottedName (lit "b" ++ lit ".example") ∧
    ∃ m', (sampleRecord [] (lit "b")).append 512
        ((longRecord (lit "b")).attempt 512 (header 7 0x8180 0 1 0 0, [])) = some m' ∧
      (longRecord (lit "b")).append 512 (header 7 0x8180 0 1 0 0, []) = none ∧
      nameFromWire m'.1 12 256 = none :=
  ⟨dottedName_sample (by decide) (by decide) (by decide) (by decide), by decide +kernel⟩

end SimpleDns.Wire
