import SimpleDns.Wire.Addr

/-!
# Addresses read back

`inet_pton` reads what `inet_ntop` writes, for both families (`inetPton4_inetNtop4`,
`inetPton6_inetNtop6`), and the IPv4 reader takes no IPv6 text (`inetPton4_inetNtop6`).

* `Family` gathers what the daemons know about `A` and `AAAA`, `Address` is an address of a family,
  with as many octets as the family has.
* The IPv6 text is `groups pre ++ "::" ++ groups post` around the first longest zero run
  (`inetNtop6_of_run`), and the reader is followed group by group (`pton6Loop_groups`).
-/

namespace SimpleDns.Wire

open Lib List Option

/-! ## IPv4 -/

theorem ptonOctet_decimal : ∀ c : UInt8, ptonOctet (decimal c.toNat) = some c := by decide +kernel

theorem mapM_ptonOctet (b : Bytes) :
    (b.map fun c => decimal c.toNat).mapM ptonOctet = some b := by
  induction b with
  | nil => rfl
  | cons c cs ih =>
    rw [map_cons, mapM_cons, ptonOctet_decimal, ih]
    rfl

variable {b : Bytes}

/-- **An IPv4 text reads back.** -/
theorem inetPton4_inetNtop4 (h : b.length = 4) : inetPton4 (inetNtop4 b) = some b := by
  have hsplit : (joinDots (b.map fun c => decimal c.toNat)).splitOn dot =
      b.map fun c => decimal c.toNat := by
    refine splitOn_intercalate dot ?_ ?_
    · intro l hl
      obtain ⟨c, -, rfl⟩ := mem_map.mp hl
      exact notMem_decimal (by decide) _
    · intro hnil
      simp [map_eq_nil_iff.mp hnil] at h
  unfold inetPton4 inetNtop4
  rw [take_of_length_le (by omega), hsplit, mapM_ptonOctet]
  simp [h]

theorem inetNtop4_ne_nil (h : b.length = 4) : inetNtop4 b ≠ [] := by
  intro hnil
  have := inetPton4_inetNtop4 h
  rw [hnil] at this
  exact absurd this (by simp [inetPton4, ptonOctet])

theorem mapM_eq_none_of_mem {α β : Type} {f : α → Option β} {x : α} {l : List α} (hx : x ∈ l)
    (hf : f x = none) : l.mapM f = none := by
  induction l with
  | nil => cases hx
  | cons y ys ih =>
    rw [mapM_cons]
    obtain rfl | hx := mem_cons.mp hx
    · rw [hf]
      rfl
    · rw [ih hx]
      cases f y <;> rfl

/-- The octets of a text the IPv4 reader takes are digits and dots. -/
theorem mem_of_inetPton4 {s : Text} {c : UInt8} (h : inetPton4 s = some b) (hc : c ∈ s) :
    c = dot ∨ (digitVal 10 c).isSome := by
  have hs : [dot].intercalate (s.splitOn dot) = s := intercalate_splitOn dot
  rw [← hs] at hc
  obtain hdot | ⟨t, ht, hct⟩ := mem_intercalate_singleton hc
  · exact .inl hdot
  refine .inr (by_contra fun hno => ?_)
  have hnone : digitVal 10 c = none := by simpa using hno
  have hoctet : ptonOctet t = none := by
    rw [ptonOctet, mapM_eq_none_of_mem hct hnone]
  rw [inetPton4, mapM_eq_none_of_mem ht hoctet] at h
  cases h

/-! ## The IPv6 text -/

section Ipv6

/-- Words in hexadecimal, each behind a colon. -/
def colonGroups (ws : List Nat) : Text := ws.flatMap fun w => colon :: hexadecimal w

/-- Words in hexadecimal with colons between them. -/
def groups : List Nat → Text
  | [] => []
  | w :: ws => hexadecimal w ++ colonGroups ws

variable {ws : List Nat}

theorem colonGroups_eq (h : ws ≠ []) : colonGroups ws = colon :: groups ws := by
  cases ws with
  | nil => exact absurd rfl h
  | cons w ws => simp [colonGroups, groups]

variable {i : Nat}

/-- Words outside the run, after the first. -/
theorem ntop6Loop_outside {best : Option (Nat × Nat)} (ws : List Nat) (hi : 0 < i)
    (hout : ∀ j, i ≤ j → inRun best j = false) : ntop6Loop best none i ws = colonGroups ws := by
  induction ws generalizing i with
  | nil => rfl
  | cons w ws ih =>
    rw [ntop6Loop, hout i le_rfl, ih (by omega) fun j hj => hout j (by omega)]
    simp [Nat.ne_of_gt hi, colonGroups]

variable {base len : Nat}

/-- Words ahead of the run. -/
theorem ntop6Loop_before (ws rest : List Nat) (h : i + ws.length ≤ base) :
    ntop6Loop (some (base, len)) none i (ws ++ rest) =
      (if i = 0 then groups ws else colonGroups ws) ++
        ntop6Loop (some (base, len)) none (i + ws.length) rest := by
  induction ws generalizing i with
  | nil => simp [groups, colonGroups]
  | cons w ws ih =>
    rw [length_cons] at h
    have hin : inRun (some (base, len)) i = false := by
      simp only [inRun, Bool.and_eq_false_iff, decide_eq_false_iff_not]
      omega
    have hlen : i + 1 + ws.length = i + (w :: ws).length := by
      rw [length_cons]
      omega
    rw [cons_append, ntop6Loop, hin, ih (by omega), hlen]
    by_cases hi : i = 0
    · simp [hi, groups]
    · simp [hi, colonGroups]

/-- Words of the run, behind its first. -/
theorem ntop6Loop_inside (ws rest : List Nat) (hi : base < i) (h : i + ws.length ≤ base + len) :
    ntop6Loop (some (base, len)) none i (ws ++ rest) =
      ntop6Loop (some (base, len)) none (i + ws.length) rest := by
  induction ws generalizing i with
  | nil => rfl
  | cons w ws ih =>
    rw [length_cons] at h
    have hin : inRun (some (base, len)) i = true := by
      simp only [inRun, Bool.and_eq_true, decide_eq_true_eq]
      omega
    have hlen : i + 1 + ws.length = i + (w :: ws).length := by
      rw [length_cons]
      omega
    rw [cons_append, ntop6Loop, hin, ih (by omega) (by omega), hlen]
    simp [Nat.ne_of_lt hi]

variable {pre post : List Nat}

/-- The text around a run that ends before the last word or with it. -/
theorem ntop6Loop_run {zeros : List Nat} (hpre : pre.length = base) (hzeros : zeros.length = len)
    (hlen : 0 < len) : ntop6Loop (some (base, len)) none 0 (pre ++ (zeros ++ post)) =
      groups pre ++ colon :: colonGroups post := by
  rw [ntop6Loop_before pre _ (by omega), if_pos rfl, hpre, Nat.zero_add]
  congr 1
  obtain ⟨z, zs, rfl⟩ := exists_cons_of_length_pos (hzeros ▸ hlen)
  rw [length_cons] at hzeros
  have hin : inRun (some (base, len)) base = true := by
    simp only [inRun, Bool.and_eq_true, decide_eq_true_eq]
    omega
  rw [cons_append, ntop6Loop, hin, ntop6Loop_inside zs post (by omega) (by omega),
    ntop6Loop_outside post (by omega)]
  · simp
  · intro j hj
    simp only [inRun, Bool.and_eq_false_iff, decide_eq_false_iff_not]
    omega

theorem foldl_longer_mem (rs : List (Nat × Nat)) (b : Nat × Nat) :
    rs.foldl (fun b r => if r.2 > b.2 then r else b) b ∈ b :: rs := by
  induction rs generalizing b with
  | nil => simp
  | cons r rs ih =>
    rw [foldl_cons]
    obtain h | h := mem_cons.mp (ih (if r.2 > b.2 then r else b))
    · rw [h]
      split <;> simp
    · exact mem_cons_of_mem _ (mem_cons_of_mem _ h)

theorem takeWhile_zero_eq (ws : List Nat) :
    ws.takeWhile (· = 0) = replicate (zeroRun ws) 0 := by
  refine eq_replicate_iff.mpr ⟨rfl, fun w hw => ?_⟩
  simpa using mem_takeWhile_imp hw

/-- What the best run says: its words are zero, there are two or more, and they are in the list. -/
theorem bestZeroRun_spec (h : bestZeroRun ws = some (base, len)) :
    2 ≤ len ∧ ∃ pre post, ws = pre ++ (replicate len 0 ++ post) ∧ pre.length = base := by
  unfold bestZeroRun at h
  dsimp only at h
  split at h
  swap
  · cases h
  rename_i hlen
  rw [some.injEq] at h
  have hmem := foldl_longer_mem
    ((range ws.length).map fun i => (i, zeroRun (ws.drop i))) (0, 0)
  rw [h] at hlen hmem
  refine ⟨hlen, ?_⟩
  obtain h0 | hmem := mem_cons.mp hmem
  · rw [Prod.mk.injEq] at h0
    omega
  obtain ⟨i, hi, hrun⟩ := mem_map.mp hmem
  rw [Prod.mk.injEq] at hrun
  obtain ⟨rfl, rfl⟩ := hrun
  refine ⟨ws.take i, (ws.drop i).dropWhile (· = 0), ?_, ?_⟩
  · rw [← takeWhile_zero_eq, takeWhile_append_dropWhile, take_append_drop]
  · rw [length_take]
    have := mem_range.mp hi
    omega

/-! ## Reading the IPv6 text -/

variable {w : Nat}

theorem length_hexadecimal (h : w < 65536) : (hexadecimal w).length ≤ 4 :=
  length_numeral_le (by decide) (by decide) h

/-- The reader takes the digits of a group into its open group. -/
theorem pton6Loop_digits (ds : List Nat) (hds : ∀ d ∈ ds, d < 16) (rest : Text) (p : Pton6)
    (hlen : p.digits.length + ds.length ≤ 4) :
    pton6Loop (ds.map digitChar ++ rest) p =
      pton6Loop rest { p with tok := p.tok ++ ds.map digitChar, digits := p.digits ++ ds } := by
  induction ds generalizing p with
  | nil => simp
  | cons d ds ih =>
    rw [length_cons] at hlen
    have hd := digitVal_digitChar (b := 16) le_rfl (hds d mem_cons_self)
    have hne : p.digits.length ≠ 4 := by omega
    rw [map_cons, cons_append, pton6Loop]
    simp only [hd, if_neg hne]
    rw [ih (fun e he => hds e (mem_cons_of_mem _ he)) _ (by simp; omega)]
    simp

/-- The reader takes a group. -/
theorem pton6Loop_hexadecimal (hw : w < 65536) (words : List Nat) (gap : Option Nat) (rest : Text) :
    ∃ ds : List Nat, ds ≠ [] ∧ ds.foldl (fun v d => v * 16 + d) 0 = w ∧
      pton6Loop (hexadecimal w ++ rest) ⟨words, gap, [], []⟩ =
        pton6Loop rest ⟨words, gap, ds.map digitChar, ds⟩ := by
  obtain ⟨ds, htext, hlt, hne, hval⟩ := numeral_eq_map (b := 16) (by decide) w
  have hlen : ds.length ≤ 4 := by
    have := length_hexadecimal hw
    rwa [hexadecimal, htext, length_map] at this
  refine ⟨ds, hne, hval, ?_⟩
  rw [hexadecimal, htext, pton6Loop_digits ds hlt _ _ (by simpa using hlen)]
  rfl

variable {words : List Nat} {gap : Option Nat}

/-- A group with a colon behind it is a word. -/
theorem pton6Loop_group_colon (hw : w < 65536) {rest : Text} (hrest : rest ≠ [])
    (hwords : words.length < 8) : pton6Loop (hexadecimal w ++ colon :: rest) ⟨words, gap, [], []⟩ =
      pton6Loop rest ⟨words ++ [w], gap, [], []⟩ := by
  obtain ⟨ds, hne, hval, h⟩ := pton6Loop_hexadecimal hw words gap (colon :: rest)
  have hwords' : words.length ≠ 8 := by omega
  have hcolon : digitVal 16 colon = none := by decide
  rw [h, pton6Loop]
  simp [hcolon, hne, hrest, hwords', Pton6.value, hval]

/-- Groups are words if the last one is, with what stands behind it. -/
theorem pton6Loop_groups (hws : ∀ w ∈ ws, w < 65536) (hne : ws ≠ []) {rest : Text}
    {k : List Nat → Option Bytes}
    (hlast : ∀ words w, w < 65536 → words.length < 8 →
      pton6Loop (hexadecimal w ++ rest) ⟨words, gap, [], []⟩ = k (words ++ [w]))
    (hlen : words.length + ws.length ≤ 8) :
    pton6Loop (groups ws ++ rest) ⟨words, gap, [], []⟩ = k (words ++ ws) := by
  induction ws generalizing words with
  | nil => exact absurd rfl hne
  | cons w ws ih =>
    rw [length_cons] at hlen
    have hw := hws w mem_cons_self
    cases ws with
    | nil => simpa [groups, colonGroups] using hlast words w hw (by omega)
    | cons v vs =>
      rw [groups, colonGroups_eq (by simp), append_assoc, cons_append, pton6Loop_group_colon hw
        (by simp [groups, hexadecimal, numeral_ne_nil]) (by omega),
        ih (fun v hv => hws v (mem_cons_of_mem _ hv)) (by simp) (by simp at hlen ⊢; omega)]
      simp

/-- Groups at the end are the last words. -/
theorem pton6Loop_groups_end (hws : ∀ w ∈ ws, w < 65536) (hne : ws ≠ [])
    (hlen : words.length + ws.length ≤ 8) :
    pton6Loop (groups ws) ⟨words, gap, [], []⟩ = Pton6.finish ⟨words ++ ws, gap, [], []⟩ := by
  rw [← append_nil (groups ws)]
  refine pton6Loop_groups (k := fun ws => Pton6.finish ⟨ws, gap, [], []⟩) hws hne ?_ hlen
  intro words w hw _
  obtain ⟨ds, hne, hval, h⟩ := pton6Loop_hexadecimal hw words gap []
  rw [h, pton6Loop]
  simp [Pton6.finish, hne, Pton6.value, hval]

/-- The second colon of a `::`, after the words `pre`. -/
theorem pton6Loop_colon (pre : List Nat) (rest : Text) :
    pton6Loop (colon :: rest) ⟨pre, none, [], []⟩ =
      pton6Loop rest ⟨pre, some pre.length, [], []⟩ := by
  have hcolon : digitVal 16 colon = none := by decide
  rw [pton6Loop]
  simp [hcolon]

theorem inetPton6_groups (w : Nat) (ws : List Nat) (rest : Text) :
    inetPton6 (groups (w :: ws) ++ rest) =
      pton6Loop (groups (w :: ws) ++ rest) ⟨[], none, [], []⟩ := by
  obtain ⟨ds, htext, hlt, hne, -⟩ := numeral_eq_map (b := 16) (by decide) w
  obtain ⟨d, ds, rfl⟩ := exists_cons_of_ne_nil hne
  have hd := digitVal_digitChar (b := 16) le_rfl (hlt d mem_cons_self)
  have hcolon : digitChar d ≠ colon := by
    intro h
    rw [h] at hd
    cases hd
  rw [groups, hexadecimal, htext, map_cons, cons_append, cons_append, inetPton6, if_neg hcolon]

theorem inetPton6_colons (rest : Text) :
    inetPton6 (colon :: colon :: rest) = pton6Loop (colon :: rest) ⟨[], none, [], []⟩ := by
  simp [inetPton6]

/-- Two groups of words around `::` read as those words with zeros between them. -/
theorem inetPton6_gap (hpre : ∀ w ∈ pre, w < 65536) (hpost : ∀ w ∈ post, w < 65536) (hlen : 0 < len)
    (h8 : pre.length + len + post.length = 8) :
    inetPton6 (groups pre ++ colon :: colon :: groups post) =
      some ((pre ++ (replicate len 0 ++ post)).flatMap put16) := by
  have hfinish : Pton6.finish ⟨pre ++ post, some pre.length, [], []⟩ =
      some ((pre ++ (replicate len 0 ++ post)).flatMap put16) := by
    have hrest : 8 - (pre.length + post.length) = len := by omega
    have hlt : pre.length + post.length < 8 := by omega
    simp [Pton6.finish, hlt, hrest]
  have hgap : pton6Loop (colon :: groups post) ⟨pre, none, [], []⟩ =
      Pton6.finish ⟨pre ++ post, some pre.length, [], []⟩ := by
    rw [pton6Loop_colon]
    by_cases hnil : post = []
    · subst hnil
      simp [groups, pton6Loop]
    · exact pton6Loop_groups_end hpost hnil (by omega)
  rw [← hfinish, ← hgap]
  cases pre with
  | nil => exact inetPton6_colons _
  | cons w ws =>
    rw [inetPton6_groups]
    exact pton6Loop_groups (k := fun ws => pton6Loop _ ⟨ws, none, [], []⟩) hpre (by simp)
      (fun _ _ hw h => pton6Loop_group_colon hw (by simp) h) (by simp at h8 ⊢; omega)

/-- A dotted tail is the last two words. -/
theorem pton6Loop_dotted {v : Bytes} (hv : v.length = 4) (gap : Option Nat)
    (hwords : words.length ≤ 6) : pton6Loop (inetNtop4 v) ⟨words, gap, [], []⟩ =
      Pton6.finish ⟨words ++ [get16 v 0, get16 v 2], gap, [], []⟩ := by
  obtain ⟨c, rest, htext⟩ : ∃ (c : UInt8) (rest : Text),
      inetNtop4 v = decimal c.toNat ++ dot :: rest := by
    match v, hv with
    | [c, d, e, f], _ =>
      exact ⟨c, joinDots [decimal d.toNat, decimal e.toNat, decimal f.toNat],
        by simp [inetNtop4, joinDots, intercalate_cons_cons]⟩
  obtain ⟨ds, hdec, hlt, -, -⟩ := numeral_eq_map (b := 10) (by decide) c.toNat
  have hlen : ds.length ≤ 4 := by
    have := length_numeral_le (b := 10) (k := 3) (by decide) (by decide)
      (show c.toNat < 10 ^ 3 from lt_trans c.toNat_lt (by decide))
    rw [hdec, length_map] at this
    omega
  have hdot : digitVal 16 dot = none := by decide
  have hne : dot ≠ colon := by decide
  have hread : inetPton4 (ds.map digitChar ++ dot :: rest) = some v := by
    rw [← hdec, ← inetPton4_inetNtop4 hv, htext]
    rfl
  rw [htext, decimal, hdec, pton6Loop_digits ds (fun d hd => lt_trans (hlt d hd) (by decide)) _ _
    (by simpa using hlen), pton6Loop]
  simp [hdot, hne, hwords, hread]

/-! ## The IPv6 round trip -/

theorem flatMap_octet_pairs (b : Bytes) (n : Nat) (h : 2 * n ≤ b.length) :
    ((range n).flatMap fun i => [byteAt b (2 * i), byteAt b (2 * i + 1)]) =
      b.take (2 * n) := by
  induction n with
  | zero => rfl
  | succ n ih =>
    have h1 : 2 * n < b.length := by omega
    have h2 : 2 * n + 1 < b.length := by omega
    have hget1 : byteAt b (2 * n) = b[2 * n] := by simp [byteAt, h1]
    have hget2 : byteAt b (2 * n + 1) = b[2 * n + 1] := by simp [byteAt, h2]
    rw [range_succ, flatMap_append, ih (by omega),
      show 2 * (n + 1) = 2 * n + 1 + 1 by omega, ← take_append_getElem h2,
      ← take_append_getElem h1, append_assoc]
    simp [hget1, hget2]

theorem addrWords_flatMap (h : b.length = 16) : (addrWords b).flatMap put16 = b := by
  have hput : ∀ i, put16 (get16 b (2 * i)) = [byteAt b (2 * i), byteAt b (2 * i + 1)] :=
    fun i => put16_get16 b (2 * i)
  rw [addrWords, flatMap_map]
  simp only [hput]
  rw [flatMap_octet_pairs b 8 (by omega), take_of_length_le (by omega)]

theorem mem_addrWords_lt (h : w ∈ addrWords b) : w < 65536 := by
  obtain ⟨i, -, rfl⟩ := mem_map.mp h
  exact get16_lt ..

theorem inetNtop6_of_none (h : bestZeroRun (addrWords b) = none) :
    inetNtop6 b = groups (addrWords b) := by
  have hdotted : dottedTail (addrWords b) none = false := rfl
  unfold inetNtop6
  simp only [h, hdotted, Bool.false_eq_true, if_false]
  have hout : ∀ j, 1 ≤ j → inRun none j = false := fun _ _ => rfl
  obtain ⟨w, ws, hws⟩ : ∃ w ws, addrWords b = w :: ws := ⟨_, _, rfl⟩
  rw [hws, ntop6Loop, ntop6Loop_outside ws (by decide) hout]
  simp [inRun, groups]

theorem inetNtop6_of_run (h : bestZeroRun (addrWords b) = some (base, len))
    (hdotted : dottedTail (addrWords b) (some (base, len)) = false) :
    ∃ pre post, addrWords b = pre ++ (replicate len 0 ++ post) ∧ 0 < len ∧
      inetNtop6 b = groups pre ++ colon :: colon :: groups post := by
  obtain ⟨hlen, pre, post, hws, hpre⟩ := bestZeroRun_spec h
  refine ⟨pre, post, hws, by omega, ?_⟩
  have h8 : pre.length + (len + post.length) = 8 := by
    have : (addrWords b).length = 8 := by simp [addrWords]
    simpa [hws] using this
  have hloop : ntop6Loop (some (base, len)) none 0 (pre ++ (replicate len 0 ++ post)) =
      groups pre ++ colon :: colonGroups post :=
    ntop6Loop_run hpre (by simp) (by omega)
  rw [← hws] at hloop
  simp only [inetNtop6, h, hdotted, Bool.false_eq_true, if_false, hloop]
  by_cases hpost : post = []
  · subst hpost
    rw [if_pos (by simp at h8; omega)]
    simp [groups, colonGroups]
  · have : 0 < post.length := length_pos_of_ne_nil hpost
    rw [if_neg (by omega), colonGroups_eq hpost]

theorem addrWords_eq (b : Bytes) : addrWords b = [get16 b 0, get16 b 2, get16 b 4, get16 b 6,
    get16 b 8, get16 b 10, get16 b 12, get16 b 14] := rfl

/-- A compatible or mapped IPv4 address. -/
theorem inetNtop6_of_dotted (htail : dottedTail (addrWords b) (bestZeroRun (addrWords b)) = true) :
    ∃ len mid, (mid = [] ∨ mid = [0xffff]) ∧ 0 < len ∧
      addrWords b = replicate len 0 ++ (mid ++ [get16 b 12, get16 b 14]) ∧
      inetNtop6 b = colon :: (colonGroups mid ++ colon :: inetNtop4 (b.drop 12)) := by
  have hdotted := htail
  unfold dottedTail at hdotted
  split at hdotted
  swap
  · cases hdotted
  rename_i h
  obtain ⟨hlen, pre, post, hws, hpre⟩ := bestZeroRun_spec h
  obtain rfl : pre = [] := length_eq_zero_iff.mp hpre
  simp only [Bool.or_eq_true, beq_iff_eq, Bool.and_eq_true] at hdotted
  rw [h] at htail
  simp only [inetNtop6, h, htail, if_true]
  rw [addrWords_eq] at hws ⊢
  obtain rfl | ⟨rfl, h5⟩ := hdotted
  · refine ⟨6, [], .inl rfl, by decide, ?_, rfl⟩
    simp only [replicate, nil_append, cons_append, cons.injEq] at hws ⊢
    simp [hws.1, hws.2.1, hws.2.2.1, hws.2.2.2.1, hws.2.2.2.2.1, hws.2.2.2.2.2.1]
  · have hmid : get16 b 10 = 0xffff := h5
    refine ⟨5, [0xffff], .inr rfl, by decide, ?_, ?_⟩
    · simp only [replicate, nil_append, cons_append, cons.injEq] at hws ⊢
      simp [hws.1, hws.2.1, hws.2.2.1, hws.2.2.2.1, hws.2.2.2.2.1, hmid]
    · rw [hmid]
      rfl

/-- **An IPv6 text reads back.** -/
theorem inetPton6_inetNtop6 (h : b.length = 16) : inetPton6 (inetNtop6 b) = some b := by
  have hlt : ∀ w ∈ addrWords b, w < 65536 := fun w => mem_addrWords_lt
  have h8 : (addrWords b).length = 8 := by simp [addrWords]
  conv_rhs => rw [← addrWords_flatMap h]
  cases hdotted : dottedTail (addrWords b) (bestZeroRun (addrWords b)) with
  | true =>
    obtain ⟨len, mid, hmid, hlen, hws, htext⟩ := inetNtop6_of_dotted hdotted
    have htail : (b.drop 12).length = 4 := by simp [h]
    have hwords : get16 (b.drop 12) 0 = get16 b 12 ∧ get16 (b.drop 12) 2 = get16 b 14 := by
      simp [get16, byteAt]
    have hread : inetPton6 (inetNtop6 b) =
        Pton6.finish ⟨mid ++ [get16 b 12, get16 b 14], some 0, [], []⟩ := by
      rw [htext, ← hwords.1, ← hwords.2]
      obtain rfl | rfl := hmid
      · exact (inetPton6_colons _).trans ((pton6Loop_colon [] _).trans
          (pton6Loop_dotted htail _ (by decide)))
      · have hffff : colonGroups [0xffff] = colon :: hexadecimal 0xffff := by simp [colonGroups]
        rw [hffff, cons_append, inetPton6_colons, pton6Loop_colon,
          pton6Loop_group_colon (by decide) (by simp [inetNtop4_ne_nil htail]) (by decide)]
        exact pton6Loop_dotted htail _ (by decide)
    have hrest : 8 - (mid.length + 2) = len := by
      rw [hws] at h8
      simp at h8
      omega
    have hlt8 : mid.length + 2 < 8 := by omega
    rw [hread, hws]
    simp [Pton6.finish, hlt8, hrest]
  | false =>
    cases hbest : bestZeroRun (addrWords b) with
    | none =>
      obtain ⟨w, ws, hws⟩ : ∃ w ws, addrWords b = w :: ws := ⟨_, _, rfl⟩
      have hread := inetPton6_groups w ws []
      rw [append_nil, ← hws] at hread
      rw [inetNtop6_of_none hbest, hread,
        pton6Loop_groups_end hlt (by simp [hws]) (by simp [h8])]
      simp [Pton6.finish, h8]
    | some run =>
      obtain ⟨pre, post, hws, hlen, htext⟩ := inetNtop6_of_run hbest (hbest ▸ hdotted)
      rw [hws] at hlt h8 ⊢
      rw [htext, inetPton6_gap (fun w hw => hlt w (by simp [hw])) (fun w hw => hlt w (by simp [hw]))
        hlen (by simpa [Nat.add_assoc] using h8)]

/-! ## What a text is made of -/

/-- The octets an address text may have: dots, colons and digits in lower case. -/
def isAddressChar (c : UInt8) : Bool :=
  c == dot || c == colon || (48 ≤ c && c ≤ 57) || (97 ≤ c && c ≤ 102)

variable {c : UInt8}

theorem isAddressChar_of_mem_numeral {b n : Nat} (h2 : 1 < b) (hb : b ≤ 16) (h : c ∈ numeral b n) :
    isAddressChar c = true := by
  obtain ⟨d, hd, -, rfl⟩ := digitVal_isSome_of_mem_numeral h2 hb h
  have hall : ∀ d < 16, isAddressChar (digitChar d) = true := by decide
  exact hall d (lt_of_lt_of_le hd hb)

/-- An address text has no NUL, no newline, no bar and no capital letter. -/
theorem isAddressChar_spec (h : isAddressChar c = true) :
    c ≠ 0 ∧ c ≠ 10 ∧ c ≠ 124 ∧ lowerByte c = c := by
  revert c
  decide +kernel

theorem isAddressChar_of_mem_inetNtop4 (h : c ∈ inetNtop4 b) : isAddressChar c = true := by
  obtain rfl | ⟨t, ht, hct⟩ := mem_intercalate_singleton h
  · rfl
  · obtain ⟨o, -, rfl⟩ := mem_map.mp ht
    exact isAddressChar_of_mem_numeral (by decide) (by decide) hct

theorem length_inetNtop4 (b : Bytes) : (inetNtop4 b).length ≤ 15 := by
  have hdec : ∀ c : UInt8, (decimal c.toNat).length ≤ 3 := fun c =>
    length_numeral_le (by decide) (by decide) (lt_trans c.toNat_lt (by decide))
  rcases b with _ | ⟨c, _ | ⟨d, _ | ⟨e, _ | ⟨f, b⟩⟩⟩⟩ <;>
    simp [inetNtop4, joinDots, intercalate_cons_cons] <;> grind

/-- What the loop writes: characters of an address, at most five for a word. -/
theorem ntop6Loop_text (best : Option (Nat × Nat)) (i : Nat) (hws : ∀ w ∈ ws, w < 65536) :
    (∀ c ∈ ntop6Loop best none i ws, isAddressChar c = true) ∧
      (ntop6Loop best none i ws).length ≤ 5 * ws.length := by
  have hcolon : isAddressChar colon = true := rfl
  induction ws generalizing i with
  | nil => exact ⟨nofun, Nat.zero_le _⟩
  | cons w ws ih =>
    have hw := length_hexadecimal (hws w mem_cons_self)
    have hdigits : ∀ c ∈ hexadecimal w, isAddressChar c = true := fun c =>
      isAddressChar_of_mem_numeral (by decide) (by decide)
    obtain ⟨hchars, hlen⟩ := ih (i + 1) fun v hv => hws v (mem_cons_of_mem _ hv)
    unfold ntop6Loop
    split_ifs <;> simp only [cons_append, nil_append, forall_mem_cons, forall_mem_append,
      length_cons, length_append]
    · exact ⟨⟨hcolon, hchars⟩, by omega⟩
    · exact ⟨hchars, by omega⟩
    · exact ⟨⟨hdigits, hchars⟩, by omega⟩
    · exact ⟨⟨hcolon, hdigits, hchars⟩, by omega⟩

/-- A colon stands before the second word or before the run. -/
theorem colon_mem_ntop6Loop (best : Option (Nat × Nat)) (w v : Nat) (ws : List Nat) :
    colon ∈ ntop6Loop best none 0 (w :: v :: ws) := by
  rcases best with _ | ⟨_ | _ | base, _ | _ | len⟩ <;> simp [ntop6Loop, inRun]

/-- What is known of the text of an IPv6 address. -/
theorem inetNtop6_text (b : Bytes) :
    colon ∈ inetNtop6 b ∧ (∀ c ∈ inetNtop6 b, isAddressChar c = true) ∧
      (inetNtop6 b).length ≤ 41 := by
  cases hdotted : dottedTail (addrWords b) (bestZeroRun (addrWords b)) with
  | true =>
    obtain ⟨-, mid, hmid, -, -, htext⟩ := inetNtop6_of_dotted hdotted
    have h4 := length_inetNtop4 (b.drop 12)
    obtain ⟨hchars, hlen⟩ : (∀ c ∈ colonGroups mid, isAddressChar c = true) ∧
        (colonGroups mid).length ≤ 5 := by
      obtain rfl | rfl := hmid <;> decide +kernel
    rw [htext]
    simp only [forall_mem_cons, forall_mem_append, length_cons, length_append]
    exact ⟨mem_cons_self, ⟨rfl, hchars, rfl, fun c => isAddressChar_of_mem_inetNtop4⟩, by omega⟩
  | false =>
    have hcolon := colon_mem_ntop6Loop (bestZeroRun (addrWords b)) (get16 b 0) (get16 b 2)
      ((addrWords b).drop 2)
    obtain ⟨hchars, hlen⟩ : _ ∧ (ntop6Loop _ _ _ (addrWords b)).length ≤ 40 :=
      ntop6Loop_text (bestZeroRun (addrWords b)) 0 fun w => mem_addrWords_lt
    simp only [inetNtop6, hdotted, Bool.false_eq_true, if_false]
    split
    · split
      · refine ⟨mem_append_left _ hcolon, forall_mem_append.mpr ⟨hchars, by decide +kernel⟩, ?_⟩
        rw [length_append]
        exact Nat.succ_le_succ hlen
      · exact ⟨hcolon, hchars, hlen.trans (by decide)⟩
    · exact ⟨hcolon, hchars, hlen.trans (by decide)⟩

/-- The IPv4 reader takes no IPv6 text. -/
theorem inetPton4_inetNtop6 (b : Bytes) : inetPton4 (inetNtop6 b) = none := by
  cases h : inetPton4 (inetNtop6 b) with
  | none => rfl
  | some v =>
    obtain hdot | hdig := mem_of_inetPton4 h (inetNtop6_text b).1
    · cases hdot
    · cases hdig

end Ipv6

/-! ## Families -/

/-- The two address families. -/
inductive Family
  | inet
  | inet6
deriving DecidableEq, Repr

namespace Family

/-- The octets of an address. -/
def len : Family → Nat
  | inet => 4
  | inet6 => 16

/-- The record type, as the number and as the text in keys. -/
def rrtype : Family → Nat
  | inet => 1
  | inet6 => 28
def typeName : Family → Text
  | inet => lit "A"
  | inet6 => lit "AAAA"

/-- `inet_ntop` and `inet_pton` of the family. -/
def ntop : Family → Bytes → Text
  | inet => inetNtop4
  | inet6 => inetNtop6
def pton : Family → Text → Option Bytes
  | inet => inetPton4
  | inet6 => inetPton6

theorem length_finish {p : Pton6} (h : p.finish = some b) : b.length = 16 := by
  have hpairs : ∀ ws : List Nat, (ws.flatMap put16).length = 2 * ws.length := fun ws => by
    simp [length_flatMap, Nat.mul_comm]
  unfold Pton6.finish at h
  dsimp only at h
  generalize (if p.digits = [] then p.words else p.words ++ [p.value]) = ws at h
  split at h
  · split at h
    · rename_i hlen
      cases h
      rw [hpairs, hlen]
    · cases h
  · split at h
    · cases h
      rw [hpairs]
      simp only [length_append, length_take, length_replicate, length_drop]
      omega
    · cases h

/-- A character of an address text. -/
def Legible (c : UInt8) : Prop :=
  c = colon ∨ c = dot ∨ (digitVal 10 c).isSome ∨ (digitVal 16 c).isSome

instance (c : UInt8) : Decidable (Legible c) := inferInstanceAs (Decidable (_ ∨ _))

theorem pton6Loop_spec {s : Text} {p : Pton6} (h : pton6Loop s p = some b) :
    b.length = 16 ∧ ∀ c ∈ s, Legible c := by
  induction s generalizing p with
  | nil => exact ⟨length_finish h, nofun⟩
  | cons c cs ih =>
    have hnext : ∀ {p' : Pton6}, Legible c → pton6Loop cs p' = some b →
        b.length = 16 ∧ ∀ d ∈ c :: cs, Legible d := fun hc h =>
      ⟨(ih h).1, forall_mem_cons.mpr ⟨hc, (ih h).2⟩⟩
    unfold pton6Loop at h
    split at h
    · rename_i v hd
      split at h
      · cases h
      · exact hnext (.inr (.inr (.inr (hd ▸ rfl)))) h
    · split at h
      · rename_i hcolon
        split at h
        · split at h
          · cases h
          · exact hnext (.inl hcolon) h
        · split at h
          · cases h
          · exact hnext (.inl hcolon) h
      · split at h
        · split at h
          · rename_i b' hb'
            refine ⟨length_finish h, fun d hd => .inr ?_⟩
            exact (mem_of_inetPton4 hb' (mem_append_right _ hd)).imp_right .inl
          · cases h
        · cases h

/-- A text that is read as an address gives the octets of its family. -/
theorem pton_spec {f : Family} {s : Text} (h : f.pton s = some b) :
    b.length = f.len ∧ s ≠ [] ∧ ∀ c ∈ s, Legible c := by
  have hne : s ≠ [] := by
    rintro rfl
    cases f <;> cases h
  cases f with
  | inet =>
    refine ⟨?_, hne, fun c hc => .inr ((mem_of_inetPton4 h hc).imp_right .inl)⟩
    unfold pton inetPton4 at h
    dsimp only at h
    split at h
    · split at h
      · rename_i hlen
        cases h
        exact hlen
      · cases h
    · cases h
  | inet6 =>
    unfold pton inetPton6 at h
    dsimp only at h
    split at h
    · cases h
    · split at h
      · rename_i hcolon
        split at h
        · obtain ⟨hlen, hall⟩ := pton6Loop_spec h
          exact ⟨hlen, hne, forall_mem_cons.mpr ⟨.inl hcolon, hall⟩⟩
        · cases h
      · obtain ⟨hlen, hall⟩ := pton6Loop_spec h
        exact ⟨hlen, hne, hall⟩

theorem isAddressChar_of_mem_ntop {f : Family} {c : UInt8} (h : c ∈ f.ntop b) :
    isAddressChar c = true := by
  cases f with
  | inet => exact isAddressChar_of_mem_inetNtop4 h
  | inet6 => exact (inetNtop6_text b).2.1 c h

theorem strlower_ntop (f : Family) (b : Bytes) : strlower (f.ntop b) = f.ntop b := by
  calc (f.ntop b).map lowerByte = (f.ntop b).map id :=
        map_congr_left fun c hc =>
          (isAddressChar_spec (isAddressChar_of_mem_ntop hc)).2.2.2
    _ = f.ntop b := map_id _

end Family

/-- An address of a family. -/
structure Address where
  family : Family
  octets : Bytes
  length_eq : octets.length = family.len
deriving DecidableEq, Repr

namespace Address

/-- The address as text. -/
def text (a : Address) : Text := a.family.ntop a.octets

theorem pton_text (a : Address) : a.family.pton a.text = some a.octets := by
  obtain ⟨family, octets, h⟩ := a
  cases family with
  | inet => exact inetPton4_inetNtop4 h
  | inet6 => exact inetPton6_inetNtop6 h

theorem isAddressChar_of_mem_text {a : Address} {c : UInt8} (h : c ∈ a.text) :
    isAddressChar c = true :=
  Family.isAddressChar_of_mem_ntop h

theorem length_text_le (a : Address) : a.text.length ≤ 41 := by
  obtain ⟨family, octets, h⟩ := a
  cases family with
  | inet => exact (length_inetNtop4 octets).trans (by decide)
  | inet6 => exact (inetNtop6_text octets).2.2

theorem text_ne_nil (a : Address) : a.text ≠ [] := by
  obtain ⟨family, octets, h⟩ := a
  cases family with
  | inet => exact inetNtop4_ne_nil h
  | inet6 => exact ne_nil_of_mem (inetNtop6_text octets).1

end Address

end SimpleDns.Wire
