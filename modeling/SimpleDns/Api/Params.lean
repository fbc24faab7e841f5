import Mathlib.Data.List.TakeWhile
import SimpleDns.Wire.Codec

/-!
# Request parameters (`url_decode`, `qs_get`, `apid.c:408-439`)

`qs_get` searches the query string for the name and an equals sign, wherever they stand. In a list
of parameters that is the first one whose name *ends* in the name asked for (`qsGet_queryString`).

* **`qsGet_exact_iff`**: the parameter of exactly that name is returned iff the first one whose name
  ends in it has the same value.
* `mname_taken_for_name`: the name of a zone is read from the `mname` in front of it.
-/

namespace SimpleDns.Api

open Wire Lib List

/-! ## The source -/

/-- `url_decode`. -/
def urlDecode : Text → Text
  | 37 :: a :: b :: rest =>
    if (digitVal 16 a).isSome ∧ (digitVal 16 b).isSome then
      (strtol 16 [a, b]).toNat.toUInt8 :: urlDecode rest
    else 37 :: urlDecode (a :: b :: rest)
  | 43 :: rest => 32 :: urlDecode rest
  | c :: rest => c :: urlDecode rest
  | [] => []

/-- What `qs_get` prints into `char nd[128]`. -/
def needle (key : Text) : Text := (key ++ lit "=").take 127

/-- The value that begins with `s`: up to the next ampersand, cut to the buffer, decoded. -/
def valueAt (s : Text) (olen : Nat) : Text := urlDecode ((s.takeWhile (· ≠ 38)).take (olen - 1))

/-- `qs_get(qs, key, out, olen)`; `none` is 0. -/
def qsGet (qs key : Text) (olen : Nat) : Option Text :=
  (strstr qs (needle key)).map fun i => valueAt (qs.drop (i + (needle key).length)) olen

/-! ## Lists of parameters -/

/-- A parameter: neither part has a separator in it. -/
structure Param where
  key : Text
  value : Text
  keyPlain : 61 ∉ key ∧ 38 ∉ key ∧ 37 ∉ key
  valuePlain : 61 ∉ value ∧ 38 ∉ value

/-- `key=value`. -/
def Param.text (p : Param) : Text := p.key ++ 61 :: p.value

/-- The pairs joined by ampersands. -/
def queryString (ps : List Param) : Text := [38].intercalate (ps.map Param.text)

/-- The parameter has the needle in its text: a short name at the end of its own name. -/
def Param.Stands (k : Text) (p : Param) : Bool :=
  if k.length ≤ 126 then k.isSuffixOf p.key else (strstr p.text (k.take 127)).isSome

/-- What stands behind the needle: the value of the parameter where the name is short. -/
def Param.taken (k : Text) (olen : Nat) (p : Param) : Text :=
  if k.length ≤ 126 then urlDecode p.value
  else valueAt (p.text.drop ((strstr p.text (k.take 127)).getD 0 + 127)) olen

/-! ## Searching -/

theorem strstr_cons (c : UInt8) (s sub : Text) :
    strstr (c :: s) sub = if sub <+: c :: s then some 0 else (strstr s sub).map (· + 1) := by
  unfold strstr
  rw [length_cons, range_succ_eq_map, find?_cons, find?_map]
  split
  · rename_i h
    have hat : sub <+: c :: s := prefix_iff_eq_take.mpr (beq_iff_eq.mp h).symm
    rw [if_pos hat]
  · rename_i h
    have hat : ¬sub <+: c :: s := fun h' =>
      ne_of_beq_false h (prefix_iff_eq_take.mp h').symm
    rw [if_neg hat]
    rfl

theorem needle_ne_nil (k : Text) : needle k ≠ [] := by
  cases k <;> simp [needle, lit]

variable {k : Text} {olen : Nat}

theorem qsGet_nil (k : Text) (olen : Nat) : qsGet [] k olen = none := by
  have hnone : strstr [] (needle k) = none := by
    simp [strstr, needle_ne_nil k]
  rw [qsGet, hnone]
  rfl

/-- The needle stands here, or the search goes on. -/
theorem qsGet_cons (c : UInt8) (s k : Text) (olen : Nat) :
    qsGet (c :: s) k olen =
      if needle k <+: c :: s then some (valueAt ((c :: s).drop (needle k).length) olen)
      else qsGet s k olen := by
  unfold qsGet
  rw [strstr_cons]
  split
  · simp
  · simp [Function.comp_def, Nat.add_right_comm _ 1]

theorem valueAt_of_notMem {t : Text} (ht : 38 ∉ t) (olen : Nat) :
    valueAt t olen = urlDecode (t.take (olen - 1)) := by
  rw [valueAt, takeWhile_ne_self ht]

/-- The needle is found within a parameter, and its value ends where the parameter ends. -/
theorem qsGet_sep (hamp : 38 ∉ k) {t : Text} (ht : 38 ∉ t) (q : Text) (olen : Nat) :
    qsGet (t ++ 38 :: q) k olen = (qsGet t k olen).or (qsGet q k olen) := by
  have hneedle : 38 ∉ needle k := fun h =>
    (mem_append.mp (mem_of_mem_take h)).elim hamp (by decide)
  -- a needle that begins in front of the ampersand ends there
  have hcut : ∀ u : Text, needle k <+: u ++ 38 :: q → needle k <+: u := by
    intro u h
    obtain hu | ⟨m, hm⟩ := prefix_or_prefix_of_prefix h (prefix_append u (38 :: q))
    · exact hu
    · rw [← hm, prefix_append_right_inj] at h
      cases m with
      | nil => rw [← hm, append_nil]
      | cons x m =>
        obtain ⟨rfl, -⟩ := cons_prefix_cons.mp h
        exact absurd (hm ▸ mem_append_right u mem_cons_self) hneedle
  induction t with
  | nil =>
    rw [nil_append, qsGet_cons, if_neg, qsGet_nil, Option.none_or]
    exact fun h => needle_ne_nil k (prefix_nil.mp (hcut [] h))
  | cons c t ih =>
    rw [cons_append, qsGet_cons, qsGet_cons, ih fun h => ht (mem_cons_of_mem c h)]
    by_cases h : needle k <+: c :: t
    · have hrest : 38 ∉ (c :: t).drop (needle k).length := fun h => ht (mem_of_mem_drop h)
      rw [if_pos h, ← cons_append, if_pos (h.trans (prefix_append ..)),
        drop_append_of_le_length h.length_le, valueAt, (takeWhile_ne_append hrest q).1,
        valueAt_of_notMem hrest, Option.some_or]
    · have hlong : ¬needle k <+: c :: (t ++ 38 :: q) := fun h' => h (hcut (c :: t) h')
      rw [if_neg h, if_neg hlong]

theorem Param.amp_not_mem_text (p : Param) : 38 ∉ p.text := by
  unfold text
  simp [p.keyPlain.2.1, p.valuePlain.2]

/-- **The first parameter with the needle in it decides.** -/
theorem qsGet_queryString (hamp : 38 ∉ k) (ps : List Param) (olen : Nat) :
    qsGet (queryString ps) k olen = ps.findSome? fun p => qsGet p.text k olen := by
  induction ps with
  | nil => exact qsGet_nil k olen
  | cons p ps ih =>
    cases ps with
    | nil => cases h : qsGet p.text k olen <;> simp [queryString, h]
    | cons q ps =>
      have hcons : queryString (p :: q :: ps) = p.text ++ 38 :: queryString (q :: ps) := by
        simp [queryString, intercalate]
      rw [hcons, qsGet_sep hamp p.amp_not_mem_text, ih, findSome?_cons (a := p)]
      cases qsGet p.text k olen <;> rfl

/-- A short name and its equals sign stand only where the name of a parameter ends. -/
theorem qsGet_short (hk : 61 ∉ k) (hshort : k.length ≤ 126) {key v : Text} (hkey : 61 ∉ key)
    (hv : 61 ∉ v) (olen : Nat) :
    qsGet (key ++ 61 :: v) k olen = if k.isSuffixOf key then some (valueAt v olen) else none := by
  have hnd : needle k = k ++ [61] := take_of_length_le (by simp [lit]; omega)
  have hat : ∀ u : Text, 61 ∉ u → (needle k <+: u ++ 61 :: v ↔ u = k) := by
    intro u hu
    rw [hnd]
    constructor
    · rintro ⟨t, ht⟩
      rw [append_assoc, singleton_append] at ht
      rw [← (takeWhile_ne_append hu v).1, ← ht, (takeWhile_ne_append hk t).1]
    · rintro rfl
      exact ⟨v, by simp⟩
  have hnone : qsGet v k olen = none := by
    clear hkey hat
    induction v with
    | nil => exact qsGet_nil k olen
    | cons c v ih =>
      rw [qsGet_cons, if_neg, ih fun h => hv (mem_cons_of_mem c h)]
      intro h
      exact hv (h.subset (by simp [hnd]))
  induction key with
  | nil =>
    have hnil := hat [] not_mem_nil
    rw [nil_append] at hnil ⊢
    rw [qsGet_cons, hnone]
    by_cases hk0 : [] = k
    · rw [if_pos (hnil.mpr hk0), hnd, ← hk0]
      rfl
    · rw [if_neg (hnil.not.mpr hk0)]
      simp [isSuffixOf_iff_suffix, Ne.symm hk0]
  | cons c key ih =>
    have hcons := hat (c :: key) hkey
    rw [cons_append] at hcons ⊢
    rw [qsGet_cons, ih fun h => hkey (mem_cons_of_mem c h)]
    by_cases hself : c :: key = k
    · rw [if_pos (hcons.mpr hself), hnd, ← cons_append, hself, ← singleton_append, ← append_assoc]
      simp [isSuffixOf_iff_suffix]
    · rw [if_neg (hcons.not.mpr hself)]
      simp [isSuffixOf_iff_suffix, suffix_cons_iff, Ne.symm hself]

theorem qsGet_text (hk : 61 ∉ k) {p : Param} (hv : p.value.length < olen) :
    qsGet p.text k olen = if p.Stands k then some (p.taken k olen) else none := by
  unfold Param.Stands Param.taken
  split
  · rename_i hshort
    rw [Param.text, qsGet_short hk hshort p.keyPlain.1 p.valuePlain.1,
      valueAt_of_notMem p.valuePlain.2, take_of_length_le (by omega)]
  · rename_i hlong
    have hnd : needle k = k.take 127 := take_append_of_le_length (by omega)
    have hlen : (k.take 127).length = 127 := by simp; omega
    rw [qsGet, hnd, hlen]
    cases strstr p.text (k.take 127) <;> rfl

theorem Param.stands_self (p : Param) : p.Stands p.key = true := by
  unfold Stands
  split
  · simp [isSuffixOf_iff_suffix]
  · rename_i hlong
    obtain ⟨c, t, ht⟩ := exists_cons_of_ne_nil (l := p.key) (by rintro h; simp [h] at hlong)
    have hstart : p.key.take 127 <+: p.text := (List.take_prefix ..).trans (prefix_append ..)
    rw [show p.text = c :: (t ++ 61 :: p.value) by simp [text, ht]] at hstart ⊢
    rw [strstr_cons, if_pos hstart]
    rfl

/-- **A parameter is taken by its exact name iff** the first one whose name ends in that name (for a
name too long for the needle: that has the first 127 octets of it anywhere) gives the same text. -/
theorem qsGet_exact_iff {k : Text} (hk : 61 ∉ k ∧ 38 ∉ k) {ps : List Param} {olen : Nat}
    (hv : ∀ p ∈ ps, p.value.length < olen) :
    qsGet (queryString ps) k olen = (ps.find? (·.key = k)).map (urlDecode ·.value) ↔
      ∀ p, ps.find? (Param.Stands k) = some p →
        ∃ q, ps.find? (·.key = k) = some q ∧ p.taken k olen = urlDecode q.value := by
  have hfound : qsGet (queryString ps) k olen =
      (ps.find? (Param.Stands k)).map (Param.taken k olen) := by
    rw [qsGet_queryString hk.2]
    induction ps with
    | nil => rfl
    | cons p ps ih =>
      rw [findSome?_cons, qsGet_text hk.1 (hv p mem_cons_self), find?_cons,
        ih fun q hq => hv q (mem_cons_of_mem p hq)]
      cases p.Stands k <;> rfl
  rw [hfound]
  cases hp : ps.find? (Param.Stands k) with
  | none =>
    have hnone : ps.find? (·.key = k) = none := by
      refine find?_eq_none.mpr fun q hq hqk => find?_eq_none.mp hp q hq ?_
      rw [← of_decide_eq_true hqk]
      exact q.stands_self
    simp [hnone]
  | some p =>
    cases ps.find? (·.key = k) with
    | none => simp
    | some q => simp

/-- The two parameters of a request to add a zone, the name server first. -/
def addRequest : List Param :=
  [⟨lit "mname", lit "ns.example", by decide, by decide⟩,
    ⟨lit "name", lit "example.com", by decide, by decide⟩]

theorem qsGet_exact_addRequest :
    qsGet (queryString addRequest) (lit "mname") 256 =
      (addRequest.find? (·.key = lit "mname")).map (urlDecode ·.value) :=
  (qsGet_exact_iff (by decide) (by decide +kernel)).mpr (by
    intro p hp
    exact ⟨p, hp, rfl⟩)

/-- The zone gets the name of its server. -/
theorem mname_taken_for_name :
    qsGet (queryString addRequest) (lit "name") 256 = some (lit "ns.example") ∧
      (addRequest.find? (·.key = lit "name")).map (urlDecode ·.value) =
        some (lit "example.com") := by
  decide +kernel

end SimpleDns.Api
