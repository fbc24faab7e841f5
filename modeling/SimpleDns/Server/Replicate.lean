import SimpleDns.Server.FullTransfer
import SimpleDns.Server.Handle
import SimpleDns.Wire.Encoded

/-!
# What a full transfer replicates

The sender (`axfr_send_runtime`), the converter (`xfr_rdata_to_store`) and the encoder
(`stored_rdata`) each list the record types for themselves. `restored` encodes the value a secondary
ends up with for an owner and a type.

* **`replicated_iff`**: it is the set of rdata the primary sent exactly when what the primary has is
  `Replicable`. Twelve of the twenty types never are, a TXT record of several strings is not, nor
  are two different records of a type that is not grouped. Of addresses and name servers those are
  whose texts fit into the 767 octets a value is read with.
-/

namespace SimpleDns.Server

open Wire Lib List Option RRType

/-! ## What the secondary ends up with -/

/-- The value the secondary has for an owner and a type, encoded as a transfer does. -/
def restored (s : Store) (zname : Text) (p : Text × Nat) (n : Text) : List Bytes :=
  ((axfrGet s (zkey zname p.1 n)).map (zoneRdata p.2)).getD []

/-- What is kept of a list of TTLs and rdata. -/
def keptTexts (type : Nat) (l : List (Nat × Bytes)) : List (Nat × Text) :=
  l.filterMap fun v => (xfrRdataToStore type v.2).map fun val => (v.1, val)

/-- Texts, a bar before each. -/
def barred (ts : List Text) : Text := ts.flatMap fun t => bar :: t

/-- The texts of a grouped type behind the first TTL, read again as far as a value is. -/
def regrouped (type : Nat) : List (Nat × Text) → List Bytes
  | [] => []
  | g :: gs => zoneRdata type ((decimal g.1 ++ barred ((g :: gs).map (·.2))).take 767)

variable {D : Dnsd} {p : Text × Nat}

theorem recs_at {Z : ServedZone} (hD : CanonicalKeys D Z.name) (hp : p ∈ ztypes) (n : Text) :
    ((axfrData D Z).filterMap XfrRR.toRec).filter (XfrRec.at n p.2) =
      (keptTexts p.2 (D.held Z.name p n)).map fun g => ⟨n, p.2, g.1, g.2⟩ := by
  rw [keptTexts, ← sent_eq_held hD hp n, filter_filterMap, filterMap_filterMap,
    map_filterMap]
  refine filterMap_congr fun rr _ => ?_
  cases rr with
  | soa serial => rfl
  | data o t ttl rd =>
    by_cases h : o = n ∧ t = p.2
    · obtain ⟨rfl, rfl⟩ := h
      cases hval : xfrRdataToStore p.2 rd <;> simp [XfrRR.toRec, XfrRR.at, XfrRec.at, hval]
    · have h' : t = p.2 → ¬o = n := fun ht ho => h ⟨ho, ht⟩
      cases hval : xfrRdataToStore t rd with
      | none => simp [XfrRR.toRec, XfrRR.at, hval, h]
      | some val => simpa [XfrRR.toRec, XfrRR.at, XfrRec.at, hval, h] using h'

variable {text : Text}

theorem axfrGet_value {s : Store} {key : Text} (h : s key = some ⟨text, none⟩) (hne : text ≠ []) :
    axfrGet s key = some (text.take 767) := by
  have hcut : text.take 767 ≠ [] := by simpa using hne
  simp [axfrGet, vkGet, h, safeStrcpy, hcut]

section Restored

variable {D : Dnsd} {Z : ServedZone} {S : Settings} {sec sec' : State} {p : Text × Nat} {n : Text}

theorem restored_none {s : Store} (h : s (zkey Z.name p.1 n) = none) :
    restored s Z.name p n = [] := by
  simp [restored, axfrGet, vkGet, h]

theorem restored_some {s : Store} (h : s (zkey Z.name p.1 n) = some ⟨safeStrcpy text 1024, none⟩)
    (hne : text ≠ []) : restored s Z.name p n = zoneRdata p.2 (text.take 767) := by
  rw [restored, axfrGet_value h (by simpa [safeStrcpy] using hne), safeStrcpy, take_take]
  rfl

section

variable (hD : CanonicalKeys D Z.name) (h : xfrPull S sec Z.name (axfrStream D Z) = some sec')
  (hp : p ∈ ztypes)

include hD h hp

theorem restored_single (htype : p.2 ≠ RRType.A ∧ p.2 ≠ AAAA ∧ p.2 ≠ NS) :
    restored sec'.store Z.name p n =
      match (keptTexts p.2 (D.held Z.name p n)).getLast? with
      | none => []
      | some g => zoneRdata p.2 ((decimal g.1 ++ [124] ++ g.2).take 767) := by
  have hstore : xfrWriteAll Z.name ((axfrData D Z).filterMap XfrRR.toRec) []
      (xfrClear Z.name sec.store) (zkey Z.name p.1 n) = _ :=
    writeAll_single hD.short hp htype (fun r hr => plain_of_toRec hr) (by simp) _
  rw [recs_at hD hp, getLast?_map, xfrClear_zkey hD.short] at hstore
  rw [xfrPull_axfrStream h]
  cases hlast : (keptTexts p.2 (D.held Z.name p n)).getLast? with
  | none =>
    rw [hlast] at hstore
    exact restored_none hstore
  | some g =>
    rw [hlast] at hstore
    exact restored_some hstore (by simp)

theorem restored_grouped (htype : p.2 = RRType.A ∨ p.2 = AAAA ∨ p.2 = NS) :
    restored sec'.store Z.name p n = regrouped p.2 (keptTexts p.2 (D.held Z.name p n)) := by
  have hstore : xfrWriteAll Z.name ((axfrData D Z).filterMap XfrRR.toRec) []
      (xfrClear Z.name sec.store) (zkey Z.name p.1 n) = _ :=
    writeAll_grouped hD.short hp htype (fun r hr => plain_of_toRec hr) (by simp) _
  rw [recs_at hD hp, xfrClear_zkey hD.short, any_nil, if_neg Bool.false_ne_true] at hstore
  rw [xfrPull_axfrStream h]
  cases hkept : keptTexts p.2 (D.held Z.name p n) with
  | nil =>
    rw [hkept] at hstore
    exact restored_none hstore
  | cons g gs =>
    rw [hkept, map_cons] at hstore
    dsimp only at hstore
    rw [List.map_map] at hstore
    exact restored_some hstore (by simp [barred])

end

end Restored

/-! ## Which values survive -/

/-- A record of a type with one value is kept: its target reads and is written as it was, which
excludes upper-case letters, and a TXT record is one character string. The other types are lost. -/
def Kept (type : Nat) (rd : Bytes) : Prop :=
  if type = CNAME ∨ type = DNAME then
    ∃ n, rdataName rd 0 = some n ∧ nameToWire n 512 = some rd
  else if type = MX then
    ∃ n, rdataName rd 2 = some n ∧ nameToWire n 510 = some (rd.drop 2)
  else if type = SRV then
    -- the stored target ends at a bar
    ∃ n, rdataName rd 6 = some n ∧ nameToWire ((strtok bar n).headD []) 506 = some (rd.drop 6)
  else if type = TXT then ∃ s, s ≠ [] ∧ s.length ≤ 255 ∧ 0 ∉ s ∧ rd = labelWire s
  else False

/-- How an entry of a value of a grouped type is encoded. -/
def groupedRdata (type : Nat) (t : Text) : Option Bytes :=
  if type = RRType.A then inetPton4 t else if type = AAAA then inetPton6 t else nameToWire t 300

/-- The text that is kept of a record. -/
def storedText (type : Nat) (rd : Bytes) : Text := (xfrRdataToStore type rd).getD []

/-- The text of a record of a grouped type is one entry and encodes the record: so it is for every
address, and for a name server without upper-case letters and bars. -/
def ReadBack (type : Nat) (rd : Bytes) : Prop :=
  ∃ t, xfrRdataToStore type rd = some t ∧ bar ∉ t ∧ groupedRdata type t = some rd

/-- The records whose texts fit into `room` octets, a bar before each, and what is left of the text
that is cut. -/
def fitting (type : Nat) : Nat → List Bytes → List Bytes × Text
  | _, [] => ([], [])
  | room, rd :: rds =>
    let t := storedText type rd
    if t.length < room then
      let f := fitting type (room - (t.length + 1)) rds
      -- an empty text, which is that of the root, is no entry
      (if t = [] then f.1 else rd :: f.1, f.2)
    else ([], t.take (room - 1))

/-- What is left of a text is taken for the record. -/
def Spells (type : Nat) (t : Text) (rd : Bytes) : Prop := t ≠ [] ∧ groupedRdata type t = some rd

/-- What fits behind the first TTL into the 767 octets a value is read with. -/
def fitted (type : Nat) (l : List (Nat × Bytes)) : List Bytes × Text :=
  fitting type (767 - (decimal (l.headD (0, [])).1).length) (l.map (·.2))

/-- What is held for an owner and a type survives the transfer: addresses and name servers in the
room behind the first TTL, or where what is left of a text spells one of them, other types as copies
of one record that is kept. -/
def Replicable (type : Nat) (l : List (Nat × Bytes)) : Prop :=
  if type = RRType.A ∨ type = AAAA ∨ type = NS then
    (∀ v ∈ l, ReadBack type v.2 ∧ (v.2 ∈ (fitted type l).1 ∨ Spells type (fitted type l).2 v.2)) ∧
      ∀ rd, Spells type (fitted type l).2 rd → ∃ ttl, (ttl, rd) ∈ l
  else l = [] ∨ ∃ rd, (∀ v ∈ l, v.2 = rd) ∧ Kept type rd

variable {type : Nat}

theorem dropWhile_decimal (n : Nat) (text : Text) :
    (decimal n ++ bar :: text).dropWhile (· ≠ bar) = bar :: text :=
  (takeWhile_ne_append (notMem_decimal (by decide) n) text).2

/-- The TTL and the rest of a stored value. -/
theorem splitTtl_text (ttl : Nat) (text : Text) :
    splitTtl (decimal ttl ++ [124] ++ text) = (ttl % 2 ^ 32, text) := by
  have hval : decimal ttl ++ [124] ++ text = decimal ttl ++ bar :: text := by
    simp [bar]
  have hnum : atoi (decimal ttl ++ bar :: text) = ttl := strtol_decimal ttl (noDigit_bar text)
  rw [splitTtl, hval, if_pos (by simp), dropWhile_decimal, hnum]
  norm_cast

theorem nameToWire_ne_nil {name : Text} {blen : Nat} {w : Bytes}
    (h : nameToWire name blen = some w) : w ≠ [] := by
  obtain ⟨-, rfl, -⟩ := wireLoop_eq_some_iff.mp h
  simp [nameWire]

variable {rd : Bytes}

theorem nonempty_nameRdata {pre : Bytes} {name : Text} {rdcap : Nat} :
    nonempty (nameRdata pre name rdcap) = some rd ↔
      ∃ w, nameToWire name (rdcap - pre.length) = some w ∧ pre ++ w = rd := by
  unfold nonempty nameRdata
  cases hw : nameToWire name (rdcap - pre.length) with
  | none => simp
  | some w =>
    have hne : pre ++ w ≠ [] := by simp [nameToWire_ne_nil hw]
    rw [map_some, filter_some, if_pos (decide_eq_true hne)]
    simp

theorem append_eq_iff_drop {pre w : Bytes} (h : rd.take pre.length = pre) :
    pre ++ w = rd ↔ w = rd.drop pre.length := by
  constructor
  · rintro rfl
    simp
  · rintro rfl
    nth_rewrite 1 [← h]
    exact take_append_drop _ _

theorem get16_mod (rd : Bytes) (o : Nat) : ((get16 rd o : Int) % 2 ^ 16).toNat = get16 rd o := by
  have := get16_lt rd o
  omega

theorem put16_get16_take (h : 2 ≤ rd.length) : rd.take 2 = put16 (get16 rd 0) := by
  obtain ⟨a, b, rest, rfl⟩ : ∃ a b rest, rd = a :: b :: rest := by
    rcases rd with _ | ⟨a, _ | ⟨b, rest⟩⟩
    · simp at h
    · simp at h
    · exact ⟨a, b, rest, rfl⟩
  rw [put16_get16]
  rfl

theorem kept_name (rd : Bytes) :
    (∃ text, rdataName rd 0 = some text ∧ nonempty (nameRdata [] text 512) = some rd) ↔
      ∃ n, rdataName rd 0 = some n ∧ nameToWire n 512 = some rd := by
  refine exists_congr fun text => and_congr_right fun _ => ?_
  rw [nonempty_nameRdata]
  simp

theorem storedRdata_mx (pref : Nat) (tgt : Text) :
    storedRdata MX (decimal pref ++ 124 :: tgt) 512 =
      nameRdata (put16 ((pref : Int) % 2 ^ 16).toNat) tgt 512 := by
  have hnum : atoi (decimal pref ++ bar :: tgt) = pref := strtol_decimal pref (noDigit_bar tgt)
  show (if bar ∈ decimal pref ++ bar :: tgt then
    nameRdata (put16 (atoi (decimal pref ++ bar :: tgt) % 2 ^ 16).toNat)
      (((decimal pref ++ bar :: tgt).dropWhile (· ≠ bar)).drop 1) 512
    else nameRdata (put16 10) (decimal pref ++ bar :: tgt) 512) = _
  rw [if_pos (by simp), hnum, dropWhile_decimal]
  rfl

/-- The stored text of an SRV record. -/
def srvText (prio weight port : Nat) (tgt : Text) : Text :=
  decimal prio ++ 124 :: (decimal weight ++ 124 :: (decimal port ++ 124 :: tgt))

theorem strtok_decimal (n : Nat) (text : Text) :
    strtok bar (decimal n ++ bar :: text) = decimal n :: strtok bar text := by
  rw [strtok_append_cons, strtok_of_notMem (notMem_decimal (by decide) n) (numeral_ne_nil 10 n)]
  rfl

theorem storedRdata_srv (prio weight port : Nat) (tgt : Text) :
    storedRdata SRV (srvText prio weight port tgt) 512 =
      nameRdata (put16 ((prio : Int) % 2 ^ 16).toNat ++ put16 ((weight : Int) % 2 ^ 16).toNat ++
        put16 ((port : Int) % 2 ^ 16).toNat) ((strtok bar tgt).headD []) 512 := by
  have htoks : strtok bar (srvText prio weight port tgt) =
      decimal prio :: decimal weight :: decimal port :: strtok bar tgt := by
    show strtok bar (decimal prio ++ bar :: (decimal weight ++ bar :: (decimal port ++ bar :: tgt)))
      = _
    rw [strtok_decimal, strtok_decimal, strtok_decimal]
  have htgt : ∀ pre, nameRdata pre (safeStrcpy ((strtok bar tgt)[0]?.getD []) 256) 512 =
      nameRdata pre ((strtok bar tgt).headD []) 512 := by
    intro pre
    rw [nameRdata, nameRdata, nameToWire, safeStrcpy, safeStrcpy, take_take]
    cases strtok bar tgt <;> rfl
  show nameRdata (put16 (fieldU16 (strtok bar (srvText prio weight port tgt)) 0) ++
      put16 (fieldU16 (strtok bar (srvText prio weight port tgt)) 1) ++
      put16 (fieldU16 (strtok bar (srvText prio weight port tgt)) 2))
    (fieldText (strtok bar (srvText prio weight port tgt)) 3 256) 512 = _
  rw [htoks]
  simp [fieldU16, fieldText, atoi_decimal, htgt]

/-- A record with a name behind the fixed octets `b`: what decides is how the name is stored and
written again. -/
theorem kept_named {f g : Text → Text} {b : Bytes}
    (hstore : xfrRdataToStore type rd =
      if rd.length < b.length + 1 then none else (rdataName rd b.length).map f)
    (hencode : ∀ n, storedRdata type (f n) 512 = nameRdata b (g n) 512)
    (htake : b.length < rd.length → rd.take b.length = b) :
    (∃ text, xfrRdataToStore type rd = some text ∧
      nonempty (storedRdata type text 512) = some rd) ↔
      ∃ n, rdataName rd b.length = some n ∧
        nameToWire (g n) (512 - b.length) = some (rd.drop b.length) := by
  rw [hstore]
  constructor
  · rintro ⟨text, htext, hre⟩
    split at htext
    · cases htext
    · obtain ⟨n, hn, rfl⟩ := map_eq_some_iff.mp htext
      rw [hencode, nonempty_nameRdata] at hre
      obtain ⟨w, hw, he⟩ := hre
      rw [(append_eq_iff_drop (htake (by omega))).mp he] at hw
      exact ⟨n, hn, hw⟩
  · rintro ⟨n, hn, hw⟩
    have hlen : b.length < rd.length :=
      not_le.mp fun hle => nameToWire_ne_nil hw (drop_of_length_le hle)
    rw [if_neg (by omega), hn]
    refine ⟨_, rfl, ?_⟩
    rw [hencode, nonempty_nameRdata]
    exact ⟨_, hw, (append_eq_iff_drop (htake hlen)).mpr rfl⟩

theorem kept_mx (rd : Bytes) :
    (∃ text, xfrRdataToStore MX rd = some text ∧
      nonempty (storedRdata MX text 512) = some rd) ↔
      ∃ n, rdataName rd 2 = some n ∧ nameToWire n 510 = some (rd.drop 2) := by
  refine kept_named (b := put16 (get16 rd 0)) (f := fun tgt => decimal (get16 rd 0) ++ 124 :: tgt)
    rfl (fun n => ?_) fun hlen => put16_get16_take (Nat.le_of_lt hlen)
  rw [storedRdata_mx, get16_mod]

theorem kept_srv (rd : Bytes) :
    (∃ text, xfrRdataToStore SRV rd = some text ∧
      nonempty (storedRdata SRV text 512) = some rd) ↔
      ∃ n, rdataName rd 6 = some n ∧
        nameToWire ((strtok bar n).headD []) 506 = some (rd.drop 6) := by
  refine kept_named (b := put16 (get16 rd 0) ++ put16 (get16 rd 2) ++ put16 (get16 rd 4))
    (f := srvText (get16 rd 0) (get16 rd 2) (get16 rd 4)) (g := fun n => (strtok bar n).headD [])
    rfl (fun n => ?_) fun hlen => ?_
  · rw [storedRdata_srv, get16_mod, get16_mod, get16_mod]
  · obtain ⟨a, b, c, d, e, f, rest, rfl⟩ : ∃ a b c d e f rest,
        rd = a :: b :: c :: d :: e :: f :: rest := by
      rcases rd with _ | ⟨a, _ | ⟨b, _ | ⟨c, _ | ⟨d, _ | ⟨e, _ | ⟨f, rest⟩⟩⟩⟩⟩⟩
      case cons.cons.cons.cons.cons.cons => exact ⟨a, b, c, d, e, f, rest, rfl⟩
      all_goals simp [put16] at hlen
    simp only [put16_get16]
    rfl

theorem txtEncode_short {s : Text} (h : s.length ≤ 255) (hne : s ≠ []) :
    txtEncode s 512 = some (labelWire s) := by
  obtain ⟨c, cs, rfl⟩ := exists_cons_of_ne_nil hne
  have hdrop : (c :: cs).drop 255 = [] := drop_of_length_le h
  rw [txtEncode, length_cons, txtEncodeFrom, if_neg (by simp), take_of_length_le h, hdrop]
  rw [if_neg (by omega)]
  cases cs.length <;> simp [txtEncodeFrom]

/-- A character string has at most 255 octets. -/
theorem length_cstr_slice (rd : Bytes) :
    (cstr (slice rd 1 (byteAt rd 0).toNat)).length ≤ 255 := by
  have hcut : (cstr (slice rd 1 (byteAt rd 0).toNat)).length ≤ _ :=
    (List.takeWhile_prefix _).length_le
  have hslice := length_slice_le rd 1 (byteAt rd 0).toNat
  have hoctet := (byteAt rd 0).toNat_lt
  omega

theorem kept_txt (rd : Bytes) :
    (∃ text, xfrRdataToStore TXT rd = some text ∧
      nonempty (storedRdata TXT text 512) = some rd) ↔
      ∃ s, s ≠ [] ∧ s.length ≤ 255 ∧ 0 ∉ s ∧ rd = labelWire s := by
  have hstore : xfrRdataToStore TXT rd =
      if rd.length < 1 + (byteAt rd 0).toNat then none
      else some (cstr (slice rd 1 (byteAt rd 0).toNat)) := rfl
  have hencode : ∀ s : Text, s.length ≤ 255 →
      (nonempty (storedRdata TXT s 512) = some rd ↔ s ≠ [] ∧ rd = labelWire s) := by
    intro s hlen
    show nonempty (txtEncode s 512) = some rd ↔ _
    by_cases hne : s = []
    · subst hne
      simp [txtEncode, txtEncodeFrom, nonempty]
    · have hw : labelWire s ≠ [] := cons_ne_nil _ _
      rw [txtEncode_short hlen hne, nonempty, filter_some, if_pos (decide_eq_true hw)]
      simp [hne, eq_comm]
  rw [hstore]
  constructor
  · rintro ⟨text, htext, hre⟩
    split at htext
    · cases htext
    · cases htext
      have hcut := length_cstr_slice rd
      obtain ⟨hne, heq⟩ := (hencode _ hcut).mp hre
      refine ⟨_, hne, hcut, ?_, heq⟩
      intro hmem
      have := mem_takeWhile_imp hmem
      simp at this
  · rintro ⟨s, hne, hlen, hzero, hrd⟩
    have hfirst : (byteAt rd 0).toNat = s.length := by
      rw [hrd]
      show (s.length.toUInt8).toNat = s.length
      rw [Nat.toUInt8_eq, UInt8.toNat_ofNat', Nat.mod_eq_of_lt (by omega)]
    have hslice : slice rd 1 s.length = s := by
      rw [hrd]
      simp [slice, labelWire]
    rw [hfirst, hslice, cstr_eq_self hzero, if_neg (by rw [hrd]; simp [labelWire]; omega)]
    exact ⟨s, rfl, (hencode s hlen).mpr ⟨hne, hrd⟩⟩

/-- A record that is written and read again as itself. -/
theorem kept_iff (h : type ≠ RRType.A ∧ type ≠ AAAA ∧ type ≠ NS) (rd : Bytes) :
    (∃ text, xfrRdataToStore type rd = some text ∧
      nonempty (storedRdata type text 512) = some rd) ↔ Kept type rd := by
  by_cases hmem : type ∈ storedTypes
  · simp only [storedTypes, mem_cons, not_mem_nil, or_false] at hmem
    rcases hmem with rfl | rfl | rfl | rfl | rfl | rfl | rfl | rfl
    · exact absurd rfl h.1
    · exact absurd rfl h.2.1
    · exact absurd rfl h.2.2
    · exact kept_name rd
    · exact kept_name rd
    · exact kept_mx rd
    · exact kept_txt rd
    · exact kept_srv rd
  · constructor
    · rintro ⟨text, htext, -⟩
      exact absurd (mem_storedTypes htext) hmem
    · intro hkept
      simp only [storedTypes, mem_cons, not_mem_nil, or_false, not_or] at hmem
      simp [Kept, hmem] at hkept

/-! ## Replication -/

theorem rdataName_length {off : Nat} {n : Text} (h : rdataName rd off = some n) :
    n.length ≤ 255 := by
  obtain ⟨⟨m, a⟩, hname, rfl⟩ := map_eq_some_iff.mp h
  exact length_nameFromWire_le hname

theorem length_get16 (rd : Bytes) (o : Nat) : (decimal (get16 rd o)).length ≤ 5 :=
  length_numeral_le (by decide) (by decide) ((get16_lt rd o).trans (by decide))

theorem length_xfrRdataToStore (h : type ≠ RRType.A ∧ type ≠ AAAA ∧ type ≠ NS)
    (htext : xfrRdataToStore type rd = some text) : text.length ≤ 273 := by
  have hmem := mem_storedTypes htext
  simp only [storedTypes, mem_cons, not_mem_nil, or_false, h, false_or] at hmem
  have h0 := length_get16 rd 0
  have h2 := length_get16 rd 2
  have h4 := length_get16 rd 4
  rcases hmem with rfl | rfl | rfl | rfl | rfl
  · exact (rdataName_length htext).trans (by decide)
  · exact (rdataName_length htext).trans (by decide)
  · replace htext : (if rd.length < 3 then none
      else (rdataName rd 2).map fun tgt => decimal (get16 rd 0) ++ 124 :: tgt) = some text := htext
    split at htext
    · cases htext
    · obtain ⟨n, hn, rfl⟩ := map_eq_some_iff.mp htext
      have := rdataName_length hn
      simp only [length_append, length_cons]
      omega
  · replace htext : (if rd.length < 1 + (byteAt rd 0).toNat then none
      else some (cstr (slice rd 1 (byteAt rd 0).toNat))) = some text := htext
    split at htext
    · cases htext
    · cases htext
      exact (length_cstr_slice rd).trans (by decide)
  · replace htext : (if rd.length < 7 then none
      else (rdataName rd 6).map fun tgt =>
        srvText (get16 rd 0) (get16 rd 2) (get16 rd 4) tgt) = some text := htext
    split at htext
    · cases htext
    · obtain ⟨n, hn, rfl⟩ := map_eq_some_iff.mp htext
      have := rdataName_length hn
      simp only [srvText, length_append, length_cons]
      omega

theorem ttl_lt_of_mem_held {zname : Text} {n : Text} {v : Nat × Bytes} (h : v ∈ D.held zname p n) :
    v.1 < 2 ^ 32 := by
  have hpass : ∀ pass : AxfrPass, v ∈ pass.held D.store zname p n → v.1 < 2 ^ 32 := by
    intro pass hmem
    unfold AxfrPass.held at hmem
    split at hmem
    · unfold AxfrPass.values at hmem
      split at hmem
      · cases hmem
      · cases pass with
        | zone =>
          obtain ⟨rd, -, rfl⟩ := mem_map.mp hmem
          unfold splitTtl
          split
          · show (_ % 2 ^ 32 : Int).toNat < 2 ^ 32
            omega
          · exact (by decide : defaultTtl < 2 ^ 32)
        | ddns =>
          obtain ⟨rd, -, rfl⟩ := mem_map.mp hmem
          exact Nat.mod_lt _ (by decide)
    · cases hmem
  rw [Dnsd.held, mem_append, mem_append] at h
  rcases h with (hstatic | hzone) | hddns
  · obtain ⟨r, hr, hmem⟩ := mem_flatMap.mp hstatic
    obtain ⟨rd, -, rfl⟩ := mem_map.mp hmem
    exact (by decide : ∀ r ∈ staticZone, r.ttl < 2 ^ 32) r (mem_filter.mp hr).1
  · exact hpass _ hzone
  · exact hpass _ hddns

/-- A value with one record is read whole. -/
theorem zoneRdata_single {ttl : Nat} (h : type ≠ RRType.A ∧ type ≠ AAAA ∧ type ≠ NS)
    (htext : xfrRdataToStore type rd = some text) (httl : ttl < 2 ^ 32) :
    zoneRdata type ((decimal ttl ++ [124] ++ text).take 767) =
      (nonempty (storedRdata type text 512)).toList := by
  have hdec := length_serial_le httl
  have hlen := length_xfrRdataToStore h htext
  have hds : type ≠ DS := by
    rintro rfl
    exact absurd (mem_storedTypes htext) (by decide)
  rw [take_of_length_le (by simp only [length_append, length_singleton]; omega),
    zoneRdata, splitTtl_text]
  simp [h, hds]

/-- Of the records of a type with one value the last kept one is read back. -/
theorem single_iff {l : List (Nat × Bytes)}
    (h : type ≠ RRType.A ∧ type ≠ AAAA ∧ type ≠ NS) (httl : ∀ v ∈ l, v.1 < 2 ^ 32) :
    (∀ rd, rd ∈ (match (keptTexts type l).getLast? with
      | none => []
      | some g => zoneRdata type ((decimal g.1 ++ [124] ++ g.2).take 767)) ↔
        ∃ ttl, (ttl, rd) ∈ l) ↔
      l = [] ∨ ∃ rd, (∀ v ∈ l, v.2 = rd) ∧ Kept type rd := by
  -- the value read back from a kept record
  have hread : ∀ g ∈ keptTexts type l, ∃ v ∈ l, xfrRdataToStore type v.2 = some g.2 ∧
      zoneRdata type ((decimal g.1 ++ [124] ++ g.2).take 767) =
        (nonempty (storedRdata type g.2 512)).toList := by
    intro g hg
    obtain ⟨v, hv, hmap⟩ := mem_filterMap.mp hg
    obtain ⟨text, htext, rfl⟩ := map_eq_some_iff.mp hmap
    exact ⟨v, hv, htext, zoneRdata_single h htext (httl v hv)⟩
  constructor
  · intro hsame
    by_cases hl : l = []
    · exact .inl hl
    obtain ⟨v, hv⟩ := exists_mem_of_ne_nil l hl
    have hmem := (hsame v.2).mpr ⟨v.1, hv⟩
    cases hlast : (keptTexts type l).getLast? with
    | none =>
      rw [hlast] at hmem
      cases hmem
    | some g =>
      rw [hlast] at hmem hsame
      obtain ⟨w, hw, htext, hval⟩ := hread g (mem_of_getLast? hlast)
      simp only [hval, mem_toList] at hmem hsame
      have hall : ∀ u ∈ l, u.2 = v.2 := fun u hu =>
        some.inj (((hsame u.2).mpr ⟨u.1, hu⟩).symm.trans hmem)
      refine .inr ⟨v.2, hall, (kept_iff h v.2).mp ⟨g.2, ?_, hmem⟩⟩
      rw [← hall w hw, htext]
  · rintro (rfl | ⟨rd, hall, hkept⟩)
    · simp [keptTexts]
    obtain ⟨text, htext, hre⟩ := (kept_iff h rd).mpr hkept
    have hkeptl : keptTexts type l = l.map fun v => (v.1, text) := by
      rw [keptTexts, ← filterMap_eq_map]
      refine filterMap_congr fun v hv => ?_
      rw [hall v hv, htext]
      rfl
    intro rd'
    cases hlast : l.getLast? with
    | none =>
      obtain rfl := getLast?_eq_none_iff.mp hlast
      simp [keptTexts]
    | some u =>
      have hu := mem_of_getLast? hlast
      rw [hkeptl, getLast?_map, hlast]
      simp only [map_some]
      rw [zoneRdata_single h htext (httl u hu), hre]
      constructor
      · intro hmem
        obtain rfl : rd' = rd := by simpa using hmem
        exact ⟨u.1, by rw [← hall u hu]; exact hu⟩
      · rintro ⟨ttl, hmem⟩
        have := hall _ hmem
        simpa using this

/-! ## Groups -/

theorem barred_take (ts : List Text) (n : Nat) :
    (barred ts).take n = [] ∨ ∃ text, (barred ts).take n = bar :: text := by
  cases ts with
  | nil => exact .inl take_nil
  | cons t ts =>
    cases n with
    | zero => exact .inl rfl
    | succ n => exact .inr ⟨_, rfl⟩

theorem strtok_bar_cons (text : Text) : strtok bar (bar :: text) = strtok bar text :=
  strtok_append_cons bar [] text

/-- In front of a bar, or of nothing, a text keeps its pieces. -/
theorem strtok_append_barred (t : Text) (ts : List Text) (n : Nat) :
    strtok bar (t ++ (barred ts).take n) = strtok bar t ++ strtok bar ((barred ts).take n) := by
  obtain hnil | ⟨text, htext⟩ := barred_take ts n
  · rw [hnil, append_nil]
    exact (append_nil _).symm
  · rw [htext, strtok_append_cons, strtok_bar_cons]

theorem filterMap_strtok {t : Text} (h : bar ∉ t) :
    rd ∈ (strtok bar t).filterMap (groupedRdata type) ↔ Spells type t rd := by
  by_cases hne : t = []
  · subst hne
    simp [strtok, Spells]
  · rw [strtok_of_notMem h hne]
    simp [Spells, hne]

/-- **The entries of a text that is cut** are the records that fit and the one that the rest of the
next text spells. -/
theorem mem_fitting {l : List Bytes} (h : ∀ rd ∈ l, ReadBack type rd) (room : Nat) :
    rd ∈ (strtok bar ((barred (l.map (storedText type))).take room)).filterMap
        (groupedRdata type) ↔
      rd ∈ (fitting type room l).1 ∨ Spells type (fitting type room l).2 rd := by
  induction l generalizing room with
  | nil => simp [barred, fitting, strtok, Spells]
  | cons r l ih =>
    obtain ⟨t, ht, hbar, henc⟩ := h r mem_cons_self
    have htext : storedText type r = t := by rw [storedText, ht, getD_some]
    have hcons : barred (t :: l.map (storedText type)) =
        bar :: (t ++ barred (l.map (storedText type))) := rfl
    rw [map_cons, fitting, htext, hcons]
    dsimp only
    cases room with
    | zero => simp [strtok, Spells]
    | succ room =>
      rw [take_succ_cons, strtok_bar_cons]
      split
      · -- the whole text is an entry, and a bar or nothing follows
        rw [take_append, take_of_length_le (by omega), strtok_append_barred, filterMap_append,
          mem_append, filterMap_strtok hbar, ih fun rd hrd => h rd (mem_cons_of_mem _ hrd),
          Nat.add_sub_add_right]
        split
        · rename_i hnil
          simp [Spells, hnil]
        · rename_i hne
          have hwhole : Spells type t rd ↔ rd = r := by simp [Spells, henc, hne, eq_comm]
          rw [hwhole, mem_cons]
          tauto
      · rw [take_append_of_le_length (by omega),
          filterMap_strtok fun hm => hbar (mem_of_mem_take hm)]
        simp

theorem subset_fitting {l : List Bytes} {room : Nat} (h : rd ∈ (fitting type room l).1) :
    rd ∈ l := by
  fun_induction fitting type room l with
  | case1 => exact h
  | case2 room r l t hlt f ih =>
    split at h
    · exact mem_cons_of_mem _ (ih h)
    · obtain rfl | h := mem_cons.mp h
      · exact mem_cons_self
      · exact mem_cons_of_mem _ (ih h)
  | case3 => cases h

/-- A name as `name_from_wire` returns it has no upper-case letter and no zero octet. -/
theorem folded_rdataName (h : rdataName rd 0 = some text) :
    ∀ c ∈ text, lowerByte c = c ∧ c ≠ 0 := by
  intro c hc
  obtain ⟨⟨m, a⟩, hname, rfl⟩ := map_eq_some_iff.mp h
  obtain ⟨⟨b, e⟩, -, heq⟩ := map_eq_some_iff.mp hname
  cases heq
  obtain ⟨d, hd, rfl⟩ := mem_map.mp hc
  refine ⟨lowerByte_lowerByte d, fun hz => notMem_cstr b ?_⟩
  rwa [← lowerByte_eq_zero.mp hz]

theorem readBack_ns {t : Text} (hbar : bar ∉ t) (hfold : ∀ c ∈ t, lowerByte c = c ∧ c ≠ 0)
    (h : nameToWire t 300 = some rd) : ReadBack NS rd := by
  obtain ⟨a, hloop, -⟩ := nameLoop_encoded h [] []
  rw [nil_append, append_nil] at hloop
  obtain ⟨hshort, rfl, hlen⟩ := wireLoop_eq_some_iff.mp h
  have hsub : ∀ c ∈ safeStrcpy t 256, c ∈ t := fun c hc => mem_of_mem_take hc
  have htext : (safeStrcpy t 256).length ≤ 255 := length_take_le _ _
  generalize safeStrcpy t 256 = s at hshort htext hsub hlen hloop ⊢
  have hjoin := length_joinDots_labels s
  have hmem : ∀ l ∈ labels s, ∀ c ∈ l, c ∈ t := fun l hl c hc => hsub c (mem_of_mem_labels hl hc)
  have hlower : strlower (joinDots (labels s)) = joinDots (labels s) := by
    have hs : strlower s = s :=
      (map_congr_left fun c hc => (hfold c (hsub c hc)).1).trans (map_id s)
    rw [strlower_joinDots, ← labels_strlower, hs]
  have hzero : 0 ∉ joinDots (labels s) :=
    notMem_joinDots (by decide) fun l hl hz => (hfold 0 (hmem l hl 0 hz)).2 rfl
  have hread : rdataName (nameWire (labels s)) 0 = some (joinDots (labels s)) := by
    have hname : nameLoop (nameWire (labels s)) 256 128 0 [] none = _ := hloop
    rw [rdataName, nameFromWire, hname, map_some, map_some, cstr_eq_self hzero, hlower]
  refine ⟨_, hread, notMem_joinDots (by decide) fun l hl hb => hbar (hmem l hl _ hb),
    (nameToWire_eq_some_iff (by omega)).mpr ?_⟩
  rw [labels_joinDots (proper_labels s)]
  exact ⟨hshort, rfl, by simpa using hlen⟩

theorem readBack_address {t : Text} {f : Family} (h : f.pton t = some rd) :
    ReadBack f.rrtype rd := by
  have hlen := (Family.pton_spec h).1
  have hpton := Address.pton_text ⟨f, rd, hlen⟩
  refine ⟨f.ntop rd, by cases f <;> exact if_pos hlen, fun hb => ?_, by cases f <;> exact hpton⟩
  exact (isAddressChar_spec (Family.isAddressChar_of_mem_ntop hb)).2.2.1 rfl

section Grouped

variable (htype : type = RRType.A ∨ type = AAAA ∨ type = NS)

include htype

/-- The octets of the value that are read stand behind its TTL. -/
theorem regrouped_eq {l : List (Nat × Text)} (httl : ∀ g ∈ l, g.1 < 2 ^ 32) :
    regrouped type l = (strtok bar ((barred (l.map (·.2))).take
      (767 - (decimal (l.headD (0, [])).1).length))).filterMap (groupedRdata type) := by
  cases l with
  | nil => rfl
  | cons g gs =>
    have hdec := length_serial_le (httl g mem_cons_self)
    obtain ⟨room, hroom⟩ : ∃ room, 767 - (decimal g.1).length = room + 1 :=
      ⟨766 - (decimal g.1).length, by omega⟩
    have hval : (decimal g.1 ++ barred ((g :: gs).map (·.2))).take 767 =
        decimal g.1 ++ [124] ++ (g.2 ++ barred (gs.map (·.2))).take room := by
      rw [take_append, take_of_length_le (by omega), hroom, append_assoc]
      rfl
    have hentries : ∀ val, zoneRdata type val =
        (strtok bar (splitTtl val).2).filterMap (groupedRdata type) := by
      rcases htype with rfl | rfl | rfl <;> exact fun val => rfl
    rw [regrouped, hentries, hval, splitTtl_text, headD_cons, hroom]
    exact congrArg (filterMap _) (strtok_bar_cons _).symm

variable {l : List (Nat × Bytes)} (httl : ∀ v ∈ l, v.1 < 2 ^ 32)

include httl

/-- A record that comes back is `ReadBack`. -/
theorem readBack_of_mem_regrouped (h : rd ∈ regrouped type (keptTexts type l)) :
    ReadBack type rd := by
  have hkept : ∀ u ∈ keptTexts type l, u.1 < 2 ^ 32 ∧ ∃ rd, xfrRdataToStore type rd = some u.2 := by
    intro u hu
    obtain ⟨v, hv, hmap⟩ := mem_filterMap.mp hu
    obtain ⟨t, ht, rfl⟩ := map_eq_some_iff.mp hmap
    exact ⟨httl v hv, v.2, ht⟩
  rw [regrouped_eq htype fun u hu => (hkept u hu).1] at h
  obtain ⟨t, ht, hrd⟩ := mem_filterMap.mp h
  rcases htype with rfl | rfl | rfl
  · exact readBack_address (f := .inet) hrd
  · exact readBack_address (f := .inet6) hrd
  · refine readBack_ns (notMem_of_mem_splitOn (mem_filter.mp ht).1) (fun c hc => ?_) hrd
    obtain ⟨t', ht', hct⟩ := mem_flatMap.mp (mem_of_mem_take (mem_of_mem_strtok ht hc))
    obtain ⟨u, hu, rfl⟩ := mem_map.mp ht'
    obtain rfl | hct := mem_cons.mp hct
    · decide
    · obtain ⟨-, rd', htext⟩ := hkept u hu
      exact folded_rdataName htext c hct

/-- What comes back of records that are `ReadBack`. -/
theorem mem_regrouped (hread : ∀ v ∈ l, ReadBack type v.2) :
    rd ∈ regrouped type (keptTexts type l) ↔
      rd ∈ (fitted type l).1 ∨ Spells type (fitted type l).2 rd := by
  have htexts : keptTexts type l = l.map fun v => (v.1, storedText type v.2) := by
    rw [keptTexts, ← filterMap_eq_map]
    refine filterMap_congr fun v hv => ?_
    obtain ⟨t, ht, -⟩ := hread v hv
    simp [storedText, ht]
  have hhead : ((l.map fun v => (v.1, storedText type v.2)).headD (0, [])).1 =
      (l.headD (0, [])).1 := by cases l <;> rfl
  have hshort : ∀ g ∈ l.map fun v => (v.1, storedText type v.2), g.1 < 2 ^ 32 :=
    forall_mem_map.mpr httl
  rw [htexts, regrouped_eq htype hshort, hhead, List.map_map, fitted,
    ← mem_fitting (forall_mem_map.mpr hread), List.map_map]
  rfl

theorem grouped_iff :
    (∀ rd, rd ∈ regrouped type (keptTexts type l) ↔ ∃ ttl, (ttl, rd) ∈ l) ↔
      Replicable type l := by
  rw [Replicable, if_pos htype]
  constructor
  · intro hsame
    have hread : ∀ v ∈ l, ReadBack type v.2 := fun v hv =>
      readBack_of_mem_regrouped htype httl ((hsame v.2).mpr ⟨v.1, hv⟩)
    simp only [mem_regrouped htype httl hread] at hsame
    exact ⟨fun v hv => ⟨hread v hv, (hsame v.2).mpr ⟨v.1, hv⟩⟩, fun rd h => (hsame rd).mp (.inr h)⟩
  · rintro ⟨hall, hpiece⟩ rd
    rw [mem_regrouped htype httl fun v hv => (hall v hv).1]
    constructor
    · rintro (hfit | hspell)
      · obtain ⟨v, hv, rfl⟩ := mem_map.mp (subset_fitting hfit)
        exact ⟨v.1, hv⟩
      · exact hpiece rd hspell
    · rintro ⟨ttl, hmem⟩
      exact (hall _ hmem).2

end Grouped

/-- **A transfer replicates an owner and a type exactly when what the primary has of it is
`Replicable`.** -/
theorem replicated_iff {D : Dnsd} {Z : ServedZone} {S : Settings} {sec sec' : State}
    (hD : CanonicalKeys D Z.name) (haccept : xfrPull S sec Z.name (axfrStream D Z) = some sec')
    {p : Text × Nat} (hp : p ∈ ztypes) (n : Text) :
    (∀ rd, rd ∈ restored sec'.store Z.name p n ↔
      ∃ ttl, XfrRR.data n p.2 ttl rd ∈ axfrStream D Z) ↔
      Replicable p.2 (D.held Z.name p n) := by
  have hsent : ∀ rd, (∃ ttl, XfrRR.data n p.2 ttl rd ∈ axfrStream D Z) ↔
      ∃ ttl, (ttl, rd) ∈ D.held Z.name p n := by
    intro rd
    refine exists_congr fun ttl => ?_
    have hmem : XfrRR.data n p.2 ttl rd ∈ axfrStream D Z ↔ XfrRR.data n p.2 ttl rd ∈ axfrData D Z :=
      by simp [axfrStream]
    rw [← sent_eq_held hD hp n, mem_filterMap, hmem]
    constructor
    · intro h
      exact ⟨_, h, by simp [XfrRR.at]⟩
    · rintro ⟨rr, hrr, hat⟩
      cases rr with
      | soa s => cases hat
      | data o t ttl' rd' =>
        simp only [XfrRR.at] at hat
        split at hat
        · rename_i heq
          cases hat
          rwa [heq.1, heq.2] at hrr
        · cases hat
  have httl : ∀ v ∈ D.held Z.name p n, v.1 < 2 ^ 32 := fun v hv => ttl_lt_of_mem_held hv
  simp only [hsent]
  by_cases hgroup : p.2 = RRType.A ∨ p.2 = AAAA ∨ p.2 = NS
  · rw [restored_grouped hD haccept hp hgroup]
    exact grouped_iff hgroup httl
  · rw [Replicable, if_neg hgroup]
    simp only [not_or] at hgroup
    rw [restored_single hD haccept hp hgroup]
    exact single_iff hgroup httl

/-! ## A record that is lost and one that is kept -/

/-- A primary for `z` with one provisioned value at `h.z`. -/
def provisioned (type value : Text) : Dnsd :=
  { plainServer [(zkey (lit "z") type (lit "h.z"), value)] with
    scan := fun pat => if pat = recordKey (lit "zone") (lit "z") type [] ++ lit "*" then
      [zkey (lit "z") type (lit "h.z")] else [] }

theorem canonicalKeys_provisioned (hp : p ∈ ztypes) (value : Text) :
    CanonicalKeys (provisioned p.1 value) (lit "z") := by
  -- the only key lies under the prefix of its own type
  have hkey : ∀ p ∈ ztypes, ∀ pre ∈ axfrPrefixes (lit "z"),
      pre <+: zkey (lit "z") p.1 (lit "h.z") → pre = recordKey (lit "zone") (lit "z") p.1 [] := by
    decide +kernel
  have hstore : ∀ key, ((provisioned p.1 value).store key).isSome = true ↔
      key = zkey (lit "z") p.1 (lit "h.z") := by
    intro key
    show ((([(zkey (lit "z") p.1 (lit "h.z"), value)] : List (Text × Text)).lookup key).map
      _).isSome = true ↔ _
    by_cases h : key = zkey (lit "z") p.1 (lit "h.z")
    · simp [h]
    · simp [lookup_cons, h, beq_eq_false_iff_ne.mpr h]
  refine ⟨by decide, by decide, ?_, ?_, ?_⟩
  · intro pre hpre
    show (ite _ _ _ : List Text).Nodup
    split <;> simp
  · intro pre hpre key
    show key ∈ (ite _ _ _ : List Text) ↔ _
    rw [hstore]
    split
    · rename_i heq
      rw [mem_singleton, append_cancel_right heq, iff_and_self]
      rintro rfl
      exact ⟨lit "h.z", (recordKey_append ..).symm⟩
    · rename_i hne
      refine ⟨fun h => absurd h not_mem_nil, ?_⟩
      rintro ⟨hk, rfl⟩
      exact absurd (by rw [hkey p hp pre hpre hk]) hne
  · intro pre hpre n hn
    have heq := (hstore _).mp hn
    obtain rfl := hkey p hp pre hpre ⟨n, heq⟩
    obtain rfl := append_cancel_left (heq.trans (recordKey_append ..))
    decide +kernel

/-- **A CAA record is sent and lost**: the secondary accepts the transfer and has no value for
it. -/
theorem caa_not_replicated :
    ∃ sec', CanonicalKeys (provisioned (lit "CAA") (lit "300|0|issue|ca.z")) (lit "z") ∧
      xfrPull sampleSettings sampleState (lit "z")
        (axfrStream (provisioned (lit "CAA") (lit "300|0|issue|ca.z")) (plainZone (lit "z"))) =
          some sec' ∧
      XfrRR.data (lit "h.z") CAA 300 (0 :: labelWire (lit "issue") ++ lit "ca.z") ∈
        axfrStream (provisioned (lit "CAA") (lit "300|0|issue|ca.z")) (plainZone (lit "z")) ∧
      restored sec'.store (lit "z") (lit "CAA", CAA) (lit "h.z") = [] := by
  have hcanon := canonicalKeys_provisioned (p := (lit "CAA", CAA)) (by decide)
    (lit "300|0|issue|ca.z")
  exact ⟨_, hcanon, (some_get (by decide +kernel)).symm, by decide +kernel,
    by decide +kernel⟩

/-- An address is replicated. -/
theorem replicated_address :
    ∃ sec', xfrPull sampleSettings sampleState (lit "z")
        (axfrStream (provisioned (lit "A") (lit "300|192.0.2.1")) (plainZone (lit "z"))) =
          some sec' ∧
      ∀ rd, rd ∈ restored sec'.store (lit "z") (lit "A", RRType.A) (lit "h.z") ↔
        ∃ ttl, XfrRR.data (lit "h.z") RRType.A ttl rd ∈
          axfrStream (provisioned (lit "A") (lit "300|192.0.2.1")) (plainZone (lit "z")) := by
  obtain ⟨sec', hsec⟩ : ∃ sec', xfrPull sampleSettings sampleState (lit "z")
      (axfrStream (provisioned (lit "A") (lit "300|192.0.2.1")) (plainZone (lit "z"))) =
        some sec' := by decide +kernel
  have hheld : (provisioned (lit "A") (lit "300|192.0.2.1")).held (lit "z") (lit "A", RRType.A)
      (lit "h.z") = [(300, [192, 0, 2, 1])] := by decide +kernel
  have hfit : fitted RRType.A [(300, [192, 0, 2, 1])] = ([[192, 0, 2, 1]], []) := by
    decide +kernel
  have hread : ReadBack RRType.A [192, 0, 2, 1] :=
    ⟨lit "192.0.2.1", by decide +kernel, by decide, by decide +kernel⟩
  have hcanon := canonicalKeys_provisioned (p := (lit "A", RRType.A)) (by decide)
    (lit "300|192.0.2.1")
  have hmem : (lit "A", RRType.A) ∈ ztypes := by decide
  refine ⟨sec', hsec, (replicated_iff (Z := plainZone (lit "z")) hcanon hsec hmem
    (lit "h.z")).mpr ?_⟩
  show Replicable RRType.A ((provisioned (lit "A") (lit "300|192.0.2.1")).held (lit "z")
    (lit "A", RRType.A) (lit "h.z"))
  rw [hheld, Replicable, if_pos (.inl rfl), hfit]
  simp [hread, Spells]

end SimpleDns.Server
