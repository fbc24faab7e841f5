import SimpleDns.Server.FullTransfer
import SimpleDns.Wire.Encoded

/-!
# The canonical form of stored values

`zmd_add` and `make_rrsig` bring rdata into canonical form (`canon_rdata`), which can fail: for
rdata that is too large for its buffer, and for a name that is not one. Neither happens to what
`stored_rdata` and the transfer make of a value of the store.

* **`canonizable_stored`**: what `stored_rdata` encodes, type by type.
* **`canonizable_zoneRdata`**: what a provisioned value is transferred as.
-/

namespace SimpleDns.Server

open Wire Lib List Option RRType
open Resolver (canonRRMax)

/-! ## Lengths -/

variable {rd : Bytes}

theorem length_txtEncodeFrom_le {maxlen fuel out : Nat} {s : Text} (hout : out ≤ maxlen)
    (h : txtEncodeFrom maxlen fuel s out = some rd) : out + rd.length ≤ maxlen := by
  induction fuel generalizing s out rd with
  | zero =>
    cases h
    simpa using hout
  | succ fuel ih =>
    rw [txtEncodeFrom] at h
    split at h
    · cases h
      simpa using hout
    · dsimp only at h
      split at h
      · cases h
      · obtain ⟨rest, hrest, rfl⟩ := map_eq_some_iff.mp h
        have := ih (by omega) hrest
        rw [length_append, labelWire, length_cons]
        omega

variable {outcap : Nat}

theorem length_svcParams_le {items : List (UInt8 × Bytes)} {o : Nat} {keys : List Nat}
    (ho : o ≤ outcap) (h : svcParams items outcap keys o = some rd) : o + rd.length ≤ outcap := by
  induction keys generalizing o rd with
  | nil =>
    cases h
    simpa using ho
  | cons key keys ih =>
    rw [svcParams] at h
    split at h
    · exact ih ho h
    · split at h
      · cases h
      · obtain ⟨rest, hrest, rfl⟩ := map_eq_some_iff.mp h
        have := ih (by omega) hrest
        simp only [length_append, length_put16]
        omega

theorem mem_of_tlvLast {items : List (UInt8 × Bytes)} {tag : UInt8} {v : Bytes}
    (h : tlvLast items tag = some v) : (tag, v) ∈ items := by
  obtain ⟨p, hp, rfl⟩ := map_eq_some_iff.mp h
  have htag : p.1 = tag := by simpa using find?_some hp
  rw [← htag]
  exact mem_reverse.mp (mem_of_find?_eq_some hp)

theorem length_svcbTlvToWire_le {tlv : Bytes} (hcap : 2 ≤ outcap)
    (h : svcbTlvToWire tlv outcap = some rd) : rd.length ≤ outcap := by
  unfold svcbTlvToWire at h
  simp only [bind_eq_bind, bind_eq_some_iff] at h
  obtain ⟨items, -, h⟩ := h
  split at h
  · cases h
  · rename_i hany
    simp only [bind_eq_some_iff] at h
    obtain ⟨prio, hprio, w, hw, h⟩ := h
    obtain ⟨ps, hps, rfl⟩ := map_eq_some_iff.mp h
    have hlen : prio.length = 2 := by
      by_contra hne
      refine hany (any_eq_true.mpr ⟨_, mem_of_tlvLast hprio, ?_⟩)
      simp [hne]
    obtain ⟨-, -, hwle⟩ := wireLoop_eq_some_iff.mp hw
    have := length_svcParams_le (by omega) hps
    simp only [length_append]
    omega

theorem length_zonemdTlvToWire_le {tlv : Bytes} (h : zonemdTlvToWire tlv outcap = some rd) :
    rd.length ≤ outcap := by
  unfold zonemdTlvToWire at h
  simp only [bind_eq_bind, bind_eq_some_iff] at h
  obtain ⟨items, -, h⟩ := h
  split at h
  · cases h
  · rename_i hany
    simp only [bind_eq_some_iff] at h
    obtain ⟨serial, hserial, scheme, hscheme, hashalg, hhash, digest, -, h⟩ := h
    have hsize : ∀ {tag : UInt8} {v : Bytes}, tlvLast items tag = some v →
        (tag = 1 ∨ tag = 2 ∨ tag = 3) → v.length = if tag = 1 then 4 else 1 := by
      intro tag v hv htag
      by_contra hne
      refine hany (any_eq_true.mpr ⟨_, mem_of_tlvLast hv, ?_⟩)
      simp [hne]
      tauto
    have h₁ := hsize hserial (by simp)
    have h₂ := hsize hscheme (by simp)
    have h₃ := hsize hhash (by simp)
    split at h
    · cases h
    · cases h
      simp only [length_append, h₁, h₂, h₃]
      simp
      omega

theorem length_labelWire_safeStrcpy (s : Text) (size : Nat) (h : 0 < size) :
    (labelWire (safeStrcpy s size)).length ≤ size := by
  rw [labelWire, length_cons, safeStrcpy, length_take]
  omega

variable {name : Text}

theorem length_nameToWire_le {blen : Nat} {w : Bytes} (h : nameToWire name blen = some w) :
    w.length ≤ blen :=
  (wireLoop_eq_some_iff.mp h).2.2.trans' (Nat.le_add_left _ _)

theorem length_getD_nameToWire_le (name : Text) (blen : Nat) :
    ((nameToWire name blen).getD []).length ≤ blen := by
  cases h : nameToWire name blen with
  | none => exact Nat.zero_le _
  | some w => exact length_nameToWire_le h

theorem length_naptrRdata_le (val : Text) : (naptrRdata val 512).length ≤ 512 := by
  unfold naptrRdata
  rcases strtokN bar 4 val with ⟨toks, rest⟩
  dsimp only
  generalize (if bar ∈ rest then _ else _ : Text × Text) = parts
  obtain ⟨re, repl⟩ := parts
  dsimp only
  have hpre : (put16 (fieldU16 toks 0) ++ put16 (fieldU16 toks 1) ++
      labelWire (fieldText toks 2 64) ++ labelWire (fieldText toks 3 64) ++
      labelWire (safeStrcpy re 256)).length ≤ 388 := by
    have h₂ := length_labelWire_safeStrcpy (toks[2]?.getD []) 64 (by decide)
    have h₃ := length_labelWire_safeStrcpy (toks[3]?.getD []) 64 (by decide)
    have h₄ := length_labelWire_safeStrcpy re 256 (by decide)
    simp only [length_append, length_put16, fieldText]
    omega
  generalize put16 (fieldU16 toks 0) ++ put16 (fieldU16 toks 1) ++
    labelWire (fieldText toks 2 64) ++ labelWire (fieldText toks 3 64) ++
    labelWire (safeStrcpy re 256) = pre at hpre
  have hname := length_getD_nameToWire_le
    (if safeStrcpy repl 256 = [] then [dot] else safeStrcpy repl 256) (512 - pre.length)
  rw [length_append]
  omega

theorem length_csyncEncodeRdata_le {serial flags outsz : Nat} {csv : Text}
    (h : csyncEncodeRdata serial flags csv outsz = some rd) : rd.length ≤ outsz := by
  unfold csyncEncodeRdata at h
  dsimp only at h
  generalize ((strtok 44 csv).map str2type).filter _ = types at h
  generalize (if types = [] then [] else 0 :: labelWire (typeBitmap types)) = bitmap at h
  split at h
  · cases h
  · cases h
    rw [length_append, length_append, length_put32, length_put16]
    omega

/-! ## Canonical forms -/

/-- The types whose rdata ends in a name. -/
def nameTypes : List Nat :=
  [NS, CNAME, PTR, DNAME, MX, SRV, SOA]

/-- The rdata fits its buffer and has a canonical form. -/
structure Canonizable (type : Nat) (rd : Bytes) : Prop where
  size : rd.length ≤ canonRRMax
  form : (canonRdata rd 0 rd.length type canonRRMax).isSome = true

variable {type : Nat}

theorem canonizable_of_length (h : type ∉ nameTypes) (hlen : rd.length ≤ canonRRMax) :
    Canonizable type rd := by
  refine ⟨hlen, ?_⟩
  rw [canonRdata_other h, if_pos hlen]
  rfl

theorem canonizable_name {blen : Nat} {w : Bytes} (h : nameToWire name blen = some w)
    (hblen : blen ≤ canonRRMax)
    (htype : type = NS ∨ type = CNAME ∨ type = PTR ∨ type = DNAME) :
    Canonizable type w :=
  ⟨(length_nameToWire_le h).trans hblen, canonRdata_name h (by decide) htype⟩

theorem canonizable_behind {pre : Bytes}
    (hpre : type = MX ∧ pre.length = 2 ∨ type = SRV ∧ pre.length = 6)
    (h : nameRdata pre name 512 = some rd) : Canonizable type rd := by
  obtain ⟨w, hw, rfl⟩ := map_eq_some_iff.mp h
  have := length_nameToWire_le hw
  refine ⟨?_, canonRdata_behind hw (by decide) hpre⟩
  rw [canonRRMax, length_append]
  omega

/-- **What `stored_rdata` encodes has a canonical form.** -/
theorem canonizable_stored {val : Text} (h : storedRdata type val 512 = some rd) :
    Canonizable type rd := by
  unfold storedRdata at h
  by_cases hname : type = CNAME ∨ type = PTR ∨ type = DNAME
  · rw [if_pos hname] at h
    obtain ⟨w, hw, rfl⟩ := map_eq_some_iff.mp h
    exact canonizable_name hw (by decide) (.inr hname)
  rw [if_neg hname] at h
  by_cases hmx : type = MX
  · subst hmx
    rw [if_pos rfl] at h
    split at h
    all_goals exact canonizable_behind (.inl ⟨rfl, rfl⟩) h
  rw [if_neg hmx] at h
  by_cases htxt : type = TXT
  · subst htxt
    rw [if_pos rfl] at h
    have hlen := length_txtEncodeFrom_le (Nat.zero_le _) h
    exact canonizable_of_length (by decide) (by rw [canonRRMax]; omega)
  rw [if_neg htxt] at h
  by_cases hsrv : type = SRV
  · subst hsrv
    rw [if_pos rfl] at h
    exact canonizable_behind (.inr ⟨rfl, rfl⟩) h
  rw [if_neg hsrv] at h
  -- every other type is copied, and small
  have hcopied : ∀ t, t ∉ nameTypes → type = t → rd.length ≤ 800 → Canonizable type rd := by
    rintro t ht rfl hlen
    exact canonizable_of_length ht hlen
  generalize htoks : strtok bar val = toks at h
  have hfield : ∀ i size, (fieldText toks i size).length ≤ size - 1 := fun i size =>
    length_take_le _ _
  split at h
  · rename_i htype
    cases h
    have h₁ := hfield 1 64
    have h₂ := hfield 2 256
    refine hcopied _ (by decide) htype ?_
    simp only [labelWire, length_cons, length_append]
    omega
  split at h
  · rename_i htype
    cases h
    have hhex := length_hexDec_le 64 (toks[2]?.getD [])
    refine hcopied _ (by decide) htype ?_
    simp only [length_cons, length_append, length_nil]
    omega
  split at h
  · rename_i htype
    cases h
    have hhex := length_hexDec_le 512 (toks[3]?.getD [])
    refine hcopied _ (by decide) htype ?_
    simp only [length_cons, length_append, length_nil]
    omega
  split at h
  · rename_i htype
    cases h
    exact hcopied _ (by decide) htype ((length_hexDec_le 512 val).trans (by decide))
  split at h
  · rename_i htype
    cases h
    refine hcopied _ (by decide) htype ?_
    simp only [length_append, length_put16, length_take]
    omega
  split at h
  · rename_i htype
    cases h
    exact hcopied _ (by decide) htype ((length_naptrRdata_le val).trans (by decide))
  split at h
  · rename_i htype
    have hlen := (length_svcbTlvToWire_le (by decide) h).trans (by decide : 512 ≤ 800)
    rcases htype with htype | htype
    · exact hcopied _ (by decide) htype hlen
    · exact hcopied _ (by decide) htype hlen
  split at h
  · rename_i htype
    exact hcopied _ (by decide) htype ((length_zonemdTlvToWire_le h).trans (by decide))
  split at h
  · rename_i htype
    exact hcopied _ (by decide) htype ((length_csyncEncodeRdata_le h).trans (by decide))
  · cases h

theorem canonizable_address {f : Family} {s : Text} (h : f.pton s = some rd) :
    Canonizable f.rrtype rd := by
  have hlen := (Family.pton_spec h).1
  cases f with
  | inet | inet6 => exact canonizable_of_length (by decide) (hlen.trans_le (by decide))

theorem length_dsEntry_le {ent : Text} (h : dsEntry ent = some rd) : rd.length ≤ 132 := by
  unfold dsEntry at h
  simp only [bind_eq_bind, bind_eq_some_iff] at h
  obtain ⟨⟨keytag, s⟩, -, t, -, ⟨alg, u⟩, -, v, -, ⟨digtype, w⟩, -, x, -, h⟩ := h
  have hhex := length_hexDec_le 128 ((x.takeWhile fun c => (digitVal 16 c).isSome).take 256)
  split at h
  · cases h
  · cases h
    simp only [length_append, length_put16, length_cons, length_nil]
    omega

theorem canonizable_zoneRdata {val : Text} (h : rd ∈ zoneRdata type val) : Canonizable type rd := by
  unfold zoneRdata at h
  split at h
  · rename_i htype
    obtain ⟨tok, -, htok⟩ := mem_filterMap.mp h
    rw [htype]
    exact canonizable_address (f := .inet) htok
  split at h
  · rename_i htype
    obtain ⟨tok, -, htok⟩ := mem_filterMap.mp h
    rw [htype]
    exact canonizable_address (f := .inet6) htok
  split at h
  · rename_i htype
    obtain ⟨tok, -, htok⟩ := mem_filterMap.mp h
    exact canonizable_name htok (by decide) (.inl htype)
  split at h
  · rename_i htype
    obtain ⟨tok, -, htok⟩ := mem_filterMap.mp h
    rw [htype]
    exact canonizable_of_length (by decide) ((length_dsEntry_le htok).trans (by decide))
  · rw [mem_toList, nonempty, filter_eq_some_iff] at h
    exact canonizable_stored h.1

end SimpleDns.Server
