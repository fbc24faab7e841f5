import SimpleDns.Wire.Tlv

/-!
# The objects of the registry and their stored form (`eppd.c:921-1498`, `3415-3513`)

A record of the source has strings in `char` arrays and lists in arrays of `EPP_MAX_ARR` entries.
`CString cap` is a string of a `char[cap]`, `Slots` a list that fits its array: a value that does
not fit cannot be built.

* `Domain`, `Host`, `Contact`, `Org`, `PollMsg` are the five records, `Domain.items` and so on the
  TLV items their encoders write.
* The decoders are one loop with a switch over the tag, in which a case touches one field only;
  they are given field by field here, each over the values of its tag.
* **`objects_round_trip`**: what an encoder wrote decodes to the record.
-/

namespace SimpleDns.Epp

open Wire Lib List

/-! ## Strings and lists in arrays -/

/-- A string in a `char[cap]`: what stands before its NUL. -/
@[ext] structure CString (cap : Nat) where
  text : Text
  noNul : 0 ∉ text
  fits : text.length < cap
deriving DecidableEq, Repr

namespace CString

variable {cap : Nat}

/-- A zeroed array. -/
def empty (h : 0 < cap) : CString cap := ⟨[], by simp, h⟩

instance [h : NeZero cap] : Inhabited (CString cap) := ⟨empty (NeZero.pos cap)⟩

/-! The sizes of the arrays. -/

instance neZero8 : NeZero 8 := ⟨by decide⟩
instance neZero16 : NeZero 16 := ⟨by decide⟩
instance neZero24 : NeZero 24 := ⟨by decide⟩
instance neZero32 : NeZero 32 := ⟨by decide⟩
instance neZero46 : NeZero 46 := ⟨by decide⟩
instance neZero64 : NeZero 64 := ⟨by decide⟩
instance neZero128 : NeZero 128 := ⟨by decide⟩
instance neZero256 : NeZero 256 := ⟨by decide⟩
instance neZero1024 : NeZero 1024 := ⟨by decide⟩

/-- `safe_strcpy` into the array. -/
def copy [NeZero cap] (src : Text) : CString cap where
  text := safeStrcpy (cstr src) cap
  noNul h := notMem_cstr src (mem_of_mem_take h)
  fits := by
    have := NeZero.pos cap
    rw [safeStrcpy, length_take]
    omega

/-- `memcpy` of `v` into the array, terminated. -/
def ofBytes (v : Bytes) (h : v.length < cap) : CString cap where
  text := cstr v
  noNul := notMem_cstr v
  fits := (List.takeWhile_prefix _).length_le.trans_lt h

theorem ofBytes_text (s : CString cap) (h : s.text.length < cap) : ofBytes s.text h = s := by
  ext1
  exact cstr_eq_self s.noNul

theorem text_copy [NeZero cap] {src : Text} (h0 : 0 ∉ src) (h : src.length < cap) :
    (copy src : CString cap).text = src := by
  change (cstr src).take (cap - 1) = src
  rw [cstr_eq_self h0, take_of_length_le (by omega)]

end CString

/-- `EPP_MAX_ARR`. -/
def eppMaxArr : Nat := 16

/-- A list in an array of `EPP_MAX_ARR` entries. -/
@[ext] structure Slots (α : Type) where
  list : List α
  fits : list.length ≤ eppMaxArr
deriving DecidableEq, Repr

namespace Slots

variable {α : Type}

instance : Inhabited (Slots α) := ⟨⟨[], Nat.zero_le _⟩⟩

/-- Add behind the last entry, if there is room. -/
def push (s : Slots α) (a : α) : Slots α :=
  if h : s.list.length < eppMaxArr then ⟨s.list ++ [a], by simpa using h⟩ else s

/-- The loops that remove every entry with a property. -/
def removeIf (s : Slots α) (p : α → Bool) : Slots α :=
  ⟨s.list.filter fun a => !p a, (length_filter_le _ _).trans s.fits⟩

@[simp] theorem list_default : (default : Slots α).list = [] := rfl

theorem list_push {l : Slots α} (h : l.list.length < eppMaxArr) (a : α) :
    (l.push a).list = l.list ++ [a] := by
  rw [push, dif_pos h]

/-- Entries that fit are all there. -/
theorem list_foldl_push (l : List α) (s : Slots α) (h : s.list.length + l.length ≤ eppMaxArr) :
    (l.foldl push s).list = s.list ++ l := by
  induction l generalizing s with
  | nil => simp
  | cons a l ih =>
    rw [length_cons] at h
    have hpush := s.list_push (by omega) a
    rw [foldl_cons, ih _ (by rw [hpush]; simp; omega), hpush, append_assoc]
    rfl

/-- A loop that pushes what was written for each entry has them all back. -/
theorem foldl_map_push {β : Type} {f : Slots α → β → Slots α} {g : α → β}
    (hf : ∀ s a, f s (g a) = s.push a) (l : Slots α) : (l.list.map g).foldl f default = l := by
  ext1
  simp only [foldl_map, hf]
  rw [list_foldl_push _ _ (by simpa using l.fits)]
  rfl

end Slots

/-! ## The records -/

/-- `epp_rgp_state_t`; the cast from a stored octet can give a value without a name. -/
inductive RgpState
  | none
  | add
  | autorenew
  | transfer
  | redemption
  | unknown (b : UInt8) (h : 4 < b)
deriving DecidableEq, Repr

/-- The stored octet. -/
def RgpState.toByte : RgpState → UInt8
  | none => 0
  | add => 1
  | autorenew => 2
  | transfer => 3
  | redemption => 4
  | unknown b _ => b

/-- The state of a stored octet. -/
def RgpState.ofByte (b : UInt8) : RgpState :=
  if h : 4 < b then unknown b h
  else if b = 0 then none
  else if b = 1 then add
  else if b = 2 then autorenew
  else if b = 3 then transfer
  else redemption

/-- `EPP_DS_MAX_DIGEST`. -/
def eppDsMaxDigest : Nat := 68

/-- `epp_ds_t`. -/
@[ext] structure Ds where
  keytag : UInt16
  alg : UInt8
  digtype : UInt8
  digest : Bytes
  fits : digest.length ≤ eppDsMaxDigest
deriving DecidableEq, Repr

/-- `epp_domain_t`. -/
structure Domain where
  roid : CString 32
  clid : CString 64
  status : Slots (CString 32)
  authinfo : CString 256
  crdate : UInt32
  exdate : UInt32
  registrant : CString 64
  ns : Slots (CString 256)
  ds : Slots Ds
  rgpState : RgpState
  rgpUntil : UInt32
  transferReid : CString 64
  transferRedate : UInt32
  transferStatus : CString 24
deriving DecidableEq, Repr

/-- `epp_host_t`. -/
structure Host where
  roid : CString 32
  clid : CString 64
  status : Slots (CString 32)
  v4 : Slots (CString 16)
  v6 : Slots (CString 46)
  crdate : UInt32
deriving DecidableEq, Repr

/-- `epp_contact_t`. -/
structure Contact where
  roid : CString 32
  clid : CString 64
  name : CString 128
  email : CString 128
  voice : CString 32
  authinfo : CString 256
  crdate : UInt32
deriving DecidableEq, Repr

/-- `epp_org_t`. -/
structure Org where
  id : CString 64
  roid : CString 32
  clid : CString 64
  status : Slots (CString 32)
  parentid : CString 64
  roles : Slots (CString 32)
  email : CString 128
  voice : CString 32
  crdate : UInt32
deriving DecidableEq, Repr

/-- `epp_poll_msg_t`. -/
structure PollMsg where
  msg : CString 256
  qdate : UInt32
  objtype : CString 16
  objid : CString 256
  cpState : CString 8
  cpOperation : CString 32
  cpWho : CString 64
  cpReason : CString 256
  resdata : CString 1024
deriving DecidableEq, Repr

/-! ## Items -/

/-- `EPP_TAG_*`. -/
def tagRoid : UInt8 := 1
def tagStatus : UInt8 := 2
def tagAuthinfo : UInt8 := 3
def tagCrdate : UInt8 := 4
def tagExdate : UInt8 := 5
def tagRegistrant : UInt8 := 6
def tagNs : UInt8 := 7
def tagAddrV4 : UInt8 := 8
def tagAddrV6 : UInt8 := 9
def tagName : UInt8 := 10
def tagEmail : UInt8 := 11
def tagVoice : UInt8 := 12
def tagClid : UInt8 := 13
def tagRgpState : UInt8 := 14
def tagRgpUntil : UInt8 := 15
def tagDs : UInt8 := 16
def tagTransferReid : UInt8 := 17
def tagTransferRedate : UInt8 := 18
def tagTransferStatus : UInt8 := 19
def tagMsg : UInt8 := 20
def tagQdate : UInt8 := 21
def tagObjtype : UInt8 := 22
def tagObjid : UInt8 := 23
def tagCpState : UInt8 := 24
def tagCpOperation : UInt8 := 25
def tagCpWho : UInt8 := 26
def tagCpReason : UInt8 := 27
def tagResdata : UInt8 := 28
def tagParentid : UInt8 := 29
def tagRole : UInt8 := 30
def tagOrgid : UInt8 := 31

/-- `if (s[0]) tlv_put(tag, s)`. -/
def itemIf {cap : Nat} (tag : UInt8) (s : CString cap) : List Item :=
  if s.text = [] then [] else [(tag, s.text)]

/-- `tlv_put_u32(tag, v)`. -/
def itemU32 (tag : UInt8) (v : UInt32) : Item := (tag, put32 v.toNat)

/-- `if (v) tlv_put_u32(tag, v)`. -/
def itemU32If (tag : UInt8) (v : UInt32) : List Item := if v = 0 then [] else [itemU32 tag v]

/-- One item for each string. -/
def itemsEach {cap : Nat} (tag : UInt8) (l : Slots (CString cap)) : List Item :=
  l.list.map fun s => (tag, s.text)

/-- `keytag(2 BE)|alg(1)|digtype(1)|digest`. -/
def Ds.octets (d : Ds) : Bytes := put16 d.keytag.toNat ++ [d.alg, d.digtype] ++ d.digest

/-- The items of `epp_domain_encode`. -/
def Domain.items (d : Domain) : List Item :=
  [(tagRoid, d.roid.text)] ++ itemIf tagClid d.clid ++ itemsEach tagStatus d.status ++
    itemIf tagAuthinfo d.authinfo ++ [itemU32 tagCrdate d.crdate] ++ itemU32If tagExdate d.exdate ++
    itemIf tagRegistrant d.registrant ++ itemsEach tagNs d.ns ++
    d.ds.list.map (fun e => (tagDs, e.octets)) ++
    (if d.rgpState = .none then [] else [(tagRgpState, [d.rgpState.toByte])]) ++
    itemU32If tagRgpUntil d.rgpUntil ++ itemIf tagTransferReid d.transferReid ++
    itemU32If tagTransferRedate d.transferRedate ++ itemIf tagTransferStatus d.transferStatus

/-- The items of `epp_host_encode`. -/
def Host.items (h : Host) : List Item :=
  [(tagRoid, h.roid.text)] ++ itemIf tagClid h.clid ++ itemsEach tagStatus h.status ++
    itemsEach tagAddrV4 h.v4 ++ itemsEach tagAddrV6 h.v6 ++ [itemU32 tagCrdate h.crdate]

/-- The items of `epp_contact_encode`. -/
def Contact.items (c : Contact) : List Item :=
  [(tagRoid, c.roid.text)] ++ itemIf tagClid c.clid ++ itemIf tagName c.name ++
    itemIf tagEmail c.email ++ itemIf tagVoice c.voice ++ itemIf tagAuthinfo c.authinfo ++
    [itemU32 tagCrdate c.crdate]

/-- The items of `epp_org_encode`. -/
def Org.items (o : Org) : List Item :=
  [(tagOrgid, o.id.text)] ++ [(tagRoid, o.roid.text)] ++ itemIf tagClid o.clid ++
    itemsEach tagStatus o.status ++ itemIf tagParentid o.parentid ++ itemsEach tagRole o.roles ++
    itemIf tagEmail o.email ++ itemIf tagVoice o.voice ++ [itemU32 tagCrdate o.crdate]

/-- The items of `epp_poll_encode`. -/
def PollMsg.items (m : PollMsg) : List Item :=
  [(tagMsg, m.msg.text)] ++ [itemU32 tagQdate m.qdate] ++ [(tagObjtype, m.objtype.text)] ++
    [(tagObjid, m.objid.text)] ++ itemIf tagCpState m.cpState ++
    itemIf tagCpOperation m.cpOperation ++ itemIf tagCpWho m.cpWho ++
    itemIf tagCpReason m.cpReason ++ itemIf tagResdata m.resdata

/-- `epp_domain_encode` into `uint8_t[4096]`. -/
def Domain.encode (d : Domain) : Option Bytes := tlvBuild 4096 d.items

/-- `epp_host_encode` into `uint8_t[4096]`. -/
def Host.encode (h : Host) : Option Bytes := tlvBuild 4096 h.items

/-- `epp_contact_encode` into `uint8_t[2048]`. -/
def Contact.encode (c : Contact) : Option Bytes := tlvBuild 2048 c.items

/-- `epp_org_encode` into `uint8_t[2048]`. -/
def Org.encode (o : Org) : Option Bytes := tlvBuild 2048 o.items

/-- `epp_poll_encode` into `uint8_t[2048]`. -/
def PollMsg.encode (m : PollMsg) : Option Bytes := tlvBuild 2048 m.items

/-! ## Decoding -/

/-- A string field: the last value that fits. -/
def stringField {cap : Nat} [NeZero cap] (vs : List Bytes) : CString cap :=
  vs.foldl (fun cur v => if h : v.length < cap then .ofBytes v h else cur) default

/-- A list of strings: the values that fit, as long as there is room. -/
def stringFields {cap : Nat} (vs : List Bytes) : Slots (CString cap) :=
  vs.foldl (fun cur v => if h : v.length < cap then cur.push (.ofBytes v h) else cur) default

/-- A 32-bit field: the last value. -/
def u32Field (vs : List Bytes) : UInt32 := vs.foldl (fun _ v => tlvU32Of v) 0

/-- `d->rgp_state`. -/
def rgpField (vs : List Bytes) : RgpState :=
  vs.foldl (fun cur v => match v with
    | [b] => .ofByte b
    | _ => cur) .none

/-- One stored DS entry. -/
def Ds.ofBytes (v : Bytes) : Option Ds :=
  if h : 4 ≤ v.length ∧ v.length - 4 ≤ eppDsMaxDigest then
    some ⟨UInt16.ofNat (get16 v 0), byteAt v 2, byteAt v 3, v.drop 4, by simpa using h.2⟩
  else none

/-- `d->ds`. -/
def dsFields (vs : List Bytes) : Slots Ds :=
  vs.foldl (fun cur v => match Ds.ofBytes v with
    | some e => cur.push e
    | none => cur) default

/-- The fields of `epp_domain_decode`. -/
def Domain.ofItems (items : List Item) : Domain where
  roid := stringField (valuesOf tagRoid items)
  clid := stringField (valuesOf tagClid items)
  status := stringFields (valuesOf tagStatus items)
  authinfo := stringField (valuesOf tagAuthinfo items)
  crdate := u32Field (valuesOf tagCrdate items)
  exdate := u32Field (valuesOf tagExdate items)
  registrant := stringField (valuesOf tagRegistrant items)
  ns := stringFields (valuesOf tagNs items)
  ds := dsFields (valuesOf tagDs items)
  rgpState := rgpField (valuesOf tagRgpState items)
  rgpUntil := u32Field (valuesOf tagRgpUntil items)
  transferReid := stringField (valuesOf tagTransferReid items)
  transferRedate := u32Field (valuesOf tagTransferRedate items)
  transferStatus := stringField (valuesOf tagTransferStatus items)

/-- The fields of `epp_host_decode`. -/
def Host.ofItems (items : List Item) : Host where
  roid := stringField (valuesOf tagRoid items)
  clid := stringField (valuesOf tagClid items)
  status := stringFields (valuesOf tagStatus items)
  v4 := stringFields (valuesOf tagAddrV4 items)
  v6 := stringFields (valuesOf tagAddrV6 items)
  crdate := u32Field (valuesOf tagCrdate items)

/-- The fields of `epp_contact_decode`. -/
def Contact.ofItems (items : List Item) : Contact where
  roid := stringField (valuesOf tagRoid items)
  clid := stringField (valuesOf tagClid items)
  name := stringField (valuesOf tagName items)
  email := stringField (valuesOf tagEmail items)
  voice := stringField (valuesOf tagVoice items)
  authinfo := stringField (valuesOf tagAuthinfo items)
  crdate := u32Field (valuesOf tagCrdate items)

/-- The fields of `epp_org_decode`. -/
def Org.ofItems (items : List Item) : Org where
  id := stringField (valuesOf tagOrgid items)
  roid := stringField (valuesOf tagRoid items)
  clid := stringField (valuesOf tagClid items)
  status := stringFields (valuesOf tagStatus items)
  parentid := stringField (valuesOf tagParentid items)
  roles := stringFields (valuesOf tagRole items)
  email := stringField (valuesOf tagEmail items)
  voice := stringField (valuesOf tagVoice items)
  crdate := u32Field (valuesOf tagCrdate items)

/-- The fields of `epp_poll_decode`. -/
def PollMsg.ofItems (items : List Item) : PollMsg where
  msg := stringField (valuesOf tagMsg items)
  qdate := u32Field (valuesOf tagQdate items)
  objtype := stringField (valuesOf tagObjtype items)
  objid := stringField (valuesOf tagObjid items)
  cpState := stringField (valuesOf tagCpState items)
  cpOperation := stringField (valuesOf tagCpOperation items)
  cpWho := stringField (valuesOf tagCpWho items)
  cpReason := stringField (valuesOf tagCpReason items)
  resdata := stringField (valuesOf tagResdata items)

/-- A record from its octets, `none` where `tlv_next` finds them malformed. -/
def ofOctets {α : Type} (ofItems : List Item → α) (raw : Bytes) : Option α :=
  if (tlvRead raw).2 then some (ofItems (tlvRead raw).1) else none

/-- A stored blob back to octets and items; `cap` is the size of the caller's buffer. -/
def blobItems (cap : Nat) (blob : Text) : List Item × Bool := tlvRead (hexDec cap blob)

/-- A record from a stored blob, `none` for "corrupt object". -/
def ofBlob {α : Type} (ofItems : List Item → α) (cap : Nat) (blob : Text) : Option α :=
  if (blobItems cap blob).2 then some (ofItems (blobItems cap blob).1) else none

/-- `epp_domain_decode` of a stored blob. -/
def Domain.ofBlob (blob : Text) : Option Domain := Epp.ofBlob Domain.ofItems 4096 blob

/-- `epp_host_decode` of a stored blob. -/
def Host.ofBlob (blob : Text) : Option Host := Epp.ofBlob Host.ofItems 4096 blob

/-- `epp_contact_decode` of a stored blob. -/
def Contact.ofBlob (blob : Text) : Option Contact := Epp.ofBlob Contact.ofItems 2048 blob

/-- `epp_org_decode` of a stored blob. -/
def Org.ofBlob (blob : Text) : Option Org := Epp.ofBlob Org.ofItems 2048 blob

/-- `epp_poll_decode` of a stored blob. -/
def PollMsg.ofBlob (blob : Text) : Option PollMsg := Epp.ofBlob PollMsg.ofItems 2048 blob

/-! ## What is written decodes -/

section Fields

variable {cap : Nat}

theorem valuesOf_itemIf (tag t : UInt8) (s : CString cap) :
    valuesOf tag (itemIf t s) = if t = tag ∧ s.text ≠ [] then [s.text] else [] := by
  unfold itemIf
  split <;> simp_all

theorem valuesOf_itemU32If (tag t : UInt8) (v : UInt32) :
    valuesOf tag (itemU32If t v) = if t = tag ∧ v ≠ 0 then [put32 v.toNat] else [] := by
  unfold itemU32If
  split <;> simp_all [itemU32]

variable [NeZero cap]

theorem stringField_singleton (s : CString cap) : stringField [s.text] = s := by
  rw [stringField, foldl_cons, foldl_nil, dif_pos s.fits, CString.ofBytes_text]

theorem stringField_ite (s : CString cap) :
    stringField (if s.text = [] then [] else [s.text]) = s := by
  split
  · rename_i h
    obtain rfl : s = default := CString.ext h
    rfl
  · exact stringField_singleton s

end Fields

theorem stringFields_map {cap : Nat} (l : Slots (CString cap)) :
    stringFields (l.list.map CString.text) = l :=
  Slots.foldl_map_push (fun _ s => by rw [dif_pos s.fits, CString.ofBytes_text]) l

theorem u32Field_singleton (v : UInt32) : u32Field [put32 v.toNat] = v := tlvU32Of_put32 v

theorem u32Field_ite (v : UInt32) : u32Field (if v = 0 then [] else [put32 v.toNat]) = v := by
  split
  · rename_i h
    rw [h]
    rfl
  · exact u32Field_singleton v

theorem rgpField_ite (s : RgpState) :
    rgpField (if s = .none then [] else [[s.toByte]]) = s := by
  split
  · rename_i h
    rw [h]
    rfl
  · cases s with
    | unknown b h => exact dif_pos h
    | _ => rfl

theorem Ds.ofBytes_octets (d : Ds) : Ds.ofBytes d.octets = some d := by
  have hlen : d.octets.length = d.digest.length + 4 := by
    simp only [Ds.octets, length_append, length_put16, length_cons, length_nil]
    omega
  have hget : get16 d.octets 0 = d.keytag.toNat := by
    have := get16_put16 d.keytag.toNat_lt [] ([d.alg, d.digtype] ++ d.digest)
    simpa [Ds.octets] using this
  have hfits := d.fits
  rw [Ds.ofBytes, dif_pos (by omega)]
  refine congrArg some (Ds.ext ?_ rfl rfl rfl)
  rw [hget, UInt16.ofNat_toNat]

theorem dsFields_map (l : Slots Ds) : dsFields (l.list.map Ds.octets) = l :=
  Slots.foldl_map_push (fun _ d => by rw [Ds.ofBytes_octets]) l

theorem valuesOf_rgpItem (tag t : UInt8) (s : RgpState) :
    valuesOf tag (if s = .none then [] else [(t, [s.toByte])]) =
      if t = tag then (if s = .none then [] else [[s.toByte]]) else [] := by
  by_cases hs : s = .none
  · simp [hs]
  · simp [hs]

section Records

attribute [local simp] valuesOf_itemIf valuesOf_itemU32If itemsEach valuesOf_map
  valuesOf_rgpItem itemU32 stringField_singleton stringField_ite stringFields_map
  u32Field_singleton u32Field_ite rgpField_ite dsFields_map

theorem Domain.ofItems_items (d : Domain) : Domain.ofItems d.items = d := by
  simp [Domain.ofItems, Domain.items, tagRoid, tagClid, tagStatus, tagAuthinfo, tagCrdate,
    tagExdate, tagRegistrant, tagNs, tagDs, tagRgpState, tagRgpUntil, tagTransferReid,
    tagTransferRedate, tagTransferStatus]

theorem Host.ofItems_items (h : Host) : Host.ofItems h.items = h := by
  simp [Host.ofItems, Host.items, tagRoid, tagClid, tagStatus, tagAddrV4, tagAddrV6, tagCrdate]

theorem Contact.ofItems_items (c : Contact) : Contact.ofItems c.items = c := by
  simp [Contact.ofItems, Contact.items, tagRoid, tagClid, tagName, tagEmail, tagVoice,
    tagAuthinfo, tagCrdate]

theorem Org.ofItems_items (o : Org) : Org.ofItems o.items = o := by
  simp [Org.ofItems, Org.items, tagOrgid, tagRoid, tagClid, tagStatus, tagParentid, tagRole,
    tagEmail, tagVoice, tagCrdate]

theorem PollMsg.ofItems_items (m : PollMsg) : PollMsg.ofItems m.items = m := by
  simp [PollMsg.ofItems, PollMsg.items, tagMsg, tagQdate, tagObjtype, tagObjid, tagCpState,
    tagCpOperation, tagCpWho, tagCpReason, tagResdata]

end Records

variable {raw : Bytes}

/-- What is built of items decodes to what they stand for, as octets and as a stored blob. -/
theorem decodes_tlvBuild {α : Type} {ofItems : List Item → α} {cap : Nat} (hcap : 1 ≤ cap)
    {items : List Item} {a : α} (hitems : ofItems items = a) (h : tlvBuild cap items = some raw) :
    ofOctets ofItems raw = some a ∧ ofBlob ofItems cap (hexEnc raw) = some a := by
  rw [ofOctets, ofBlob, blobItems, hexDec_hexEnc (length_tlvBuild h hcap), tlvRead_tlvBuild hcap h,
    hitems]
  exact ⟨rfl, rfl⟩

/-- **What an encoder writes decodes to the record**, field by field and in the order of its lists,
from the octets and from their hexadecimal form. -/
theorem objects_round_trip (raw : Bytes) :
    (∀ d : Domain, d.encode = some raw →
      ofOctets Domain.ofItems raw = some d ∧ Domain.ofBlob (hexEnc raw) = some d) ∧
    (∀ d : Host, d.encode = some raw →
      ofOctets Host.ofItems raw = some d ∧ Host.ofBlob (hexEnc raw) = some d) ∧
    (∀ c : Contact, c.encode = some raw →
      ofOctets Contact.ofItems raw = some c ∧ Contact.ofBlob (hexEnc raw) = some c) ∧
    (∀ o : Org, o.encode = some raw →
      ofOctets Org.ofItems raw = some o ∧ Org.ofBlob (hexEnc raw) = some o) ∧
    ∀ m : PollMsg, m.encode = some raw →
      ofOctets PollMsg.ofItems raw = some m ∧ PollMsg.ofBlob (hexEnc raw) = some m := by
  refine ⟨fun d => ?_, fun d => ?_, fun c => ?_, fun o => ?_, fun m => ?_⟩
  · exact decodes_tlvBuild (by decide) d.ofItems_items
  · exact decodes_tlvBuild (by decide) d.ofItems_items
  · exact decodes_tlvBuild (by decide) c.ofItems_items
  · exact decodes_tlvBuild (by decide) o.ofItems_items
  · exact decodes_tlvBuild (by decide) m.ofItems_items

/-- A domain with two name servers and a DS entry. -/
def delegatedDomain : Domain :=
  .ofItems [(tagRoid, lit "1-D"), (tagNs, lit "b"), (tagNs, lit "a"), (tagDs, [0, 1, 13, 2, 255])]

theorem delegatedDomain_round_trip :
    ∃ raw, delegatedDomain.encode = some raw ∧
      ofOctets Domain.ofItems raw = some delegatedDomain ∧
      Domain.ofBlob (hexEnc raw) = some delegatedDomain := by
  obtain ⟨raw, hraw⟩ : ∃ raw, delegatedDomain.encode = some raw := by decide +kernel
  exact ⟨raw, hraw, (objects_round_trip raw).1 delegatedDomain hraw⟩

end SimpleDns.Epp
