import Mathlib.Data.List.DropRight
import SimpleDns.Epp.Registry

/-!
# The CAA check before a certificate is requested (`certd.c:1000-1076`)

`caa_authorizes` climbs from the name to the apex of its zone and takes the first CAA record it
finds. The check refuses on every tag but `issue`, and compares the value as it stands.

* **`caa_refuses_iff`**: it refuses as RFC 8659 does iff the record that decides has the tag `issue`
  and its value names the CA exactly if its issuer domain does.
* `iodef_refused`: a record that restricts nothing, and one that allows the CA, refuse it.
-/

namespace SimpleDns.Cert

open Wire Server Lib List

/-! ## The source -/

/-- `find_owning_zone` with the keys that the scan gave; `none` is -1. The loop is `eppd`'s. -/
def findOwningZone (s : Store) (keys : List Text) (name : Text) : Option Text :=
  let best := Epp.parentLoop name keys []
  if best = [] then (vkGet s (lit "config:zone_name") 256).filter (· ≠ []) else some best

/-- The values of `cur` behind the first: what follows a dot. -/
def parents : Text → List Text
  | [] => []
  | c :: t => if c = dot then t :: parents t else parents t

/-- `tag`, `[]` for `NULL`. -/
def caaTag (val : Text) : Text := (strtok 124 val)[2]?.getD []

/-- `caaval`, `[]` for `NULL`. -/
def caaValue (val : Text) : Text := (strtok 124 val)[3]?.getD []

/-- The CA host is the domain, or below it. -/
def namesHost (host v : Text) : Bool :=
  v ≠ [] && (eqCI host v || (v.length < host.length &&
    byteAt host (host.length - v.length - 1) == dot && eqCI (host.drop (host.length - v.length)) v))

/-- The record authorizes the host. -/
def authorizes (host val : Text) : Bool :=
  eqCI (caaTag val) (lit "issue") && namesHost host (caaValue val)

/-- The climb over the values of `cur`. -/
def climb (s : Store) (zone host : Text) : List Text → Bool
  | [] => true
  | cur :: rest =>
    match (vkGet s (zkey zone (lit "CAA") cur) 512).filter (· ≠ []) with
    | some val => authorizes host val
    | none => if eqCI cur zone then true else climb s zone host rest

/-- `caa_authorizes`; `none` is -1. -/
def caaAuthorizes (s : Store) (keys : List Text) (name host : Text) : Option Bool :=
  (findOwningZone s keys name).map fun zone =>
    climb s zone host (safeStrcpy name 256 :: parents (safeStrcpy name 256))

/-! ## RFC 8659 -/

/-- The names up to the apex. -/
def upTo (zone : Text) : List Text → List Text
  | [] => []
  | n :: ns => n :: if eqCI n zone then [] else upTo zone ns

/-- The CAA record of a name. -/
def caaAt (s : Store) (zone n : Text) : Option Text :=
  ((s (zkey zone (lit "CAA") n)).map (·.value)).filter (· ≠ [])

/-- The record of the closest ancestor-or-self that has one. -/
def closestCaa (s : Store) (zone name : Text) : Option Text :=
  (upTo zone (name :: parents name)).findSome? (caaAt s zone)

/-- A value without its parameters and the blanks around the domain. -/
def issuerDomain (v : Text) : Text :=
  ((v.takeWhile (· ≠ 59)).dropWhile isspace).rdropWhile isspace

/-- The record forbids the host. -/
def Forbids (host val : Text) : Prop :=
  eqCI (caaTag val) (lit "issue") = true ∧ namesHost host (issuerDomain (caaValue val)) = false

/-! ## Results -/

/-- The last separator of a text. -/
theorem exists_last_sep {sep : UInt8} {s : Text} (h : sep ∈ s) :
    ∃ a b, s = a ++ sep :: b ∧ sep ∉ b := by
  obtain ⟨b, a, hs, hb⟩ := eq_append_cons_of_mem (mem_reverse.mpr h)
  refine ⟨a.reverse, b.reverse, ?_, by simpa using hb⟩
  rw [← reverse_reverse s, hs]
  simp

/-- A piece with another behind it is whole in a text that was cut. -/
theorem strtok_take {sep : UInt8} {s : Text} {n i : Nat}
    (h : i + 1 < (strtok sep (s.take n)).length) :
    (strtok sep (s.take n))[i]? = (strtok sep s)[i]? := by
  have hone : ∀ t : Text, sep ∉ t → (strtok sep t).length ≤ 1 := fun t ht =>
    (length_filter_le _ _).trans (by simp [splitOn_eq_singleton ht])
  by_cases hsep : sep ∈ s.take n
  · obtain ⟨a, b, hcut, hb⟩ := exists_last_sep hsep
    have hs : strtok sep s = strtok sep a ++ strtok sep (b ++ s.drop n) := by
      rw [← strtok_append_cons, ← cons_append, ← append_assoc, ← hcut, take_append_drop]
    rw [hcut, strtok_append_cons, length_append] at h
    have := hone b hb
    rw [hcut, hs, strtok_append_cons, getElem?_append_left (by omega),
      getElem?_append_left (by omega)]
  · have := hone _ hsep
    omega

/-- Behind a value that is read, the tag was read whole. -/
theorem authorizes_take (host val : Text) (n : Nat) : authorizes host (val.take n) =
    (eqCI (caaTag val) (lit "issue") && namesHost host (caaValue (val.take n))) := by
  unfold authorizes
  cases hvalue : namesHost host (caaValue (val.take n)) with
  | false => simp
  | true =>
    have hfour : 2 + 1 < (strtok 124 (val.take n)).length := by
      by_contra hlt
      rw [namesHost, caaValue, getElem?_eq_none (not_lt.mp hlt)] at hvalue
      cases hvalue
    rw [caaTag, strtok_take hfour]
    rfl

theorem filter_vkGet (s : Store) (zone n : Text) :
    (vkGet s (zkey zone (lit "CAA") n) 512).filter (· ≠ []) =
      (caaAt s zone n).map (·.take 511) := by
  unfold vkGet caaAt
  cases s (zkey zone (lit "CAA") n) with
  | none => rfl
  | some c => cases h : c.value <;> simp [h, safeStrcpy, Option.filter]

/-- The climb is decided by the closest record. -/
theorem climb_eq (s : Store) (zone host : Text) (ns : List Text) :
    climb s zone host ns = (((upTo zone ns).findSome? (caaAt s zone)).all
      fun v => authorizes host (v.take 511)) := by
  induction ns with
  | nil => rfl
  | cons n ns ih =>
    unfold climb upTo
    rw [findSome?_cons, filter_vkGet]
    cases caaAt s zone n with
    | some v => rfl
    | none => by_cases hapex : eqCI n zone <;> simp [hapex, ih]

section Refusal

variable {s : Store} {keys : List Text} {name zone host : Text}

/-- **The check refuses as RFC 8659 does iff** the closest record has the tag `issue`, and what is
read of its value names the CA exactly if its issuer domain does. The name is `g_acme_domain`, a
`char[256]`. -/
theorem caa_refuses_iff (hzone : findOwningZone s keys name = some zone)
    (hname : name.length ≤ 255) :
    (caaAuthorizes s keys name host = some false ↔
        ∃ v, closestCaa s zone name = some v ∧ Forbids host v) ↔
      ∀ v, closestCaa s zone name = some v → eqCI (caaTag v) (lit "issue") = true ∧
        namesHost host (caaValue (v.take 511)) = namesHost host (issuerDomain (caaValue v)) := by
  have hcode : caaAuthorizes s keys name host =
      some ((closestCaa s zone name).all fun v => authorizes host (v.take 511)) := by
    rw [caaAuthorizes, hzone, Option.map_some, safeStrcpy_eq hname, climb_eq]
    rfl
  rw [hcode]
  cases closestCaa s zone name with
  | none => simp
  | some v =>
    cases htag : eqCI (caaTag v) (lit "issue") with
    | false => simp [Forbids, authorizes_take, htag]
    | true => cases hread : namesHost host (caaValue (v.take 511)) <;>
        simp [Forbids, authorizes_take, htag, hread]

end Refusal

/-- The zone `z` with one CAA record, at its apex. -/
def zoneWith (val : Text) : Store := fun k =>
  if k = lit "zone:z:CAA:z" then some ⟨lit "300|0|" ++ val, none⟩ else none

/-- The check for `w.z`, to be issued by `acme.ca.test`. -/
def checkOf (val : Text) : Option Bool :=
  caaAuthorizes (zoneWith val) [lit "zone_table:z"] (lit "w.z") (lit "acme.ca.test")

theorem closestCaa_zoneWith (val : Text) :
    closestCaa (zoneWith val) (lit "z") (lit "w.z") = some (lit "300|0|" ++ val) := by
  have hpath : upTo (lit "z") (lit "w.z" :: parents (lit "w.z")) = [lit "w.z", lit "z"] := by
    decide +kernel
  have hbelow : zkey (lit "z") (lit "CAA") (lit "w.z") ≠ lit "zone:z:CAA:z" := by decide
  have hapex : zkey (lit "z") (lit "CAA") (lit "z") = lit "zone:z:CAA:z" := by decide
  have hat : caaAt (zoneWith val) (lit "z") (lit "z") = some (lit "300|0|" ++ val) := by
    rw [caaAt, zoneWith, if_pos hapex]
    rfl
  have hnone : caaAt (zoneWith val) (lit "z") (lit "w.z") = none := by
    rw [caaAt, zoneWith, if_neg hbelow]
    rfl
  rw [closestCaa, hpath, findSome?_cons, hnone, findSome?_cons, hat]

theorem plain_issuer_decided :
    checkOf (lit "issue|ca.test") = some false ↔
      ∃ v, closestCaa (zoneWith (lit "issue|ca.test")) (lit "z") (lit "w.z") = some v ∧
        Forbids (lit "acme.ca.test") v :=
  (caa_refuses_iff (by decide +kernel) (by decide)).mpr fun v hv => by
    obtain rfl := Option.some.inj ((closestCaa_zoneWith _).symm.trans hv)
    decide +kernel

/-- **A reporting address stops issuance**, and so does a parameter behind the issuer: in neither
case does the record forbid the host. -/
theorem iodef_refused :
    checkOf (lit "iodef|mailto:a@z") = some false ∧
      checkOf (lit "issue|ca.test; p=1") = some false ∧
      (¬ ∃ v, closestCaa (zoneWith (lit "iodef|mailto:a@z")) (lit "z") (lit "w.z") = some v ∧
        Forbids (lit "acme.ca.test") v) ∧
      ¬ ∃ v, closestCaa (zoneWith (lit "issue|ca.test; p=1")) (lit "z") (lit "w.z") = some v ∧
        Forbids (lit "acme.ca.test") v := by
  simp only [closestCaa_zoneWith, Option.some.injEq, exists_eq_left', Forbids]
  decide +kernel

end SimpleDns.Cert
