import Mathlib.Data.List.Sort
import SimpleDns.Wire.Name

/-!
# Canonical forms of RFC 4034 §6 (`dns_wire.c`)

* `canonRdata` is `canon_rdata` (`dns_wire.c:1399-1461`): the names inside the rdata of NS, CNAME,
  PTR, DNAME, MX, SRV and SOA are decompressed and lowercased, everything else is copied.
* `canonRRSort` is the insertion sort of `dnssec_verify_rrset` (`resolverd.c:1408-1417`) under
  `canon_rr_cmp` (`dns_wire.c:1463-1469`), which is `memcmp` over the common length and then the
  lengths, that is, the lexicographic order of the octet strings. Its result does not depend on the
  order of the records (`canonRRSort_congr`).
* `canonNameCmp` is `canon_name_cmp` (`dns_wire.c:940-973`): labels from the right, each compared
  octet by octet on its lowercased form, a proper suffix first.
-/

namespace SimpleDns.Wire

open List RRType

/-! ## Rdata -/

/-- A name inside rdata, decoded from `off` and written again uncompressed. -/
def canonName (pkt : Bytes) (off outsz : Nat) : Option (Bytes × Nat) :=
  match nameFromWire pkt off 256 with
  | none => none
  | some (nm, a) => (nameToWire nm outsz).map fun w => (w, a)

/-- A name behind `k` octets, in rdata of at least `lo` octets. -/
def canonBehind (k lo : Nat) (pkt : Bytes) (rdoff rdlen outsz : Nat) : Option Bytes :=
  if rdlen < lo ∨ outsz < k then none
  else (canonName pkt (rdoff + k) (outsz - k)).map (slice pkt rdoff k ++ ·.1)

/-- The two names and the five numbers of an SOA. -/
def canonSoa (pkt : Bytes) (rdoff outsz : Nat) : Option Bytes :=
  match canonName pkt rdoff outsz with
  | none => none
  | some (m, a) =>
    match canonName pkt a (outsz - m.length) with
    | none => none
    | some (r, b) =>
      if b + 20 > pkt.length ∨ m.length + r.length + 20 > outsz then none
      else some (m ++ r ++ slice pkt b 20)

/-- `canon_rdata(pkt, plen, rdoff, rdlen, rtype, out, outsz)`: the canonical rdata. -/
def canonRdata (pkt : Bytes) (rdoff rdlen rtype outsz : Nat) : Option Bytes :=
  if rdoff + rdlen > pkt.length then none
  else if rtype = NS ∨ rtype = CNAME ∨ rtype = PTR ∨ rtype = DNAME then
    (canonName pkt rdoff outsz).map (·.1)
  else if rtype = MX then canonBehind 2 3 pkt rdoff rdlen outsz
  else if rtype = SRV then canonBehind 6 7 pkt rdoff rdlen outsz
  else if rtype = SOA then canonSoa pkt rdoff outsz
  else if rdlen > outsz then none
  else some (slice pkt rdoff rdlen)

/-! ## Key tags -/

/-- The sum of `keytag` (`dns_server.c:3158-3164`): octets at even offsets count 256 times. -/
def keytagSum : Bytes → Nat
  | [] => 0
  | [b] => b.toNat * 256
  | b :: c :: rest => b.toNat * 256 + c.toNat + keytagSum rest

/-- `keytag(rd, rdlen)` (RFC 4034 appendix B). -/
def keytag (rd : Bytes) : Nat :=
  let ac := keytagSum rd % 2 ^ 32
  (ac + ac / 65536 % 65536) % 65536

/-! ## RRset order -/

/-- `canon_rr_cmp(a, b) > 0`. -/
def canonRRGt (a b : Bytes) : Bool := compare a b == .gt

/-- One round of the insertion sort: the records greater than `tmp` at the end of the sorted
prefix move one place right, and `tmp` takes the freed slot. -/
def canonRRInsert (sorted : List Bytes) (tmp : Bytes) : List Bytes :=
  let rev := sorted.reverse
  (rev.dropWhile (canonRRGt · tmp)).reverse ++ tmp :: (rev.takeWhile (canonRRGt · tmp)).reverse

/-- The insertion sort over the canonical records. -/
def canonRRSort (rrs : List Bytes) : List Bytes := rrs.foldl canonRRInsert []

/-- The order of the sorted records, read from the last to the first. -/
abbrev canonRRGe (a b : Bytes) : Prop := canonRRGt b a = false

theorem canonRRGe_iff {a b : Bytes} : canonRRGe a b ↔ (compare b a).isLE :=
  beq_eq_false_iff_ne.trans Ordering.ne_gt_iff_isLE

instance : IsTrans Bytes canonRRGe := ⟨fun a b c hab hbc => by
  rw [canonRRGe_iff] at *
  exact Std.TransCmp.isLE_trans hbc hab⟩

instance : Std.Total canonRRGe := ⟨fun a b => by
  rw [canonRRGe_iff, canonRRGe_iff, Std.OrientedOrd.eq_swap (a := a)]
  cases compare b a <;> decide⟩

/-- The sort is the library's, run from the end of the list. -/
theorem canonRRSort_eq (rrs : List Bytes) :
    canonRRSort rrs = (rrs.reverse.insertionSort canonRRGe).reverse := by
  have hinsert (l : List Bytes) (rr : Bytes) :
      canonRRInsert l.reverse rr = (l.orderedInsert canonRRGe rr).reverse := by
    simp [canonRRInsert, orderedInsert_eq_take_drop]
  rw [canonRRSort, ← foldr_reverse]
  induction rrs.reverse with
  | nil => rfl
  | cons rr rrs ih => rw [foldr_cons, ih, hinsert, insertionSort_cons]

/-- The validator's sort only reorders. -/
theorem canonRRSort_perm (rrs : List Bytes) : (canonRRSort rrs).Perm rrs := by
  rw [canonRRSort_eq]
  exact (reverse_perm _).trans ((perm_insertionSort _ _).trans (reverse_perm _))

/-- Records that compare equal are equal, so the order they came in is lost. -/
theorem canonRRSort_congr {rrs rrs' : List Bytes} (h : rrs.Perm rrs') :
    canonRRSort rrs = canonRRSort rrs' := by
  rw [canonRRSort_eq, canonRRSort_eq]
  have hrev : rrs.reverse.Perm rrs'.reverse :=
    (reverse_perm rrs).trans (h.trans (reverse_perm rrs').symm)
  have hp := (perm_insertionSort canonRRGe _).trans
    (hrev.trans (perm_insertionSort canonRRGe _).symm)
  refine congrArg reverse (hp.eq_of_pairwise (fun a b _ _ hab hba => ?_)
    (pairwise_insertionSort _ _) (pairwise_insertionSort _ _))
  rw [canonRRGe_iff] at hab hba
  exact Std.LawfulEqCmp.eq_of_compare (Std.OrientedCmp.isLE_antisymm hba hab)

/-! ## Name order -/

/-- The labels of a name from the root down, lowercased: what `canon_name_cmp` walks. -/
def canonLabels (name : Text) : List Text :=
  ((labels (strlower (safeStrcpy name 256))).take 128).reverse

/-- `canon_name_cmp`. -/
def canonNameCmp (a b : Text) : Ordering := compare (canonLabels a) (canonLabels b)

end SimpleDns.Wire
