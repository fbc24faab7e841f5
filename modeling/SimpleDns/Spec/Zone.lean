import Mathlib.Data.List.Infix
import SimpleDns.Wire.Name

/-!
# What a zone answers (RFC 1034 §4.3.2, RFC 4592)

The meaning of a zone, against which answers made without asking it are compared. A zone is a list
of owner names with the types they own, all at or below the apex, which owns an SOA.

* `Zone.lookup` walks down from the apex: the topmost zone cut on the way to the name is a referral
  (except for the DS at the cut itself), an existing name is answered from its own types (empty
  non-terminals exist and own none), and a name that does not exist is answered from the wildcard
  below its closest encloser if there is one.
* `lookup_eq_nxdomain_iff` and `lookup_eq_nodata_iff` invert it.
-/

namespace SimpleDns.Spec

open Wire List RRType

/-- A name as its labels from the root down, lowercased. -/
abbrev Name := List Text

/-- The contents of a zone: which types each owner name owns. -/
structure Zone where
  apex : Name
  rrs : List (Name × Nat)
  below : ∀ r ∈ rrs, apex <+: r.1
  soa : (apex, SOA) ∈ rrs

/-- What a lookup ends with. -/
inductive Outcome
  | nxdomain
  | nodata
  | answer
  | alias
  | referral
  | notAuth
deriving DecidableEq, Repr

namespace Zone

variable (z : Zone)

/-- The types `n` owns. -/
def types (n : Name) : List Nat := (z.rrs.filter fun r => r.1 = n).map (·.2)

/-- `n` owns a record. -/
def isOwner (n : Name) : Bool := z.rrs.any fun r => r.1 = n

/-- `n` exists: it owns a record, or a name below it does (RFC 4592 §2.2.2). -/
def nodeExists (n : Name) : Bool := z.rrs.any fun r => n.isPrefixOf r.1

/-- `n` exists and owns nothing. -/
def emptyNonTerminal (n : Name) : Prop := z.nodeExists n = true ∧ z.isOwner n = false

/-- `n` is a zone cut: it owns an NS and is not the apex. -/
def isCut (n : Name) : Bool := n ≠ z.apex ∧ NS ∈ z.types n

/-- The topmost zone cut at or above `q`. -/
def cut (q : Name) : Option Name := q.inits.find? z.isCut

/-- No zone cut lies strictly above `n`: its records are the zone's own, not glue. -/
def Authoritative (n : Name) : Prop := ∀ p, p <+: n → p ≠ n → z.isCut p = false

/-- The longest existing name at or above `q`. -/
def closestEncloser (q : Name) : Name := (q.inits.filter z.nodeExists).getLast?.getD []

/-- The source of synthesis: the wildcard child of the closest encloser. -/
def wildcard (q : Name) : Name := z.closestEncloser q ++ [lit "*"]

/-- The answer from the types of an existing name `n`. -/
def lookupAt (n : Name) (t : Nat) : Outcome :=
  if t = ANY then if z.types n = [] then .nodata else .answer
  else if t ∈ z.types n then .answer
  else if CNAME ∈ z.types n then .alias
  else .nodata

/-- The lookup of `(q, t)`. -/
def lookup (q : Name) (t : Nat) : Outcome :=
  if ¬ z.apex <+: q then .notAuth
  else
    match z.cut q with
    | some c => if c = q ∧ t = DS then z.lookupAt q t else .referral
    | none =>
      if z.nodeExists q then z.lookupAt q t
      else if z.nodeExists (z.wildcard q) then z.lookupAt (z.wildcard q) t
      else .nxdomain

/-! ## Existence and cuts -/

theorem nodeExists_of_isOwner {n : Name} (h : z.isOwner n = true) : z.nodeExists n = true := by
  simp only [isOwner, any_eq_true, decide_eq_true_eq] at h
  obtain ⟨r, hr, rfl⟩ := h
  exact any_eq_true.mpr ⟨r, hr, List.isPrefixOf_iff_prefix.mpr (prefix_refl _)⟩

theorem cut_eq_none_iff {q : Name} : z.cut q = none ↔ ∀ p, p <+: q → z.isCut p = false := by
  simp [cut, find?_eq_none]

/-- Where the name itself is the zone's own, the only cut on the way down can be the name. -/
theorem cut_of_authoritative {q : Name} (h : z.Authoritative q) :
    z.cut q = if z.isCut q then some q else none := by
  cases hc : z.cut q with
  | none =>
    have := z.cut_eq_none_iff.mp hc q (prefix_refl _)
    rw [if_neg (by simp [this])]
  | some c =>
    have hcut : z.isCut c = true := find?_some hc
    have hpre : c <+: q := (mem_inits _ _).mp (mem_of_find?_eq_some hc)
    have hq : c = q := by
      by_contra hne
      rw [h c hpre hne] at hcut
      cases hcut
    subst hq
    rw [if_pos hcut]

/-! ## Inverting the lookup -/

theorem lookupAt_ne_nxdomain (n : Name) (t : Nat) : z.lookupAt n t ≠ .nxdomain := by
  unfold lookupAt
  split
  · split <;> simp
  · split
    · simp
    · split <;> simp

theorem lookupAt_eq_nodata_iff {n : Name} {t : Nat} :
    z.lookupAt n t = .nodata ↔
      (t = ANY → z.types n = []) ∧ t ∉ z.types n ∧ CNAME ∉ z.types n := by
  unfold lookupAt
  by_cases hany : t = ANY
  · rw [if_pos hany]
    by_cases hnil : z.types n = []
    · simp [hnil]
    · simp [hnil, hany]
  · rw [if_neg hany]
    by_cases ht : t ∈ z.types n
    · simp [ht]
    · by_cases hcn : CNAME ∈ z.types n <;> simp [ht, hcn, hany]

/-- **NXDOMAIN**: no zone cut on the way, no such name, no wildcard to stand in for it. -/
theorem lookup_eq_nxdomain_iff {q : Name} (hq : z.apex <+: q) (t : Nat) :
    z.lookup q t = .nxdomain ↔
      z.cut q = none ∧ z.nodeExists q = false ∧ z.nodeExists (z.wildcard q) = false := by
  unfold lookup
  rw [if_neg (not_not.mpr hq)]
  cases hc : z.cut q with
  | some c =>
    by_cases hds : c = q ∧ t = DS
    · simp [hds, lookupAt_ne_nxdomain]
    · simp [hds]
  | none =>
    by_cases hn : z.nodeExists q = true
    · simp [hn, lookupAt_ne_nxdomain]
    · by_cases hw : z.nodeExists (z.wildcard q) = true
      · simp [hn, hw, lookupAt_ne_nxdomain]
      · simp [hn, hw]

/-- **NODATA at an existing name of the zone's own**: the type is not there, no alias is, and at a
zone cut only the DS is the zone's to deny. -/
theorem lookup_eq_nodata_iff {q : Name} (hq : z.apex <+: q) (hauth : z.Authoritative q)
    (hnode : z.nodeExists q = true) (t : Nat) :
    z.lookup q t = .nodata ↔
      (z.isCut q = true → t = DS) ∧ (t = ANY → z.types q = []) ∧
        t ∉ z.types q ∧ CNAME ∉ z.types q := by
  rw [← z.lookupAt_eq_nodata_iff]
  unfold lookup
  rw [if_neg (not_not.mpr hq), z.cut_of_authoritative hauth]
  by_cases hcut : z.isCut q = true
  · by_cases hds : t = DS <;> simp [hcut, hds]
  · simp [hcut, hnode]

end Zone

/-! ## What a denial record may say about a name -/

/-- The types a denial record lists at `n`: at a zone cut the NS and DS only (RFC 4035 §2.3), else
everything the name owns. -/
def Zone.denialTypes (z : Zone) (n : Name) : List Nat :=
  if z.isCut n then (z.types n).filter fun t => t = NS ∨ t = DS else z.types n

/-- Names an NSEC chain links: owners that are the zone's own. -/
def Zone.NsecNode (z : Zone) (n : Name) : Prop := z.isOwner n = true ∧ z.Authoritative n

/-- Names an NSEC3 chain without opt-out links: empty non-terminals as well (RFC 5155 §7.1). -/
def Zone.Nsec3Node (z : Zone) (n : Name) : Prop :=
  z.apex <+: n ∧ z.nodeExists n = true ∧ z.Authoritative n

/-- A type a denial record must list but does not is absent, or is one a zone cut hides. -/
theorem Zone.not_mem_types_of_not_mem_denialTypes (z : Zone) {n : Name} {t : Nat}
    (hcut : z.isCut n = true → t = DS) (h : t ∉ z.denialTypes n) : t ∉ z.types n := by
  intro ht
  unfold denialTypes at h
  by_cases hc : z.isCut n = true
  · rw [if_pos hc] at h
    exact h (mem_filter.mpr ⟨ht, by simp [hcut hc]⟩)
  · rw [if_neg hc] at h
    exact h ht

end SimpleDns.Spec
