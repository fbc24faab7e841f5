import SimpleDns.Server.Finish

/-!
# Forwarding (`forward_should`, `ip_list_allowed`, `dns_server.c:1437-1473, 6100-6129`)

Who may have queries forwarded, and which queries are.

* `aclEntries`, `entryAdmits`: an access list as it is written, entry by entry.
* `looseAdmits`: what `atoi` makes of a malformed entry.
* **`ipListAllowed_exact_iff`**: the list is followed exactly for a client, if and only if no entry
  that is malformed or cut by the copy decides, and none behind the copied octets would have to.
* **`malformed_entry_admits`**: `10.0.0.0/x` admits everybody.
* **`forwardShould_iff`**: the predicate for datagrams agrees with the path of a connection, if and
  only if a query to be forwarded has the opcode QUERY exactly where that path lets it pass.
* **`unknown_version_forwarded`**: a datagram of an unknown EDNS version is forwarded.
-/

namespace SimpleDns.Server

open Wire Lib List Option

/-! ## Access lists -/

/-- The entries of a list, without the blanks before them. -/
def aclEntries (list : Text) : List Text := (list.splitOn 44).map (·.dropWhile (· = 32))

/-- A decimal prefix length. -/
def prefixLength (s : Text) : Option Nat :=
  let (n, rest) := scanNumeral 10 0 s
  if s ≠ [] ∧ rest = [] ∧ n ≤ 32 then some n else none

/-- The entry is the address, or an address with a prefix length whose network has it. -/
def entryAdmits (e : Text) (ip : Bytes) : Bool :=
  match inetPton4 (e.takeWhile (· ≠ 47)), e.dropWhile (· ≠ 47) with
  | some net, [] => get32 ip 0 == get32 net 0
  | some net, _ :: len => (prefixLength len).any (sameNetwork · ip net)
  | none, _ => false

/-- Something else than a prefix length stands behind the slash, and the network of the number that
`atoi` finds there, brought between 0 and 32, has the address. -/
def looseAdmits (e : Text) (ip : Bytes) : Bool :=
  match inetPton4 (e.takeWhile (· ≠ 47)), e.dropWhile (· ≠ 47) with
  | some net, _ :: len =>
    (prefixLength len).isNone && sameNetwork (min 32 (atoiInt len).toNat) ip net
  | _, _ => false

/-- Some entry of the list admits the address. -/
def Granted (list : Text) (ip : Bytes) : Prop := ∃ e ∈ aclEntries list, entryAdmits e ip = true

theorem ipListAllowed_eq_true {list : Text} {ip : Bytes} : ipListAllowed list ip = true ↔
    ∃ e ∈ aclEntries (safeStrcpy list 1024), entryRead e ip = true := by
  -- an empty token is no address
  have hnil : entryRead [] ip = false := rfl
  simp only [ipListAllowed, strtok, List.any_eq_true, aclEntries, List.mem_map, mem_filter]
  constructor
  · rintro ⟨tok, ⟨htok, -⟩, hread⟩
    exact ⟨_, ⟨tok, htok, rfl⟩, hread⟩
  · rintro ⟨_, ⟨tok, htok, rfl⟩, hread⟩
    refine ⟨tok, ⟨htok, ?_⟩, hread⟩
    cases tok with
    | nil => exact absurd (hnil.symm.trans hread) (by decide)
    | cons c cs => rfl

/-- A prefix length is the number `atoi` reads. -/
theorem atoiInt_of_prefixLength {s : Text} {n : Nat} (h : prefixLength s = some n) :
    atoiInt s = n ∧ n ≤ 32 := by
  unfold prefixLength at h
  dsimp only at h
  split at h
  swap
  · cases h
  rename_i hlen
  obtain ⟨hne, hrest, hle⟩ := hlen
  cases h
  obtain ⟨c, cs, rfl⟩ := exists_cons_of_ne_nil hne
  have hdigit : digitVal 10 c ≠ none := by
    intro hnone
    rw [scanNumeral, hnone] at hrest
    cases hrest
  have hall : ∀ c, digitVal 10 c ≠ none → isspace c = false ∧ c ≠ 45 ∧ c ≠ 43 := by
    decide +kernel
  obtain ⟨hspace, h45, h43⟩ := hall c hdigit
  have hatoi : atoi (c :: cs) = (scanNumeral 10 0 (c :: cs)).1 := by
    rw [atoi, strtol, dropWhile_cons, if_neg (by simp [hspace])]
    split
    · rename_i heq
      exact absurd (cons.inj heq).1 h45
    · rename_i heq
      exact absurd (cons.inj heq).1 h43
    · rfl
  refine ⟨?_, hle⟩
  rw [atoiInt, hatoi, min_eq_right (by omega), max_eq_right (by omega)]
  exact Int.bmod_eq_of_le (by omega) (by omega)

/-- **What the code reads**: valid entries as they are written, and malformed ones. -/
theorem entryRead_eq (e : Text) (ip : Bytes) :
    entryRead e ip = (entryAdmits e ip || looseAdmits e ip) := by
  have hsplit := takeWhile_append_dropWhile (p := (· ≠ 47)) (l := e)
  have hlen := congrArg length hsplit
  rw [length_append] at hlen
  unfold entryRead entryAdmits looseAdmits
  dsimp only
  cases inetPton4 (e.takeWhile (· ≠ 47)) with
  | none => rfl
  | some net =>
    cases hrest : e.dropWhile (· ≠ 47) with
    | nil =>
      rw [hrest, length_nil] at hlen
      rw [if_pos (by omega)]
      simp [sameNetwork]
    | cons c len =>
      rw [hrest] at hsplit hlen
      have hdrop : e.drop ((e.takeWhile (· ≠ 47)).length + 1) = len := by
        have := congrArg (drop ((e.takeWhile (· ≠ 47)).length + 1)) hsplit
        simpa using this.symm
      rw [length_cons] at hlen
      rw [if_neg (by omega), hdrop]
      dsimp only
      cases hn : prefixLength len with
      | none => rw [any_none, isNone_none, Bool.true_and, Bool.false_or]
      | some n =>
        obtain ⟨hatoi, hle⟩ := atoiInt_of_prefixLength hn
        have hbits : min 32 (atoiInt len).toNat = n := by
          rw [hatoi, Int.toNat_natCast, Nat.min_eq_right hle]
        rw [hbits, any_some, isNone_some, Bool.false_and, Bool.or_false]

/-- **The list is followed exactly for a client** if and only if, where the network of a malformed
entry has the client or an entry that the copy cut admits it, a valid entry admits it too, and where
a valid entry behind the copied octets admits it, a copied entry does or the network of one. -/
theorem ipListAllowed_exact_iff (list : Text) (ip : Bytes) :
    (ipListAllowed list ip = true ↔ Granted list ip) ↔
      (∀ e ∈ aclEntries (safeStrcpy list 1024),
        looseAdmits e ip = true ∨ entryAdmits e ip = true ∧ e ∉ aclEntries list →
          Granted list ip) ∧
      (∀ e ∈ aclEntries list, entryAdmits e ip = true → e ∉ aclEntries (safeStrcpy list 1024) →
        ∃ e' ∈ aclEntries (safeStrcpy list 1024),
          entryAdmits e' ip = true ∨ looseAdmits e' ip = true) := by
  simp only [ipListAllowed_eq_true, entryRead_eq, Bool.or_eq_true]
  constructor
  · intro h
    exact ⟨fun e he hread => h.mp ⟨e, he, hread.symm.imp_left And.left⟩,
      fun e he hadm _ => h.mpr ⟨e, he, hadm⟩⟩
  · rintro ⟨hread, hlost⟩
    constructor
    · rintro ⟨e, he, hadm | hloose⟩
      · by_cases hlisted : e ∈ aclEntries list
        · exact ⟨e, hlisted, hadm⟩
        · exact hread e he (.inr ⟨hadm, hlisted⟩)
      · exact hread e he (.inl hloose)
    · rintro ⟨e, he, hadm⟩
      by_cases hcopied : e ∈ aclEntries (safeStrcpy list 1024)
      · exact ⟨e, hcopied, .inl hadm⟩
      · exact hlost e he hadm hcopied

/-- **A malformed entry admits everybody**: `atoi` reads the length of `10.0.0.0/x` as 0. -/
theorem malformed_entry_admits :
    ipListAllowed (lit "10.0.0.0/x") [192, 0, 2, 1] = true ∧
      ¬ Granted (lit "10.0.0.0/x") [192, 0, 2, 1] :=
  ⟨by decide +kernel, by unfold Granted; decide +kernel⟩

/-! ## Queries to be forwarded -/

/-- The bits of the opcode; 0 is QUERY. -/
def opcodeBits (pkt : Bytes) : Nat := get16 pkt 2 &&& 0x7800

/-- `forward_should`. -/
def forwardShould (D : Dnsd) (pkt cip : Bytes) : Bool :=
  if !D.forwardEnabled || D.forwardAllow.isEmpty then false
  else if pkt.length < 12 then false
  else if opcodeBits pkt ≠ 0 then false
  else if !(get16 pkt 2).testBit 8 then false
  else if qdcount pkt ≠ 1 then false
  else if !ipListAllowed D.forwardAllow cip then false
  else
    match nameFromWire pkt 12 256 with
    | none => false
    | some (qname, _) => (D.zoneFor qname).isNone && !isLocalZone qname

/-- The checks end with an upstream's answer. -/
def isRelay : Except QueryResult Question → Bool
  | .error (.relay _) => true
  | _ => false

/-- `build_query_resp` calls `forward_query` for the query over a connection. -/
def reachesForward (D : Dnsd) (req : Request) : Bool :=
  isRelay (question D { req with isTcp := true, forwarded := some [] })

/-- A query with recursion desired, by an admitted client, for a name of no zone here. -/
def Forwardable (D : Dnsd) (pkt cip : Bytes) : Prop :=
  D.forwardEnabled = true ∧ 12 ≤ pkt.length ∧ (get16 pkt 2).testBit 8 = true ∧ qdcount pkt = 1 ∧
    ipListAllowed D.forwardAllow cip = true ∧ ∃ qname after,
      nameFromWire pkt 12 256 = some (qname, after) ∧ D.zoneFor qname = none ∧
        isLocalZone qname = false

/-- What the path of a connection asks of it besides: a whole question that fits the response, an
EDNS version it knows, a good cookie, and no identity query. -/
def LetPass (D : Dnsd) (req : Request) : Prop :=
  ∃ qname after, nameFromWire req.query 12 256 = some (qname, after) ∧
    after + 3 < req.query.length ∧ after + 4 ≤ req.blen ∧
    ((ednsInfo req.query).present && (ednsInfo req.query).version != 0) = false ∧
    cookieVerify D (ednsInfo req.query) req.cip req.now = true ∧
    isIdentityQuery qname (get16 req.query after) (get16 req.query (after + 2)) = false

variable {D : Dnsd} {req : Request}

theorem forwardShould_eq_true {pkt cip : Bytes} :
    forwardShould D pkt cip = true ↔ Forwardable D pkt cip ∧ opcodeBits pkt = 0 := by
  have hempty : ipListAllowed [] cip = false := rfl
  unfold forwardShould Forwardable
  rcases hname : nameFromWire pkt 12 256 with _ | ⟨qname, after⟩
  · simp
  · rcases hallow : D.forwardAllow with _ | ⟨c, cs⟩
    · simp [hempty]
    · rcases hzone : D.zoneFor qname with _ | Z
      · grind
      · grind

theorem reachesForward_eq_true :
    reachesForward D req = true ↔ Forwardable D req.query req.cip ∧ LetPass D req := by
  unfold reachesForward question Forwardable LetPass
  dsimp only
  rcases hname : nameFromWire req.query 12 256 with _ | ⟨qname, after⟩
  · simp only [apply_ite isRelay]
    grind [isRelay]
  · rcases hzone : D.zoneFor qname with _ | Z
    · simp only [apply_ite isRelay, hzone]
      grind [isRelay]
    · simp only [apply_ite isRelay, hzone]
      grind [isRelay]

/-- **Forwarding does not depend on the transport** if and only if a query to be forwarded has the
opcode QUERY exactly where the path of a connection lets it pass. -/
theorem forwardShould_iff (D : Dnsd) (req : Request) :
    (forwardShould D req.query req.cip = true ↔ reachesForward D req = true) ↔
      (Forwardable D req.query req.cip → (opcodeBits req.query = 0 ↔ LetPass D req)) := by
  rw [forwardShould_eq_true, reachesForward_eq_true]
  exact ⟨fun h hf => by tauto, fun h => by tauto⟩

/-- A server of the zone `z` that forwards for 192.0.2.1. -/
def forwardingServer : Dnsd :=
  { plainServer [] with forwardEnabled := true, forwardAllow := lit "192.0.2.1" }

/-- A query for the address of `a.b`, with an OPT record of EDNS version 1. -/
def versionQuery : Request :=
  let plain := tcpQuery [lit "a", lit "b"] RRType.A
  { plain with
    query := [0, 7, 1, 0, 0, 1, 0, 0, 0, 0, 0, 1] ++ plain.query.drop 12 ++
      [0, 0, 41, 4, 208, 0, 1, 0, 0, 0, 0]
    cip := [192, 0, 2, 1] }

/-- **A datagram of an unknown EDNS version is forwarded**; over a connection it is refused with
BADVERS. -/
theorem unknown_version_forwarded :
    forwardShould forwardingServer versionQuery.query versionQuery.cip = true ∧
      reachesForward forwardingServer versionQuery = false := by
  decide +kernel

end SimpleDns.Server
