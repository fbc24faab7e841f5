import Mathlib.Algebra.BigOperators.Group.Multiset.Basic
import SimpleDns.Server.Transfer

/-!
# A zone as replication sees it

`ZoneView` is what the secondary of a zone is meant to hold: the addresses and pointers of each
owner, the serial, and the journal the diffs are taken from. `Edit` is one address that comes or
goes, `Moves` a list of edits under consecutive serials.

* `State.view` is the view of the server's store (`heldAddresses`, `heldPointers`).
* `entryText` is the journal entry of an edit, and it reads back (`scanEntry_entryText`).
* **`moves_of_ownBump`**: a write to a lease with its serial bump and its journal entry moves the
  view by one edit. `unaffected_autoPtrApply`: an automatic PTR in another zone leaves it alone.
-/

namespace SimpleDns.Server

open Wire Lib List Option Function

/-! ## Keys -/

theorem append_sep_inj {c : UInt8} {a a' b b' : Text} (ha : c ∉ a) (ha' : c ∉ a') :
    a ++ c :: b = a' ++ c :: b' ↔ a = a' ∧ b = b' := by
  constructor
  · intro h
    obtain rfl : a = a' := by
      rw [← (takeWhile_ne_append ha b).1, h, (takeWhile_ne_append ha' b').1]
    exact ⟨rfl, (cons.inj (append_cancel_left h)).2⟩
  · rintro ⟨rfl, rfl⟩
    rfl

theorem recordKey_eq (ns zone type name : Text) :
    recordKey ns zone type name = ns ++ colon :: (zone ++ colon :: (type ++ colon :: name)) := by
  simp [recordKey]

variable {ns ns' : Text}

/-- Keys of different zones differ. -/
theorem recordKey_ne_of_zone_ne {zone zone' type type' name name' : Text} (hns : colon ∉ ns)
    (hns' : colon ∉ ns') (hz : colon ∉ zone) (hz' : colon ∉ zone') (h : zone ≠ zone') :
    recordKey ns zone type name ≠ recordKey ns' zone' type' name' := by
  rw [recordKey_eq, recordKey_eq, ne_eq, append_sep_inj hns hns', append_sep_inj hz hz']
  exact fun heq => h heq.2.1

/-- A key says its namespace, type and name. -/
theorem recordKey_inj {zone type type' name name' : Text} (hns : colon ∉ ns) (hns' : colon ∉ ns')
    (ht : colon ∉ type) (ht' : colon ∉ type') :
    recordKey ns zone type name = recordKey ns' zone type' name' ↔
      ns = ns' ∧ type = type' ∧ name = name' := by
  rw [recordKey_eq, recordKey_eq, append_sep_inj hns hns', append_cancel_left_eq,
    cons.injEq, append_sep_inj ht ht']
  simp

/-- The namespaces of records. -/
def namespaces : List Text := [lit "zone", lit "ddns", lit "srp"]

/-- The types a secondary is compared on. -/
def viewTypes : List Text := [lit "A", lit "AAAA", lit "PTR"]

/-- The keys the view of a zone reads. -/
def ViewKey (z k : Text) : Prop :=
  ∃ ns ∈ namespaces, ∃ t ∈ viewTypes, ∃ n, k = recordKey ns z t n

theorem colon_notMem_namespaces (h : ns ∈ namespaces) : colon ∉ ns :=
  (by decide : ∀ ns ∈ namespaces, colon ∉ ns) ns h

theorem colon_notMem_viewTypes {t : Text} (h : t ∈ viewTypes) : colon ∉ t :=
  (by decide : ∀ t ∈ viewTypes, colon ∉ t) t h

theorem typeName_mem_viewTypes (f : Family) : f.typeName ∈ viewTypes := by
  cases f <;> decide

/-! ## The view -/

/-- The part of `ttl|..` behind the first bar, the whole value where there is none. -/
def afterBar (v : Text) : Text := if 124 ∈ v then (v.dropWhile (· ≠ 124)).tail else v

/-- The addresses of a stored `ttl|ip|ip..`, in the text of `inet_ntop`. -/
def groupAddresses (f : Family) : Option Cell → List Text
  | none => []
  | some c => (strtok 124 (afterBar c.value)).filterMap fun v => (f.pton v).map f.ntop

/-- The address of a stored lease. -/
def leasedAddresses (f : Family) : Option Cell → List Text
  | none => []
  | some c => ((f.pton c.value).map f.ntop).toList

/-- The addresses the primary holds for an owner, over its three namespaces. -/
def heldAddresses (z : Text) (s : Store) (f : Family) (n : Text) : Multiset Text :=
  ↑(leasedAddresses f (s (dkey z f.typeName n)) ++ (groupAddresses f (s (zkey z f.typeName n)) ++
    groupAddresses f (s (skey z f.typeName n))))

/-- The pointers held for an owner: a zone record, a lease, or the registered instances. -/
def heldPointers (z : Text) (s : Store) (n : Text) : Set Text :=
  fun target =>
    (∃ c, s (zkey z (lit "PTR") n) = some c ∧ afterBar c.value = target) ∨
    (∃ c, s (dkey z (lit "PTR") n) = some c ∧ c.value = target) ∨
    s (skey z (lit "PTR") (n ++ [colon] ++ target)) ≠ none

/-- A zone as its secondaries are to see it. -/
structure ZoneView where
  addresses : Family → Text → Multiset Text
  pointers : Text → Set Text
  serial : Nat
  journal : List Text

/-- The counter key of a zone by its name. -/
def zoneSerialKey (S : Settings) (z : Text) : Text := serialKey S (some ⟨z, 0, true⟩)

/-- The view of the zone `z`. -/
def State.view (S : Settings) (z : Text) (st : State) : ZoneView where
  addresses := heldAddresses z st.store
  pointers := heldPointers z st.store
  serial := st.counter (zoneSerialKey S z)
  journal := st.journal (ixfrJournalKey S z)

variable {z : Text} {s : Store}

/-- Stores that agree on the keys of the view show the same records. -/
theorem heldAddresses_congr {s' : Store} (h : ∀ k, ViewKey z k → s' k = s k) :
    heldAddresses z s' = heldAddresses z s := by
  funext f n
  have hkey : ∀ ns ∈ namespaces, s' (recordKey ns z f.typeName n) =
      s (recordKey ns z f.typeName n) :=
    fun ns hns => h _ ⟨ns, hns, f.typeName, typeName_mem_viewTypes f, n, rfl⟩
  simp only [heldAddresses, zkey, dkey, skey, hkey (lit "zone") (by decide),
    hkey (lit "ddns") (by decide), hkey (lit "srp") (by decide)]

theorem heldPointers_congr {s' : Store}
    (h : ∀ ns ∈ namespaces, ∀ n, s' (recordKey ns z (lit "PTR") n) = s (recordKey ns z (lit "PTR")
      n)) : heldPointers z s' = heldPointers z s := by
  funext n target
  simp only [heldPointers, zkey, dkey, skey, h (lit "zone") (by decide),
    h (lit "ddns") (by decide), h (lit "srp") (by decide)]

variable {f : Family}

theorem colon_notMem_typeName (f : Family) : colon ∉ f.typeName :=
  colon_notMem_viewTypes (typeName_mem_viewTypes f)

/-- Address keys of different namespaces differ. -/
theorem addressKey_ne (hns : ns ∈ namespaces) (hns' : ns' ∈ namespaces) (h : ns ≠ ns') (z : Text)
    (f g : Family) (n m : Text) : recordKey ns z f.typeName n ≠ recordKey ns' z g.typeName m := by
  rw [ne_eq, recordKey_inj (colon_notMem_namespaces hns) (colon_notMem_namespaces hns')
    (colon_notMem_typeName f) (colon_notMem_typeName g)]
  exact fun heq => h heq.1

variable {n : Text}

/-- An address key says its family and owner. -/
theorem addressKey_inj (hns : ns ∈ namespaces) {g : Family} {m : Text} :
    recordKey ns z f.typeName n = recordKey ns z g.typeName m ↔ f = g ∧ n = m := by
  rw [recordKey_inj (colon_notMem_namespaces hns) (colon_notMem_namespaces hns)
    (colon_notMem_typeName f) (colon_notMem_typeName g)]
  constructor
  · refine fun h => ⟨?_, h.2.2⟩
    cases f <;> cases g <;> first | rfl | cases h.2.1
  · rintro ⟨rfl, rfl⟩
    exact ⟨rfl, rfl, rfl⟩

/-- An address key is no pointer key. -/
theorem pointerKey_ne (hns : ns ∈ namespaces) (hns' : ns' ∈ namespaces) (z : Text) (f : Family)
    (n m : Text) : recordKey ns z (lit "PTR") n ≠ recordKey ns' z f.typeName m := by
  rw [ne_eq, recordKey_inj (colon_notMem_namespaces hns) (colon_notMem_namespaces hns') (by decide)
    (colon_notMem_typeName f)]
  intro h
  cases f <;> exact absurd h.2.1 (by decide)

/-- A write to the lease of one owner changes the addresses of that owner only. -/
theorem heldAddresses_update (z : Text) (s : Store) (f : Family) (n : Text) (v : Option Cell) :
    heldAddresses z (update s (dkey z f.typeName n) v) = fun g m =>
      if g = f ∧ m = n then
        ↑(leasedAddresses f v ++ (groupAddresses f (s (zkey z f.typeName n)) ++
          groupAddresses f (s (skey z f.typeName n))))
      else heldAddresses z s g m := by
  funext g m
  have hzone : zkey z g.typeName m ≠ dkey z f.typeName n :=
    addressKey_ne (by decide) (by decide) (by decide) z g f m n
  have hsrp : skey z g.typeName m ≠ dkey z f.typeName n :=
    addressKey_ne (by decide) (by decide) (by decide) z g f m n
  rw [heldAddresses, update_of_ne hzone, update_of_ne hsrp]
  by_cases h : g = f ∧ m = n
  · obtain ⟨rfl, rfl⟩ := h
    simp
  · have hlease : dkey z g.typeName m ≠ dkey z f.typeName n := fun heq =>
      h ((addressKey_inj (by decide)).mp heq)
    rw [update_of_ne hlease, if_neg h, heldAddresses]

/-- A write to an address key leaves the pointers alone. -/
theorem heldPointers_update (hns : ns ∈ namespaces) (z : Text) (s : Store) (f : Family) (n : Text)
    (v : Option Cell) :
    heldPointers z (update s (recordKey ns z f.typeName n) v) = heldPointers z s :=
  heldPointers_congr fun _ hns' m => update_of_ne (pointerKey_ne hns' hns z f m n) ..

/-! ## Edits -/

/-- What an edit does. -/
inductive EditOp
  | add
  | delete
deriving DecidableEq, Repr

/-- The letter of the operation in the journal. -/
def EditOp.code : EditOp → UInt8
  | add => opAdd
  | delete => opDel

/-- An address of an owner that comes or goes. -/
structure Edit where
  op : EditOp
  name : Text
  address : Address
deriving DecidableEq, Repr

/-- The edit on the addresses of a zone. -/
def Edit.on (e : Edit) (m : Family → Text → Multiset Text) : Family → Text → Multiset Text :=
  fun f n =>
    if f = e.address.family ∧ n = e.name then
      match e.op with
      | .add => e.address.text ::ₘ m f n
      | .delete => (m f n).erase e.address.text
    else m f n

/-- The journal entry of an edit under the serial after `serial`. -/
def entryText (serial : Nat) (e : Edit) : Text :=
  safeStrcpy (journalEntry serial (serial + 1) e.op.code e.name e.address.text) 1024

/-- The entries of edits under consecutive serials. -/
def entries : Nat → List Edit → List Text
  | _, [] => []
  | serial, e :: es => entryText serial e :: entries (serial + 1) es

theorem entries_append (serial : Nat) (es es' : List Edit) :
    entries serial (es ++ es') = entries serial es ++ entries (serial + es.length) es' := by
  induction es generalizing serial with
  | nil => simp [entries]
  | cons e es ih =>
    simp only [cons_append, entries, ih, length_cons]
    congr 3
    omega

/-- The owner name gets through the journal's text and the wire unchanged. -/
structure PlainOwner (name : Text) : Prop where
  ne_nil : name ≠ []
  noBar : 124 ∉ name
  short : name.length ≤ 255
  wire : wireOwner name = some name

/-- The addresses of one owner fit the value a secondary stores them in. -/
def Fits (m : Multiset Text) : Prop :=
  m.card ≤ 64 ∧ (m.map fun t => t.length + 1).sum ≤ 1013

/-- The edit can be replayed: the owner is plain, an added address is a new one, and what is left
fits. -/
structure GoodEdit (m : Family → Text → Multiset Text) (e : Edit) : Prop where
  owner : PlainOwner e.name
  fresh : e.op = .add → e.address.text ∉ m e.address.family e.name
  fits : Fits (e.on m e.address.family e.name)

/-- Each edit can be replayed after those before it. -/
def GoodEdits : (Family → Text → Multiset Text) → List Edit → Prop
  | _, [] => True
  | m, e :: es => GoodEdit m e ∧ GoodEdits (e.on m) es

theorem goodEdits_append {m : Family → Text → Multiset Text} {es es' : List Edit} :
    GoodEdits m (es ++ es') ↔ GoodEdits m es ∧ GoodEdits (es.foldl (fun m e => e.on m) m) es' := by
  induction es generalizing m with
  | nil => simp [GoodEdits]
  | cons e es ih => simp [GoodEdits, ih, and_assoc]

/-- The view went from `v` to `v'` by the edits `es`: their addresses, one serial each, and their
entries behind the journal, of which the oldest may have been cut off. -/
structure Moves (v : ZoneView) (es : List Edit) (v' : ZoneView) : Prop where
  addresses : v'.addresses = es.foldl (fun m e => e.on m) v.addresses
  pointers : v'.pointers = v.pointers
  serial : v'.serial = v.serial + es.length
  journal : ∃ d, v'.journal = (v.journal ++ entries v.serial es).drop d
  good : GoodEdits v.addresses es

theorem Moves.refl (v : ZoneView) : Moves v [] v :=
  ⟨rfl, rfl, rfl, ⟨0, by simp [entries]⟩, trivial⟩

theorem exists_drop_append {α : Type} (l l' : List α) (d : Nat) :
    ∃ d', l.drop d ++ l' = (l ++ l').drop d' := by
  by_cases h : d ≤ l.length
  · exact ⟨d, (drop_append_of_le_length h).symm⟩
  · refine ⟨l.length, ?_⟩
    rw [drop_of_length_le (by omega), drop_left]
    rfl

theorem Moves.trans {v v' v'' : ZoneView} {es es' : List Edit} (h : Moves v es v')
    (h' : Moves v' es' v'') : Moves v (es ++ es') v'' := by
  obtain ⟨d, hd⟩ := h.journal
  obtain ⟨d', hd'⟩ := h'.journal
  obtain ⟨d'', hd''⟩ := exists_drop_append (v.journal ++ entries v.serial es)
    (entries (v.serial + es.length) es') d
  refine ⟨?_, h'.pointers.trans h.pointers, ?_, ⟨d'' + d', ?_⟩, ?_⟩
  · rw [h'.addresses, h.addresses, foldl_append]
  · rw [h'.serial, h.serial, length_append, Nat.add_assoc]
  · rw [hd', hd, h.serial, hd'', drop_drop, entries_append, append_assoc]
  · refine goodEdits_append.mpr ⟨h.good, ?_⟩
    rw [← h.addresses]
    exact h'.good

/-! ## An edit of a lease -/

theorem leasedAddresses_text (a : Address) (ttl : Option Nat) :
    leasedAddresses a.family (some ⟨a.text, ttl⟩) = [a.text] := by
  rw [leasedAddresses, a.pton_text]
  rfl

theorem heldAddresses_add {a : Address} (h : s (dkey z a.family.typeName n) = none)
    (ttl : Option Nat) :
    heldAddresses z (update s (dkey z a.family.typeName n) (some ⟨a.text, ttl⟩)) =
      Edit.on ⟨.add, n, a⟩ (heldAddresses z s) := by
  rw [heldAddresses_update]
  funext g m
  simp only [Edit.on]
  split
  · rename_i heq
    obtain ⟨rfl, rfl⟩ := heq
    rw [leasedAddresses_text, heldAddresses, h]
    rfl
  · rfl

theorem heldAddresses_delete {a : Address} {ttl : Option Nat}
    (h : s (dkey z a.family.typeName n) = some ⟨a.text, ttl⟩) :
    heldAddresses z (update s (dkey z a.family.typeName n) none) =
      Edit.on ⟨.delete, n, a⟩ (heldAddresses z s) := by
  rw [heldAddresses_update]
  funext g m
  simp only [Edit.on]
  split
  · rename_i heq
    obtain ⟨rfl, rfl⟩ := heq
    rw [heldAddresses, h, leasedAddresses_text]
    simp [leasedAddresses]
  · rfl

theorem heldAddresses_refresh {v : Text} {ttl : Option Nat}
    (h : s (dkey z f.typeName n) = some ⟨v, ttl⟩) (ttl' : Option Nat) :
    heldAddresses z (update s (dkey z f.typeName n) (some ⟨v, ttl'⟩)) =
      heldAddresses z s := by
  rw [heldAddresses_update]
  funext g m
  split
  · rename_i heq
    obtain ⟨rfl, rfl⟩ := heq
    rw [heldAddresses, h]
    rfl
  · rfl

/-! ## The text of an entry -/

theorem scanU_decimal {n : Nat} (hn : n < 2 ^ 32) {rest : Text} (hrest : NoDigit 10 rest) :
    scanU (decimal n ++ rest) = some (n, rest) :=
  scanUnsigned_decimal hn hrest

theorem scanBar_cons (rest : Text) : scanBar (124 :: rest) = some rest := rfl

theorem noDigit_bar (rest : Text) : NoDigit 10 (124 :: rest) := by
  intro c hc
  obtain rfl : c = 124 := by simpa using hc.symm
  decide

theorem length_serial_le {n : Nat} (hn : n < 2 ^ 32) : (decimal n).length ≤ 10 :=
  length_numeral_le (by decide) (by decide) (lt_trans hn (by decide))

/-- The serials of a journal line read back, whatever is cut off behind them. -/
theorem scanSerials_journalEntry {prev ns : Nat} (hprev : prev < 2 ^ 32) (hns : ns < 2 ^ 32)
    (op : UInt8) (name value : Text) :
    scanSerials (safeStrcpy (journalEntry prev ns op name value) 1024) = some (prev, ns) := by
  have h1 := length_serial_le hprev
  have h2 := length_serial_le hns
  have hentry : journalEntry prev ns op name value =
      (decimal prev ++ 124 :: (decimal ns ++ [124])) ++ op :: 124 :: (name ++ 124 :: value) := by
    simp [journalEntry]
  obtain ⟨tail, htail⟩ : ∃ tail, safeStrcpy (journalEntry prev ns op name value) 1024 =
      decimal prev ++ 124 :: (decimal ns ++ 124 :: tail) := by
    rw [hentry, safeStrcpy, take_append, take_of_length_le]
    · generalize take _ (op :: 124 :: (name ++ 124 :: value)) = tail
      exact ⟨tail, by simp⟩
    · simp only [length_append, length_cons, length_nil]
      omega
  rw [htail, scanSerials, scanU_decimal hprev (noDigit_bar _)]
  simp only [bind_some, scanBar_cons]
  rw [scanU_decimal hns (noDigit_bar _)]
  rfl

section Entry

variable {serial : Nat} {e : Edit}

theorem entryText_eq (hs : serial + 1 < 2 ^ 32) (hn : e.name.length ≤ 255) :
    entryText serial e = decimal serial ++ 124 :: (decimal (serial + 1) ++
      124 :: e.op.code :: 124 :: (e.name ++ 124 :: e.address.text)) := by
  have h1 := length_serial_le (Nat.lt_of_succ_lt hs)
  have h2 := length_serial_le hs
  have h3 := e.address.length_text_le
  rw [entryText, safeStrcpy, take_of_length_le]
  · simp [journalEntry]
  · simp only [journalEntry, length_append, length_cons, length_nil]
    omega

theorem scanSerials_entryText (hs : serial + 1 < 2 ^ 32) :
    scanSerials (entryText serial e) = some (serial, serial + 1) :=
  scanSerials_journalEntry (by omega) hs ..

theorem scanUntil_of_notMem {c : UInt8} {t rest : Text} (ht : c ∉ t) (hne : t ≠ [])
    (hlen : t.length ≤ 255) (hrest : rest = [] ∨ rest.head? = some c) :
    scanUntil c (t ++ rest) = some (t, rest) := by
  have htake : (t ++ rest).takeWhile (· ≠ c) = t := by
    obtain rfl | hrest := hrest
    · rw [append_nil, takeWhile_ne_self ht]
    · obtain ⟨xs, rfl⟩ := head?_eq_some_iff.mp hrest
      exact (takeWhile_ne_append ht xs).1
  unfold scanUntil
  rw [htake, take_of_length_le hlen]
  simp [hne]

/-- **An entry reads back.** -/
theorem scanEntry_entryText (hs : serial + 1 < 2 ^ 32) (ho : PlainOwner e.name) :
    scanEntry (entryText serial e) =
      ⟨serial, serial + 1, e.op.code, e.name, e.address.text⟩ := by
  have hname : scanUntil 124 (e.name ++ 124 :: e.address.text) =
      some (e.name, 124 :: e.address.text) :=
    scanUntil_of_notMem ho.noBar ho.ne_nil ho.short (.inr rfl)
  have hnl : 10 ∉ e.address.text := fun h =>
    (isAddressChar_spec (Address.isAddressChar_of_mem_text h)).2.1 rfl
  have hvalue : scanUntil 10 e.address.text = some (e.address.text, []) := by
    have := scanUntil_of_notMem hnl e.address.text_ne_nil
      (e.address.length_text_le.trans (by decide)) (.inl rfl)
    rwa [append_nil] at this
  rw [entryText_eq hs ho.short, scanEntry, scanU_decimal (by omega) (noDigit_bar _)]
  simp only [scanBar_cons, bind_some]
  rw [scanU_decimal hs (noDigit_bar _)]
  simp only [scanBar_cons, bind_some, hname, hvalue]

end Entry

/-! ## The state of a zone -/

/-- The server's zone `i` is `z`, its serial is the stored counter, and its journal is about earlier
serials. -/
structure Ready (S : Settings) (i : Nat) (z : Text) (st : State) : Prop where
  entry : ∃ active, st.zone (some i) = some ⟨z, st.counter (zoneSerialKey S z), active⟩
  noColon : colon ∉ z
  ne_nil : z ≠ []
  short : z.length ≤ 255
  bounded : st.counter (zoneSerialKey S z) < 2 ^ 32
  journal : ∀ e ∈ st.journal (ixfrJournalKey S z), ∀ p, scanSerials e = some p →
    p.1 < st.counter (zoneSerialKey S z)

/-- Nothing of the zone changed: its entry, counter and journal, and the keys of its view. -/
structure Unaffected (S : Settings) (i : Nat) (z : Text) (st st' : State) : Prop where
  zone : st'.zone (some i) = st.zone (some i)
  counter : st'.counter (zoneSerialKey S z) = st.counter (zoneSerialKey S z)
  journal : st'.journal (ixfrJournalKey S z) = st.journal (ixfrJournalKey S z)
  store : ∀ k, ViewKey z k → st'.store k = st.store k

section Zone

variable {S : Settings} {i : Nat} {z : Text} {st st' : State}

theorem Unaffected.refl (S : Settings) (i : Nat) (z : Text) (st : State) :
    Unaffected S i z st st :=
  ⟨rfl, rfl, rfl, fun _ _ => rfl⟩

theorem Unaffected.view_eq (h : Unaffected S i z st st') : st'.view S z = st.view S z := by
  have hp : heldPointers z st'.store = heldPointers z st.store :=
    heldPointers_congr fun ns hns n => h.store _ ⟨ns, hns, lit "PTR", by decide, n, rfl⟩
  rw [State.view, State.view, heldAddresses_congr h.store, hp, h.counter, h.journal]

theorem Unaffected.ready (h : Unaffected S i z st st') (hr : Ready S i z st) :
    Ready S i z st' := by
  obtain ⟨⟨active, hentry⟩, hc, hne, hs, hb, hj⟩ := hr
  refine ⟨⟨active, ?_⟩, hc, hne, hs, ?_, ?_⟩
  · rw [h.zone, hentry, h.counter]
  · rwa [h.counter]
  · rwa [h.counter, h.journal]

theorem keyZone_of_ready (h : Ready S i z st) : st.keyZone (some i) = z := by
  obtain ⟨active, hentry⟩ := h.entry
  simp [State.keyZone, hentry]

theorem zoneName_of_ready (h : Ready S i z st) : State.zoneName S st (some i) = z := by
  obtain ⟨active, hentry⟩ := h.entry
  simp [State.zoneName, hentry]

theorem serial_of_ready (h : Ready S i z st) :
    st.serial (some i) = st.counter (zoneSerialKey S z) := by
  obtain ⟨active, hentry⟩ := h.entry
  simp [State.serial, hentry]

/-- The names and the activity of the zones, which no change of a serial touches. -/
def zoneNames (zones : List ZoneEntry) : List (Text × Bool) :=
  zones.map fun z => (z.name, z.active)

theorem zoneLoop_congr {q : Text} {zs zs' : List ZoneEntry} (h : zoneNames zs' = zoneNames zs)
    (j : Nat) (best : Option (Nat × Nat)) : zoneLoop q zs' j best = zoneLoop q zs j best := by
  induction zs generalizing zs' j best with
  | nil =>
    obtain rfl : zs' = [] := map_eq_nil_iff.mp h
    rfl
  | cons e es ih =>
    cases zs' with
    | nil => cases h
    | cons e' es' =>
      simp only [zoneNames, map_cons, cons.injEq, Prod.mk.injEq] at h
      obtain ⟨⟨hn, ha⟩, hrest⟩ := h
      simp only [zoneLoop, hn, ha]
      exact ih hrest _ _

theorem zoneForQname_congr {q : Text} {zs zs' : List ZoneEntry}
    (h : zoneNames zs' = zoneNames zs) : zoneForQname zs' q = zoneForQname zs q := by
  rw [zoneForQname, zoneForQname, zoneLoop_congr h]

/-- A key that is written for a zone is none of another zone's view. -/
theorem not_viewKey_of_zone_ne {ns zone type name : Text} (hns : colon ∉ ns)
    (hzone : colon ∉ zone) (hz : colon ∉ z) (h : zone ≠ z) :
    ¬ViewKey z (recordKey ns zone type name) := by
  rintro ⟨ns', hns', t, -, n, heq⟩
  exact recordKey_ne_of_zone_ne hns (colon_notMem_namespaces hns') hzone hz h heq

theorem not_viewKey_zonemd (z n : Text) : ¬ViewKey z (zkey z (lit "ZONEMD") n) := by
  rintro ⟨ns, hns, t, ht, m, heq⟩
  rw [zkey, recordKey_inj (by decide) (colon_notMem_namespaces hns) (by decide)
    (colon_notMem_viewTypes ht)] at heq
  obtain ⟨-, rfl, -⟩ := heq
  exact absurd ht (by decide)

theorem zonemdUpdate_of_ne {zname k : Text} {serial : Nat} {s : Store}
    (h : k ≠ zkey zname (lit "ZONEMD") zname) : zonemdUpdate S zname serial s k = s k := by
  unfold zonemdUpdate
  cases S.zonemd zname serial s with
  | some v => exact vkSet_ne h
  | none => rfl

theorem zoneNames_modify (zones : List ZoneEntry) (j serial : Nat) :
    zoneNames (zones.modify j fun e => { e with soaSerial := serial }) = zoneNames zones := by
  refine ext_getElem? fun k => ?_
  simp only [zoneNames, getElem?_map, getElem?_modify]
  cases zones[k]? with
  | none => rfl
  | some e =>
    simp only [map_some]
    split <;> rfl

/-- What a bump of the zone's own serial leaves of the state `st` with the store `s`. -/
structure OwnBump (S : Settings) (i : Nat) (z : Text) (st : State) (s : Store)
    (t : Nat × State) : Prop where
  next : t.1 = st.counter (zoneSerialKey S z) + 1
  entry : ∃ active, t.2.zone (some i) = some ⟨z, st.counter (zoneSerialKey S z) + 1, active⟩
  counter : t.2.counter (zoneSerialKey S z) = st.counter (zoneSerialKey S z) + 1
  journal : t.2.journal = st.journal
  store : ∀ k, ViewKey z k → t.2.store k = s k
  names : zoneNames t.2.zones = zoneNames st.zones
  others : ∀ j, j ≠ i → t.2.zones[j]? = st.zones[j]?

theorem bump_own (h : Ready S i z st) (s : Store)
    (hb : st.counter (zoneSerialKey S z) + 1 < 2 ^ 32) :
    OwnBump S i z st s (bump S { st with store := s } (some i)) := by
  obtain ⟨active, hentry⟩ := h.entry
  have hzone : State.zone { st with store := s } (some i) =
      some ⟨z, st.counter (zoneSerialKey S z), active⟩ := hentry
  have hget : st.zones[i]? = some ⟨z, st.counter (zoneSerialKey S z), active⟩ := hentry
  have hname : State.zoneName S { st with store := s } (some i) = z := by
    simp [State.zoneName, hzone]
  have hkey : serialKey S (some ⟨z, st.counter (zoneSerialKey S z), active⟩) =
      zoneSerialKey S z := rfl
  have hmod : (st.counter (zoneSerialKey S z) + 1) % 2 ^ 32 =
      st.counter (zoneSerialKey S z) + 1 := Nat.mod_eq_of_lt hb
  constructor
  · simp only [bump, hzone, hkey, hmod]
  · refine ⟨active, ?_⟩
    simp only [bump, hzone, hkey, hmod]
    simp [State.zone, hget]
  · rw [counter_bump, hzone, hkey, if_pos rfl]
  · rfl
  · intro k hk
    simp only [bump, hname]
    exact zonemdUpdate_of_ne fun heq => not_viewKey_zonemd z z (heq ▸ hk)
  · exact zoneNames_modify ..
  · intro j hj
    simp only [bump]
    rw [getElem?_modify]
    simp [Ne.symm hj]

/-- The zone `j` is another one than `z`, with a counter and a journal of its own. -/
structure Separate (S : Settings) (i : Nat) (z : Text) (zones : List ZoneEntry) (j : Nat) :
    Prop where
  ne : j ≠ i
  entry : ∃ e, zones[j]? = some e ∧ colon ∉ e.name ∧ e.name ≠ z ∧
    serialKey S (some e) ≠ zoneSerialKey S z ∧ ixfrJournalKey S e.name ≠ ixfrJournalKey S z

/-- A bump of another zone. -/
theorem bump_separate {j : Nat} (h : Separate S i z st.zones j) (hz : colon ∉ z) (s : Store)
    (hs : ∀ k, ViewKey z k → s k = st.store k) :
    Unaffected S i z st (bump S { st with store := s } (some j)).2 := by
  obtain ⟨e, hget, hcolon, hname, hkey, -⟩ := h.entry
  have hzone : State.zone { st with store := s } (some j) = some e := hget
  have hzn : State.zoneName S { st with store := s } (some j) = e.name := by
    simp [State.zoneName, hzone]
  constructor
  · simp only [State.zone, bump, bind_some]
    rw [getElem?_modify]
    simp [h.ne]
  · rw [counter_bump, hzone, if_neg (Ne.symm hkey)]
  · rfl
  · intro k hk
    simp only [bump, hzn]
    rw [zonemdUpdate_of_ne, hs k hk]
    rintro rfl
    exact not_viewKey_of_zone_ne (by decide) hcolon hz hname hk

theorem unaffected_journalAppend {st'' : State} {zone name value : Text} {fromS toS : Nat}
    {op : UInt8} (h : Unaffected S i z st st'')
    (hkey : ixfrJournalKey S zone ≠ ixfrJournalKey S z) :
    Unaffected S i z st (ixfrJournalAppend S st'' zone fromS toS op name value) := by
  refine ⟨h.zone, h.counter, ?_, h.store⟩
  simp only [ixfrJournalAppend]
  rw [if_neg (Ne.symm hkey)]
  exact h.journal

/-- The automatic PTR of an address, where there is one, is in another zone. -/
def PtrElsewhere (S : Settings) (i : Nat) (z : Text) (zones : List ZoneEntry) (ip : Text) : Prop :=
  S.ddnsAutoPtr = true → ∀ rev ∈ ddnsReverseName ip, ∀ j ∈ zoneForQname zones rev,
    Separate S i z zones j

theorem unaffected_autoPtrApply {fqdn ip : Text} {ttl : Nat} {del doBump : Bool}
    (hz : colon ∉ z) (h : PtrElsewhere S i z st.zones ip) :
    Unaffected S i z st (autoPtrApply S st fqdn ip ttl del doBump) := by
  unfold autoPtrApply
  split
  · exact Unaffected.refl ..
  rename_i hauto
  split
  · exact Unaffected.refl ..
  rename_i rev hrev
  split
  · exact Unaffected.refl ..
  rename_i j hj
  have hsep := h (by simpa using hauto) rev hrev j hj
  obtain ⟨e, hget, hcolon, hname, hkey, hjournal⟩ := hsep.entry
  have hkz : st.keyZone (some j) = e.name := by simp [State.keyZone, State.zone, hget]
  have hnot : ∀ k, ViewKey z k → k ≠ dkey e.name (lit "PTR") rev := by
    rintro k hk rfl
    exact not_viewKey_of_zone_ne (by decide) hcolon hz hname hk
  dsimp only
  rw [hkz]
  split
  · exact Unaffected.refl ..
  split
  · refine ⟨rfl, rfl, rfl, fun k hk => ?_⟩
    split
    · exact vkDel_ne (hnot k hk)
    · exact vkSet_ne (hnot k hk)
  · have htxn : Unaffected S i z st (if del = true then
        txnDelAndBump S st (some j) [dkey e.name (lit "PTR") rev]
        else txnSetAndBump S st (some j) (dkey e.name (lit "PTR") rev) fqdn (ttlOr ttl)).2 := by
      split
      · exact bump_separate hsep hz _ fun k hk => vkDel_ne (hnot k hk)
      · exact bump_separate hsep hz _ fun k hk => vkSet_ne (hnot k hk)
    generalize (if del = true then txnDelAndBump S st (some j) [dkey e.name (lit "PTR") rev]
      else txnSetAndBump S st (some j) (dkey e.name (lit "PTR") rev) fqdn (ttlOr ttl)) = t
      at htxn ⊢
    unfold journaled
    by_cases ht : t.1 = 0
    · rwa [if_pos ht]
    · rw [if_neg ht]
      exact unaffected_journalAppend htxn hjournal

/-- **A journaled edit of the zone**: the view moves by that edit. -/
theorem moves_of_ownBump (h : Ready S i z st) {s : Store} {t : Nat × State} {e : Edit}
    (ht : OwnBump S i z st s t) (hb : st.counter (zoneSerialKey S z) + 1 < 2 ^ 32)
    (haddr : heldAddresses z s = e.on (heldAddresses z st.store))
    (hptr : heldPointers z s = heldPointers z st.store)
    (hgood : GoodEdit (heldAddresses z st.store) e) :
    Ready S i z (ixfrJournalAppend S t.2 z (st.counter (zoneSerialKey S z)) t.1 e.op.code e.name
        e.address.text) ∧
      Moves (st.view S z) [e] ((ixfrJournalAppend S t.2 z (st.counter (zoneSerialKey S z)) t.1
        e.op.code e.name e.address.text).view S z) := by
  rw [ht.next]
  have hjournal : ∃ d, (ixfrJournalAppend S t.2 z (st.counter (zoneSerialKey S z))
      (st.counter (zoneSerialKey S z) + 1) e.op.code e.name e.address.text).journal
        (ixfrJournalKey S z) =
      (st.journal (ixfrJournalKey S z) ++ [entryText (st.counter (zoneSerialKey S z)) e]).drop
        d := by
    simp only [ixfrJournalAppend, if_pos, ht.journal]
    exact ⟨_, rfl⟩
  have hstore : ∀ k, ViewKey z k → t.2.store k = s k := ht.store
  have hheld : heldAddresses z t.2.store = e.on (heldAddresses z st.store) := by
    rw [heldAddresses_congr hstore, haddr]
  have hpointers : heldPointers z t.2.store = heldPointers z st.store := by
    rw [← hptr]
    exact heldPointers_congr fun ns hns n => hstore _ ⟨ns, hns, lit "PTR", by decide, n, rfl⟩
  constructor
  · obtain ⟨active, hentry⟩ := ht.entry
    refine ⟨⟨active, ?_⟩, h.noColon, h.ne_nil, h.short, ?_, ?_⟩
    · rwa [show (ixfrJournalAppend S t.2 z _ _ _ _ _).counter = t.2.counter from rfl, ht.counter]
    · rwa [show (ixfrJournalAppend S t.2 z _ _ _ _ _).counter = t.2.counter from rfl, ht.counter]
    · obtain ⟨d, hd⟩ := hjournal
      intro entry hentry p hp
      rw [show (ixfrJournalAppend S t.2 z _ _ _ _ _).counter = t.2.counter from rfl, ht.counter]
      rw [hd] at hentry
      obtain hold | hnew := mem_append.mp (mem_of_mem_drop hentry)
      · have := h.journal entry hold p hp
        omega
      · rw [mem_singleton.mp hnew, scanSerials_entryText hb,
          some.injEq] at hp
        rw [← hp]
        exact Nat.lt_succ_self _
  · exact ⟨hheld, hpointers, ht.counter, hjournal, hgood, trivial⟩

end Zone

end SimpleDns.Server
