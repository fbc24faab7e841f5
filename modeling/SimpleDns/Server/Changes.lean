import SimpleDns.Server.View

/-!
# The changes of a zone and their runs

`Change` is everything that writes a zone and journals it: a record of an UPDATE, a registration,
the expiry of a lease (`ddns_replay_expiry`, `srp_replay_expiry`, `dns_server.c:10590-10640`,
`10896-10950`). An UPDATE is a run of changes, one for each record (`updateLoop_eq_run`).

* `Plain` lists the changes whose journal entry says all there is to say. A replaced address is not
  among them (the entry adds the new one and nothing deletes the old), nor is anything with a value
  that is no address (a PTR, a registration), which the transfer leaves out.
* **`PlainRun.reaches`**: a run of plain changes moves the view by a list of edits.
-/

namespace SimpleDns.Server

open Wire Lib List Option

/-! ## Lease expiry -/

/-- The part of a text up to the first colon, and what is behind it. -/
def splitColon (s : Text) : Option (Text × Text) :=
  if colon ∈ s then some (s.takeWhile (· ≠ colon), (s.dropWhile (· ≠ colon)).tail) else none

/-- `ddns_key_split` and `srp_key_split`: zone, type and name of a key of the namespace. -/
def keySplit (ns key : Text) : Option (Text × Text × Text) :=
  if key.take (ns.length + 1) = ns ++ [colon] then
    (splitColon (key.drop (ns.length + 1))).bind fun (zone, r) =>
      (splitColon r).bind fun (type, name) =>
        if zone.length ≥ 256 ∨ type.length ≥ 16 ∨ name.length ≥ 256 then none
        else some (zone, type, name)
  else none

/-- The active zone of that name. -/
def activeZone (zones : List ZoneEntry) (zone : Text) : Option Nat :=
  zones.findIdx? fun z => z.active && eqCI z.name zone

/-- The replay of a vanished lease as a deletion: `serial_bump`, then the journal entry. -/
def replayExpiry (S : Settings) (st : State) (zone name value : Text) : State :=
  match activeZone st.zones zone with
  | none => st
  | some j =>
    let t := bump S st (some j)
    ixfrJournalAppend S t.2 (st.keyZone (some j)) (st.serial (some j)) t.1 opDel name value

/-- A lease runs out: the key vanishes, and the sweeper of its namespace replays it with the value
it last saw. The owner records of `srp:` are not replayed. -/
def expire (S : Settings) (st : State) (key : Text) : State :=
  match st.store key with
  | none => st
  | some c =>
    let st1 := { st with store := vkDel st.store key }
    match keySplit (lit "ddns") key with
    | some (zone, _, name) => replayExpiry S st1 zone name (safeStrcpy c.value 768)
    | none =>
      match keySplit (lit "srp") key with
      | some (zone, type, name) =>
        if type = lit "OWNER" then st1 else replayExpiry S st1 zone name (safeStrcpy c.value 768)
      | none => st1

/-! ## Changes -/

/-- A change of the zone. -/
inductive Change
  | record (pkt : Bytes) (r : UpdateRR)
  | registration (pkt : Bytes) (ul : UpdateLease) (req : SrpRequest)
  | expiry (key : Text)

/-- The change, on the primary whose zone is the `i`-th. -/
def Change.apply (S : Settings) (i : Nat) (st : State) : Change → State
  | record pkt r => applyUpdateRR S (some i) pkt st r
  | registration pkt ul req => (srpApply S st (some i) pkt ul req).2
  | expiry key => expire S st key

/-- Changes one after another. -/
def run (S : Settings) (i : Nat) (st : State) (cs : List Change) : State :=
  cs.foldl (Change.apply S i) st

/-- The update section of a packet is a run of its records. -/
theorem updateLoop_eq_run (S : Settings) (i : Nat) (pkt : Bytes) (n off : Nat) (st : State) :
    (updateLoop S (some i) pkt n off st).2 =
      run S i st ((updatePlan S pkt n off).1.map (Change.record pkt)) := by
  rw [updateLoop_eq, run, foldl_map]
  rfl

/-! ## Address records -/

/-- The address a record adds. -/
def recordAddress (pkt : Bytes) (r : UpdateRR) : Option Address :=
  if h : (r.isAdd = true ∧ r.type = RRType.A ∧ r.rdlen = 4) ∧ (slice pkt r.rdoff 4).length = 4 then
    some ⟨.inet, slice pkt r.rdoff 4, h.2⟩
  else if h : (r.isAdd = true ∧ r.type = RRType.AAAA ∧ r.rdlen = 16) ∧
      (slice pkt r.rdoff 16).length = 16 then
    some ⟨.inet6, slice pkt r.rdoff 16, h.2⟩
  else none

/-- The size of the buffer a stored lease is read into. -/
def leaseBuffer : Family → Nat
  | .inet => 64
  | .inet6 => 46

variable {pkt : Bytes} {r : UpdateRR} {a : Address}

theorem recordAddress_spec (h : recordAddress pkt r = some a) : r.isAdd = true ∧
      addedAddress pkt r = some (a.family.typeName, a.text, leaseBuffer a.family) := by
  unfold recordAddress at h
  split at h
  · rename_i hr
    cases h
    refine ⟨hr.1.1, ?_⟩
    rw [addedAddress, if_pos hr.1.2]
    rfl
  split at h
  · rename_i hr
    cases h
    refine ⟨hr.1.1, ?_⟩
    have hne : ¬(r.type = RRType.A ∧ r.rdlen = 4) := fun h => by
      have := h.1.symm.trans hr.1.2.1
      cases this
    rw [addedAddress, if_neg hne, if_pos hr.1.2]
    rfl
  · cases h

theorem applyUpdateRR_of_address {S : Settings} {tz : TZone} {st : State}
    (h : recordAddress pkt r = some a) : applyUpdateRR S tz pkt st r =
      addAddress S st tz r.name r.ttl a.family.typeName a.text (leaseBuffer a.family) := by
  obtain ⟨hadd, haddr⟩ := recordAddress_spec h
  rw [applyUpdateRR, if_pos hadd, applyAdd, haddr]

theorem applyUpdateRR_of_delete {S : Settings} {tz : TZone} {st : State} {f : Family}
    (hdel : r.isDelete = true) (ht : r.type = f.rrtype) :
    applyUpdateRR S tz pkt st r = delAddress S st tz r.name f.typeName (leaseBuffer f) := by
  have hadd : r.isAdd = false := by
    simp only [UpdateRR.isDelete, Bool.and_eq_true, beq_iff_eq] at hdel
    simp [UpdateRR.isAdd, hdel.2]
  have hothers : delOthers r = [] := by
    rw [delOthers, ht]
    cases f <;> decide
  simp only [applyUpdateRR, hadd, hdel, Bool.false_eq_true, if_false, if_true, applyDelete,
    hothers, ht]
  cases f <;> rfl

/-- A stored address is read back whole. -/
theorem vkGet_lease {s : Store} {key : Text} {ttl : Option Nat} (h : s key = some ⟨a.text, ttl⟩) :
    vkGet s key (leaseBuffer a.family) = some a.text := by
  have hlen := a.length_text_le
  have hbuf : 45 ≤ leaseBuffer a.family - 1 := by
    cases a.family <;> decide
  have htake : a.text.take (leaseBuffer a.family - 1) = a.text :=
    take_of_length_le (by omega)
  rw [vkGet, h, map_some, safeStrcpy, htake]

/-! ## Plain changes -/

/-- The changes a secondary can follow. -/
inductive Plain (S : Settings) (i : Nat) (z : Text) (st : State) : Change → Prop
  /-- The stored address is refreshed. -/
  | refresh {pkt : Bytes} {r : UpdateRR} {a : Address} {ttl : Option Nat}
      (address : recordAddress pkt r = some a)
      (stored : st.store (dkey z a.family.typeName r.name) = some ⟨a.text, ttl⟩)
      (pointer : PtrElsewhere S i z st.zones a.text) : Plain S i z st (.record pkt r)
  /-- An address is added where no lease is stored. -/
  | add {pkt : Bytes} {r : UpdateRR} {a : Address}
      (address : recordAddress pkt r = some a)
      (stored : st.store (dkey z a.family.typeName r.name) = none)
      (good : GoodEdit (heldAddresses z st.store) ⟨.add, r.name, a⟩)
      (pointer : PtrElsewhere S i z st.zones a.text)
      (serial : st.counter (zoneSerialKey S z) + 1 < 2 ^ 32) : Plain S i z st (.record pkt r)
  /-- The stored address is deleted. -/
  | delete {pkt : Bytes} {r : UpdateRR} {a : Address} {ttl : Option Nat}
      (del : r.isDelete = true) (type : r.type = a.family.rrtype)
      (stored : st.store (dkey z a.family.typeName r.name) = some ⟨a.text, ttl⟩)
      (good : GoodEdit (heldAddresses z st.store) ⟨.delete, r.name, a⟩)
      (pointer : PtrElsewhere S i z st.zones a.text)
      (serial : st.counter (zoneSerialKey S z) + 1 < 2 ^ 32) : Plain S i z st (.record pkt r)
  /-- A record that does nothing: an unknown type, or a deletion where nothing is stored. -/
  | nothing {pkt : Bytes} {r : UpdateRR} (bumps : Bumps st (some i) pkt r = false)
      (writes : ∀ k v, lastWrite k (renewals S st (some i) pkt r) = some v → st.store k = v) :
      Plain S i z st (.record pkt r)
  /-- The lease of an address runs out. -/
  | expiry {n : Text} {a : Address} {ttl : Option Nat}
      (stored : st.store (dkey z a.family.typeName n) = some ⟨a.text, ttl⟩)
      (zone : activeZone st.zones z = some i)
      (good : GoodEdit (heldAddresses z st.store) ⟨.delete, n, a⟩)
      (serial : st.counter (zoneSerialKey S z) + 1 < 2 ^ 32) :
      Plain S i z st (.expiry (dkey z a.family.typeName n))
  /-- A key of another zone runs out. -/
  | elsewhere {key : Text} (other : ¬ViewKey z key)
      (zone : ∀ ns p, keySplit ns key = some p → ∀ j ∈ activeZone st.zones p.1,
        Separate S i z st.zones j) :
      Plain S i z st (.expiry key)

/-- Each change of a run is plain in the state it meets. -/
def PlainRun (S : Settings) (i : Nat) (z : Text) : State → List Change → Prop
  | _, [] => True
  | st, c :: cs => Plain S i z st c ∧ PlainRun S i z (c.apply S i st) cs

/-! ## One change -/

section Steps

variable {S : Settings} {i : Nat} {z : Text} {st : State}

/-- The zone is ready in `st'`, and its view went there by `es`. -/
def Reaches (S : Settings) (i : Nat) (z : Text) (st : State) (es : List Edit) (st' : State) :
    Prop :=
  Ready S i z st' ∧ Moves (st.view S z) es (st'.view S z)

theorem Reaches.unaffected {es : List Edit} {st' st'' : State} (h : Reaches S i z st es st')
    (h' : Unaffected S i z st' st'') : Reaches S i z st es st'' := by
  refine ⟨h'.ready h.1, ?_⟩
  rw [h'.view_eq]
  exact h.2

theorem Ready.withStore (h : Ready S i z st) (s : Store) : Ready S i z { st with store := s } :=
  ⟨h.entry, h.noColon, h.ne_nil, h.short, h.bounded, h.journal⟩

/-- A bump of the zone's own serial leaves the other zones where they were. -/
theorem PtrElsewhere.of_ownBump {ip : Text} {s : Store} {t : Nat × State}
    (h : PtrElsewhere S i z st.zones ip) (ht : OwnBump S i z st s t) :
    PtrElsewhere S i z t.2.zones ip := by
  intro hauto rev hrev j hj
  rw [zoneForQname_congr ht.names] at hj
  obtain ⟨hne, e, hget, hrest⟩ := h hauto rev hrev j hj
  exact ⟨hne, e, (ht.others j hne).trans hget, hrest⟩

variable {n : Text} {ttl : Option Nat}

/-- A refresh leaves the view alone. -/
theorem reaches_refresh (newTtl : Nat) (h : Ready S i z st)
    (hstored : st.store (dkey z a.family.typeName n) = some ⟨a.text, ttl⟩)
    (hptr : PtrElsewhere S i z st.zones a.text) :
    Reaches S i z st [] (addAddress S st (some i) n newTtl a.family.typeName a.text
      (leaseBuffer a.family)) := by
  simp only [addAddress, keyZone_of_ready h, vkGet_lease hstored, if_true]
  refine Reaches.unaffected ⟨h.withStore _, ?_⟩ (unaffected_autoPtrApply h.noColon hptr)
  have haddr := heldAddresses_refresh hstored (leaseCell a.text (ttlOr newTtl)).ttl
  have hpointers : heldPointers z (vkSet st.store (dkey z a.family.typeName n) a.text
      (ttlOr newTtl)) = heldPointers z st.store := heldPointers_update (by decide) ..
  exact ⟨haddr, hpointers, rfl, ⟨0, by simp [entries, State.view]⟩, trivial⟩

/-- A write to the store with its bump and its entry. -/
theorem reaches_edit (h : Ready S i z st) {s : Store} {e : Edit}
    (haddr : heldAddresses z s = e.on (heldAddresses z st.store))
    (hptr : heldPointers z s = heldPointers z st.store)
    (hgood : GoodEdit (heldAddresses z st.store) e)
    (hb : st.counter (zoneSerialKey S z) + 1 < 2 ^ 32) :
    let t := bump S { st with store := s } (some i)
    OwnBump S i z st s t ∧ t.1 ≠ 0 ∧ Reaches S i z st [e]
      (ixfrJournalAppend S t.2 z (st.counter (zoneSerialKey S z)) t.1 e.op.code e.name
        e.address.text) := by
  have hown := bump_own h s hb
  exact ⟨hown, hown.next ▸ Nat.succ_ne_zero _, moves_of_ownBump h hown hb haddr hptr hgood⟩

/-- A new address: its lease, the bump, the entry, and the PTR of another zone. -/
theorem reaches_add (newTtl : Nat) (h : Ready S i z st)
    (hstored : st.store (dkey z a.family.typeName n) = none)
    (hgood : GoodEdit (heldAddresses z st.store) ⟨.add, n, a⟩)
    (hptr : PtrElsewhere S i z st.zones a.text) (hb : st.counter (zoneSerialKey S z) + 1 < 2 ^ 32) :
    Reaches S i z st [⟨.add, n, a⟩] (addAddress S st (some i) n newTtl a.family.typeName a.text
      (leaseBuffer a.family)) := by
  have hold : vkGet st.store (dkey z a.family.typeName n) (leaseBuffer a.family) = none := by
    rw [vkGet, hstored, map_none]
  obtain ⟨hown, hnext, hreach⟩ := reaches_edit
    (s := vkSet st.store (dkey z a.family.typeName n) a.text (ttlOr newTtl)) h
    (heldAddresses_add hstored _) (heldPointers_update (by decide) ..) hgood hb
  simp only [addAddress, keyZone_of_ready h, zoneName_of_ready h, serial_of_ready h, hold,
    reduceCtorEq, if_false, txnSetAndBump, journaled, if_neg hnext]
  exact hreach.unaffected (unaffected_autoPtrApply h.noColon (hptr.of_ownBump hown))

section

variable (h : Ready S i z st) (hstored : st.store (dkey z a.family.typeName n) = some ⟨a.text, ttl⟩)
  (hgood : GoodEdit (heldAddresses z st.store) ⟨.delete, n, a⟩)

include h hstored hgood

/-- The deletion of a lease with its entry, however it comes about. -/
theorem reaches_delete (hb : st.counter (zoneSerialKey S z) + 1 < 2 ^ 32) :
    let t := bump S { st with store := vkDel st.store (dkey z a.family.typeName n) } (some i)
    OwnBump S i z st (vkDel st.store (dkey z a.family.typeName n)) t ∧ t.1 ≠ 0 ∧
      Reaches S i z st [⟨.delete, n, a⟩]
        (ixfrJournalAppend S t.2 z (st.counter (zoneSerialKey S z)) t.1 opDel n a.text) :=
  reaches_edit h (heldAddresses_delete hstored) (heldPointers_update (by decide) ..) hgood hb

theorem reaches_delAddress (hptr : PtrElsewhere S i z st.zones a.text)
    (hb : st.counter (zoneSerialKey S z) + 1 < 2 ^ 32) :
    Reaches S i z st [⟨.delete, n, a⟩]
      (delAddress S st (some i) n a.family.typeName (leaseBuffer a.family)) := by
  obtain ⟨hown, hnext, hreach⟩ := reaches_delete h hstored hgood hb
  simp only [delAddress, keyZone_of_ready h, zoneName_of_ready h, serial_of_ready h,
    vkGet_lease hstored, getD_some, a.text_ne_nil, if_false, txnDelAndBump, foldl_cons,
    foldl_nil, if_neg hnext]
  exact hreach.unaffected (unaffected_autoPtrApply h.noColon (hptr.of_ownBump hown))

end

theorem splitColon_append {a b : Text} (h : colon ∉ a) :
    splitColon (a ++ colon :: b) = some (a, b) := by
  obtain ⟨htake, hdrop⟩ := takeWhile_ne_append h b
  rw [splitColon, if_pos (by simp), htake, hdrop, tail_cons]

theorem keySplit_recordKey {ns zone type name : Text} (hz : colon ∉ zone) (ht : colon ∉ type)
    (hzone : zone.length < 256) (htype : type.length < 16) (hname : name.length < 256) :
    keySplit ns (recordKey ns zone type name) = some (zone, type, name) := by
  have hkey : recordKey ns zone type name =
      (ns ++ [colon]) ++ (zone ++ colon :: (type ++ colon :: name)) := by
    simp [recordKey]
  have hlen : ns.length + 1 = (ns ++ [colon]).length := by simp
  rw [keySplit, hkey, hlen, take_left, if_pos rfl, drop_left, splitColon_append hz]
  simp only [bind_some, splitColon_append ht]
  rw [if_neg (by omega)]

theorem reaches_expiry (h : Ready S i z st)
    (hstored : st.store (dkey z a.family.typeName n) = some ⟨a.text, ttl⟩)
    (hzone : activeZone st.zones z = some i)
    (hgood : GoodEdit (heldAddresses z st.store) ⟨.delete, n, a⟩)
    (hb : st.counter (zoneSerialKey S z) + 1 < 2 ^ 32) :
    Reaches S i z st [⟨.delete, n, a⟩] (expire S st (dkey z a.family.typeName n)) := by
  have hsplit : keySplit (lit "ddns") (dkey z a.family.typeName n) =
      some (z, a.family.typeName, n) := by
    refine keySplit_recordKey h.noColon (colon_notMem_typeName _) (Nat.lt_succ_of_le h.short) ?_
      (Nat.lt_succ_of_le hgood.owner.short)
    cases a.family <;> decide
  have hval : safeStrcpy a.text 768 = a.text :=
    take_of_length_le (a.length_text_le.trans (by decide))
  simp only [expire, hstored, hsplit, replayExpiry, hzone, hval]
  have h1 := h.withStore (vkDel st.store (dkey z a.family.typeName n))
  rw [keyZone_of_ready h1, serial_of_ready h1]
  exact (reaches_delete h hstored hgood hb).2.2

/-- The replay of another zone's lease. -/
theorem unaffected_replayExpiry {zone name value : Text} {s : Store} (hz : colon ∉ z)
    (hs : ∀ k, ViewKey z k → s k = st.store k)
    (h : ∀ j ∈ activeZone st.zones zone, Separate S i z st.zones j) :
    Unaffected S i z st (replayExpiry S { st with store := s } zone name value) := by
  unfold replayExpiry
  cases hj : activeZone st.zones zone with
  | none => exact ⟨rfl, rfl, rfl, hs⟩
  | some j =>
    have hsep := h j hj
    obtain ⟨e, hget, -, -, -, hjournal⟩ := hsep.entry
    have hkz : State.keyZone { st with store := s } (some j) = e.name := by
      simp [State.keyZone, State.zone, hget]
    simp only [hkz]
    exact unaffected_journalAppend (bump_separate hsep hz s hs) hjournal

theorem unaffected_expire {key : Text} (hz : colon ∉ z) (hkey : ¬ViewKey z key)
    (h : ∀ ns p, keySplit ns key = some p → ∀ j ∈ activeZone st.zones p.1,
      Separate S i z st.zones j) :
    Unaffected S i z st (expire S st key) := by
  have hs : ∀ k, ViewKey z k → vkDel st.store key k = st.store k := fun k hk =>
    vkDel_ne fun heq => hkey (heq ▸ hk)
  unfold expire
  split
  · exact Unaffected.refl ..
  split
  · rename_i p hp
    exact unaffected_replayExpiry hz hs (h _ _ hp)
  split
  · rename_i p hp
    split
    · exact ⟨rfl, rfl, rfl, hs⟩
    · exact unaffected_replayExpiry hz hs (h _ _ hp)
  · exact ⟨rfl, rfl, rfl, hs⟩

/-- **A plain change**: the view moves by at most one edit. -/
theorem Plain.reaches {c : Change} (hc : Plain S i z st c) (h : Ready S i z st) :
    ∃ es, Reaches S i z st es (c.apply S i st) := by
  cases hc with
  | @refresh pkt r a ttl haddr hstored hptr =>
    rw [Change.apply, applyUpdateRR_of_address haddr]
    exact ⟨_, reaches_refresh r.ttl h hstored hptr⟩
  | @add pkt r a haddr hstored hgood hptr hb =>
    rw [Change.apply, applyUpdateRR_of_address haddr]
    exact ⟨_, reaches_add r.ttl h hstored hgood hptr hb⟩
  | @delete pkt r a ttl hdel htype hstored hgood hptr hb =>
    rw [Change.apply, applyUpdateRR_of_delete hdel htype]
    exact ⟨_, reaches_delAddress h hstored hgood hptr hb⟩
  | @nothing pkt r hbumps hwrites =>
    have hsame : applyUpdateRR S (some i) pkt st r = st := by
      rw [applyUpdateRR_of_not_bumps hbumps, (applyWrites_eq_self_iff _ _).mpr hwrites]
    rw [Change.apply, hsame]
    exact ⟨[], h, Moves.refl _⟩
  | expiry hstored hzone hgood hb => exact ⟨_, reaches_expiry h hstored hzone hgood hb⟩
  | elsewhere hother hzone =>
    exact ⟨_, .unaffected ⟨h, Moves.refl _⟩ (unaffected_expire h.noColon hother hzone)⟩

/-! ## A run -/

theorem plainRun_append {cs cs' : List Change} :
    PlainRun S i z st (cs ++ cs') ↔ PlainRun S i z st cs ∧ PlainRun S i z (run S i st cs) cs' := by
  induction cs generalizing st with
  | nil => simp [PlainRun, run]
  | cons c cs ih =>
    rw [cons_append, PlainRun, PlainRun, ih, and_assoc]
    rfl

/-- **A run of plain changes** moves the view by a list of edits. -/
theorem PlainRun.reaches {cs : List Change} (hcs : PlainRun S i z st cs) (h : Ready S i z st) :
    ∃ es, Reaches S i z st es (run S i st cs) := by
  induction cs generalizing st with
  | nil => exact ⟨[], h, Moves.refl _⟩
  | cons c cs ih =>
    obtain ⟨es, hready, hmoves⟩ := hcs.1.reaches h
    obtain ⟨es', hready', hmoves'⟩ := ih hcs.2 hready
    exact ⟨es ++ es', hready', hmoves.trans hmoves'⟩

end Steps

end SimpleDns.Server
