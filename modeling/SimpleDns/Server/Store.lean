import SimpleDns.Wire.Addr
import SimpleDns.Wire.Name

/-!
# The server's store, zones, serials and journals (`dns_server.c`)

Valkey holds three kinds of values the authoritative server uses: strings with an optional lifetime
(records and leases), integers (the serial counters) and lists (the IXFR journals). Every command
succeeds here, reads are live (the in-process record cache is off, as it is by default), and the
sampled `stale:` shadow copies, which no modelled function reads, are left out.

* `State` is the store with the in-memory zone table; the zone of a request (`t_zone`) is an index
  into that table, `none` for `NULL`.
* `txnSetAndBump`, `txnDelAndBump` are the two transactions of ADR-004 (`dns_server.c:2651-2705`),
  `ixfrJournalAppend` the journal write (`dns_server.c:8377-8396`).
* A serial counter never goes down and a transaction moves one up (`Bumped`), so no later step leads
  back to the state before it (`Bumped.ne`).
-/

namespace SimpleDns.Server

open Wire Function

/-! ## The key-value store -/

/-- A stored string and the seconds it still lives; `none` is a key without `EX`. -/
structure Cell where
  value : Text
  ttl : Option Nat
deriving DecidableEq, Repr

/-- The string keys. -/
abbrev Store := Text → Option Cell

/-- What `SET key val` leaves, with `EX ttl` when `ttl > 0`. -/
def leaseCell (val : Text) (ttl : Nat) : Cell := ⟨val, if ttl > 0 then some ttl else none⟩

/-- `SET key val`, with `EX ttl` when `ttl > 0` (`vk_set`). -/
def vkSet (s : Store) (key val : Text) (ttl : Nat) : Store :=
  update s key (some (leaseCell val ttl))

/-- `DEL key` (`vk_del`). -/
def vkDel (s : Store) (key : Text) : Store := update s key none

/-- `vk_get(key, out, olen)`: what `out` holds when the key exists. -/
def vkGet (s : Store) (key : Text) (olen : Nat) : Option Text :=
  (s key).map fun c => safeStrcpy c.value olen

@[simp] theorem vkSet_self (s : Store) (key val : Text) (ttl : Nat) :
    vkSet s key val ttl key = some (leaseCell val ttl) :=
  update_self ..

theorem vkSet_ne {s : Store} {key val k : Text} {ttl : Nat} (h : k ≠ key) :
    vkSet s key val ttl k = s k :=
  update_of_ne h ..

@[simp] theorem vkDel_self (s : Store) (key : Text) : vkDel s key key = none :=
  update_self ..

theorem vkDel_ne {s : Store} {key k : Text} (h : k ≠ key) : vkDel s key k = s k :=
  update_of_ne h ..

/-! ## Zones -/

/-- The fields of `zone_entry_t` that replication uses. -/
structure ZoneEntry where
  name : Text
  soaSerial : Nat
  active : Bool
deriving DecidableEq, Repr

/-- The settings the update path reads. `zonemd` is the ZONEMD value `zonemd_update` writes for a
zone and serial, `none` where it is not enabled. -/
structure Settings where
  zoneName : Text
  secondary : Bool
  tsigSecret : Bytes
  srpEnabled : Bool
  ddnsAllowSuffix : Text
  ddnsAutoPtr : Bool
  srpMaxLease : Nat
  srpMaxKeyLease : Nat
  zonemd : Text → Nat → Store → Option Text

/-- The server: store, counters, journals, zone table and `g_soa_serial`. -/
structure State where
  store : Store
  counter : Text → Nat
  journal : Text → List Text
  zones : List ZoneEntry
  soaSerial : Nat

/-- The zone equals the name, or is a suffix of it behind a dot. -/
def zoneMatches (zone qname : Text) : Bool :=
  if zone.length = qname.length then eqCI qname zone
  else
    zone.length + 1 < qname.length && byteAt qname (qname.length - zone.length - 1) == dot &&
      eqCI (qname.drop (qname.length - zone.length)) zone

/-- The loop of `zone_for_qname` from index `i`, with the best index and its length so far. -/
def zoneLoop (qname : Text) : List ZoneEntry → Nat → Option (Nat × Nat) → Option (Nat × Nat)
  | [], _, best => best
  | z :: zs, i, best =>
    let better := match best with
      | some (_, len) => len < z.name.length
      | none => true
    zoneLoop qname zs (i + 1)
      (if z.active && !z.name.isEmpty && zoneMatches z.name qname && better then
        some (i, z.name.length) else best)

/-- `zone_for_qname`: the index of the longest matching active zone. -/
def zoneForQname (zones : List ZoneEntry) (qname : Text) : Option Nat :=
  (zoneLoop qname zones 0 none).map (·.1)

/-- The zone selected for a name is one of the table, and holds it. -/
theorem zoneLoop_matches {q : Text} {zs : List ZoneEntry} {i : Nat} {best : Option (Nat × Nat)}
    {j len : Nat} (h : zoneLoop q zs i best = some (j, len)) :
    best = some (j, len) ∨ i ≤ j ∧ ∃ e, zs[j - i]? = some e ∧ zoneMatches e.name q = true := by
  induction zs generalizing i best with
  | nil => exact .inl h
  | cons e zs ih =>
    unfold zoneLoop at h
    obtain hbest | ⟨hle, e', he', hm⟩ := ih h
    · obtain ⟨hcond, hnew⟩ | ⟨-, hold⟩ := ite_eq_iff.mp hbest
      · cases hnew
        simp only [Bool.and_eq_true] at hcond
        exact .inr ⟨le_rfl, e, by simp, hcond.1.2⟩
      · exact .inl hold
    · refine .inr ⟨by omega, e', ?_, hm⟩
      rwa [show j - i = (j - (i + 1)) + 1 by omega, List.getElem?_cons_succ]

/-- `t_zone`. -/
abbrev TZone := Option Nat

/-- The zone of the request. -/
def State.zone (st : State) (tz : TZone) : Option ZoneEntry := tz.bind fun i => st.zones[i]?

/-- `t_zone ? t_zone->name : ""`. -/
def State.keyZone (st : State) (tz : TZone) : Text := ((st.zone tz).map (·.name)).getD []

/-- `t_zone ? t_zone->soa_serial : g_soa_serial`. -/
def State.serial (st : State) (tz : TZone) : Nat :=
  ((st.zone tz).map (·.soaSerial)).getD st.soaSerial

variable (S : Settings) (st : State) (tz : TZone)

/-- `t_zone ? t_zone->name : g_zone_name`. -/
def State.zoneName : Text :=
  ((st.zone tz).map (·.name)).getD S.zoneName

/-! ## Keys -/

/-- `<ns>:<zone>:<type>:<name>`, the shape of `zkey`, `dkey` and `skey`. -/
def recordKey (ns zone type name : Text) : Text :=
  ns ++ [colon] ++ zone ++ [colon] ++ type ++ [colon] ++ name

/-- `zkey`. -/
def zkey (zone type name : Text) : Text := recordKey (lit "zone") zone type name

/-- `dkey`. -/
def dkey (zone type name : Text) : Text := recordKey (lit "ddns") zone type name

/-- `skey`. -/
def skey (zone type name : Text) : Text := recordKey (lit "srp") zone type name

/-- `ixfr_journal_key`. -/
def ixfrJournalKey (zone : Text) : Text :=
  lit "ixfr:" ++ (if zone = [] then S.zoneName else zone).take 200 ++ lit ":journal"

/-- The counter key of `serial_bump` and `serial_bump_txn_queue`. -/
def serialKey (zone : Option ZoneEntry) : Text :=
  match zone with
  | some z =>
    if eqCI z.name S.zoneName then lit "config:zone_serial"
    else lit "config:zone:" ++ z.name ++ lit ":serial"
  | none => lit "config:zone_serial"

/-! ## Serials -/

/-- The zone has the primary counter: `!z || strcasecmp(z->name, g_zone_name) == 0`. -/
def isPrimary (zone : Option ZoneEntry) : Bool :=
  match zone with
  | some z => eqCI z.name S.zoneName
  | none => true

/-- `zonemd_update`. -/
def zonemdUpdate (zname : Text) (serial : Nat) (s : Store) : Store :=
  match S.zonemd zname serial s with
  | some v => vkSet s (zkey zname (lit "ZONEMD") zname) v 0
  | none => s

/-- The `INCR` of a transaction and `serial_bump_txn_apply`: the new serial and the state. -/
def bump : Nat × State :=
  let z := st.zone tz
  let key := serialKey S z
  let ns := (st.counter key + 1) % 2 ^ 32
  (ns,
    { st with
      counter := fun k => if k = key then st.counter key + 1 else st.counter k
      zones := match tz with
        | some i => st.zones.modify i fun z => { z with soaSerial := ns }
        | none => st.zones
      soaSerial := if isPrimary S z then ns else st.soaSerial
      store := zonemdUpdate S (State.zoneName S st tz) ns st.store })

/-- `txn_set_and_bump`. -/
def txnSetAndBump (key val : Text) (ttl : Nat) : Nat × State :=
  bump S { st with store := vkSet st.store key val ttl } tz

/-- `txn_del_and_bump`. -/
def txnDelAndBump (keys : List Text) : Nat × State :=
  bump S { st with store := keys.foldl vkDel st.store } tz

/-! ## Journals -/

/-- `IXFR_JOURNAL_MAX`. -/
def ixfrJournalMax : Nat := 4096

/-- `%u|%u|%c|%s|%s`. -/
def journalEntry (fromSerial toSerial : Nat) (op : UInt8) (name value : Text) : Text :=
  decimal fromSerial ++ [124] ++ decimal toSerial ++ [124, op, 124] ++ name ++ [124] ++ value

/-- The operations `'A'` and `'D'`. -/
def opAdd : UInt8 := 65
def opDel : UInt8 := 68

/-- `ixfr_journal_append`: `RPUSH`, then `LTRIM` to the newest entries. -/
def ixfrJournalAppend (zone : Text) (fromSerial toSerial : Nat) (op : UInt8) (name value : Text) :
    State :=
  let key := ixfrJournalKey S zone
  let entry := safeStrcpy (journalEntry fromSerial toSerial op name value) 1024
  let all := st.journal key ++ [entry]
  { st with journal := fun k =>
      if k = key then all.drop (all.length - ixfrJournalMax) else st.journal k }

/-- `if (next) ixfr_journal_append(zone, prev, next, op, name, value)` after a transaction. -/
def journaled (zone : Text) (prev : Nat) (op : UInt8) (name value : Text) (t : Nat × State) :
    State :=
  if t.1 = 0 then t.2 else ixfrJournalAppend S t.2 zone prev t.1 op name value

/-! ## Counters only grow -/

/-- No counter went down from `st` to `st'`. -/
structure Grows (st st' : State) : Prop where
  le : ∀ k, st.counter k ≤ st'.counter k

/-- Some counter went up, and none down. -/
structure Bumped (st st' : State) : Prop extends Grows st st' where
  lt : ∃ k, st.counter k < st'.counter k

theorem Grows.refl (st : State) : Grows st st := ⟨fun _ => le_rfl⟩

theorem Grows.of_counter_eq {st st' : State} (h : st'.counter = st.counter) : Grows st st' :=
  ⟨fun k => le_of_eq (congrFun h k).symm⟩

theorem Grows.trans {a b c : State} (hab : Grows a b) (hbc : Grows b c) : Grows a c :=
  ⟨fun k => (hab.le k).trans (hbc.le k)⟩

theorem Bumped.trans_grows {a b c : State} (hab : Bumped a b) (hbc : Grows b c) : Bumped a c := by
  obtain ⟨hg, k, hk⟩ := hab
  exact ⟨hg.trans hbc, k, hk.trans_le (hbc.le k)⟩

theorem Grows.trans_bumped {a b c : State} (hab : Grows a b) (hbc : Bumped b c) : Bumped a c := by
  obtain ⟨hg, k, hk⟩ := hbc
  exact ⟨hab.trans hg, k, (hab.le k).trans_lt hk⟩

/-- A bump is not undone: the state is another one. -/
theorem Bumped.ne {a b : State} (h : Bumped a b) : b ≠ a := by
  rintro rfl
  obtain ⟨-, k, hk⟩ := h
  exact lt_irrefl _ hk

section

variable (S : Settings) (st : State) (tz : TZone)

theorem counter_bump (k : Text) :
    (bump S st tz).2.counter k =
      if k = serialKey S (st.zone tz) then st.counter k + 1 else st.counter k := by
  simp only [bump]
  split
  · rename_i h
    rw [h]
  · rfl

theorem bumped_bump : Bumped st (bump S st tz).2 := by
  refine ⟨⟨fun k => ?_⟩, serialKey S (st.zone tz), ?_⟩
  · rw [counter_bump]
    split <;> omega
  · rw [counter_bump, if_pos rfl]
    exact Nat.lt_succ_self _

theorem bumped_txnSetAndBump (key val : Text) (ttl : Nat) :
    Bumped st (txnSetAndBump S st tz key val ttl).2 :=
  Grows.trans_bumped (b := { st with store := vkSet st.store key val ttl })
    (Grows.of_counter_eq rfl) (bumped_bump ..)

theorem bumped_txnDelAndBump (keys : List Text) : Bumped st (txnDelAndBump S st tz keys).2 :=
  Grows.trans_bumped (b := { st with store := keys.foldl vkDel st.store })
    (Grows.of_counter_eq rfl) (bumped_bump ..)

end

theorem grows_ixfrJournalAppend (S : Settings) (st : State) (zone : Text)
    (fromSerial toSerial : Nat) (op : UInt8) (name value : Text) :
    Grows st (ixfrJournalAppend S st zone fromSerial toSerial op name value) :=
  Grows.of_counter_eq rfl

theorem grows_journaled (S : Settings) (zone : Text) (prev : Nat) (op : UInt8)
    (name value : Text) (t : Nat × State) : Grows t.2 (journaled S zone prev op name value t) := by
  unfold journaled
  split
  · exact Grows.refl _
  · exact grows_ixfrJournalAppend ..

end SimpleDns.Server
