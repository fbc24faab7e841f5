import SimpleDns.Lib.Threads
import SimpleDns.Server.Handle
import SimpleDns.Server.View

/-!
# The journal under concurrent changes

Every change of a zone increments the zone's counter in Valkey, and some changes are journaled. A
handler that journals reads the start serial of its entry from the zone table in memory, gets the
end serial back from the transaction, and appends the entry when the transaction has committed.
Between these operations other threads and other daemons act. Valkey answers: the count
`serial_bump` makes in memory where `INCR` fails is left out.

* `SerialOp` are the operations on counters, serials and journals, each atomic (a Valkey
  transaction, or a section under `g_soa_mutex`); `journals` is the system of all threads that
  perform them: handlers that journal, handlers that do not, other daemons, and reloads of the zone
  table.
* `drive_journaledChange`: alone, a handler does what the sequential model of an update does.
* **`journal_covers`**: if every journaled change increments the counter from the serial its handler
  has read, a fetched chain holds the entry of every increment it spans.
* **`foreign_increment_spanned`**: a change of another daemon between the two is spanned silently.
-/

namespace SimpleDns.Server

open Wire Lib List Option

/-! ## Operations -/

/-- What a handler will append: the arguments of `ixfr_journal_append` but the end serial. -/
structure Logged where
  zone : Text
  prev : Nat
  op : UInt8
  name : Text
  value : Text
deriving DecidableEq, Repr

/-- The journal line under the end serial. -/
def Logged.entry (L : Logged) (ns : Nat) : Text :=
  safeStrcpy (journalEntry L.prev ns L.op L.name L.value) 1024

/-- The operations: reading `soa_serial`; a transaction that writes records and increments `ikey`
(with what its handler will journal of it); `serial_bump_txn_apply`; `ixfr_journal_append`; and
`zone_upsert` on an existing zone. -/
inductive SerialOp
  | soaSerial (tz : TZone)
  | exec (write : Store → Store) (ikey : Text) (logged : Option Logged)
  | applySerial (tz : TZone) (ns : Nat)
  | journalAppend (L : Logged) (ns : Nat)
  | reload (tz : TZone) (serial : Nat)

/-- Reading gives the serial, a transaction the counter's new value. -/
def SerialOp.Res : SerialOp → Type
  | .soaSerial _ => Nat
  | .exec .. => Nat
  | .applySerial .. => Unit
  | .journalAppend .. => Unit
  | .reload .. => Unit

/-- The transaction in the store. -/
def State.incr (st : State) (write : Store → Store) (ikey : Text) : State :=
  { st with
    store := write st.store
    counter := fun k => if k = ikey then st.counter ikey + 1 else st.counter k }

/-- The serial of a zone in memory, and with it `g_soa_serial` for the primary zone. -/
def State.setSerial (S : Settings) (st : State) (tz : TZone) (ns : Nat) : State :=
  { st with
    zones := match tz with
      | some i => st.zones.modify i fun z => { z with soaSerial := ns }
      | none => st.zones
    soaSerial := if isPrimary S (st.zone tz) then ns else st.soaSerial }

/-- The serial in memory and `zonemd_update`. -/
def State.applySerial (S : Settings) (st : State) (tz : TZone) (ns : Nat) : State :=
  { st.setSerial S tz ns with store := zonemdUpdate S (State.zoneName S st tz) ns st.store }

/-- What an operation returns, and the state after it. -/
def serialAct (S : Settings) (st : State) : (o : SerialOp) → o.Res × State
  | .soaSerial tz => (st.serial tz, st)
  | .exec write ikey _ => (st.counter ikey + 1, st.incr write ikey)
  | .applySerial tz ns => ((), st.applySerial S tz ns)
  | .journalAppend L ns => ((), ixfrJournalAppend S st L.zone L.prev ns L.op L.name L.value)
  | .reload tz serial => ((), st.setSerial S tz serial)

/-! ## Threads -/

/-- Programs over the operations. -/
abbrev SerialProg (α : Type) := Prog SerialOp SerialOp.Res Empty Unit α

/-- One operation. -/
def SerialOp.perform (o : SerialOp) : SerialProg o.Res := Prog.perform o

/-- A transaction and its in-memory tail: `txn_set_and_bump`, `txn_del_and_bump` and their likes. -/
def txnAndBump (tz : TZone) (write : Store → Store) (ikey : Text) (logged : Option Logged) :
    SerialProg Nat := do
  let reply : Nat ← SerialOp.perform (.exec write ikey logged)
  SerialOp.perform (.applySerial tz (reply % 2 ^ 32))
  return reply % 2 ^ 32

/-- `if (next) ixfr_journal_append(..)`. -/
def appendIf (L : Logged) (next : Nat) : SerialProg Unit :=
  if next = 0 then Prog.pure () else SerialOp.perform (.journalAppend L next)

/-- A change that is journaled, in the zone table `T`. -/
def journaledChange (S : Settings) (T : State) (tz : TZone) (write : Store → Store) (op : UInt8)
    (name value : Text) : SerialProg Unit := do
  let prev : Nat ← SerialOp.perform (.soaSerial tz)
  let L : Logged := ⟨State.zoneName S T tz, prev, op, name, value⟩
  let next ← txnAndBump tz write (serialKey S (T.zone tz)) (some L)
  appendIf L next

/-- A change that is not journaled. -/
def plainChange (S : Settings) (T : State) (tz : TZone) (write : Store → Store) :
    SerialProg Unit := do
  let _ ← txnAndBump tz write (serialKey S (T.zone tz)) none
  return ()

/-- A change of another daemon: the transaction alone. -/
def daemonChange (write : Store → Store) (ikey : Text) : SerialProg Unit := do
  let _ : Nat ← SerialOp.perform (.exec write ikey none)
  return ()

/-- The threads that may be started at any time, over a zone table whose names are those of `T`: a
table entry keeps its name while the server runs. -/
inductive SerialThread (S : Settings) (T : State) : SerialProg Unit → Prop
  | journaled (tz : TZone) (write : Store → Store) (op : UInt8) (name value : Text) :
      SerialThread S T (journaledChange S T tz write op name value)
  | plain (tz : TZone) (write : Store → Store) : SerialThread S T (plainChange S T tz write)
  | daemon (write : Store → Store) (ikey : Text) : SerialThread S T (daemonChange write ikey)
  | reload (tz : TZone) (serial : Nat) : SerialThread S T (SerialOp.perform (.reload tz serial))

/-- The system of these threads. -/
def journals (S : Settings) (T : State) : Machine SerialOp SerialOp.Res Empty Unit State where
  body := nofun
  exec st o r st' := (r, st') = serialAct S st o
  start st p st' := SerialThread S T p ∧ st' = st

/-- An operation that was performed. -/
abbrev SerialEvent := Machine.Event SerialOp SerialOp.Res

/-! ## A handler alone -/

/-- **Alone, a handler that journals is the sequential step** of `Update` and `Srp`. -/
theorem drive_journaledChange (S : Settings) (st : State) (tz : TZone) (write : Store → Store)
    (op : UInt8) (name value : Text) :
    ((journals S st).drive (serialAct S) 4 st
        ⟨journaledChange S st tz write op name value, []⟩).shared =
      journaled S (State.zoneName S st tz) (st.serial tz) op name value
        (bump S { st with store := write st.store } tz) := by
  set t := bump S { st with store := write st.store } tz
  set L : Logged := ⟨State.zoneName S st tz, st.serial tz, op, name, value⟩
  -- the read, the transaction and its tail are the first three operations
  have hdrive : ((journals S st).drive (serialAct S) 4 st
      ⟨journaledChange S st tz write op name value, []⟩).shared =
        ((journals S st).drive (serialAct S) 1 t.2 ⟨appendIf L t.1, []⟩).shared := rfl
  rw [hdrive, journaled]
  by_cases hns : t.1 = 0
  · have hnone : appendIf L t.1 = Prog.pure () := if_pos hns
    rw [hnone, if_pos hns]
    rfl
  · have hsome : appendIf L t.1 = SerialOp.perform (.journalAppend L t.1) := if_neg hns
    rw [hsome, if_neg hns]
    rfl

/-! ## Chains -/

/-- Entries that lead from one serial to another, each from where the one before ends. -/
inductive Linked : Nat → List Text → Nat → Prop
  | last {e : Text} {s cur : Nat} (h : scanSerials e = some (s, cur)) : Linked s [e] cur
  | cons {e : Text} {s t cur : Nat} {l : List Text} (h : scanSerials e = some (s, t))
      (hl : Linked t l cur) : Linked s (e :: l) cur

/-- What the walk takes is a chain of entries of the journal. -/
theorem linked_of_fetchLoop {s cur cap : Nat} {es acc l : List Text} {want : Option Nat}
    (h : fetchLoop s cur cap es want acc = some l) :
    ∃ l', l = acc ++ l' ∧ (∀ e ∈ l', e ∈ es) ∧ Linked (want.getD s) l' cur := by
  induction es generalizing want acc with
  | nil => cases h
  | cons e es ih =>
    -- the rest of the walk, behind an entry that was skipped
    have hskip : ∀ {want acc}, fetchLoop s cur cap es want acc = some l →
        ∃ l', l = acc ++ l' ∧ (∀ e' ∈ l', e' ∈ e :: es) ∧ Linked (want.getD s) l' cur := by
      intro want acc h
      obtain ⟨l', hl, hmem, hlink⟩ := ih h
      exact ⟨l', hl, fun e' he' => mem_cons_of_mem _ (hmem e' he'), hlink⟩
    rw [fetchLoop] at h
    cases hscan : scanSerials e with
    | none =>
      rw [hscan] at h
      exact hskip h
    | some p =>
      obtain ⟨fs, ts⟩ := p
      rw [hscan] at h
      dsimp only at h
      split at h
      · rename_i hfs
        rw [hfs] at hscan
        split at h
        · cases h
        split at h
        · rename_i hts
          rw [hts] at hscan
          cases h
          exact ⟨[e], rfl, fun e' he' => by simp_all, .last hscan⟩
        · obtain ⟨l', hl, hmem, hlink⟩ := ih h
          refine ⟨e :: l', by rw [hl, append_assoc]; rfl, ?_, .cons hscan hlink⟩
          intro e' he'
          rcases mem_cons.mp he' with rfl | he'
          · exact mem_cons_self
          · exact mem_cons_of_mem _ (hmem e' he')
      · split at h
        · exact hskip h
        · cases h

/-- A chain of single steps has an entry for every serial. -/
theorem Linked.covers {s cur : Nat} {l : List Text} (h : Linked s l cur)
    (hstep : ∀ e ∈ l, ∀ p, scanSerials e = some p → p.2 = p.1 + 1) {k : Nat} (hs : s < k)
    (hk : k ≤ cur) : ∃ e ∈ l, scanSerials e = some (k - 1, k) := by
  induction h with
  | @last e s cur hscan =>
    have hone : cur = s + 1 := hstep e mem_cons_self _ hscan
    refine ⟨e, mem_cons_self, ?_⟩
    rw [hscan]
    simp only [some.injEq, Prod.mk.injEq]
    omega
  | @cons e s t cur l hscan hl ih =>
    have hone : t = s + 1 := hstep e mem_cons_self _ hscan
    by_cases hkt : k ≤ t
    · refine ⟨e, mem_cons_self, ?_⟩
      rw [hscan]
      simp only [some.injEq, Prod.mk.injEq]
      omega
    · obtain ⟨e', he', hscan'⟩ := ih (fun e he => hstep e (mem_cons_of_mem _ he)) (by omega) hk
      exact ⟨e', mem_cons_of_mem _ he', hscan'⟩

/-! ## Runs -/

section Runs

variable {S : Settings} {T : State} {evs : List SerialEvent}

/-- A transaction incremented `ikey` to `k`, for a change that is logged or not. -/
def Incremented (evs : List SerialEvent) (ikey : Text) (logged : Option Logged) (k : Nat) : Prop :=
  ∃ write, (⟨.exec write ikey logged, k⟩ : SerialEvent) ∈ evs

/-- The counter of `ikey` counts the increments from `n` on, each by one. -/
structure Counts (ikey : Text) (n : Nat) (st : State) (evs : List SerialEvent) : Prop where
  le : n ≤ st.counter ikey
  range : ∀ logged k, Incremented evs ikey logged k → n < k ∧ k ≤ st.counter ikey
  unique : ∀ logged logged' k, Incremented evs ikey logged k → Incremented evs ikey logged' k →
    logged = logged'

/-- An increment is an old one, or it is the operation just performed. -/
theorem incremented_step {ikey : Text} {st : State} {o : SerialOp} {logged : Option Logged}
    {k : Nat}
    (h : Incremented (evs ++ [⟨o, (serialAct S st o).1⟩]) ikey logged k) :
    Incremented evs ikey logged k ∨ k = st.counter ikey + 1 ∧ ∃ write, o =
      .exec write ikey logged := by
  obtain ⟨write, hmem⟩ := h
  rcases mem_append.mp hmem with hold | hnew
  · exact .inl ⟨write, hold⟩
  · rw [mem_singleton] at hnew
    cases hnew
    exact .inr ⟨rfl, write, rfl⟩

theorem counter_exec (st : State) (write : Store → Store) (ikey : Text) (logged : Option Logged)
    (k : Text) : (serialAct S st (.exec write ikey logged)).2.counter k =
      if k = ikey then st.counter ikey + 1 else st.counter k := rfl

theorem counter_le_step (st : State) (o : SerialOp) (k : Text) :
    st.counter k ≤ (serialAct S st o).2.counter k := by
  cases o with
  | exec write ikey logged =>
    rw [counter_exec]
    split
    · rename_i hk
      rw [hk]
      exact Nat.le_succ _
    · exact le_rfl
  | soaSerial tz | applySerial tz ns | journalAppend L ns | reload tz serial => exact le_rfl

theorem Counts.step {ikey : Text} {n : Nat} {st : State} (h : Counts ikey n st evs)
    (o : SerialOp) : Counts ikey n (serialAct S st o).2 (evs ++ [⟨o, (serialAct S st o).1⟩]) := by
  have hle := counter_le_step (S := S) st o ikey
  refine ⟨h.le.trans hle, ?_, ?_⟩
  · intro logged k hk
    rcases incremented_step hk with hold | ⟨rfl, write, rfl⟩
    · have := h.range logged k hold
      omega
    · have := h.le
      rw [counter_exec, if_pos rfl]
      omega
  · -- the reply is past all replies so far
    intro logged logged' k hk hk'
    rcases incremented_step hk with hold | ⟨hnew, write, rfl⟩
    · rcases incremented_step hk' with hold' | ⟨hnew', -⟩
      · exact h.unique logged logged' k hold hold'
      · have := (h.range logged k hold).2
        omega
    · rcases incremented_step hk' with hold' | ⟨-, write', heq⟩
      · have := (h.range logged' k hold').2
        omega
      · cases heq
        rfl

/-- Every line of a journal was there before or was appended. -/
def Appended (S : Settings) (old : List Text) (jkey : Text) (st : State)
    (evs : List SerialEvent) : Prop :=
  ∀ e ∈ st.journal jkey, e ∈ old ∨ ∃ L ns, (⟨.journalAppend L ns, ()⟩ : SerialEvent) ∈ evs ∧
    ixfrJournalKey S L.zone = jkey ∧ e = L.entry ns

theorem Appended.step {old : List Text} {jkey : Text} {st : State}
    (h : Appended S old jkey st evs) (o : SerialOp) :
    Appended S old jkey (serialAct S st o).2 (evs ++ [⟨o, (serialAct S st o).1⟩]) := by
  have hkeep : ∀ e ∈ st.journal jkey, ∀ evs', e ∈ old ∨ ∃ L ns,
      (⟨.journalAppend L ns, ()⟩ : SerialEvent) ∈ evs ++ evs' ∧
        ixfrJournalKey S L.zone = jkey ∧ e = L.entry ns := by
    intro e he evs'
    refine (h e he).imp_right ?_
    rintro ⟨L, ns, hmem, hrest⟩
    exact ⟨L, ns, mem_append_left _ hmem, hrest⟩
  intro e he
  cases o with
  | soaSerial tz | exec write key logged | applySerial tz ns
  | reload tz serial => exact hkeep e he _
  | journalAppend L ns =>
    simp only [serialAct, ixfrJournalAppend] at he
    split at he
    · rename_i hkey
      rcases mem_append.mp (mem_of_mem_drop he) with hold | hnew
      · rw [← hkey] at hold
        exact hkeep e hold _
      · rw [mem_singleton.mp hnew]
        exact .inr ⟨L, ns, by simp [serialAct], hkey.symm, rfl⟩
    · exact hkeep e he _

/-- What is appended was committed by the same handler. -/
def Committed (S : Settings) (T : State) (evs : List SerialEvent) : SerialOp → Prop
  | .journalAppend L ns => ∃ tz k, Incremented evs (serialKey S (T.zone tz)) (some L) k ∧
      ns = k % 2 ^ 32 ∧ L.zone = State.zoneName S T tz
  | _ => True

theorem always_txnAndBump {P : SerialOp → Prop} {A : (o : SerialOp) → o.Res → Prop} {tz : TZone}
    {write : Store → Store} {ikey : Text} {logged : Option Logged} {α : Type}
    {f : Nat → SerialProg α} (hexec : P (.exec write ikey logged))
    (happly : ∀ ns, P (.applySerial tz ns))
    (hf : ∀ k : Nat, A (.exec write ikey logged) k → (f (k % 2 ^ 32)).Always P A) :
    (txnAndBump tz write ikey logged >>= f).Always P A :=
  ⟨hexec, fun k hk => ⟨happly _, fun _ _ => hf k hk⟩⟩

theorem always_committed {p : SerialProg Unit} (h : SerialThread S T p) (evs : List SerialEvent) :
    p.Always (Committed S T evs) fun o r => ⟨o, r⟩ ∈ evs := by
  cases h with
  | journaled tz write op name value =>
    refine Prog.always_perform_bind trivial fun prev _ => ?_
    refine always_txnAndBump trivial (fun _ => trivial) fun k hk => ?_
    refine Prog.always_ite (fun _ => trivial) fun _ => ?_
    exact Prog.always_perform ⟨tz, k, ⟨write, hk⟩, rfl, rfl⟩
  | plain tz write => exact always_txnAndBump trivial (fun _ => trivial) fun _ _ => trivial
  | daemon write ikey => exact Prog.always_perform_bind trivial fun _ _ => trivial
  | reload tz serial => exact Prog.always_perform trivial

/-! ## Coverage -/

/-- Every increment between the two serials is that of a change whose entry is in the chain. -/
def Covers (evs : List SerialEvent) (ikey : Text) (s cur : Nat) (l : List Text) : Prop :=
  ∀ logged k, Incremented evs ikey logged k → s < k → k ≤ cur →
    ∃ L, logged = some L ∧ L.entry k ∈ l

/-- Every journaled change increments the counter from the serial its handler has read. -/
def InStep (evs : List SerialEvent) (ikey : Text) : Prop :=
  ∀ L k, Incremented evs ikey (some L) k → k = L.prev + 1

/-- **A fetched chain covers every increment it spans**, in every interleaving in which journaled
changes are in step, from a journal whose lines are single steps up to the counter. Zones that share
a journal key share the counter. -/
theorem journal_covers {ts : List (Thread SerialOp SerialOp.Res Empty Unit)} {st : State}
    {tz : TZone}
    (hrun : (journals S T).Run ⟨T, []⟩ evs ⟨st, ts⟩)
    (hzones : ∀ tz', ixfrJournalKey S (State.zoneName S T tz') =
      ixfrJournalKey S (State.zoneName S T tz) → serialKey S (T.zone tz') = serialKey S (T.zone tz))
    (hold : ∀ e ∈ T.journal (ixfrJournalKey S (State.zoneName S T tz)), ∀ p,
      scanSerials e = some p → p.2 = p.1 + 1 ∧ p.2 ≤ T.counter (serialKey S (T.zone tz)))
    (hstep : InStep evs (serialKey S (T.zone tz)))
    (hwrap : st.counter (serialKey S (T.zone tz)) < 2 ^ 32) {s cur : Nat} {l : List Text}
    (hfetch : ixfrJournalFetch S st (State.zoneName S T tz) s cur = some l) :
    Covers evs (serialKey S (T.zone tz)) s cur l := by
  set ikey := serialKey S (T.zone tz)
  set jkey := ixfrJournalKey S (State.zoneName S T tz)
  have hcounts : Counts ikey (T.counter ikey) st evs := by
    have hnone : ∀ logged k, ¬Incremented [] ikey logged k := by
      rintro logged k ⟨write, hmem⟩
      cases hmem
    refine hrun.invariant (I := Counts ikey (T.counter ikey)) ?_ ?_
      ⟨le_rfl, fun _ _ h => absurd h (hnone _ _), fun _ _ _ h => absurd h (hnone _ _)⟩
    · intro st o r st' evs hx h
      obtain ⟨rfl, rfl⟩ := Prod.mk.inj hx
      exact h.step o
    · rintro st p st' evs ⟨-, rfl⟩ h
      exact h
  have happended : Appended S (T.journal jkey) jkey st evs := by
    refine hrun.invariant (I := Appended S (T.journal jkey) jkey) ?_ ?_ fun e he => .inl he
    · intro st o r st' evs hx h
      obtain ⟨rfl, rfl⟩ := Prod.mk.inj hx
      exact h.step o
    · rintro st p st' evs ⟨-, rfl⟩ h
      exact h
  have hstart : ∀ s p s', (journals S T).start s p s' →
      p.Always (Committed S T evs) fun o r => ⟨o, r⟩ ∈ evs :=
        fun _ _ _ h => always_committed h.1 evs
  have hcommitted : ∀ ev ∈ evs, Committed S T evs ev.1 :=
    (Machine.Run.always nofun hstart hrun (fun _ he => he) (by simp)).1
  -- a line that is not old is the entry of an increment, from the serial before it
  have hline : ∀ e ∈ st.journal jkey, e ∈ T.journal jkey ∨ ∃ L k, Incremented evs ikey (some L) k ∧
      e = L.entry k ∧ scanSerials e = some (k - 1, k) ∧ 0 < k := by
    intro e he
    refine (happended e he).imp_right ?_
    rintro ⟨L, ns, hmem, hkey, rfl⟩
    obtain ⟨tz', k, hexec, rfl, hzone⟩ := hcommitted _ hmem
    rw [hzone] at hkey
    rw [hzones tz' hkey] at hexec
    have hk := hstep L k hexec
    have hlt := (hcounts.range (some L) k hexec).2
    rw [Nat.mod_eq_of_lt (by omega)]
    have hscan : scanSerials (L.entry k) = some (L.prev, k) :=
      scanSerials_journalEntry (by omega) (by omega) ..
    refine ⟨L, k, hexec, rfl, ?_, by omega⟩
    rw [hscan, hk, Nat.add_sub_cancel]
  obtain ⟨l', hl, hsub, hlink⟩ := linked_of_fetchLoop hfetch
  rw [nil_append] at hl
  subst hl
  intro logged k hexec hs hcur
  have hsingle : ∀ e ∈ l, ∀ p, scanSerials e = some p → p.2 = p.1 + 1 := by
    intro e he p hp
    rcases hline e (hsub e he) with hin | ⟨-, k, -, -, hscan, hk⟩
    · exact (hold e hin p hp).1
    · rw [hscan] at hp
      cases hp
      exact (Nat.sub_add_cancel hk).symm
  obtain ⟨e, he, hscan⟩ := hlink.covers hsingle hs hcur
  have hnew := (hcounts.range logged k hexec).1
  rcases hline e (hsub e he) with hin | ⟨L, k', hexec', rfl, hscan', -⟩
  · have hle : k ≤ T.counter ikey := (hold e hin _ hscan).2
    omega
  · obtain ⟨-, rfl⟩ := Prod.mk.inj (some.inj (hscan.symm.trans hscan'))
    exact ⟨L, hcounts.unique _ _ _ hexec hexec', he⟩

end Runs

/-! ## A foreign increment in between -/

/-- A handler that adds an address to `a.dyn.z`. -/
def sampleHandler : SerialProg Unit :=
  journaledChange sampleSettings sampleState (some 0)
    (vkSet · (dkey (lit "z") (lit "A") (lit "a.dyn.z")) (lit "192.0.2.1") 60) opAdd
    (lit "a.dyn.z") (lit "192.0.2.1")

/-- The counter of the zone `z`. -/
def sampleCounter : Text := serialKey sampleSettings (sampleState.zone (some 0))

/-- A text record of another daemon. -/
def sampleWrite (s : Store) : Store :=
  vkSet s (zkey (lit "z") (lit "TXT") (lit "h.z")) (lit "60|x") 0

/-- The daemon writes it. -/
def sampleDaemon : SerialProg Unit := daemonChange sampleWrite sampleCounter

/-- The first `n` operations of a thread alone. -/
def sampleDrive (n : Nat) (st : State) (t : Thread SerialOp SerialOp.Res Empty Unit) :
    Machine.Driven SerialOp SerialOp.Res Empty Unit State :=
  (journals sampleSettings sampleState).drive (serialAct sampleSettings) n st t

/-- Two threads in turn: `n` operations of `p`, `m` of `q`, then each of them to its end. -/
def turns (p q : SerialProg Unit) (n m : Nat) :
    List SerialEvent × Machine.Conf SerialOp SerialOp.Res Empty Unit State :=
  let a := sampleDrive n sampleState ⟨p, []⟩
  let b := sampleDrive m a.shared ⟨q, []⟩
  let a' := sampleDrive 5 b.shared a.thread
  let b' := sampleDrive 5 a'.shared b.thread
  (a.events ++ b.events ++ a'.events ++ b'.events, ⟨b'.shared, [a'.thread, b'.thread]⟩)

theorem sample_exec (st : State) (o : SerialOp) :
    (journals sampleSettings sampleState).exec st o (serialAct sampleSettings st o).1
      (serialAct sampleSettings st o).2 := rfl

theorem run_turns {p q : SerialProg Unit} (hp : SerialThread sampleSettings sampleState p)
    (hq : SerialThread sampleSettings sampleState q) (n m : Nat) :
    (journals sampleSettings sampleState).Run ⟨sampleState, []⟩ (turns p q n m).1
      (turns p q n m).2 := by
  let a := sampleDrive n sampleState ⟨p, []⟩
  let b := sampleDrive m a.shared ⟨q, []⟩
  let a' := sampleDrive 5 b.shared a.thread
  let b' := sampleDrive 5 a'.shared b.thread
  have hp' : (journals sampleSettings sampleState).start sampleState p sampleState := ⟨hp, rfl⟩
  have hq' : (journals sampleSettings sampleState).start a.shared q a.shared := ⟨hq, rfl⟩
  have hstart := ((Machine.Run.refl ⟨sampleState, []⟩).start_drive hp' sample_exec n).start_drive
    hq' sample_exec m
  have hfirst : (journals sampleSettings sampleState).Run ⟨b.shared, [] ++ a.thread :: [b.thread]⟩
      a'.events ⟨a'.shared, [] ++ a'.thread :: [b.thread]⟩ := Machine.run_drive sample_exec 5 _ _
  have hsecond : (journals sampleSettings sampleState).Run
      ⟨a'.shared, [a'.thread] ++ b.thread :: []⟩ b'.events
      ⟨b'.shared, [a'.thread] ++ b'.thread :: []⟩ := Machine.run_drive sample_exec 5 _ _
  exact (hstart.trans hfirst).trans hsecond

/-- **An entry spans the change of another daemon.** The handler read serial 1, the other daemon
incremented the counter to 2 and the handler to 3: the chain from 1 to the zone's serial 3 is the
handler's entry alone. -/
theorem foreign_increment_spanned :
    ∃ evs st ts l, (journals sampleSettings sampleState).Run ⟨sampleState, []⟩ evs ⟨st, ts⟩ ∧
      st.serial (some 0) = 3 ∧
      ixfrJournalFetch sampleSettings st (State.zoneName sampleSettings sampleState (some 0)) 1
        (st.serial (some 0)) = some l ∧
      ¬Covers evs sampleCounter 1 (st.serial (some 0)) l := by
  have hrun := run_turns (.journaled ..) (.daemon ..) 1 1 (p := sampleHandler) (q := sampleDaemon)
  have hserial : (turns sampleHandler sampleDaemon 1 1).2.shared.serial (some 0) = 3 := by
    decide +kernel
  have hfetch : ixfrJournalFetch sampleSettings (turns sampleHandler sampleDaemon 1 1).2.shared
      (lit "z") 1 3 = some [lit "1|3|A|a.dyn.z|192.0.2.1"] := by decide +kernel
  refine ⟨_, (turns sampleHandler sampleDaemon 1 1).2.shared, _, _, hrun, hserial,
    by rw [hserial]; exact hfetch, fun hcovers => ?_⟩
  have hforeign : Incremented (turns sampleHandler sampleDaemon 1 1).1 sampleCounter none 2 :=
    ⟨sampleWrite, mem_cons_of_mem _ mem_cons_self⟩
  obtain ⟨L, hL, -⟩ := hcovers none 2 hforeign (by decide) (by rw [hserial]; decide)
  cases hL

/-- Two handlers whose operations alternate are in step where the second one reads the serial
behind the transaction of the first: the chain covers both. -/
theorem journal_covers_alternating :
    ixfrJournalFetch sampleSettings (turns sampleHandler sampleHandler 3 2).2.shared (lit "z") 1 3 =
        some [lit "1|2|A|a.dyn.z|192.0.2.1", lit "2|3|A|a.dyn.z|192.0.2.1"] ∧
      Covers (turns sampleHandler sampleHandler 3 2).1 sampleCounter 1 3
        [lit "1|2|A|a.dyn.z|192.0.2.1", lit "2|3|A|a.dyn.z|192.0.2.1"] := by
  have hfetch : ixfrJournalFetch sampleSettings (turns sampleHandler sampleHandler 3 2).2.shared
      (lit "z") 1 3 = some [lit "1|2|A|a.dyn.z|192.0.2.1", lit "2|3|A|a.dyn.z|192.0.2.1"] := by
    decide +kernel
  have hrun := run_turns (.journaled ..) (.journaled ..) 3 2 (p := sampleHandler)
    (q := sampleHandler)
  refine ⟨hfetch, show Covers _ (serialKey _ (sampleState.zone (some 0))) 1 3 _ from ?_⟩
  refine journal_covers hrun ?_ ?_ ?_ ?_ hfetch
  · -- every zone of the table has the primary counter
    intro tz' _
    rcases tz' with _ | _ | n <;> rfl
  · intro e he
    cases he
  · rintro L k ⟨write, hmem⟩
    change _ ∈ [_, _, _, _, _, _, _, _] at hmem
    simp only [mem_cons, not_mem_nil, or_false] at hmem
    rcases hmem with h | h | h | h | h | h | h | h <;> cases h <;> rfl
  · decide +kernel

end SimpleDns.Server
