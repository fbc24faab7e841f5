import SimpleDns.Lib.Alone
import SimpleDns.Server.Query

/-!
# Zone keys and their rollover (`dnssec_init_key`, `zone_rollover_load`, `rollover_tick`)

A zone has four keys: a zone-signing and a key-signing key (`KeyRole`) for each of two algorithms
(`KeyAlg`). They live in the store as PEM texts under `dnssec:<zone>:*`, beside the state of each
role's rollover (`<phase>|<epoch>`, the incoming keys, the creation time), and are loaded into
`zone_entry_t`.

The source has the ZSK and the KSK engine as two copies of the same functions. Here each function
takes the role; what the copies differ in is data of the role (the words of the phases, the names of
the entries, the DNSKEY flags), and `tickRole` has the one condition the KSK engine has of its own.

* `KeyEntry.key`: the store key of each entry, as `snprintf` builds it.
* `RoleMem`, `ZoneMem.zoneKeys`: the fields of `zone_entry_t`, and the `ZoneKeys` an answer is made
  from.
* `RollOp`: what the functions do to store, clock, key generator and memory, one operation at a
  time; a hold of `g_zsk_mutex` and a `MULTI`/`EXEC` transaction are one operation each.
* `dnssecInitKey` to `rolloverTick`: the functions, as programs over `RollOp`.
* `KeyEnv.exec fails`: what an operation does. A read of an entry in `fails` may return nothing;
  every write succeeds.

Left out: the serial bump and the NOTIFYs of each phase change, the log, and the other zones.
-/

namespace SimpleDns.Server

open Lib Wire List

/-! ## Roles, algorithms, entries -/

/-- The two algorithms of a key set. -/
inductive KeyAlg
  | p256
  | ed25519
deriving DecidableEq, Repr

/-- `DNS_ALG_ECDSAP256SHA256`, `DNS_ALG_ED25519`. -/
def KeyAlg.number : KeyAlg → Nat
  | p256 => algEcdsaP256
  | ed25519 => algEd25519

/-- What the names of the Ed25519 entries have. -/
def KeyAlg.suffix : KeyAlg → Text
  | p256 => []
  | ed25519 => lit "_ed25519"

/-- Zone-signing and key-signing keys. -/
inductive KeyRole
  | zsk
  | ksk
deriving DecidableEq, Repr

def KeyRole.word : KeyRole → Text
  | zsk => lit "zsk"
  | ksk => lit "ksk"

/-- The DNSKEY flags. -/
def KeyRole.flags : KeyRole → Nat
  | zsk => flagZsk
  | ksk => flagKsk

/-- `ROLL_NONE`, `ROLL_PUBLISH` and `ROLL_COMMIT`; `KROLL_NONE`, `KROLL_DOUBLE` and
`KROLL_RETIRE`. -/
inductive Phase
  | none
  | first
  | second
deriving DecidableEq, Repr

/-- The word a phase is stored under. -/
def KeyRole.phaseWord : KeyRole → Phase → Text
  | _, .none => []
  | zsk, .first => lit "publish"
  | zsk, .second => lit "commit"
  | ksk, .first => lit "double"
  | ksk, .second => lit "retire"

/-- The settings of `roll_cfg`. -/
inductive Knob
  | request
  | validity
  | publishHold
  | commitHold
deriving DecidableEq, Repr

def Knob.suffix : KeyRole → Knob → Text
  | .zsk, request => lit "zsk_rollover_request"
  | .zsk, validity => lit "zsk_validity"
  | .zsk, publishHold => lit "rollover_publish_hold"
  | .zsk, commitHold => lit "rollover_commit_hold"
  | .ksk, request => lit "ksk_rollover_request"
  | .ksk, validity => lit "ksk_validity"
  | .ksk, publishHold => lit "ksk_publish_hold"
  | .ksk, commitHold => lit "ksk_commit_hold"

/-- The default `rollover_tick` gives `roll_cfg`. -/
def Knob.default : Knob → Int
  | request | validity => 0
  | publishHold | commitHold => 3600

/-- The entries of the store that the engine reads and writes. -/
inductive KeyEntry
  | current (r : KeyRole) (a : KeyAlg)
  | next (r : KeyRole) (a : KeyAlg)
  | rollover (r : KeyRole)
  | created (r : KeyRole)
  | seen (r : KeyRole)
  | legacy (r : KeyRole) (a : KeyAlg)
  | zoneConfig (r : KeyRole) (k : Knob)
  | config (r : KeyRole) (k : Knob)
deriving DecidableEq, Repr

namespace KeyEntry

/-- The last field of the key. -/
def field : KeyEntry → Text
  | current r a | legacy r a => r.word ++ a.suffix
  | next r a => r.word ++ a.suffix ++ lit "_next"
  | rollover r => r.word ++ lit "_rollover"
  | created r => r.word ++ lit "_created"
  | seen r => r.word ++ lit "_rollover_seen"
  | zoneConfig r k | config r k => k.suffix r

/-- The key of the entry, for a zone name. -/
def key (zone : Text) : KeyEntry → Text
  | e@(legacy _ _) => lit "dnssec:" ++ e.field
  | e@(zoneConfig _ _) => lit "config:zone:" ++ zone ++ [colon] ++ e.field
  | e@(config _ _) => lit "config:" ++ e.field
  | e => lit "dnssec:" ++ zone ++ [colon] ++ e.field

/-- The keys and the phase: what the rollover must not lose. -/
def IsKey : KeyEntry → Prop
  | current _ _ | next _ _ | rollover _ => True
  | _ => False

/-- The role an entry is about. -/
def role : KeyEntry → KeyRole
  | current r _ | next r _ | rollover r | created r | seen r | legacy r _ => r
  | zoneConfig r _ | config r _ => r

/-- The entries in which a hold is configured. -/
def IsHold : KeyEntry → Prop
  | zoneConfig _ .publishHold | zoneConfig _ .commitHold => True
  | config _ .publishHold | config _ .commitHold => True
  | _ => False

/-- The key up to its last colon. -/
def stem (zone : Text) : KeyEntry → Text
  | legacy _ _ => lit "dnssec"
  | zoneConfig _ _ => lit "config:zone:" ++ zone
  | config _ _ => lit "config"
  | _ => lit "dnssec:" ++ zone

theorem key_eq_stem (zone : Text) (e : KeyEntry) :
    e.key zone = e.stem zone ++ colon :: e.field := by
  cases e <;> simp [key, stem, field, lit, colon]

/-- Every entry. -/
def all : List KeyEntry :=
  [KeyRole.zsk, .ksk].flatMap fun r =>
    [KeyAlg.p256, .ed25519].flatMap (fun a => [current r a, next r a, legacy r a]) ++
    [rollover r, created r, seen r] ++
    [Knob.request, .validity, .publishHold, .commitHold].flatMap fun k =>
      [zoneConfig r k, config r k]

theorem mem_all (e : KeyEntry) : e ∈ all := by
  cases e <;> rename_i r <;> cases r <;> first | decide | (rename_i a; cases a <;> decide)

/-- The entries whose key does not have the zone in it. -/
def isShared : KeyEntry → Bool
  | legacy _ _ | config _ _ => true
  | _ => false

theorem field_injective {e e' : KeyEntry} (h : e.field = e'.field)
    (hs : e.isShared = e'.isShared) : e = e' :=
  (by decide +kernel : ∀ e ∈ all, ∀ e' ∈ all, e.field = e'.field → e.isShared = e'.isShared →
    e = e') e e.mem_all e' e'.mem_all h hs

theorem isShared_eq_of_stem {zone : Text} {e e' : KeyEntry} (h : e.stem zone = e'.stem zone) :
    e.isShared = e'.isShared := by
  -- the zone and a colon make the difference in length
  have hlen := congrArg length h
  cases e <;> cases e' <;> first | rfl | simp [stem, lit] at hlen

/-- **Two entries never share a key.** -/
theorem key_injective (zone : Text) : Function.Injective (key zone) := by
  intro e e' h
  rw [key_eq_stem, key_eq_stem] at h
  -- what stands behind the last colon
  have htail : ∀ e : KeyEntry,
      ((e.stem zone ++ colon :: e.field).reverse.takeWhile (· ≠ colon)) = e.field.reverse := by
    intro e
    rw [reverse_append, reverse_cons, append_assoc]
    have hcolon : ∀ e ∈ all, colon ∉ e.field := by decide +kernel
    exact (takeWhile_ne_append (mt mem_reverse.mp (hcolon e e.mem_all)) _).1
  have hfield : e.field = e'.field := by
    have := htail e
    rw [h, htail e'] at this
    exact (reverse_injective this).symm
  rw [hfield] at h
  exact field_injective hfield (isShared_eq_of_stem (append_cancel_right h))

end KeyEntry

/-! ## Memory -/

/-- A private key (`EVP_PKEY`): its signing function and its public half. -/
structure PrivateKey where
  sign : Bytes → Option Bytes
  length_sign : ∀ m s, sign m = some s → s.length = 64
  pub : Bytes
  length_pub : pub.length ≤ 64

/-- The key with the tag kept beside it. -/
def PrivateKey.pair (k : PrivateKey) (tag : Nat) : KeyPair where
  sign := k.sign
  tag := tag
  length_sign := k.length_sign
  pub := k.pub
  length_pub := k.length_pub

/-- The key tag over the DNSKEY rdata with these flags. -/
def PrivateKey.tag (k : PrivateKey) (flags : Nat) (a : KeyAlg) : Nat :=
  keytag (dnskeyRdata flags a.number (k.pair 0))

/-- The fields of `zone_entry_t` for one role. -/
structure RoleMem where
  key : KeyAlg → Option PrivateKey
  tag : KeyAlg → Nat
  next : KeyAlg → Option PrivateKey
  nextTag : KeyAlg → Nat
  phase : Phase
  since : Int
  created : Int

/-- A cleared `zone_entry_t`. -/
def RoleMem.empty : RoleMem where
  key _ := none
  tag _ := 0
  next _ := none
  nextTag _ := 0
  phase := .none
  since := 0
  created := 0

/-- What `zone_rollover_load` installs in one hold of the mutex. -/
structure Incoming where
  key : KeyAlg → Option PrivateKey
  tag : KeyAlg → Nat
  phase : Phase
  since : Int

/-- The keys of a zone in memory. -/
abbrev ZoneMem := KeyRole → RoleMem

/-- `roll_phase`. -/
def Phase.roll : Phase → RollPhase
  | none => .none
  | first => .publish
  | second => .commit

/-- `ksk_roll_phase`. -/
def Phase.kskRoll : Phase → KskRollPhase
  | none => .none
  | first => .double
  | second => .retire

/-- A loaded key with its tag. -/
def RoleMem.pair (m : RoleMem) (a : KeyAlg) : Option KeyPair := (m.key a).map (·.pair (m.tag a))

/-- A loaded incoming key with its tag. -/
def RoleMem.nextPair (m : RoleMem) (a : KeyAlg) : Option KeyPair :=
  (m.next a).map (·.pair (m.nextTag a))

/-- The keys an answer is made from. -/
def ZoneMem.zoneKeys (m : ZoneMem) : ZoneKeys where
  zsk := (m .zsk).pair .p256
  zskEd := (m .zsk).pair .ed25519
  ksk := (m .ksk).pair .p256
  kskEd := (m .ksk).pair .ed25519
  zskNext := (m .zsk).nextPair .p256
  zskEdNext := (m .zsk).nextPair .ed25519
  rollPhase := (m .zsk).phase.roll
  kskNext := (m .ksk).nextPair .p256
  kskEdNext := (m .ksk).nextPair .ed25519
  kskRollPhase := (m .ksk).phase.kskRoll

/-- Store, memory and clock. -/
structure KeyState where
  store : Store
  mem : ZoneMem
  clock : Nat

/-- The fields of one role change. -/
def KeyState.modify (s : KeyState) (r : KeyRole) (f : RoleMem → RoleMem) : KeyState :=
  { s with mem := Function.update s.mem r (f (s.mem r)) }

/-! ## Operations -/

/-- A queued command of a transaction. -/
inductive KeyCmd
  | set (e : KeyEntry) (val : Text)
  | del (e : KeyEntry)

/-- The entry a command writes. -/
def KeyCmd.entry : KeyCmd → KeyEntry
  | set e _ => e
  | del e => e

def KeyCmd.apply (zone : Text) (s : Store) : KeyCmd → Store
  | set e val => vkSet s (e.key zone) val 0
  | del e => vkDel s (e.key zone)

/-- What `rollover_tick` reads in one hold of the mutex. -/
structure RoleView where
  phase : Phase
  since : Int
  created : Int
  zskIdle : Bool

/-- The operations of the engine. -/
inductive RollOp
  | get (e : KeyEntry) (olen : Nat)
  | set (e : KeyEntry) (val : Text)
  | txn (cmds : List KeyCmd)
  | time
  | keygen (a : KeyAlg)
  | loaded (r : KeyRole) (a : KeyAlg)
  | setKey (r : KeyRole) (a : KeyAlg) (k : Option PrivateKey)
  | setTag (r : KeyRole) (a : KeyAlg) (tag : Nat)
  | setCreated (r : KeyRole) (t : Int)
  | install (r : KeyRole) (i : Incoming)
  | look (r : KeyRole)
  | clear

def RollOp.Res : RollOp → Type
  | get _ _ => Option Text
  | time => Nat
  | keygen _ => Option Text
  | loaded _ _ => Option PrivateKey
  | look _ => RoleView
  | _ => Unit

/-- The programs of the engine. -/
abbrev RollProg (α : Type) := Prog RollOp RollOp.Res Empty Empty α

namespace RollProg

/-- `vk_get`. -/
def get (e : KeyEntry) (olen : Nat) : RollProg (Option Text) := Prog.perform (RollOp.get e olen)

/-- `vk_set`. -/
def set (e : KeyEntry) (val : Text) : RollProg Unit := Prog.perform (RollOp.set e val)

/-- `resp_txn_begin` to `resp_txn_commit`. -/
def txn (cmds : List KeyCmd) : RollProg Unit := Prog.perform (RollOp.txn cmds)

/-- `time(NULL)`. -/
def time : RollProg Nat := Prog.perform RollOp.time

/-- `dnssec_generate_pem`: the new key as PEM, `none` for `-1`. -/
def keygen (a : KeyAlg) : RollProg (Option Text) := Prog.perform (RollOp.keygen a)

/-- `*out`. -/
def loaded (r : KeyRole) (a : KeyAlg) : RollProg (Option PrivateKey) :=
  Prog.perform (RollOp.loaded r a)

/-- `*out = ..`. -/
def setKey (r : KeyRole) (a : KeyAlg) (k : Option PrivateKey) : RollProg Unit :=
  Prog.perform (RollOp.setKey r a k)

/-- `*tag = ..`. -/
def setTag (r : KeyRole) (a : KeyAlg) (tag : Nat) : RollProg Unit :=
  Prog.perform (RollOp.setTag r a tag)

/-- `z->zsk_created = ..`. -/
def setCreated (r : KeyRole) (t : Int) : RollProg Unit := Prog.perform (RollOp.setCreated r t)

/-- The incoming keys, their tags, the phase and its start, in one hold of the mutex. -/
def install (r : KeyRole) (i : Incoming) : RollProg Unit := Prog.perform (RollOp.install r i)

/-- The snapshot `rollover_tick` takes of a role. -/
def look (r : KeyRole) : RollProg RoleView := Prog.perform (RollOp.look r)

/-- The four current keys are taken out of memory. -/
def clear : RollProg Unit := Prog.perform RollOp.clear

end RollProg

/-! ## Loading -/

open RollProg

/-- `MAX_PEM`. -/
def maxPem : Nat := 65536

/-- The zone, and what is outside this file: `PEM_read_bio_PrivateKey`, and whether the zone is the
primary one and the server a secondary. -/
structure KeyEnv where
  zone : Text
  primary : Bool
  secondary : Bool
  readPem : Text → Option PrivateKey

/-- A PEM text as the server writes it: readable, over ten characters and short of `MAX_PEM`. -/
structure KeyEnv.Good (E : KeyEnv) (pem : Text) : Prop where
  read : (E.readPem pem).isSome
  long : 10 < pem.length
  short : pem.length < maxPem

/-- `vk_get(..) && strlen(pem) > 10`. -/
def usablePem (v : Option Text) : Option Text := v.filter (10 < ·.length)

/-- `vk_get(..) && v[0]`. -/
def filled (v : Option Text) : Option Text := v.filter (· ≠ [])

section Programs

variable (E : KeyEnv)

variable (r : KeyRole) (a : KeyAlg)

/-- The start of `dnssec_init_key`: the stored key, or the legacy key, which is then stored. -/
def adoptPem : RollProg (Option Text) := do
  let own ← get (.current r a) maxPem
  match usablePem own with
  | some pem => pure (some pem)
  | none =>
    if E.primary then do
      let legacy ← get (.legacy r a) maxPem
      match usablePem legacy with
      | some pem => do
        set (.current r a) pem
        pure (some pem)
      | none => pure none
    else pure none

/-- The tag `dnssec_init_key` computes: for every role over the rdata of a zone-signing key. -/
def initTag (k : PrivateKey) : Nat := k.tag flagZsk a

/-- The end of `dnssec_init_key` where no key was found. -/
def generateKey : RollProg Unit := do
  let pem ← keygen a
  match pem with
  | none => pure ()
  | some pem => do
    setKey r a (E.readPem pem)
    set (.current r a) pem
    let out ← loaded r a
    match out with
    | some k => setTag r a (initTag a k)
    | none => pure ()

/-- `if (have) *out = PEM_read_bio_PrivateKey(..)`. -/
def parsePem (pem : Option Text) : RollProg Unit :=
  match pem with
  | some pem => setKey r a (E.readPem pem)
  | none => pure ()

/-- `dnssec_init_key`. -/
def dnssecInitKey : RollProg Unit := do
  let pem ← adoptPem E r a
  parsePem E r a pem
  let out ← loaded r a
  match out with
  | some k => setTag r a (initTag a k)
  | none => if E.secondary then pure () else generateKey E r a

/-- `dnssec_load_existing`: the key and the tag over the rdata as published. -/
def dnssecLoadExisting : RollProg (Option (PrivateKey × Nat)) := do
  let pem ← get (.next r a) maxPem
  pure ((usablePem pem).bind fun pem => (E.readPem pem).map fun k => (k, k.tag r.flags a))

/-- `z->zsk_created`, from the store or from the clock. -/
def loadCreated : RollProg Unit := do
  let v ← get (.created r) 64
  match filled v with
  | some v => setCreated r (atoi v)
  | none => do
    let t ← time
    setCreated r t
    set (.created r) (decimal t)

/-- `sscanf(v, "%15[^|]|%lld", ph, &si)`. -/
def scanPhase (v : Text) : Text × Int :=
  let ph := (v.take 15).takeWhile (· ≠ bar)
  match ph, v.drop ph.length with
  | _ :: _, c :: rest => (ph, if c = bar then atoi rest else 0)
  | _, _ => (ph, 0)

/-- The phase of a word. -/
def KeyRole.phaseOf (ph : Text) : Phase :=
  if ph = r.phaseWord .first then .first
  else if ph = r.phaseWord .second then .second
  else .none

/-- The phase and its start, from the stored text. -/
def KeyRole.readPhase (v : Option Text) : Phase × Int :=
  match filled v with
  | some v => (r.phaseOf (scanPhase v).1, (scanPhase v).2)
  | none => (.none, 0)

/-- What is installed once both incoming keys were looked for: without one of them there is no
rollover. -/
def incoming (n : KeyAlg → Option (PrivateKey × Nat)) (phase : Phase) (since : Int) : Incoming :=
  if (n .p256).isSome && (n .ed25519).isSome then
    ⟨fun a => (n a).map (·.1), fun a => ((n a).map (·.2)).getD 0, phase, since⟩
  else ⟨fun _ => none, fun a => ((n a).map (·.2)).getD 0, .none, since⟩

/-- `zone_rollover_load`, one role. -/
def rolloverLoad : RollProg Unit := do
  loadCreated r
  let v ← get (.rollover r) 64
  if (r.readPhase v).1 = .none then
    install r ⟨fun _ => none, fun _ => 0, .none, (r.readPhase v).2⟩
  else do
    let n₁ ← dnssecLoadExisting E r .p256
    let n₂ ← dnssecLoadExisting E r .ed25519
    install r (incoming (fun | .p256 => n₁ | .ed25519 => n₂) (r.readPhase v).1 (r.readPhase v).2)

/-- `zone_rollover_load`. -/
def zoneRolloverLoad : RollProg Unit := do
  rolloverLoad E .zsk
  rolloverLoad E .ksk

/-- `zone_dnssec_init`. -/
def zoneDnssecInit : RollProg Unit := do
  dnssecInitKey E .zsk .p256
  dnssecInitKey E .zsk .ed25519
  dnssecInitKey E .ksk .p256
  dnssecInitKey E .ksk .ed25519
  zoneRolloverLoad E

/-- `zone_dnssec_reload`. -/
def zoneDnssecReload : RollProg Unit := do
  clear
  zoneDnssecInit E

/-! ## The engine -/

/-- `roll_cfg`. -/
def rollCfg (k : Knob) : RollProg Int := do
  let own ← get (.zoneConfig r k) 64
  match filled own with
  | some v => pure (atoi v)
  | none => do
    let global ← get (.config r k) 64
    match filled global with
    | some v => pure (atoi v)
    | none => pure k.default

/-- `"<phase>|%lld"`. -/
def phaseText (p : Phase) (t : Nat) : Text := r.phaseWord p ++ [bar] ++ decimal t

/-- `rollover_start`, `ksk_rollover_start`. -/
def rolloverStart : RollProg Unit := do
  let pem₁ ← keygen .p256
  match pem₁ with
  | none => pure ()
  | some pem₁ => do
    let pem₂ ← keygen .ed25519
    match pem₂ with
    | none => pure ()
    | some pem₂ => do
      let t ← time
      txn [.set (.next r .p256) pem₁, .set (.next r .ed25519) pem₂,
        .set (.rollover r) (phaseText r .first t)]
      zoneRolloverLoad E

/-- `rollover_to_commit`, `ksk_rollover_to_retire`. -/
def rolloverAdvance : RollProg Unit := do
  let t ← time
  txn [.set (.rollover r) (phaseText r .second t)]
  zoneRolloverLoad E

/-- `if (have) SET ..`. -/
def promote (pem : Option Text) : List KeyCmd :=
  match filled pem with
  | some pem => [.set (.current r a) pem]
  | none => []

/-- `rollover_finish`, `ksk_rollover_finish`. -/
def rolloverFinish : RollProg Unit := do
  let pem₁ ← get (.next r .p256) maxPem
  let pem₂ ← get (.next r .ed25519) maxPem
  let t ← time
  txn (promote r .p256 pem₁ ++ [.del (.next r .p256)] ++ promote r .ed25519 pem₂ ++
    [.del (.next r .ed25519), .del (.rollover r), .set (.created r) (decimal t)])
  zoneDnssecReload E

/-- The step of a role without a rollover: one is started on a request that was not handled yet, or
when the keys are due. A KSK rollover waits for the end of a ZSK rollover. -/
def tickIdle (v : RoleView) (now : Nat) : RollProg Unit := do
  let req ← rollCfg r .request
  let seen ← get (.seen r) 64
  let validity ← rollCfg r .validity
  let manual := 0 < req && req != ((filled seen).map atoi).getD 0
  let ageDue := 0 < validity && validity ≤ now - v.created
  if (manual || ageDue) && (r == .zsk || v.zskIdle) then do
    rolloverStart E r
    if manual then set (.seen r) (decimal req.toNat) else pure ()
  else pure ()

/-- `rollover_tick`, one role. -/
def tickRole (now : Nat) : RollProg Unit := do
  let v ← look r
  match v.phase with
  | .none => tickIdle E r v now
  | .first => do
    let hold ← rollCfg r .publishHold
    if hold ≤ now - v.since then rolloverAdvance E r else pure ()
  | .second => do
    let hold ← rollCfg r .commitHold
    if hold ≤ now - v.since then rolloverFinish E r else pure ()

/-- `rollover_tick` for an active zone. -/
def rolloverTick : RollProg Unit := do
  let now ← time
  tickRole E .zsk now
  tickRole E .ksk now

end Programs

/-! ## What the operations do -/

/-- What a read of an entry can return: what is stored, or nothing where reads may fail. -/
def KeyEnv.Gives (E : KeyEnv) (fails : KeyEntry → Prop) (s : Store) (e : KeyEntry) (olen : Nat)
    (v : Option Text) : Prop :=
  v = vkGet s (e.key E.zone) olen ∨ fails e ∧ v = none

/-- One operation. Reads of the entries in `fails` may return nothing; a generated key is a good
one. -/
def KeyEnv.exec (E : KeyEnv) (fails : KeyEntry → Prop) (s : KeyState) :
    (o : RollOp) → o.Res → KeyState → Prop
  | .get e olen => fun v s' => s' = s ∧ E.Gives fails s.store e olen v
  | .set e val => fun _ s' => s' = { s with store := vkSet s.store (e.key E.zone) val 0 }
  | .txn cmds => fun _ s' => s' = { s with store := cmds.foldl (KeyCmd.apply E.zone) s.store }
  | .time => fun t s' => s' = s ∧ t = s.clock
  | .keygen _ => fun pem s' => s' = s ∧ ∀ p, pem = some p → E.Good p
  | .loaded r a => fun k s' => s' = s ∧ k = (s.mem r).key a
  | .setKey r a k => fun _ s' => s' = s.modify r fun m =>
    { m with key := Function.update m.key a k }
  | .setTag r a t => fun _ s' => s' = s.modify r fun m =>
    { m with tag := Function.update m.tag a t }
  | .setCreated r t => fun _ s' => s' = s.modify r fun m => { m with created := t }
  | .install r i => fun _ s' => s' = s.modify r fun m =>
      { m with next := i.key, nextTag := i.tag, phase := i.phase, since := i.since }
  | .look r => fun v s' => s' = s ∧
      v = ⟨(s.mem r).phase, (s.mem r).since, (s.mem r).created, (s.mem .zsk).phase = .none⟩
  | .clear => fun _ s' => s' = { s with mem := fun r => { s.mem r with key := fun _ => none } }

end SimpleDns.Server
