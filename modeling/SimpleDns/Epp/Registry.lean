import SimpleDns.Epp.Object
import SimpleDns.Lib.Alone
import SimpleDns.Server.Store
import SimpleDns.Wire.Resp

/-!
# The registry's store and the delegations it publishes (`eppd.c:116-190`, `1512-1735`, `3520-3553`)

The programs of `eppd` and what the store may answer them.

* An operation can fail (`Faults.may`): a read then gives nothing, and a write was performed or was
  not. Replies belong to the commands they answer: a connection that lost step with its replies is
  not modelled.
* `fitsCommand`: `vkc_cmd_v` builds a command in 8192 octets and fails without sending a longer one;
  `Faults.long` says whether such commands occur.
* A `SCAN` lists the matching keys in any order, some of them perhaps twice, each cut to 255 octets.
* `eppPublishDomain` and `eppRetractDomain` commit one transaction each (ADR-004).

Every `snprintf` of a key has room for the longest names, so keys are not cut. `hex_enc` of a full
4096-octet blob writes its NUL one octet behind `hexbuf`; the overrun itself is not modelled, and
the `SET` of such a blob does not fit its command.
-/

namespace SimpleDns.Epp

open Wire Lib Server List

/-! ## Operations -/

/-- A queued command of a transaction. -/
inductive Cmd
  | set (key val : Text)
  | del (key : Text)
  | incr (key : Text)
deriving DecidableEq, Repr

/-- The arguments of a command. -/
def Cmd.args : Cmd → List Text
  | set key val => [lit "SET", key, val]
  | del key => [lit "DEL", key]
  | incr key => [lit "INCR", key]

/-- `"$%d\r\n%s\r\n"`. -/
def bulkArg (a : Text) : Bytes := [36] ++ decimal a.length ++ crlf ++ a ++ crlf

/-- The octets `vkc_cmd_v` sends. -/
def commandOctets (args : List Text) : Bytes :=
  [42] ++ decimal args.length ++ crlf ++ args.flatMap bulkArg

/-- `pos < sizeof(buf)`: the command fits the buffer of `vkc_cmd_v`. -/
def fitsCommand (args : List Text) : Prop := (commandOctets args).length < 8192

instance (args : List Text) : Decidable (fitsCommand args) := inferInstanceAs (Decidable (_ < _))

/-- What `INCR` leaves: a value that is no number stays. -/
def incrCell (c : Option Cell) : Option Cell :=
  match c with
  | none => some ⟨lit "1", none⟩
  | some c =>
    if signedDecimal (atol c.value) = c.value then
      some ⟨signedDecimal (atol c.value + 1), c.ttl⟩
    else some c

/-- A command, performed. -/
def Cmd.apply (s : Store) : Cmd → Store
  | set key val => vkSet s key val 0
  | del key => vkDel s key
  | incr key => Function.update s key (incrCell (s key))

/-- The operations of `eppd`. -/
inductive Op
  | get (key : Text) (olen : Nat)
  | set (key val : Text)
  | del (key : Text)
  | incr (key : Text)
  | scan (start : Text) (maxkeys : Nat)
  | commit (cmds : List Cmd)
  | time
  | random
  | roid

/-- Their results; `none` and `false` are failures. -/
def Op.Res : Op → Type
  | get _ _ => Option Text
  | scan _ _ => Option (List Text)
  | time => Nat
  | random => Bytes
  | roid => UInt32
  | _ => Bool

/-- The programs of `eppd`. -/
abbrev E (α : Type) := Prog Op Op.Res Empty Empty α

namespace E

/-- `vk_get`. -/
def get (key : Text) (olen : Nat) : E (Option Text) := Prog.perform (Op.get key olen)

/-- `vk_set`. -/
def set (key val : Text) : E Bool := Prog.perform (Op.set key val)

/-- `vk_del`. -/
def del (key : Text) : E Bool := Prog.perform (Op.del key)

/-- `vk_incr`; its 0 and -1 are `true` and `false`. -/
def incr (key : Text) : E Bool := Prog.perform (Op.incr key)

/-- `vk_list_keys` of the keys that start with a text. -/
def scan (start : Text) (maxkeys : Nat) : E (Option (List Text)) :=
  Prog.perform (Op.scan start maxkeys)

/-- `vkc_txn_begin` to `vkc_txn_commit`. -/
def commit (cmds : List Cmd) : E Bool := Prog.perform (Op.commit cmds)

/-- `time(NULL)`. -/
def time : E Nat := Prog.perform Op.time

/-- The 16 octets of `epp_gen_authinfo`. -/
def random : E Bytes := Prog.perform Op.random

/-- `atomic_fetch_add(&g_roid_counter, 1u) + 1`. -/
def roid : E UInt32 := Prog.perform Op.roid

end E

/-! ## What the environment does -/

/-- The store, the clock and the counter of object identifiers. -/
structure Db where
  keys : Store
  clock : Nat
  roid : UInt32

/-- Whether operations of the store may fail, and whether commands that are too long may occur. -/
structure Faults where
  may : Prop
  long : Prop

/-- A listing of the keys that start with `start`. -/
def Lists (s : Store) (start : Text) (maxkeys : Nat) (out : List Text) : Prop :=
  ∃ all : List Text, (∀ k, k ∈ all ↔ start <+: k ∧ (s k).isSome) ∧
    out = (all.map fun k => safeStrcpy k 256).take maxkeys

/-- A write, or a transaction of writes: performed with the answer yes, or failed, after which all
of it was performed or nothing. -/
inductive Write (F : Faults) (cmds : List Cmd) (s : Store) : Bool → Store → Prop
  | done (h : ∀ c ∈ cmds, fitsCommand c.args) : Write F cmds s true (cmds.foldl Cmd.apply s)
  | long (h : F.long) (hfits : ¬ ∀ c ∈ cmds, fitsCommand c.args) : Write F cmds s false s
  | lost (h : F.may) : Write F cmds s false s
  | unheard (h : F.may) (hfits : ∀ c ∈ cmds, fitsCommand c.args) :
      Write F cmds s false (cmds.foldl Cmd.apply s)

/-- What an operation may answer, and what it leaves. -/
def exec (F : Faults) (s : Db) : (o : Op) → o.Res → Db → Prop
  | .get key olen, r, t => t = s ∧ (r = vkGet s.keys key olen ∨ F.may ∧ r = none)
  | .set key val, r, t => ∃ k, Write F [.set key val] s.keys r k ∧ t = { s with keys := k }
  | .del key, r, t => ∃ k, Write F [.del key] s.keys r k ∧ t = { s with keys := k }
  | .incr key, r, t => ∃ k, Write F [.incr key] s.keys r k ∧ t = { s with keys := k }
  | .scan start maxkeys, r, t =>
    t = s ∧ ((∃ out, Lists s.keys start maxkeys out ∧ r = some out) ∨ F.may ∧ r = none)
  | .commit cmds, r, t => ∃ k, Write F cmds s.keys r k ∧ t = { s with keys := k }
  | .time, r, t => s.clock ≤ r ∧ t = { s with clock := r }
  | .random, r, t => r.length = 16 ∧ t = s
  | .roid, r, t => r = s.roid + 1 ∧ t = { s with roid := s.roid + 1 }

/-! ## Zones -/

/-- `name_in_zone` of `eppd.c`. -/
def nameInZone (name zone : Text) : Bool :=
  if zone.isEmpty || name.length < zone.length then false else zoneMatches zone name

/-- The loop of `find_parent_zone`: the first of the longest zones the name is in. -/
def parentLoop (name : Text) : List Text → Text → Text
  | [], best => best
  | k :: ks, best =>
    let zn := k.drop (lit "zone_table:").length
    parentLoop name ks
      (if nameInZone name zn && best.length < zn.length then safeStrcpy zn 256 else best)

/-- `find_parent_zone`; `none` for -1. -/
def findParentZone (name : Text) : E (Option Text) := do
  let keys ← E.scan (lit "zone_table:") 64
  let best := parentLoop name (keys.getD []) []
  if best.isEmpty then
    let primary ← E.get (lit "config:zone_name") 256
    pure (primary.filter fun z => !z.isEmpty)
  else pure (some best)

/-- `epp_serial_key`. -/
def eppSerialKey (zn : Text) : E Text := do
  let primary ← E.get (lit "config:zone_name") 256
  if zn.isEmpty || eqCI zn (primary.getD []) then pure (lit "config:zone_serial")
  else pure (lit "config:zone:" ++ zn ++ lit ":serial")

/-! ## Values -/

/-- `off += snprintf(buf + off, cap - off, "%s", piece)` while `off < cap - 1`. -/
def printLoop (cap : Nat) : List Text → Text → Text
  | [], buf => buf
  | p :: ps, buf =>
    if buf.length < cap - 1 then printLoop cap ps (safeStrcpy (buf ++ p) cap) else buf

/-- `"3600"` and one `|`-separated piece for each entry. -/
def ttlValue (cap : Nat) (pieces : List Text) : Text :=
  printLoop cap (pieces.map fun p => [124] ++ p) (lit "3600")

/-- `"%u,%u,%u,%s"` of a DS entry. -/
def Ds.text (d : Ds) : Text :=
  decimal d.keytag.toNat ++ [44] ++ decimal d.alg.toNat ++ [44] ++ decimal d.digtype.toNat ++
    [44] ++ hexEnc d.digest

/-- `nsval`. -/
def nsValue (ns : Slots (CString 256)) : Text := ttlValue 4096 (ns.list.map CString.text)

/-- `dsval`. -/
def dsValue (ds : Slots Ds) : Text := ttlValue 4096 (ds.list.map Ds.text)

/-- `aval`, if the host has IPv4 addresses. -/
def v4Value (h : Host) : Option Text :=
  if h.v4.list = [] then none else some (ttlValue 600 (h.v4.list.map CString.text))

/-- `aaaaval`, if the host has IPv6 addresses. -/
def v6Value (h : Host) : Option Text :=
  if h.v6.list = [] then none else some (ttlValue 900 (h.v6.list.map CString.text))

/-! ## Publishing -/

/-- `epp:domain:<name>`. -/
def domainKey (name : Text) : Text := lit "epp:domain:" ++ name

/-- `epp:host:<name>`. -/
def hostKey (name : Text) : Text := lit "epp:host:" ++ name

/-- `epp:contact:<id>`. -/
def contactKey (id : Text) : Text := lit "epp:contact:" ++ id

/-- `epp:org:<id>`. -/
def orgKey (id : Text) : Text := lit "epp:org:" ++ id

/-- The glue of one name server: nothing if it is out of bailiwick or has no readable host. -/
def glueFor (zone ns : Text) : E (List Cmd) :=
  if nameInZone ns zone then do
    let blob ← E.get (hostKey ns) vkcBuf
    match blob.bind Host.ofBlob with
    | none => pure []
    | some h =>
      pure ((v4Value h).toList.map (Cmd.set (zkey zone (lit "A") ns)) ++
        (v6Value h).toList.map (Cmd.set (zkey zone (lit "AAAA") ns)))
  else pure []

/-- The glue of every name server. -/
def glueLoop (zone : Text) : List (CString 256) → E (List Cmd)
  | [] => pure []
  | ns :: rest => do
    let here ← glueFor zone ns.text
    let there ← glueLoop zone rest
    pure (here ++ there)

/-- The queued commands of `epp_publish_domain`. -/
def publishCmds (zone name : Text) (ns : Slots (CString 256)) (ds : Slots Ds) (glue : List Cmd)
    (serial : Text) : List Cmd :=
  [.set (zkey zone (lit "NS") name) (nsValue ns),
    if ds.list = [] then .del (zkey zone (lit "DS") name)
    else .set (zkey zone (lit "DS") name) (dsValue ds)] ++ glue ++ [.incr serial]

/-- `epp_publish_domain`. -/
def eppPublishDomain (name : Text) (ns : Slots (CString 256)) (ds : Slots Ds) : E Unit := do
  let parent ← findParentZone name
  match parent with
  | none => pure ()
  | some zone => do
    let glue ← glueLoop zone ns.list
    let serial ← eppSerialKey zone
    let _ ← E.commit (publishCmds zone name ns ds glue serial)
    pure ()

/-- `epp_retract_domain`. -/
def eppRetractDomain (name : Text) : E Unit := do
  let parent ← findParentZone name
  match parent with
  | none => pure ()
  | some zone => do
    let serial ← eppSerialKey zone
    let _ ← E.commit [.del (zkey zone (lit "NS") name), .del (zkey zone (lit "DS") name),
      .incr serial]
    pure ()

/-! ## Configuration and notifications -/

/-- `epp_cfg_secs`. -/
def eppCfgSecs (key : Text) (defval : Int) : E Int := do
  let v ← E.get key 32
  match v with
  | some v => if v.isEmpty then pure defval else pure (atol v)
  | none => pure defval

/-- `epp_poll_enqueue`. `vk_incr` returns 0 whatever the counter is: every message has number 0. -/
def eppPollEnqueue (clid msgtext objtype objid cpState cpOperation cpWho cpReason resdata : Text) :
    E Unit := do
  if clid.isEmpty then pure ()
  else do
    let counted ← E.incr (lit "epp:pollseq:" ++ clid)
    if counted then do
      let now ← E.time
      let m : PollMsg := {
        msg := .copy msgtext, qdate := UInt32.ofNat now, objtype := .copy objtype,
        objid := .copy objid, cpState := .copy cpState, cpOperation := .copy cpOperation,
        cpWho := .copy cpWho, cpReason := .copy cpReason, resdata := .copy resdata }
      match m.encode with
      | none => pure ()
      | some raw => do
        let _ ← E.set (lit "epp:poll:" ++ clid ++ lit ":0") (hexEnc raw)
        pure ()
    else pure ()

end SimpleDns.Epp
