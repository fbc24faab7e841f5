import SimpleDns.Epp.Domain

/-!
# Poll, transfer, sessions and the RGP tick (`eppd.c:894-919`, `3554-4070`)

The commands outside the handler table, the dispatch of a frame and the sweep of the timer.

* `eppDomainTransfer`: a request records the gaining registrar and its time, an approval by the
  losing one moves the sponsor.
* `eppRgpTickOne`: purge, automatic renewal, end of a grace period, and approval of a transfer that
  nobody answered.
* `eppDispatch`: one frame; a login changes the session, everything else leaves it.

A registrar identifier with glob characters stands for itself in the pattern of a poll scan, where
Valkey would match more keys with it. This concerns the answer to a poll only.
-/

namespace SimpleDns.Epp

open Wire Lib Server

/-! ## Poll -/

/-- `epp:poll:<clid>:`. -/
def pollStart (clid : Text) : Text := lit "epp:poll:" ++ clid ++ [colon]

/-- `epp_poll_count`. -/
def eppPollCount (clid : Text) : E Nat := do
  let keys ← E.scan (pollStart clid) 512
  pure (keys.getD []).length

/-- What stands behind the last colon. -/
def lastPart (key : Text) : Text := (key.reverse.takeWhile (· ≠ colon)).reverse

/-- The loop of `epp_poll_oldest`: the lowest number and its key. A negative number counts as
none. -/
def oldestLoop : List Text → Int → Text → Int × Text
  | [], seq, key => (seq, key)
  | k :: ks, seq, key =>
    let n := atoiInt (lastPart k)
    if k.contains colon && (seq < 0 || n < seq) then oldestLoop ks n k else oldestLoop ks seq key

/-- `epp_poll_oldest`; `none` for 0 and -1. -/
def eppPollOldest (clid : Text) : E (Option (PollMsg × Int)) := do
  let keys ← E.scan (pollStart clid) 512
  let (seq, key) := oldestLoop (keys.getD []) (-1) []
  if seq < 0 then pure none
  else do
    let blob ← E.get key vkcBuf
    pure ((blob.bind PollMsg.ofBlob).map fun m => (m, seq))

/-- The `changePoll` extension of a message. -/
def changePollXml (m : PollMsg) (seq : Int) : Text :=
  if m.cpState.text.isEmpty then []
  else safeStrcpy (element (lit "extension") (lit "<changePoll:changeData " ++
    lit "xmlns:changePoll=\"urn:ietf:params:xml:ns:changePoll-1.0\" state=\"" ++
    m.cpState.text ++ lit "\">" ++ element (lit "changePoll:operation") m.cpOperation.text ++
    element (lit "changePoll:date") (eppIsoDate m.qdate) ++
    element (lit "changePoll:svTRID") (lit "eppd-poll-" ++ signedDecimal seq) ++
    elementIf (lit "changePoll:who") m.cpWho.text ++
    elementIf (lit "changePoll:reason") m.cpReason.text ++
    lit "</changePoll:changeData>")) 1000

variable (sess : Session)

/-- `epp_handle_poll`. -/
def eppHandlePoll (op msgid : Text) : E Answer :=
  if op = lit "ack" then
    if msgid.isEmpty then missing (lit "msgID")
    else do
      let key := pollStart sess.clid.text ++ msgid
      let blob ← E.get key 16
      if blob.isSome then do
        let _ ← E.del key
        let remaining ← eppPollCount sess.clid.text
        completed (safeStrcpy (lit "<msgQ count=\"" ++ decimal remaining ++ lit "\" id=\"" ++
          msgid ++ lit "\"/>") 128)
      else plain 2303 "Object does not exist: no such message ID"
  else if op = lit "req" then do
    let oldest ← eppPollOldest sess.clid.text
    match oldest with
    | none => plain 1300 "Command completed successfully; no messages"
    | some (m, seq) => do
      let remaining ← eppPollCount sess.clid.text
      pure (.result 1301 (lit "Command completed successfully; ack to dequeue")
        (safeStrcpy (lit "<msgQ count=\"" ++ decimal remaining ++ lit "\" id=\"" ++
          signedDecimal seq ++ lit "\">" ++ element (lit "qDate") (eppIsoDate m.qdate) ++
          element (lit "msg") m.msg.text ++ lit "</msgQ>" ++ m.resdata.text ++
          changePollXml m seq) 2600))
  else plain 2101 "Unimplemented option: poll op"

/-! ## Transfer -/

/-- `EPPD_TRANSFER_GRACE_SECS()`. -/
def eppdTransferGraceSecs : E Int := eppCfgSecs (lit "config:eppd_transfer_grace_secs") (5 * 86400)

/-- `EPPD_TRANSFER_PENDING_SECS()`. -/
def eppdTransferPendingSecs : E Int :=
  eppCfgSecs (lit "config:eppd_transfer_pending_secs") (5 * 86400)

/-- `EPPD_AUTORENEW_GRACE_SECS()`. -/
def eppdAutorenewGraceSecs : E Int :=
  eppCfgSecs (lit "config:eppd_autorenew_grace_secs") (45 * 86400)

/-- `<trnData>` of a domain. -/
def trnData (name : Text) (d : Domain) : Text :=
  safeStrcpy (dataElement "trnData" "domain" (element (lit "name") name ++
    element (lit "trStatus") d.transferStatus.text ++ element (lit "reID") d.transferReid.text ++
    element (lit "acID") d.clid.text)) 700

/-- `op="query"`. -/
def transferQuery (name : Text) (d : Domain) : E Answer :=
  if d.transferStatus.text.isEmpty then plain 2303 "Object does not exist: no transfer history"
  else if sess.clid ≠ d.clid ∧ sess.clid ≠ d.transferReid then
    plain 2201 "Authorization error: not a party to this transfer"
  else completed (trnData name d)

/-- `!d.authinfo[0] || strcmp(d.authinfo, pw) != 0`, negated. -/
def Domain.accepts (d : Domain) (pw : Text) : Bool :=
  !d.authinfo.text.isEmpty && d.authinfo.text == pw

/-- `clientTransferProhibited` or `serverTransferProhibited`. -/
def Domain.transferProhibited (d : Domain) : Bool :=
  d.statusHas "clientTransferProhibited" || d.statusHas "serverTransferProhibited"

/-- A pending transfer to a registrar, requested at a time. -/
def Domain.request (d : Domain) (clid : CString 64) (now : UInt32) : Domain :=
  { d with transferReid := clid, transferRedate := now, transferStatus := .copy (lit "pending") }

variable (cmd : Bytes)

/-- `op="request"`. -/
def transferRequest (dt : Bytes) (name : Text) (d : Domain) : E Answer :=
  if d.pending then plain 2304 "Object status prohibits operation: transfer already pending"
  else if d.transferProhibited then plain 2304 "Object status prohibits operation"
  else if !d.clid.text.isEmpty && d.clid == sess.clid then
    plain 2002 "Command use error: already the sponsoring registrar"
  else
    match child dt (lit "domain:authInfo") with
    | none => missing (lit "domain:authInfo")
    | some auth =>
      match (child auth.content (lit "domain:pw")).bind fun f => textOf f.content 256 with
      | none => missing (lit "domain:authInfo/pw")
      | some pw =>
        if d.accepts pw then do
          let now ← now32
          let d := d.request sess.clid now
          storeThen (domainKey name) d.encode do
            eppPollEnqueue d.clid.text
              (safeStrcpy
                (lit "Transfer of " ++ name ++ lit " requested by " ++ sess.clid.text) 400)
              (lit "domain") name (lit "before") (lit "transfer") sess.clid.text [] (trnData name d)
            let extra ← withFee cmd "fee:transfer" "transfer" "fee:trnData" 1100 (trnData name d)
            pure (.result 1001 (lit "Command completed successfully; action pending") extra)
        else plain 2200 "Authentication error: authInfo mismatch"

/-- The sponsor moves to the gaining registrar. -/
def Domain.handOver (d : Domain) (status : String) (until_ : UInt32) : Domain :=
  { d with
    transferStatus := .copy (lit status), clid := d.transferReid, exdate := d.exdate + yearSecs,
    rgpState := .transfer, rgpUntil := until_ }

/-- The end of `cancel`, `reject` and `approve`: the domain is stored, and the party that did not
act gets a message. -/
def transferEnd (gaining : Bool) (name : Text) (d : Domain) : E Answer :=
  storeThen (domainKey name) d.encode do
    eppPollEnqueue (if gaining then d.clid.text else d.transferReid.text)
      (safeStrcpy (lit "Transfer of " ++ name ++ lit ": " ++ d.transferStatus.text ++ lit " (by " ++
        sess.clid.text ++ lit ")") 400)
      (lit "domain") name (lit "after") (lit "transfer") sess.clid.text [] (trnData name d)
    completed (trnData name d)

/-- `op="cancel"`, `"reject"` and `"approve"`. -/
def transferSettle (op name : Text) (d : Domain) : E Answer :=
  let gaining := sess.clid == d.transferReid
  let losing := !d.clid.text.isEmpty && sess.clid == d.clid
  if !d.pending then plain 2304 "Object status prohibits operation: no pending transfer"
  else if op = lit "cancel" then
    if gaining then
      transferEnd sess gaining name { d with transferStatus := .copy (lit "clientCancelled") }
    else plain 2201 "Authorization error: not the requesting registrar"
  else if losing then
    if op = lit "reject" then
      transferEnd sess gaining name { d with transferStatus := .copy (lit "clientRejected") }
    else do
      let now ← now32
      let grace ← eppdTransferGraceSecs
      transferEnd sess gaining name (d.handOver "clientApproved" (now + toU32 grace))
  else plain 2201 "Authorization error: not the sponsoring registrar"

/-- `epp_domain_transfer`. -/
def eppDomainTransfer (t : Bytes) (op : Text) : E Answer :=
  match child t (lit "domain:transfer") with
  | none => missing (lit "domain:transfer")
  | some dt =>
    withName dt.content (lit "domain:name") 256 fun n =>
      let name := strlower n
      withObject Domain.ofBlob (domainKey name) fun d =>
        if op = lit "query" then transferQuery sess name d
        else if op = lit "request" then transferRequest sess cmd dt.content name d
        else if op = lit "cancel" ∨ op = lit "reject" ∨ op = lit "approve" then
          transferSettle sess op name d
        else plain 2101 "Unimplemented option: transfer op"

/-! ## Commands -/

/-- The operations of `objcmds[]`, in its order. -/
inductive Verb
  | check
  | info
  | create
  | update
  | delete
  | renew
deriving DecidableEq, Repr

/-- The objects of `objs[]`, in its order. -/
inductive Obj
  | domain
  | host
  | contact
  | org
deriving DecidableEq, Repr

def Verb.text : Verb → Text
  | check => lit "check"
  | info => lit "info"
  | create => lit "create"
  | update => lit "update"
  | delete => lit "delete"
  | renew => lit "renew"

def Obj.text : Obj → Text
  | domain => lit "domain"
  | host => lit "host"
  | contact => lit "contact"
  | org => lit "org"

/-- `handlers[]`; a pair that is not in it gets the stub. -/
def handler (q : Bytes) : Verb → Obj → E Answer
  | .check, .domain => eppDomainCheck cmd q
  | .create, .domain => eppDomainCreate sess cmd q
  | .info, .domain => eppDomainInfo sess q
  | .update, .domain => eppDomainUpdate sess cmd q
  | .delete, .domain => eppDomainDelete sess q
  | .renew, .domain => eppDomainRenew sess cmd q
  | .check, .host => eppHostCheck q
  | .create, .host => eppHostCreate sess q
  | .info, .host => eppHostInfo q
  | .update, .host => eppHostUpdate sess q
  | .delete, .host => eppHostDelete sess q
  | .check, .contact => eppContactCheck q
  | .create, .contact => eppContactCreate sess q
  | .info, .contact => eppContactInfo sess q
  | .update, .contact => eppContactUpdate sess q
  | .delete, .contact => eppContactDelete sess q
  | .check, .org => eppOrgCheck q
  | .create, .org => eppOrgCreate sess q
  | .info, .org => eppOrgInfo q
  | .update, .org => eppOrgUpdate sess q
  | .delete, .org => eppOrgDelete sess q
  | .renew, obj => pure (.result 2400
      (lit "Command failed: renew " ++ obj.text ++ lit " not implemented") [])

/-- The first operation and its element. -/
def findVerb (cmd : Bytes) : List Verb → Option (Verb × Bytes)
  | [] => none
  | v :: vs =>
    match child cmd v.text with
    | some f => some (v, f.content)
    | none => findVerb cmd vs

/-- The first object and its element. -/
def findObj (verb : Verb) (range : Bytes) : List Obj → Option (Obj × Bytes)
  | [] => none
  | o :: os =>
    match child range (o.text ++ [colon] ++ verb.text) with
    | some f => some (o, f.content)
    | none => findObj verb range os

/-- `epp_handle_command`. Without a login each of its three ways (neither `<transfer>` nor `<poll>`,
the one, the other) ends in the same 2201. -/
def eppHandleCommand : E Answer :=
  let transfer := child cmd (lit "transfer")
  let poll := child cmd (lit "poll")
  if !sess.loggedIn then plain 2201 "Authorization error: not logged in"
  else
    match transfer, poll with
    | some t, _ => eppDomainTransfer sess cmd t.content (attrExtract t.openTag (lit "op") 16)
    | none, some p =>
      eppHandlePoll sess (attrExtract p.openTag (lit "op") 16)
        (attrExtract p.openTag (lit "msgID") 32)
    | none, none =>
      match findVerb cmd [.check, .info, .create, .update, .delete, .renew] with
      | none => plain 2000 "Unknown or unsupported command"
      | some (verb, range) =>
        match findObj verb range [.domain, .host, .contact, .org] with
        | none => plain 2000 "Unknown object type"
        | some (obj, q) => handler sess cmd q verb obj

/-- `epp_handle_login`. -/
def eppHandleLogin (login : Bytes) : E (Answer × Session) :=
  match requiredText login (lit "clID") 64 with
  | none => pure (.result 2001 (lit "Command syntax error: missing clID") [], sess)
  | some clid =>
    match (child login (lit "pw")).bind fun f => textOf f.content 256 with
    | none => pure (.result 2001 (lit "Command syntax error: missing pw") [], sess)
    | some pw => do
      let expected ← E.get (lit "config:eppd_registrar_pw:" ++ clid) 256
      if expected.getD [] ≠ [] ∧ expected.getD [] = pw then
        pure (.result 1000 (lit "Command completed successfully") [], ⟨.copy clid, true⟩)
      else pure (.result 2200 (lit "Authentication error") [], sess)

/-- What a frame is answered with; `silent` is the -1 after which the connection is closed. -/
inductive Reply
  | greeting
  | answer (a : Answer) (cltrid : Text)
  | silent
deriving DecidableEq, Repr

/-- The result of `epp_dispatch`: the reply, the session after it and `*should_close`. -/
structure Dispatched where
  reply : Reply
  sess : Session
  close : Bool
deriving DecidableEq, Repr

/-- `epp_dispatch`. -/
def eppDispatch (xml : Bytes) : E Dispatched :=
  match child xml (lit "epp") with
  | none => pure ⟨.silent, sess, false⟩
  | some epp =>
    if (child epp.content (lit "hello")).isSome then pure ⟨.greeting, sess, false⟩
    else
      match child epp.content (lit "command") with
      | none => pure ⟨.silent, sess, false⟩
      | some cmd =>
        let cltrid := optionalText cmd.content (lit "clTRID") 300
        if (child cmd.content (lit "logout")).isSome then
          pure ⟨.answer (.result 1500
            (lit "Command completed successfully; ending session") []) cltrid, sess, true⟩
        else
          match child cmd.content (lit "login") with
          | some login => do
            let (a, sess') ← eppHandleLogin sess login.content
            pure ⟨.answer a cltrid, sess', false⟩
          | none => do
            let a ← eppHandleCommand sess cmd.content
            pure ⟨.answer a cltrid, sess, false⟩

/-! ## The RGP tick -/

/-- Automatic renewal, or the end of a grace period: the domain and whether it changed. -/
def tickRenew (d : Domain) (now : UInt32) : E (Domain × Bool) :=
  if d.rgpState ≠ .redemption ∧ d.exdate ≤ now then do
    let grace ← eppdAutorenewGraceSecs
    pure ({ d with
      exdate := d.exdate + yearSecs, rgpState := .autorenew, rgpUntil := now + toU32 grace }, true)
  else if (d.rgpState = .add ∨ d.rgpState = .autorenew ∨ d.rgpState = .transfer) ∧
      d.rgpUntil ≤ now then
    pure ({ d with rgpState := .none, rgpUntil := 0 }, true)
  else pure (d, false)

/-- A pending transfer whose window is over is approved, and both parties get a message. -/
def tickTransfer (name : Text) (now : UInt32) (d : Domain) (changed : Bool) :
    E (Domain × Bool) :=
  if d.pending then do
    let window ← eppdTransferPendingSecs
    if toU32 window < now - d.transferRedate then do
      let grace ← eppdTransferGraceSecs
      let d' := d.handOver "serverApproved" (now + toU32 grace)
      let msg := safeStrcpy (lit "Transfer of " ++ name ++
        lit ": serverApproved (pending window elapsed)") 256
      let tell (clid : Text) : E Unit := eppPollEnqueue clid msg (lit "domain") name (lit "after")
        (lit "transfer") (lit "eppd") [] (trnData name d')
      tell d.clid.text
      tell d'.clid.text
      pure (d', true)
    else pure (d, changed)
  else pure (d, changed)

/-- The end of `epp_rgp_tick_one`: a domain that has changed is stored. -/
def tickStore (domkey : Text) (d : Domain) (changed : Bool) : E Unit :=
  if changed then
    match d.encode with
    | none => pure ()
    | some raw => do
      let _ ← E.set domkey (hexEnc raw)
      pure ()
  else pure ()

/-- `epp_rgp_tick_one`. -/
def eppRgpTickOne (domkey : Text) : E Unit := do
  let blob ← E.get domkey vkcBuf
  match blob.bind Domain.ofBlob with
  | none => pure ()
  | some d => do
    let name := domkey.drop (lit "epp:domain:").length
    let now ← now32
    if d.rgpState = .redemption ∧ d.rgpUntil ≤ now then do
      eppPollEnqueue d.clid.text (lit "Domain purged: redemptionPeriod elapsed") (lit "domain") name
        (lit "after") (lit "delete") (lit "eppd") [] []
      let _ ← E.del domkey
      pure ()
    else do
      let (d, changed) ← tickRenew d now
      let (d, changed) ← tickTransfer name now d changed
      tickStore domkey d changed

/-- The loop of `epp_rgp_tick_scan`. -/
def tickLoop : List Text → E Unit
  | [] => pure ()
  | key :: keys => do
    eppRgpTickOne key
    tickLoop keys

/-- `epp_rgp_tick_scan`. -/
def eppRgpTickScan : E Unit := do
  let keys ← E.scan (lit "epp:domain:") 512
  tickLoop (keys.getD [])

end SimpleDns.Epp
