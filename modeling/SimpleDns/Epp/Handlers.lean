import SimpleDns.Epp.Registry
import SimpleDns.Epp.Xml

/-!
# Host, contact and organisation commands (`eppd.c:1501-1506`, `1811-2171`, `2581-3041`)

Each handler gets the content of its `<obj:op>` element and gives an answer; the session is read
only. What every handler does alike is stated once:

* `withObject`: the stored object is fetched and decoded, else the answer is 2303 or 2400.
* `withSponsored`: and its sponsor is the session's registrar, else 2201. An object without a
  sponsor passes.
* `storeThen`: the object is encoded and stored, and the result of the `SET` is not looked at.

Texts of answers are cut to the arrays they are printed in. Log lines are left out.
-/

namespace SimpleDns.Epp

open Wire Lib Server

/-! ## Sessions and answers -/

/-- `epp_session_t`. -/
structure Session where
  clid : CString 64
  loggedIn : Bool
deriving DecidableEq, Repr

/-- What `epp_build_result` is called with. `overrun` is an answer whose text was printed behind the
end of its array. -/
inductive Answer
  | result (code : Nat) (msg extra : Text)
  | overrun
deriving DecidableEq, Repr

/-- A result without data. -/
def plain (code : Nat) (msg : String) : E Answer := pure (.result code (lit msg) [])

/-- Code 1000 with data. -/
def completed (extra : Text) : E Answer :=
  pure (.result 1000 (lit "Command completed successfully") extra)

/-- `"Required parameter missing: <tag>"`. -/
def missing (tag : Text) : E Answer :=
  pure (.result 2003 (lit "Required parameter missing: " ++ tag) [])

/-- The name or identifier every command starts with. -/
def withName (range : Bytes) (tag : Text) (cap : Nat) (k : Text → E Answer) : E Answer :=
  match requiredText range tag cap with
  | some t => k t
  | none => missing tag

/-- A stored object, fetched and decoded. -/
def withObject {α : Type} (ofBlob : Text → Option α) (key : Text) (k : α → E Answer) :
    E Answer := do
  let blob ← E.get key vkcBuf
  match blob with
  | none => plain 2303 "Object does not exist"
  | some blob =>
    match ofBlob blob with
    | none => plain 2400 "Command failed: corrupt object"
    | some a => k a

variable (sess : Session)

/-- `clid[0] && strcmp(clid, sess->clid) != 0`, negated. -/
def Session.sponsors (clid : CString 64) : Bool :=
  clid.text.isEmpty || clid == sess.clid

/-- A stored object the session may change. -/
def withSponsored {α : Type} (sess : Session) (ofBlob : Text → Option α) (clid : α → CString 64)
    (key : Text) (k : α → E Answer) : E Answer :=
  withObject ofBlob key fun a =>
    if sess.sponsors (clid a) then k a
    else plain 2201 "Authorization error: not the sponsoring registrar"

/-- The encoded object is stored, whether or not the store takes it. -/
def storeThen (key : Text) (raw : Option Bytes) (k : E Answer) : E Answer :=
  match raw with
  | none => plain 2400 "Command failed: encode error"
  | some raw => do
    let _ ← E.set key (hexEnc raw)
    k

/-- A status that forbids the command. -/
def unlessStatus (status : Slots (CString 32)) (flag : String) (k : E Answer) : E Answer :=
  if status.list.any fun s => s.text == lit flag then
    plain 2304 "Object status prohibits operation"
  else k

/-! ## Dates and identifiers -/

/-- Year, month and day of a day since 1970 (`gmtime_r`). -/
def civil (days : Nat) : Nat × Nat × Nat :=
  let z := days + 719468
  let era := z / 146097
  let doe := z % 146097
  let yoe := (doe - doe / 1460 + doe / 36524 - doe / 146096) / 365
  let doy := doe - (365 * yoe + yoe / 4 - yoe / 100)
  let mp := (5 * doy + 2) / 153
  let m := if mp < 10 then mp + 3 else mp - 9
  (yoe + era * 400 + (if m ≤ 2 then 1 else 0), m, doy - (153 * mp + 2) / 5 + 1)

/-- `%02d`. -/
def twoDigits (n : Nat) : Text := if n < 10 then 48 :: decimal n else decimal n

/-- `epp_iso_date`. -/
def eppIsoDate (t : UInt32) : Text :=
  let n := t.toNat
  let (y, m, d) := civil (n / 86400)
  decimal y ++ [45] ++ twoDigits m ++ [45] ++ twoDigits d ++ lit "T" ++
    twoDigits (n % 86400 / 3600) ++ [58] ++ twoDigits (n % 3600 / 60) ++ [58] ++
    twoDigits (n % 60) ++ lit "Z"

example : eppIsoDate 951782400 = lit "2000-02-29T00:00:00Z" := by decide +kernel

/-- `epp_gen_roid`. -/
def eppGenRoid (suffix : String) : E (CString 32) := do
  let n ← E.roid
  pure (.copy (decimal n.toNat ++ [45] ++ lit suffix))

/-- `epp_gen_authinfo`. -/
def eppGenAuthinfo : E (CString 256) := do
  let raw ← E.random
  pure (.copy (hexEnc raw))

/-- `(uint32_t) time(NULL)`. -/
def now32 : E UInt32 := do
  let t ← E.time
  pure (UInt32.ofNat t)

/-! ## Elements -/

/-- `<tag>content</tag>`. -/
def element (tag content : Text) : Text :=
  [60] ++ tag ++ [62] ++ content ++ [60, 47] ++ tag ++ [62]

/-- `<tag>content</tag>`, nothing for an empty content. -/
def elementIf (tag content : Text) : Text := if content.isEmpty then [] else element tag content

/-- `<status s="value"/>`. -/
def statusElement (value : Text) : Text := lit "<status s=\"" ++ value ++ lit "\"/>"

/-- `<tag xmlns="urn:ietf:params:xml:ns:obj-1.0">content</tag>`. -/
def dataElement (tag obj : String) (content : Text) : Text :=
  [60] ++ lit tag ++ lit " xmlns=\"urn:ietf:params:xml:ns:" ++ lit obj ++ lit "-1.0\">" ++
    content ++ [60, 47] ++ lit tag ++ [62]

/-- The data of a check. -/
def chkData (obj idTag : String) (exists_ : Bool) (id : Text) : Text :=
  dataElement "chkData" obj (element (lit "cd") ([60] ++ lit idTag ++ lit " avail=\"" ++
    (if exists_ then lit "0" else lit "1") ++ lit "\">" ++ id ++ [60, 47] ++ lit idTag ++ [62]))

/-- The data of a create. -/
def creData (obj idTag : String) (id : Text) (crdate : UInt32) (more : Text) : Text :=
  dataElement "creData" obj
    (element (lit idTag) id ++ element (lit "crDate") (eppIsoDate crdate) ++ more)

/-- `epp_host_check`, `epp_contact_check`, `epp_org_check`. -/
def checkObject (obj idTag : String) (cap : Nat) (key id : Text) : E Answer := do
  let blob ← E.get key 16
  completed (safeStrcpy (chkData obj idTag blob.isSome id) cap)

/-- A create on a key that is taken. -/
def unlessExists (key : Text) (k : E Answer) : E Answer := do
  let existing ← E.get key 16
  if existing.isSome then plain 2302 "Object exists" else k

/-! ## Status flags -/

/-- `epp_status_settable`. -/
def eppStatusSettable (s : Text) : Bool :=
  [lit "clientUpdateProhibited", lit "clientDeleteProhibited", lit "clientTransferProhibited",
    lit "clientRenewProhibited", lit "clientHold"].contains s

/-- Add a text that is not there yet. -/
def pushNew {cap : Nat} [NeZero cap] (l : Slots (CString cap)) (t : Text) : Slots (CString cap) :=
  if l.list.any fun s => s.text == t then l else l.push (.copy t)

/-- Remove every entry equal to a text. -/
def dropText {cap : Nat} (l : Slots (CString cap)) (t : Text) : Slots (CString cap) :=
  l.removeIf fun s => s.text == t

/-- The `s` attributes of the status elements of a range. -/
def statusValues (range : Bytes) (tag : Text) : List Text :=
  (children range tag).map fun f => attrExtract f.openTag (lit "s") 32

/-- The statuses an `<add>` sets. The loop ends where the array is full, and `push` adds nothing to
a full array. -/
def addStatuses (l : Slots (CString 32)) (values : List Text) : Slots (CString 32) :=
  values.foldl (fun l v => if v ≠ [] ∧ eppStatusSettable v then pushNew l v else l) l

/-- The statuses a `<rem>` takes away. -/
def remStatuses (l : Slots (CString 32)) (values : List Text) : Slots (CString 32) :=
  values.foldl dropText l

/-! ## Hosts -/

/-- One address: IPv6 if it has a colon. -/
def Host.addAddr (h : Host) (addr : Text) : Host :=
  if addr.contains colon then { h with v6 := h.v6.push (.copy addr) }
  else if addr.isEmpty then h
  else { h with v4 := h.v4.push (.copy addr) }

/-- The loop over address elements, as long as there are fewer than `EPP_MAX_ARR` addresses. -/
def Host.addAddrs (h : Host) : List Found → Host
  | [] => h
  | f :: fs =>
    if h.v4.list.length + h.v6.list.length < eppMaxArr then
      (h.addAddr (textIn f.content 64)).addAddrs fs
    else h

/-- The addresses a `<rem>` takes away. -/
def Host.remAddrs (h : Host) (fs : List Found) : Host :=
  fs.foldl (fun h f => { h with
    v4 := dropText h.v4 (textIn f.content 64), v6 := dropText h.v6 (textIn f.content 64) }) h

/-- A host with nothing in it. -/
def Host.zero : Host := ⟨default, default, default, default, default, 0⟩

variable (q : Bytes)

/-- `epp_host_check`. -/
def eppHostCheck : E Answer :=
  withName q (lit "host:name") 256 fun name =>
    checkObject "host" "name" 600 (hostKey (strlower name)) (strlower name)

/-- `epp_host_create`. -/
def eppHostCreate : E Answer :=
  withName q (lit "host:name") 256 fun t =>
    let name := strlower t
    unlessExists (hostKey name) do
      let h := { Host.zero with clid := sess.clid }.addAddrs (children q (lit "host:addr"))
      let roid ← eppGenRoid "EPPD-H"
      let now ← now32
      let h := { h with roid := roid, crdate := now }
      storeThen (hostKey name) h.encode
        (completed (safeStrcpy (creData "host" "name" name now []) 512))

/-- The data of `host:info`. -/
def hostInfo (name : Text) (h : Host) : Text :=
  let addr (ip : String) (a : Text) :=
    lit "<addr ip=\"" ++ lit ip ++ lit "\">" ++ a ++ lit "</addr>"
  let addrs := printLoop 2048 (h.v4.list.map (fun a => addr "v4" a.text) ++
    h.v6.list.map (fun a => addr "v6" a.text)) []
  safeStrcpy (dataElement "infData" "host" (element (lit "name") name ++
    element (lit "roid") h.roid.text ++ statusElement (lit "ok") ++ addrs ++
    element (lit "crDate") (eppIsoDate h.crdate))) 3000

/-- `epp_host_info`. -/
def eppHostInfo : E Answer :=
  withName q (lit "host:name") 256 fun t =>
    withObject Host.ofBlob (hostKey (strlower t)) fun h => completed (hostInfo (strlower t) h)

/-- The `<add>` of `host:update`. -/
def Host.updateAdd (h : Host) (q : Bytes) : Host :=
  match child q (lit "add") with
  | none => h
  | some add =>
    let h := h.addAddrs (children add.content (lit "host:addr"))
    { h with status := addStatuses h.status (statusValues add.content (lit "host:status")) }

/-- The `<rem>` of `host:update`. -/
def Host.updateRem (h : Host) (q : Bytes) : Host :=
  match child q (lit "rem") with
  | none => h
  | some rem =>
    let h := h.remAddrs (children rem.content (lit "host:addr"))
    { h with status := remStatuses h.status (statusValues rem.content (lit "host:status")) }

/-- The loop of `epp_host_in_use`: the keys of the domains that list the host. -/
def hostLoop (hostname : Text) : List Text → E (List Text)
  | [] => pure []
  | key :: keys => do
    let blob ← E.get key vkcBuf
    let rest ← hostLoop hostname keys
    match blob.bind Domain.ofBlob with
    | some d => pure (if d.ns.list.any fun n => eqCI n.text hostname then key :: rest else rest)
    | none => pure rest

/-- `epp_host_in_use`: the names of the domains that list the host. -/
def eppHostInUse (hostname : Text) : E (List Text) := do
  let keys ← E.scan (lit "epp:domain:") 512
  let used ← hostLoop hostname (keys.getD [])
  pure (used.map fun k => k.drop (lit "epp:domain:").length)

/-- The loop of `epp_contact_in_use`, which ends at the first domain. -/
def contactLoop (id : Text) : List Text → E Bool
  | [] => pure false
  | key :: keys => do
    let blob ← E.get key vkcBuf
    match blob.bind Domain.ofBlob with
    | some d =>
      if !d.registrant.text.isEmpty && eqCI d.registrant.text id then pure true
      else contactLoop id keys
    | none => contactLoop id keys

/-- `epp_contact_in_use`. -/
def eppContactInUse (id : Text) : E Bool := do
  let keys ← E.scan (lit "epp:domain:") 512
  contactLoop id (keys.getD [])

/-- The loop of `epp_republish_host_glue`. -/
def republishLoop : List Text → E Unit
  | [] => pure ()
  | name :: names => do
    let blob ← E.get (domainKey name) vkcBuf
    match blob.bind Domain.ofBlob with
    | some d => do
      eppPublishDomain name d.ns d.ds
      republishLoop names
    | none => republishLoop names

/-- `epp_republish_host_glue`. -/
def eppRepublishHostGlue (hostname : Text) : E Unit := do
  let used ← eppHostInUse hostname
  republishLoop used

/-- `epp_host_update`. -/
def eppHostUpdate : E Answer :=
  withName q (lit "host:name") 256 fun t =>
    let name := strlower t
    withSponsored sess Host.ofBlob Host.clid (hostKey name) fun h =>
      unlessStatus h.status "clientUpdateProhibited" <|
        storeThen (hostKey name) ((h.updateAdd q).updateRem q).encode do
          eppRepublishHostGlue name
          completed []

/-- `epp_host_delete`. -/
def eppHostDelete : E Answer :=
  withName q (lit "host:name") 256 fun t =>
    let name := strlower t
    withSponsored sess Host.ofBlob Host.clid (hostKey name) fun h =>
      unlessStatus h.status "clientDeleteProhibited" do
        let used ← eppHostInUse name
        if used.isEmpty then do
          let _ ← E.del (hostKey name)
          completed []
        else
          plain 2305 "Association prohibits operation: host is in use by a domain's NS set"

/-! ## Contacts -/

/-- `xml_text_decode` into a field that holds a text already. -/
def CString.overwrite {cap : Nat} [NeZero cap] (old : CString cap) (range : Bytes) (tag : Text) :
    CString cap :=
  match child range tag with
  | some f => .copy (textOver old.text f.content cap)
  | none => old

/-- `epp_contact_check`. -/
def eppContactCheck : E Answer :=
  withName q (lit "contact:id") 64 fun id => checkObject "contact" "id" 400 (contactKey id) id

/-- `epp_contact_create`. -/
def eppContactCreate : E Answer :=
  withName q (lit "contact:id") 64 fun id =>
    unlessExists (contactKey id) do
      let authinfo ← eppGenAuthinfo
      let roid ← eppGenRoid "EPPD-C"
      let now ← now32
      let c : Contact := {
        roid := roid, clid := sess.clid, name := .copy (optionalText q (lit "contact:name") 128),
        email := .copy (optionalText q (lit "contact:email") 128),
        voice := .copy (optionalText q (lit "contact:voice") 32), authinfo := authinfo,
        crdate := now }
      storeThen (contactKey id) c.encode
        (completed (safeStrcpy (creData "contact" "id" id now []) 400))

/-- `<authInfo>`, for the sponsor's own session only (RFC 9154). -/
def authElement (clid : CString 64) (authinfo : CString 256) : Text :=
  if !clid.text.isEmpty && clid == sess.clid && !authinfo.text.isEmpty then
    safeStrcpy (element (lit "authInfo") (element (lit "pw") authinfo.text)) 320
  else []

/-- The data of `contact:info`. -/
def contactInfo (id : Text) (c : Contact) : Text :=
  safeStrcpy (dataElement "infData" "contact" (element (lit "id") id ++
    element (lit "roid") c.roid.text ++ statusElement (lit "ok") ++
    elementIf (lit "name") c.name.text ++ element (lit "crDate") (eppIsoDate c.crdate) ++
    authElement sess c.clid c.authinfo)) 1300

/-- `epp_contact_info`. -/
def eppContactInfo : E Answer :=
  withName q (lit "contact:id") 64 fun id =>
    withObject Contact.ofBlob (contactKey id) fun c => completed (contactInfo sess id c)

/-- The texts a `<chg>` of `contact:update` changes. -/
def Contact.change (c : Contact) (chg : Bytes) : Contact :=
  { c with
    name := c.name.overwrite chg (lit "contact:name")
    email := c.email.overwrite chg (lit "contact:email")
    voice := c.voice.overwrite chg (lit "contact:voice") }

/-- `epp_contact_update`. -/
def eppContactUpdate : E Answer :=
  withName q (lit "contact:id") 64 fun id =>
    withSponsored sess Contact.ofBlob Contact.clid (contactKey id) fun c =>
      match child q (lit "chg") with
      | none => storeThen (contactKey id) c.encode (completed [])
      | some chg =>
        if (child chg.content (lit "contact:authInfo")).isSome then do
          let authinfo ← eppGenAuthinfo
          storeThen (contactKey id) { c.change chg.content with authinfo := authinfo }.encode
            (completed [])
        else storeThen (contactKey id) (c.change chg.content).encode (completed [])

/-- `epp_contact_delete`. -/
def eppContactDelete : E Answer :=
  withName q (lit "contact:id") 64 fun id =>
    withSponsored sess Contact.ofBlob Contact.clid (contactKey id) fun _ => do
      let used ← eppContactInUse id
      if used then
        plain 2305 "Association prohibits operation: contact is a domain's registrant"
      else do
        let _ ← E.del (contactKey id)
        completed []

/-! ## Organisations -/

/-- The roles of a range: those that decode and are not empty. -/
def roleTexts (range : Bytes) : List Text :=
  (children range (lit "org:role")).filterMap fun f => (textOf f.content 32).filter (· ≠ [])

/-- `epp_org_check`. -/
def eppOrgCheck : E Answer :=
  withName q (lit "org:id") 64 fun id => checkObject "org" "id" 400 (orgKey id) id

/-- `epp_org_create`. -/
def eppOrgCreate : E Answer :=
  withName q (lit "org:id") 64 fun id =>
    unlessExists (orgKey id) do
      let roid ← eppGenRoid "EPPD-O"
      let now ← now32
      let o : Org := {
        id := .copy id, roid := roid, clid := sess.clid,
        status := (default : Slots (CString 32)).push (.copy (lit "ok")),
        parentid := .copy (optionalText q (lit "org:parentId") 64),
        roles := (roleTexts q).foldl (fun l r => l.push (.copy r)) default,
        email := .copy (optionalText q (lit "org:email") 128),
        voice := .copy (optionalText q (lit "org:voice") 32), crdate := now }
      storeThen (orgKey id) o.encode (completed (safeStrcpy (creData "org" "id" id now []) 400))

/-- The data of `org:info`. -/
def orgInfo (id : Text) (o : Org) : Text :=
  safeStrcpy (dataElement "infData" "org" (element (lit "id") id ++
    element (lit "roid") o.roid.text ++
    printLoop 300 (o.status.list.map fun s => statusElement s.text) [] ++
    printLoop 600 (o.roles.list.map fun r => element (lit "role") r.text) [] ++
    elementIf (lit "parentId") o.parentid.text ++ element (lit "clID") o.clid.text ++
    element (lit "crDate") (eppIsoDate o.crdate))) 1300

/-- `epp_org_info`. -/
def eppOrgInfo : E Answer :=
  withName q (lit "org:id") 64 fun id =>
    withObject Org.ofBlob (orgKey id) fun o => completed (orgInfo id o)

/-- The `<add>` of `org:update`. -/
def Org.updateAdd (o : Org) (q : Bytes) : Org :=
  match child q (lit "add") with
  | none => o
  | some add => { o with
      roles := (roleTexts add.content).foldl pushNew o.roles
      status := addStatuses o.status (statusValues add.content (lit "org:status")) }

/-- The `<rem>` of `org:update`. -/
def Org.updateRem (o : Org) (q : Bytes) : Org :=
  match child q (lit "rem") with
  | none => o
  | some rem => { o with
      roles := (children rem.content (lit "org:role")).foldl
        (fun l f => dropText l (textIn f.content 32)) o.roles
      status := remStatuses o.status (statusValues rem.content (lit "org:status")) }

/-- The `<chg>` of `org:update`. -/
def Org.updateChg (o : Org) (q : Bytes) : Org :=
  match child q (lit "chg") with
  | none => o
  | some chg => { o with
      parentid := o.parentid.overwrite chg.content (lit "org:parentId")
      email := o.email.overwrite chg.content (lit "org:email")
      voice := o.voice.overwrite chg.content (lit "org:voice") }

/-- `epp_org_update`. -/
def eppOrgUpdate : E Answer :=
  withName q (lit "org:id") 64 fun id =>
    withSponsored sess Org.ofBlob Org.clid (orgKey id) fun o =>
      unlessStatus o.status "clientUpdateProhibited" <|
        storeThen (orgKey id) (((o.updateAdd q).updateRem q).updateChg q).encode (completed [])

/-- `epp_org_delete`. -/
def eppOrgDelete : E Answer :=
  withName q (lit "org:id") 64 fun id =>
    withSponsored sess Org.ofBlob Org.clid (orgKey id) fun o =>
      unlessStatus o.status "clientDeleteProhibited" do
        let _ ← E.del (orgKey id)
        completed []

end SimpleDns.Epp
