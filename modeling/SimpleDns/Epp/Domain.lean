import SimpleDns.Epp.Handlers

/-!
# Domain commands (`eppd.c:1737-1809`, `2173-2566`, `3043-3401`)

`domain:check`, `create`, `info`, `update`, `delete` and `renew`, with the name server and DS parts
of their requests. Each handler gets the content of `<command>`, where the extensions are, and that
of its `<domain:op>` element.

* `eppDomainParseNs` stores the hosts of `hostAttr` elements on the way, before the command is
  accepted and without a look at their sponsor.
* An update collects whether NS or DS changed (`Edit`) and publishes exactly then.
-/

namespace SimpleDns.Epp

open Wire Lib Server

/-! ## Extensions and fees -/

/-- `epp_find_secdns_block`. -/
def extensionBlock (cmd : Bytes) (tag : Text) : Option Found :=
  (child cmd (lit "extension")).bind fun e => child e.content tag

/-- A configured text, or its default where it is missing or empty. -/
def configText (key : Text) (cap : Nat) (defval : String) : E Text := do
  let v ← E.get key cap
  match v with
  | some v => pure (if v.isEmpty then lit defval else v)
  | none => pure (lit defval)

/-- `epp_fee_currency` into `char[8]`. -/
def eppFeeCurrency : E Text := configText (lit "config:eppd_fee_currency") 8 "USD"

/-- `epp_fee_amount` into `char[16]`. -/
def eppFeeAmount (command : Text) : E Text :=
  configText (lit "config:eppd_fee_" ++ command) 16 "0.00"

/-- `<fee:currency>` and `<fee:fee>`. -/
def feeElements (currency fee : Text) : Text :=
  element (lit "fee:currency") currency ++ element (lit "fee:fee") fee

/-- `<tag xmlns:fee="..">`. -/
def feeOpen (tag : Text) : Text :=
  [60] ++ tag ++ lit " xmlns:fee=\"urn:ietf:params:xml:ns:fee-0.11\">"

/-- `epp_fee_response_extension` into `char[400]`. -/
def eppFeeResponseExtension (command wraptag : Text) : E Text := do
  let currency ← eppFeeCurrency
  let fee ← eppFeeAmount command
  pure (safeStrcpy (element (lit "extension") (feeOpen wraptag ++ feeElements currency fee ++
    [60, 47] ++ wraptag ++ [62])) 400)

/-- The data of a command, with the fee if the request asked for it. -/
def withFee (cmd : Bytes) (feeTag command wraptag : String) (cap : Nat) (data : Text) : E Text :=
  if (extensionBlock cmd (lit feeTag)).isSome then do
    let ext ← eppFeeResponseExtension (lit command) (lit wraptag)
    pure (safeStrcpy (data ++ ext) cap)
  else pure (safeStrcpy data cap)

/-! ## Check and info -/

/-- `epp_domain_check`. -/
def eppDomainCheck (cmd q : Bytes) : E Answer :=
  withName q (lit "domain:name") 256 fun t => do
    let name := strlower t
    let blob ← E.get (domainKey name) 16
    let data := safeStrcpy (chkData "domain" "name" blob.isSome name) 600
    match extensionBlock cmd (lit "fee:check") with
    | none => completed data
    | some fc => do
      let attr := match child fc.content (lit "fee:command") with
        | some c => attrExtract c.openTag (lit "name") 32
        | none => []
      let command := if attr.isEmpty then lit "create" else attr
      let period := match child fc.content (lit "fee:period") with
        | some p => textOver (lit "1") p.content 16
        | none => lit "1"
      let currency ← eppFeeCurrency
      let fee ← eppFeeAmount command
      completed (safeStrcpy (data ++ element (lit "extension") (feeOpen (lit "fee:chkData") ++
        element (lit "fee:cd") (element (lit "fee:objID") name ++
          element (lit "fee:class") (lit "standard") ++
          lit "<fee:command name=\"" ++ command ++ lit "\"><fee:period unit=\"y\">" ++ period ++
          lit "</fee:period>" ++ feeElements currency fee ++ lit "</fee:command>") ++
        lit "</fee:chkData>")) 1300)

/-- `epp_domain_status_has`. -/
def Domain.statusHas (d : Domain) (flag : String) : Bool :=
  d.status.list.any fun s => s.text == lit flag

/-- `strcmp(d.transfer_status, "pending") == 0`. -/
def Domain.pending (d : Domain) : Bool := d.transferStatus.text == lit "pending"

/-- `epp_domain_compute_status` into `char[600]`. -/
def Domain.computeStatus (d : Domain) : Text :=
  let values := (if d.rgpState = .redemption then [lit "pendingDelete"] else []) ++
    (if d.pending then [lit "pendingTransfer"] else []) ++ d.status.list.map CString.text
  printLoop 600 ((if values.isEmpty then [lit "ok"] else values).map statusElement) []

/-- `epp_rgp_status_str`. -/
def RgpState.statusStr : RgpState → Option Text
  | add => some (lit "addPeriod")
  | autorenew => some (lit "autoRenewPeriod")
  | transfer => some (lit "transferPeriod")
  | redemption => some (lit "redemptionPeriod")
  | _ => Option.none

/-- `<secDNS:dsData>`. -/
def Ds.element (d : Ds) : Text :=
  Epp.element (lit "secDNS:dsData")
    (Epp.element (lit "secDNS:keyTag") (decimal d.keytag.toNat) ++
      Epp.element (lit "secDNS:alg") (decimal d.alg.toNat) ++
      Epp.element (lit "secDNS:digestType") (decimal d.digtype.toNat) ++
      Epp.element (lit "secDNS:digest") (hexEnc d.digest))

/-- What the loop over the DS entries adds to `extoff`: whole entries, until the offset is at the
end of the array or behind it. -/
def dsOffset (cap : Nat) : List Ds → Nat → Nat
  | [], off => off
  | d :: ds, off => if off < cap - 1 then dsOffset cap ds (off + d.element.length) else off

/-- `extxml` of `domain:info`, in `char[3000]`. Behind the DS entries the close tag is printed with
the size `3000 - extoff` as a `size_t`: `none` where the offset is over 3000 and the size wraps. -/
def Domain.extensionXml (d : Domain) : Option Text :=
  let start := lit "<secDNS:infData xmlns:secDNS=\"urn:ietf:params:xml:ns:secDNS-1.1\">"
  let stop := lit "</secDNS:infData>"
  let rgp := match d.rgpState.statusStr with
    | some s => [lit "<rgp:infData xmlns:rgp=\"urn:ietf:params:xml:ns:rgp-1.0\">" ++
        lit "<rgp:rgpStatus s=\"" ++ s ++ lit "\"/></rgp:infData>"]
    | none => []
  if d.ds.list = [] then some (printLoop 3000 rgp [])
  else if 3000 < dsOffset 3000 d.ds.list start.length then none
  else some (printLoop 3000 ([start] ++ d.ds.list.map Ds.element ++ [stop] ++ rgp) [])

variable (sess : Session)

/-- `epp_domain_info`. -/
def eppDomainInfo (q : Bytes) : E Answer :=
  withName q (lit "domain:name") 256 fun t =>
    let name := strlower t
    withObject Domain.ofBlob (domainKey name) fun d =>
      match d.extensionXml with
      | none => pure .overrun
      | some ext => completed (safeStrcpy (dataElement "infData" "domain"
          (element (lit "name") name ++ element (lit "roid") d.roid.text ++ d.computeStatus ++
            elementIf (lit "registrant") d.registrant.text ++
            element (lit "ns") (printLoop 3000
              (d.ns.list.map fun n => element (lit "hostObj") n.text) []) ++
            element (lit "clID") d.clid.text ++ element (lit "crDate") (eppIsoDate d.crdate) ++
            element (lit "exDate") (eppIsoDate d.exdate) ++
            authElement sess d.clid d.authinfo) ++
          (if ext.isEmpty then [] else safeStrcpy (element (lit "extension") ext) 3100)) 8000)

/-! ## Name servers and DS entries of a request -/

/-- The host of a `hostAttr` element: the stored one with more addresses, or a new one. A stored
host that does not decode keeps what was decoded, and a new one has no sponsor. -/
def storeHostAttr (attr : Bytes) (hn : Text) : E Unit := do
  let blob ← E.get (hostKey hn) vkcBuf
  let addrs := children attr (lit "domain:hostAddr")
  match blob with
  | some blob =>
    match ((Host.ofItems (blobItems 4096 blob).1).addAddrs addrs).encode with
    | none => pure ()
    | some raw => do
      let _ ← E.set (hostKey hn) (hexEnc raw)
      pure ()
  | none => do
    let roid ← eppGenRoid "EPPD-H"
    let now ← now32
    match { Host.zero.addAddrs addrs with roid := roid, crdate := now }.encode with
    | none => pure ()
    | some raw => do
      let _ ← E.set (hostKey hn) (hexEnc raw)
      pure ()

/-- The loop of `epp_domain_parse_ns`; `none` for a `hostObj` that does not exist. A `hostObj` is
looked for first, so the loop passes over each `hostAttr` that stands before one. -/
def parseNsLoop : Nat → Bytes → Slots (CString 256) → E (Option (Slots (CString 256)))
  | 0, _, ns => pure (some ns)
  | fuel + 1, range, ns =>
    if ns.list.length < eppMaxArr then
      match child range (lit "domain:hostObj") with
      | some obj => do
        let hn := strlower (textIn obj.content 256)
        let blob ← E.get (hostKey hn) 16
        if blob.isSome then parseNsLoop fuel obj.rest (ns.push (.copy hn)) else pure none
      | none =>
        match child range (lit "domain:hostAttr") with
        | some attr => do
          let hn := strlower (optionalText attr.content (lit "domain:hostName") 256)
          if hn.isEmpty then parseNsLoop fuel attr.rest ns
          else do
            storeHostAttr attr.content hn
            parseNsLoop fuel attr.rest (ns.push (.copy hn))
        | none => pure (some ns)
    else pure (some ns)

/-- `epp_domain_parse_ns`. -/
def eppDomainParseNs (q : Bytes) : E (Option (Slots (CString 256))) :=
  match child q (lit "domain:ns") with
  | none => pure (some default)
  | some sec => parseNsLoop (sec.content.length + 1) sec.content default

/-- A number of the request, cut to the field's type. -/
def fieldNumber (width : Nat) (t : Text) : Nat := (atoiInt t % (2 ^ width : Nat)).toNat

/-- One `secDNS:dsData` element; `none` for one that is skipped. -/
def parseDs (e : Bytes) : Option Ds := do
  let field (tag : String) (cap : Nat) : Option Text :=
    (child e (lit tag)).bind fun f => textOf f.content cap
  let keytag ← field "secDNS:keyTag" 16
  let alg ← field "secDNS:alg" 16
  let digtype ← field "secDNS:digestType" 16
  let digest ← field "secDNS:digest" 257
  if hexDec eppDsMaxDigest digest = [] then none
  else some ⟨UInt16.ofNat (fieldNumber 16 keytag), UInt8.ofNat (fieldNumber 8 alg),
    UInt8.ofNat (fieldNumber 8 digtype), hexDec eppDsMaxDigest digest, length_hexDec_le _ _⟩

/-- `epp_parse_ds_block`: entries behind the sixteenth are not looked at. -/
def eppParseDsBlock (range : Bytes) : Slots Ds :=
  ((children range (lit "secDNS:dsData")).filterMap fun f => parseDs f.content).foldl
    Slots.push default

/-! ## Create -/

/-- `(uint32_t)` of a `long`. -/
def toU32 (n : Int) : UInt32 := UInt32.ofNat (n % (2 ^ 32 : Nat)).toNat

/-- `365u * 24u * 3600u`. -/
def yearSecs : UInt32 := 31536000

/-- `EPPD_ADD_GRACE_SECS()`. -/
def eppdAddGraceSecs : E Int := eppCfgSecs (lit "config:eppd_add_grace_secs") (5 * 86400)

/-- `EPPD_REDEMPTION_SECS()`. -/
def eppdRedemptionSecs : E Int := eppCfgSecs (lit "config:eppd_redemption_secs") (30 * 86400)

/-- `epp_domain_create`. -/
def eppDomainCreate (cmd q : Bytes) : E Answer :=
  withName q (lit "domain:name") 256 fun t =>
    let name := strlower t
    unlessExists (domainKey name) do
      let parsed ← eppDomainParseNs q
      match parsed with
      | none => plain 2303 "Object does not exist: hostObj"
      | some ns => do
        let ds := match extensionBlock cmd (lit "secDNS:create") with
          | some b => eppParseDsBlock b.content
          | none => default
        let authinfo ← eppGenAuthinfo
        let roid ← eppGenRoid "EPPD-D"
        let now ← now32
        let grace ← eppdAddGraceSecs
        let d : Domain := {
          roid := roid, clid := sess.clid,
          status := (default : Slots (CString 32)).push (.copy (lit "ok")),
          authinfo := authinfo, crdate := now, exdate := now + yearSecs,
          registrant := .copy (optionalText q (lit "domain:registrant") 64),
          ns := ns, ds := ds, rgpState := .add, rgpUntil := now + toU32 grace,
          transferReid := default, transferRedate := 0, transferStatus := default }
        storeThen (domainKey name) d.encode do
          if ns.list = [] ∧ ds.list = [] then pure () else eppPublishDomain name ns ds
          let extra ← withFee cmd "fee:create" "create" "fee:creData" 1000
            (safeStrcpy (creData "domain" "name" name now
              (element (lit "exDate") (eppIsoDate (now + yearSecs)))) 512)
          completed extra

/-! ## Update -/

/-- A domain being changed, and whether its delegation has to be published again. -/
structure Edit where
  domain : Domain
  changed : Bool

/-- The `hostObj` elements of an `<add>`: hosts that exist and are not listed yet. -/
def addNsLoop : List Found → Edit → E Edit
  | [], e => pure e
  | f :: fs, e =>
    if e.domain.ns.list.length < eppMaxArr then do
      let hn := strlower (textIn f.content 256)
      let blob ← E.get (hostKey hn) 16
      if blob.isSome && !e.domain.ns.list.any fun n => eqCI n.text hn then
        addNsLoop fs ⟨{ e.domain with ns := e.domain.ns.push (.copy hn) }, true⟩
      else addNsLoop fs e
    else pure e

variable (e : Edit) (cmd q : Bytes)

/-- The `<add>` of `domain:update`. -/
def updateAdd (e : Edit) : E Edit :=
  match child q (lit "add") with
  | none => pure e
  | some add => do
    let e ← match child add.content (lit "domain:ns") with
      | some ns => addNsLoop (children ns.content (lit "domain:hostObj")) e
      | none => pure e
    pure { e with domain := { e.domain with
      status := addStatuses e.domain.status (statusValues add.content (lit "domain:status")) } }

/-- One `hostObj` element of a `<rem>`. -/
def Edit.remNs (f : Found) : Edit :=
  let hit (n : CString 256) := eqCI n.text (strlower (textIn f.content 256))
  ⟨{ e.domain with ns := e.domain.ns.removeIf hit }, e.changed || e.domain.ns.list.any hit⟩

/-- The `<rem>` of `domain:update`. -/
def Edit.updateRem : Edit :=
  match child q (lit "rem") with
  | none => e
  | some rem =>
    let e := match child rem.content (lit "domain:ns") with
      | some ns => (children ns.content (lit "domain:hostObj")).foldl Edit.remNs e
      | none => e
    { e with domain := { e.domain with
      status := remStatuses e.domain.status (statusValues rem.content (lit "domain:status")) } }

/-- The `<chg>` of `domain:update`. -/
def updateChg (e : Edit) : E Edit :=
  match child q (lit "chg") with
  | none => pure e
  | some chg => do
    let d := { e.domain with
      registrant := e.domain.registrant.overwrite chg.content (lit "domain:registrant") }
    if (child chg.content (lit "domain:authInfo")).isSome then do
      let authinfo ← eppGenAuthinfo
      pure { e with domain := { d with authinfo := authinfo } }
    else pure { e with domain := d }

/-- One more DS entry. -/
def Edit.addDs (d : Ds) : Edit :=
  if e.domain.ds.list.length < eppMaxArr then
    ⟨{ e.domain with ds := e.domain.ds.push d }, true⟩
  else e

/-- Remove the DS entries with the key tag, algorithm and digest type of one. -/
def Edit.remDs (d : Ds) : Edit :=
  let hit (x : Ds) := x.keytag == d.keytag && x.alg == d.alg && x.digtype == d.digtype
  ⟨{ e.domain with ds := e.domain.ds.removeIf hit }, e.changed || e.domain.ds.list.any hit⟩

/-- The `secDNS:update` extension: `chg` replaces the set, else `add` and `rem` change it. -/
def Edit.updateDs : Edit :=
  match extensionBlock cmd (lit "secDNS:update") with
  | none => e
  | some sec =>
    match child sec.content (lit "secDNS:chg") with
    | some chg => ⟨{ e.domain with ds := eppParseDsBlock chg.content }, true⟩
    | none =>
      let e := match child sec.content (lit "secDNS:add") with
        | some add => (eppParseDsBlock add.content).list.foldl Edit.addDs e
        | none => e
      match child sec.content (lit "secDNS:rem") with
      | some rem => (eppParseDsBlock rem.content).list.foldl Edit.remDs e
      | none => e

/-- `<rgp:restore op="request"/>` in the request. -/
def restoreRequested : Bool :=
  match extensionBlock cmd (lit "rgp:update") with
  | none => false
  | some b =>
    match child b.content (lit "rgp:restore") with
    | some r => attrExtract r.openTag (lit "op") 16 == lit "request"
    | none => false

/-- The `rgp:update` extension: a domain in redemption is restored and published again. -/
def Edit.restore : Edit :=
  if restoreRequested cmd && e.domain.rgpState == .redemption then
    ⟨{ e.domain with rgpState := .none, rgpUntil := 0 }, true⟩
  else e

/-- `epp_domain_update`. -/
def eppDomainUpdate : E Answer :=
  withName q (lit "domain:name") 256 fun t =>
    let name := strlower t
    withSponsored sess Domain.ofBlob Domain.clid (domainKey name) fun d =>
      unlessStatus d.status "clientUpdateProhibited" do
        let e ← updateAdd q ⟨d, false⟩
        let e ← updateChg q (e.updateRem q)
        let e := (e.updateDs cmd).restore cmd
        storeThen (domainKey name) e.domain.encode do
          if e.changed then eppPublishDomain name e.domain.ns e.domain.ds else pure ()
          completed []

/-! ## Delete and renew -/

/-- `in_grace`: a delete now purges the domain. -/
def Domain.inGrace (d : Domain) (now : Nat) : Bool :=
  (d.rgpState == .add || d.rgpState == .autorenew || d.rgpState == .transfer) &&
    now < d.rgpUntil.toNat

/-- `epp_domain_delete`. -/
def eppDomainDelete : E Answer :=
  withName q (lit "domain:name") 256 fun t =>
    let name := strlower t
    withSponsored sess Domain.ofBlob Domain.clid (domainKey name) fun d =>
      unlessStatus d.status "clientDeleteProhibited" <|
        if d.pending then plain 2304 "Object status prohibits operation: transfer pending"
        else do
          let now ← E.time
          if d.inGrace now then do
            eppRetractDomain name
            let _ ← E.del (domainKey name)
            completed []
          else do
            let secs ← eppdRedemptionSecs
            let d := { d with
              rgpState := .redemption, rgpUntil := UInt32.ofNat now + toU32 secs }
            storeThen (domainKey name) d.encode do
              eppRetractDomain name
              plain 1001 "Command completed successfully; action pending"

/-- The years of a renewal. -/
def renewYears : UInt32 :=
  match child q (lit "domain:period") with
  | none => 1
  | some p =>
    let years := match textOf p.content 16 with
      | some t => if t.isEmpty then 1 else toU32 (atoiInt t)
      | none => 1
    if years < 1 then 1 else years

/-- `epp_domain_renew`. -/
def eppDomainRenew : E Answer :=
  withName q (lit "domain:name") 256 fun t =>
    let name := strlower t
    withSponsored sess Domain.ofBlob Domain.clid (domainKey name) fun d =>
      unlessStatus d.status "clientRenewProhibited" <|
        unlessStatus d.status "serverRenewProhibited" <|
          withName q (lit "domain:curExpDate") 32 fun curexp =>
            if curexp.take 10 = (eppIsoDate d.exdate).take 10 then
              let d := { d with
                exdate := d.exdate + renewYears q * yearSecs, rgpState := .none, rgpUntil := 0 }
              storeThen (domainKey name) d.encode do
                let extra ← withFee cmd "fee:renew" "renew" "fee:renData" 800
                  (safeStrcpy (dataElement "renData" "domain" (element (lit "name") name ++
                    element (lit "exDate") (eppIsoDate d.exdate))) 400)
                completed extra
            else plain 2306 "Parameter value policy error: curExpDate does not match"

end SimpleDns.Epp
