import SimpleDns.Server.Auth
import SimpleDns.Server.Update

/-!
# Service registration (`srp_handle_update`, `dns_server.c:7587-8042`)

An SRP update is validated as a whole (`srpValidate`, read-only) and then applied: the host, the
services, the browse entries. One check is left to the second phase: the target name of a service's
SRV is decoded only after the host and the services before it have been written.

* **`srpApply_of_quiet`**, **`srpQuiet_of_unchanged`**: when an application that ends in that check
  leaves the server as it was.
* `SrpValid` is what the validation has checked of a registration it lets through.
-/

namespace SimpleDns.Server

open Wire Lib List Option RRType

/-! ## Buckets -/

/-- `srp_rr_t`, with the rdata as its offset in the packet. -/
structure SrpRR where
  type : Nat
  cls : Nat
  ttl : Nat
  rdoff : Nat
  rdlen : Nat
deriving DecidableEq, Repr

/-- `srp_bucket_t`. -/
structure SrpBucket where
  name : Text
  rrs : List SrpRR
deriving DecidableEq, Repr

/-- `SRP_MAX_BUCKETS`. -/
def srpMaxBuckets : Nat := 16

/-- `SRP_MAX_RRS_PER_BUCKET`. -/
def srpMaxRRsPerBucket : Nat := 16

/-- `SRP_MIN_LEASE`. -/
def srpMinLease : Nat := 2

/-- One record put into the bucket of its owner. -/
def srpBucketAdd (bs : List SrpBucket) (name : Text) (rr : SrpRR) : Option (List SrpBucket) :=
  match bs.findIdx? (fun b => eqCI b.name name) with
  | some i =>
    if (bs.getD i ⟨[], []⟩).rrs.length ≥ srpMaxRRsPerBucket then none
    else some (bs.modify i fun b => { b with rrs := b.rrs ++ [rr] })
  | none =>
    if bs.length ≥ srpMaxBuckets then none else some (bs ++ [⟨safeStrcpy name 256, [rr]⟩])

/-- `srp_parse_buckets`. Its records are bounded as those of the update section are. -/
def srpParseBuckets (pkt : Bytes) : Nat → Nat → List SrpBucket → Option (List SrpBucket)
  | 0, _, bs => some bs
  | n + 1, off, bs =>
    match parseUpdateRR pkt off with
    | none => none
    | some r =>
      match srpBucketAdd bs r.name ⟨r.type, r.cls, r.ttl, r.rdoff, r.rdlen⟩ with
      | none => none
      | some bs' => srpParseBuckets pkt n (r.rdoff + r.rdlen) bs'

/-- What a record is in a bucket. -/
inductive SrpShape
  | deleteAll
  | key
  | srv
  | txt
  | addr
  | ptr
deriving DecidableEq, Repr

/-- The tests of `srp_classify_bucket` on one record, in its order. -/
def srpShape (rr : SrpRR) : Option SrpShape :=
  if rr.cls = RRClass.ANY ∧ rr.type = ANY ∧ rr.rdlen = 0 then some .deleteAll
  else if rr.cls = RRClass.IN ∧ rr.type = KEY then some .key
  else if rr.cls = RRClass.IN ∧ rr.type = SRV then some .srv
  else if rr.cls = RRClass.IN ∧ rr.type = TXT then some .txt
  else if rr.cls = RRClass.IN ∧ (rr.type = RRType.A ∨ rr.type = AAAA) then some .addr
  else if (rr.cls = RRClass.IN ∨ rr.cls = RRClass.NONE) ∧ rr.type = PTR then some .ptr
  else none

/-- `srp_kind_t`. -/
inductive SrpKind
  | host
  | service
  | discovery
  | unknown
deriving DecidableEq, Repr

/-- The bucket has a record of the shape. -/
def SrpBucket.has (b : SrpBucket) (shape : SrpShape) : Bool :=
  b.rrs.any fun rr => srpShape rr == some shape

/-- `srp_classify_bucket`. -/
def srpClassifyBucket (b : SrpBucket) : SrpKind :=
  if b.rrs.any fun rr => srpShape rr == none then .unknown
  else if b.has .ptr && !b.has .key && !b.has .srv && !b.has .txt && !b.has .addr then .discovery
  else if b.has .srv && !b.has .ptr && b.has .deleteAll then .service
  else if b.has .key && !b.has .srv && !b.has .ptr && b.has .deleteAll then .host
  else .unknown

/-- `srp_bucket_find`. -/
def srpBucketFind (b : SrpBucket) (type cls : Nat) : Option SrpRR :=
  b.rrs.find? fun rr => rr.type == type && rr.cls == cls

/-! ## Validation -/

/-- The buckets by kind. -/
structure SrpSorted where
  host : Option SrpBucket
  services : List SrpBucket
  discovery : List SrpBucket
deriving DecidableEq, Repr

/-- The loop that sorts the buckets; a second host or an unknown shape fails. -/
def srpSort : List SrpBucket → SrpSorted → Option SrpSorted
  | [], s => some s
  | b :: bs, s =>
    match srpClassifyBucket b with
    | .host => if s.host.isSome then none else srpSort bs { s with host := some b }
    | .service => srpSort bs { s with services := s.services ++ [b] }
    | .discovery => srpSort bs { s with discovery := s.discovery ++ [b] }
    | .unknown => none

/-- The KEY rdata of a record. -/
def srpKey (pkt : Bytes) (rr : SrpRR) : KeyMaterial :=
  ⟨get16 pkt rr.rdoff, (byteAt pkt (rr.rdoff + 2)).toNat, (byteAt pkt (rr.rdoff + 3)).toNat,
    slice pkt (rr.rdoff + 4) (rr.rdlen - 4)⟩

/-- `srp_owner_matches`. -/
def srpOwnerMatches (stored : Text) (key : KeyMaterial) : Bool :=
  match keyFields (safeStrcpy stored 512) with
  | none => false
  | some (flags, proto, alg, hex) =>
    flags == key.flags && proto == key.proto && alg == key.alg && hexDec 256 hex == key.pub

/-- `srp_owner_write`. -/
def srpOwnerWrite (key : KeyMaterial) : Text :=
  safeStrcpy (decimal key.flags.toNat ++ [124] ++ decimal key.proto.toNat ++ [124] ++
    decimal key.alg.toNat ++ [124] ++ hexEnc key.pub) 600

/-- The name is owned by another key. -/
def srpOwnedByOther (st : State) (tz : TZone) (name : Text) (key : KeyMaterial) : Bool :=
  match vkGet st.store (skey (st.keyZone tz) (lit "OWNER") name) 512 with
  | some v => !srpOwnerMatches v key
  | none => false

/-- The service carries a KEY that is not the host's. -/
def srpKeyDiffers (pkt : Bytes) (key : KeyMaterial) (svc : SrpBucket) : Bool :=
  match srpBucketFind svc KEY RRClass.IN with
  | some rr => rr.rdlen < 4 || srpKey pkt rr != key
  | none => false

/-- The checks on the services: their KEY, then their owner. -/
def srpCheckServices (st : State) (tz : TZone) (pkt : Bytes) (key : KeyMaterial) :
    List SrpBucket → Rcode
  | [] => .noerror
  | svc :: rest =>
    if srpKeyDiffers pkt key svc then .formerr
    else if srpOwnedByOther st tz svc.name key then .yxdomain
    else srpCheckServices st tz pkt key rest

/-- A validated registration. -/
structure SrpRequest where
  host : SrpBucket
  services : List SrpBucket
  discovery : List SrpBucket
  key : KeyMaterial
deriving DecidableEq, Repr

/-- The SRV of the service is shorter than its fixed fields and a name. -/
def srpSrvShort (svc : SrpBucket) : Bool :=
  match srpBucketFind svc SRV RRClass.IN with
  | some rr => rr.rdlen < 7
  | none => false

/-- The read-only phase of `srp_handle_update`, up to "Validation complete". -/
def srpValidate (C : Crypto) (now : Nat) (st : State) (tz : TZone) (pkt : Bytes) (off : Nat) :
    Except Rcode SrpRequest :=
  if st.zone tz = none then .error .notzone
  else if ancount pkt ≠ 0 then .error .refused
  else
    match sig0Find pkt with
    | none => .error .refused
    | some (sigOff, sig) =>
      match (srpParseBuckets pkt (nscount pkt) off []).bind fun bs => srpSort bs ⟨none, [], []⟩ with
      | none => .error .formerr
      | some sorted =>
        match sorted.host with
        | none => .error .formerr
        | some host =>
          match srpBucketFind host KEY RRClass.IN with
          | none => .error .formerr
          | some hkey =>
            let key := srpKey pkt hkey
            if hkey.rdlen < 4 then .error .formerr
            else if key.flags ≠ 0 then .error .formerr
            else if sorted.services.any srpSrvShort then .error .formerr
            else if !sig0VerifyWithKey C now pkt sigOff sig key then .error .notauth
            else if srpOwnedByOther st tz host.name key then .error .yxdomain
            else
              match srpCheckServices st tz pkt key sorted.services with
              | .noerror => .ok ⟨host, sorted.services, sorted.discovery, key⟩
              | e => .error e

/-- The update section, in buckets by kind. -/
def srpSections (pkt : Bytes) (off : Nat) : Option SrpSorted :=
  (srpParseBuckets pkt (nscount pkt) off []).bind fun bs => srpSort bs ⟨none, [], []⟩

/-- What the validation has checked of a registration it lets through. -/
structure SrpValid (C : Crypto) (now : Nat) (st : State) (tz : TZone) (pkt : Bytes) (off : Nat)
    (req : SrpRequest) : Prop where
  zone : st.zone tz ≠ none
  sections : srpSections pkt off = some ⟨some req.host, req.services, req.discovery⟩
  key : (srpBucketFind req.host KEY RRClass.IN).map (srpKey pkt) = some req.key
  signed : ∃ sigOff sig, sig0Find pkt = some (sigOff, sig) ∧
    sig0VerifyWithKey C now pkt sigOff sig req.key = true
  hostOwner : srpOwnedByOther st tz req.host.name req.key = false
  services : srpCheckServices st tz pkt req.key req.services = .noerror

variable {st : State} {tz : TZone} {pkt : Bytes} {req : SrpRequest}

theorem srpValid_of_srpValidate {C : Crypto} {now : Nat} {off : Nat}
    (h : srpValidate C now st tz pkt off = .ok req) : SrpValid C now st tz pkt off req := by
  unfold srpValidate at h
  split at h
  · cases h
  rename_i hzone
  split at h
  · cases h
  split at h
  · cases h
  rename_i sigOff sig hsig
  split at h
  · cases h
  rename_i sorted hsorted
  split at h
  · cases h
  rename_i host hhost
  split at h
  · cases h
  rename_i hkey hfind
  dsimp only at h
  split_ifs at h with _ _ _ hverify howner
  split at h
  · rename_i hservices
    cases h
    obtain ⟨_, services, discovery⟩ := sorted
    cases hhost
    exact ⟨hzone, hsorted, by rw [hfind]; rfl, ⟨sigOff, sig, hsig, by simpa using hverify⟩,
      by simpa using howner, hservices⟩
  · cases h

/-- No service of a validated registration is owned by another key. -/
theorem not_ownedByOther_of_srpCheckServices {key : KeyMaterial} {svcs : List SrpBucket}
    (h : srpCheckServices st tz pkt key svcs = .noerror) :
    ∀ svc ∈ svcs, srpOwnedByOther st tz svc.name key = false := by
  induction svcs with
  | nil => simp
  | cons svc svcs ih =>
    unfold srpCheckServices at h
    split_ifs at h with _ howner
    intro s hs
    obtain rfl | hs := mem_cons.mp hs
    · simpa using howner
    · exact ih h s hs

/-! ## Application -/

variable (S : Settings)

/-- The granted lease and key lease. -/
def srpLease (ul : UpdateLease) : Nat × Nat :=
  let lease := min (max ul.lease srpMinLease) S.srpMaxLease
  (lease, min (max (ul.keyLease.getD ul.lease) lease) S.srpMaxKeyLease)

/-- A stored record is deleted and journaled, if there is one. -/
def srpDrop (st : State) (tz : TZone) (type name : Text) : State :=
  let key := skey (st.keyZone tz) type name
  match vkGet st.store key 512 with
  | some v => journaled S (st.keyZone tz) (st.serial tz) opDel name v (txnDelAndBump S st tz [key])
  | none => st

/-- A record is stored and journaled. -/
def srpPut (st : State) (tz : TZone) (type name val : Text) (lease : Nat) : State :=
  journaled S (st.keyZone tz) (st.serial tz) opAdd name val
    (txnSetAndBump S st tz (skey (st.keyZone tz) type name) val lease)

/-- The addresses of one type in the host bucket. -/
def srpAddresses (pkt : Bytes) (host : SrpBucket) (type len : Nat) (ntop : Bytes → Text) :
    List Text :=
  (host.rrs.filter fun rr => rr.cls == RRClass.IN && rr.type == type && rr.rdlen == len).map
    fun rr => ntop (slice pkt rr.rdoff len)

/-- The stored value `lease|ip|ip..`, as far as `a_ips[512]` has it. The C code goes on to write
behind the buffer, which is not modelled. -/
def srpAddressValue (lease : Nat) (ips : List Text) : Text :=
  safeStrcpy (decimal lease ++ ips.flatMap fun ip => 124 :: ip) 512

/-- The addresses of one type are stored, if there are any. -/
def srpPutAddresses (st : State) (tz : TZone) (type name : Text) (lease : Nat) (ips : List Text) :
    State :=
  if ips = [] then st else srpPut S st tz type name (srpAddressValue lease ips) lease

/-- The `A` and `AAAA` addresses of the host bucket. -/
def srpHostA (pkt : Bytes) (host : SrpBucket) : List Text :=
  srpAddresses pkt host RRType.A 4 inetNtop4
def srpHostAAAA (pkt : Bytes) (host : SrpBucket) : List Text :=
  srpAddresses pkt host AAAA 16 inetNtop6

/-- The host's addresses, replaced. -/
def srpHostAddresses (st : State) (tz : TZone) (pkt : Bytes) (lease : Nat) (host : SrpBucket) :
    State :=
  let st1 := srpDrop S st tz (lit "A") host.name
  let st2 := srpDrop S st1 tz (lit "AAAA") host.name
  let st3 := srpPutAddresses S st2 tz (lit "A") host.name lease (srpHostA pkt host)
  srpPutAddresses S st3 tz (lit "AAAA") host.name lease (srpHostAAAA pkt host)

/-- The owner record of a name. -/
def srpSetOwner (st : State) (tz : TZone) (name owner : Text) (keyLease : Nat) : State :=
  { st with store := vkSet st.store (skey (st.keyZone tz) (lit "OWNER") name) owner keyLease }

/-- The host part. -/
def srpApplyHost (st : State) (tz : TZone) (pkt : Bytes) (lease keyLease : Nat) (owner : Text)
    (host : SrpBucket) : State :=
  srpSetOwner (srpHostAddresses S st tz pkt lease host) tz host.name owner keyLease

/-- The target name of the service's SRV. -/
def srpTarget (pkt : Bytes) (srv : SrpRR) : Option Text :=
  (nameFromWire pkt (srv.rdoff + 6) 256).map (·.1)

/-- A service's stored SRV and TXT are dropped before it is looked at. -/
def srpClearService (st : State) (tz : TZone) (name : Text) : State :=
  let st1 := srpDrop S st tz (lit "SRV") name
  { st1 with store := vkDel st1.store (skey (st1.keyZone tz) (lit "TXT") name) }

/-- The SRV value `lease|prio|weight|port|target`. -/
def srpSrvValue (pkt : Bytes) (srv : SrpRR) (lease : Nat) (target : Text) : Text :=
  safeStrcpy ([lease, get16 pkt srv.rdoff, get16 pkt (srv.rdoff + 2),
    get16 pkt (srv.rdoff + 4)].flatMap (fun n => decimal n ++ [124]) ++ target) 600

/-- The TXT of a service, verbatim in hexadecimal, if it is not too long. -/
def srpPutTxt (st : State) (tz : TZone) (pkt : Bytes) (lease : Nat) (svc : SrpBucket) : State :=
  match srpBucketFind svc TXT RRClass.IN with
  | some txt =>
    let val := decimal lease ++ [124] ++ hexEnc (slice pkt txt.rdoff txt.rdlen)
    if txt.rdlen ≤ 400 then
      { st with store := vkSet st.store (skey (st.keyZone tz) (lit "TXT") svc.name) val lease }
    else st
  | none => st

/-- One service. A target that does not decode ends the whole update with `formerr`. -/
def srpApplyService (tz : TZone) (pkt : Bytes) (lease keyLease : Nat) (owner : Text) (st : State)
    (svc : SrpBucket) : Rcode × State :=
  let st1 := srpClearService S st tz svc.name
  match srpBucketFind svc SRV RRClass.IN with
  | none =>
    (.noerror,
      { st1 with store := vkDel st1.store (skey (st1.keyZone tz) (lit "OWNER") svc.name) })
  | some srv =>
    match srpTarget pkt srv with
    | none => (.formerr, st1)
    | some target =>
      let st2 := srpPut S st1 tz (lit "SRV") svc.name (srpSrvValue pkt srv lease target) lease
      (.noerror, srpSetOwner (srpPutTxt st2 tz pkt lease svc) tz svc.name owner keyLease)

/-- The services in order. -/
def srpApplyServices (S : Settings) (tz : TZone) (pkt : Bytes) (lease keyLease : Nat)
    (owner : Text) : List SrpBucket → State → Rcode × State
  | [], st => (.noerror, st)
  | svc :: rest, st =>
    let r := srpApplyService S tz pkt lease keyLease owner st svc
    if r.1 = .noerror then srpApplyServices S tz pkt lease keyLease owner rest r.2 else r

/-- One browse entry; the target is part of the key. -/
def srpApplyPtr (tz : TZone) (pkt : Bytes) (lease : Nat) (browse : Text) (st : State) (rr : SrpRR) :
    State :=
  match nameFromWire pkt rr.rdoff 256 with
  | none => st
  | some (target, _) =>
    let key := skey (st.keyZone tz) (lit "PTR") (browse ++ [colon] ++ target)
    if rr.cls = RRClass.IN then
      journaled S (st.keyZone tz) (st.serial tz) opAdd browse target
        (txnSetAndBump S st tz key (lit "1") lease)
    else if rr.cls = RRClass.NONE then
      journaled S (st.keyZone tz) (st.serial tz) opDel browse target
        (txnDelAndBump S st tz [key])
    else st

/-- The browse entries of all discovery buckets. -/
def srpApplyDiscovery (tz : TZone) (pkt : Bytes) (lease : Nat) (discovery : List SrpBucket)
    (st : State) : State :=
  discovery.foldl (fun st d => d.rrs.foldl (srpApplyPtr S tz pkt lease d.name) st) st

/-- The write phase of `srp_handle_update`. -/
def srpApply (st : State) (tz : TZone) (pkt : Bytes) (ul : UpdateLease) (req : SrpRequest) :
    Rcode × State :=
  let (lease, keyLease) := srpLease S ul
  let owner := srpOwnerWrite req.key
  let r := srpApplyServices S tz pkt lease keyLease owner req.services
    (srpApplyHost S st tz pkt lease keyLease owner req.host)
  if r.1 = .noerror then (.noerror, srpApplyDiscovery S tz pkt lease req.discovery r.2) else r

/-- `srp_handle_update`. -/
def srpHandleUpdate (C : Crypto) (now : Nat) (st : State) (tz : TZone) (pkt : Bytes)
    (ul : UpdateLease) (off : Nat) : Rcode × State :=
  match srpValidate C now st tz pkt off with
  | .error e => (e, st)
  | .ok req => srpApply S st tz pkt ul req

/-! ## What an application that fails leaves -/

variable {S : Settings} {type name : Text}

theorem srpDrop_of_absent (h : st.store (skey (st.keyZone tz) type name) = none) :
    srpDrop S st tz type name = st := by
  simp [srpDrop, vkGet, h]

theorem bumped_srpDrop (h : st.store (skey (st.keyZone tz) type name) ≠ none) :
    Bumped st (srpDrop S st tz type name) := by
  obtain ⟨c, hc⟩ := Option.ne_none_iff_exists'.mp h
  simp only [srpDrop, vkGet, hc, map_some]
  exact (bumped_txnDelAndBump ..).trans_grows (grows_journaled ..)

theorem grows_srpDrop (S : Settings) (st : State) (tz : TZone) (type name : Text) :
    Grows st (srpDrop S st tz type name) := by
  by_cases h : st.store (skey (st.keyZone tz) type name) = none
  · rw [srpDrop_of_absent h]
    exact Grows.refl _
  · exact (bumped_srpDrop h).toGrows

theorem bumped_srpPut (S : Settings) (st : State) (tz : TZone) (type name val : Text)
    (lease : Nat) : Bumped st (srpPut S st tz type name val lease) :=
  (bumped_txnSetAndBump ..).trans_grows (grows_journaled ..)

theorem grows_srpPutAddresses (S : Settings) (st : State) (tz : TZone) (type name : Text)
    (lease : Nat) (ips : List Text) : Grows st (srpPutAddresses S st tz type name lease ips) := by
  unfold srpPutAddresses
  split
  · exact Grows.refl _
  · exact (bumped_srpPut ..).toGrows

variable {lease : Nat}

theorem bumped_srpPutAddresses {ips : List Text} (h : ips ≠ []) :
    Bumped st (srpPutAddresses S st tz type name lease ips) := by
  rw [srpPutAddresses, if_neg h]
  exact bumped_srpPut ..

theorem grows_srpSetOwner (st : State) (tz : TZone) (name owner : Text) (keyLease : Nat) :
    Grows st (srpSetOwner st tz name owner keyLease) :=
  Grows.of_counter_eq rfl

/-- The host has no address, neither stored nor in its bucket. -/
structure SrpNoAddress (st : State) (tz : TZone) (pkt : Bytes) (host : SrpBucket) : Prop where
  storedA : st.store (skey (st.keyZone tz) (lit "A") host.name) = none
  storedAAAA : st.store (skey (st.keyZone tz) (lit "AAAA") host.name) = none
  sentA : srpHostA pkt host = []
  sentAAAA : srpHostAAAA pkt host = []

theorem srpHostAddresses_of_noAddress {host : SrpBucket} (h : SrpNoAddress st tz pkt host) :
    srpHostAddresses S st tz pkt lease host = st := by
  simp only [srpHostAddresses, srpDrop_of_absent h.storedA, srpDrop_of_absent h.storedAAAA,
    srpPutAddresses, h.sentA, h.sentAAAA, if_true]

theorem bumped_srpHostAddresses {host : SrpBucket} (h : ¬SrpNoAddress st tz pkt host) :
    Bumped st (srpHostAddresses S st tz pkt lease host) := by
  unfold srpHostAddresses
  dsimp only
  by_cases hA : st.store (skey (st.keyZone tz) (lit "A") host.name) = none
  · rw [srpDrop_of_absent hA]
    by_cases hAAAA : st.store (skey (st.keyZone tz) (lit "AAAA") host.name) = none
    · rw [srpDrop_of_absent hAAAA]
      by_cases hsent : srpHostA pkt host = []
      · refine (grows_srpPutAddresses ..).trans_bumped (bumped_srpPutAddresses fun hsent' => ?_)
        exact h ⟨hA, hAAAA, hsent, hsent'⟩
      · exact (bumped_srpPutAddresses hsent).trans_grows (grows_srpPutAddresses ..)
    · exact ((bumped_srpDrop hAAAA).trans_grows (grows_srpPutAddresses ..)).trans_grows
        (grows_srpPutAddresses ..)
  · exact (((bumped_srpDrop hA).trans_grows (grows_srpDrop ..)).trans_grows
      (grows_srpPutAddresses ..)).trans_grows (grows_srpPutAddresses ..)

theorem grows_srpClearService (S : Settings) (st : State) (tz : TZone) (name : Text) :
    Grows st (srpClearService S st tz name) :=
  (grows_srpDrop S st tz (lit "SRV") name).trans (Grows.of_counter_eq rfl)

theorem grows_srpPutTxt (st : State) (tz : TZone) (pkt : Bytes) (lease : Nat) (svc : SrpBucket) :
    Grows st (srpPutTxt st tz pkt lease svc) := by
  unfold srpPutTxt
  split
  · dsimp only
    split
    · exact Grows.of_counter_eq rfl
    · exact Grows.refl _
  · exact Grows.refl _

/-- The service has an SRV whose target name does not decode. -/
def srpTargetFails (pkt : Bytes) (svc : SrpBucket) : Bool :=
  match srpBucketFind svc SRV RRClass.IN with
  | some srv => (srpTarget pkt srv).isNone
  | none => false

/-- The bucket has an SRV to add; every bucket sorted as a service has one. -/
def SrpBucket.hasSrv (b : SrpBucket) : Prop := (srpBucketFind b SRV RRClass.IN).isSome

theorem hasSrv_of_classify {b : SrpBucket} (h : srpClassifyBucket b = .service) : b.hasSrv := by
  unfold srpClassifyBucket at h
  split_ifs at h with _ _ hservice
  simp only [Bool.and_eq_true] at hservice
  obtain ⟨rr, hrr, hshape⟩ := any_eq_true.mp hservice.1.1
  refine find?_isSome.mpr ⟨rr, hrr, ?_⟩
  unfold srpShape at hshape
  split_ifs at hshape <;> simp_all

theorem hasSrv_of_sort {bs : List SrpBucket} {s t : SrpSorted} (h : srpSort bs s = some t)
    (hs : ∀ b ∈ s.services, b.hasSrv) : ∀ b ∈ t.services, b.hasSrv := by
  induction bs generalizing s with
  | nil =>
    cases h
    exact hs
  | cons b bs ih =>
    simp only [srpSort] at h
    split at h
    · split at h
      · cases h
      · exact ih h hs
    · rename_i hk
      refine ih h fun b' hb' => ?_
      obtain hb' | hb' := mem_append.mp hb'
      · exact hs b' hb'
      · rw [mem_singleton.mp hb']
        exact hasSrv_of_classify hk
    · exact ih h hs
    · cases h

section Services

variable {S : Settings} {tz : TZone} {pkt : Bytes} {lease keyLease : Nat} {owner : Text}

variable {svc : SrpBucket}

theorem srpApplyService_of_fails (h : srpTargetFails pkt svc = true) :
    srpApplyService S tz pkt lease keyLease owner st svc =
      (.formerr, srpClearService S st tz svc.name) := by
  unfold srpTargetFails at h
  split at h
  · rename_i srv hsrv
    simp only [srpApplyService, hsrv, isNone_iff_eq_none.mp h]
  · cases h

/-- A service that does not fail has its SRV written. -/
theorem srpApplyService_of_not_fails (hsrv : svc.hasSrv) (h : srpTargetFails pkt svc = false) :
    (srpApplyService S tz pkt lease keyLease owner st svc).1 = .noerror ∧
      Bumped st (srpApplyService S tz pkt lease keyLease owner st svc).2 := by
  obtain ⟨srv, hfind⟩ := isSome_iff_exists.mp hsrv
  simp only [srpTargetFails, hfind] at h
  obtain ⟨target, htarget⟩ := isSome_iff_exists.mp
    (isNone_eq_false_iff.mp h)
  simp only [srpApplyService, hfind, htarget, true_and]
  exact ((((grows_srpClearService ..).trans_bumped (bumped_srpPut ..)).trans_grows
    (grows_srpPutTxt ..)).trans_grows (grows_srpSetOwner ..))

theorem srpApplyServices_cons_of_fails {rest : List SrpBucket} (h : srpTargetFails pkt svc = true) :
    srpApplyServices S tz pkt lease keyLease owner (svc :: rest) st =
      (.formerr, srpClearService S st tz svc.name) := by
  simp [srpApplyServices, srpApplyService_of_fails h]

theorem srpApplyServices_cons_of_not_fails {rest : List SrpBucket} (hsrv : svc.hasSrv)
    (h : srpTargetFails pkt svc = false) :
    srpApplyServices S tz pkt lease keyLease owner (svc :: rest) st =
      srpApplyServices S tz pkt lease keyLease owner rest
        (srpApplyService S tz pkt lease keyLease owner st svc).2 := by
  rw [srpApplyServices]
  exact if_pos (srpApplyService_of_not_fails hsrv h).1

theorem srpApplyServices_fst {svcs : List SrpBucket} (hsrv : ∀ svc ∈ svcs, svc.hasSrv)
    (st : State) :
    (srpApplyServices S tz pkt lease keyLease owner svcs st).1 =
      if svcs.any (srpTargetFails pkt) then .formerr else .noerror := by
  induction svcs generalizing st with
  | nil => rfl
  | cons svc rest ih =>
    rw [any_cons]
    cases hf : srpTargetFails pkt svc with
    | true => simp [srpApplyServices_cons_of_fails hf]
    | false =>
      rw [srpApplyServices_cons_of_not_fails (hsrv svc mem_cons_self) hf, Bool.false_or]
      exact ih (fun s hs => hsrv s (mem_cons_of_mem _ hs)) _

theorem grows_srpApplyServices {svcs : List SrpBucket} (hsrv : ∀ svc ∈ svcs, svc.hasSrv)
    (st : State) : Grows st (srpApplyServices S tz pkt lease keyLease owner svcs st).2 := by
  induction svcs generalizing st with
  | nil => exact Grows.refl _
  | cons svc rest ih =>
    cases hf : srpTargetFails pkt svc with
    | true =>
      rw [srpApplyServices_cons_of_fails hf]
      exact grows_srpClearService ..
    | false =>
      have hsvc := hsrv svc mem_cons_self
      rw [srpApplyServices_cons_of_not_fails hsvc hf]
      exact (srpApplyService_of_not_fails hsvc hf).2.toGrows.trans
        (ih (fun s hs => hsrv s (mem_cons_of_mem _ hs)) _)

end Services

/-- The registration writes nothing new before it fails: no address is stored or sent, the host's
owner record is the one it writes, and the first service is the one that fails and has nothing
stored. -/
structure SrpQuiet (S : Settings) (st : State) (tz : TZone) (pkt : Bytes) (ul : UpdateLease)
    (req : SrpRequest) : Prop where
  noAddress : SrpNoAddress st tz pkt req.host
  owner : st.store (skey (st.keyZone tz) (lit "OWNER") req.host.name) =
    some (leaseCell (srpOwnerWrite req.key) (srpLease S ul).2)
  first : ∀ svc ∈ req.services.head?, srpTargetFails pkt svc = true ∧
    st.store (skey (st.keyZone tz) (lit "SRV") svc.name) = none ∧
    st.store (skey (st.keyZone tz) (lit "TXT") svc.name) = none

theorem skey_ne {zone type' name' : Text} (h : type.head? ≠ type'.head?) (ht : type ≠ [])
    (ht' : type' ≠ []) : skey zone type name ≠ skey zone type' name' := by
  obtain ⟨a, as, rfl⟩ := exists_cons_of_ne_nil ht
  obtain ⟨b, bs, rfl⟩ := exists_cons_of_ne_nil ht'
  intro heq
  simp only [skey, recordKey, append_assoc, append_cancel_left_eq, cons_append,
    cons.injEq, true_and] at heq
  exact h (congrArg some heq.1)

/-- The keys of the namespace. -/
def SrpKey (k : Text) : Prop := lit "srp:" <+: k

theorem srpKey_skey (zone type name : Text) : SrpKey (skey zone type name) :=
  ⟨zone ++ [colon] ++ type ++ [colon] ++ name, by simp [skey, recordKey, lit, colon]⟩

/-- No counter and no key of the namespace has changed. -/
structure SrpUnchanged (st st' : State) : Prop where
  counter : st'.counter = st.counter
  store : ∀ k, SrpKey k → st'.store k = st.store k

theorem Bumped.not_srpUnchanged {st' : State} (h : Bumped st st') : ¬SrpUnchanged st st' := by
  intro hsame
  obtain ⟨-, k, hk⟩ := h
  rw [hsame.counter] at hk
  exact lt_irrefl _ hk

/-- The writes up to a first service that fails change nothing only if the owner record is the one
written and the service has nothing stored. -/
theorem stored_of_srpUnchanged {host owner : Text} {keyLease : Nat}
    (h : SrpUnchanged st (srpClearService S (srpSetOwner st tz host owner keyLease) tz name)) :
    st.store (skey (st.keyZone tz) (lit "OWNER") host) = some (leaseCell owner keyLease) ∧
      st.store (skey (st.keyZone tz) (lit "SRV") name) = none ∧
      st.store (skey (st.keyZone tz) (lit "TXT") name) = none := by
  have hsrvKey : skey (st.keyZone tz) (lit "SRV") name ≠ skey (st.keyZone tz) (lit "OWNER") host :=
    skey_ne (by decide) (by decide) (by decide)
  have htxtKey : skey (st.keyZone tz) (lit "OWNER") host ≠ skey (st.keyZone tz) (lit "TXT") name :=
    skey_ne (by decide) (by decide) (by decide)
  have hstored : (srpSetOwner st tz host owner keyLease).store
      (skey (st.keyZone tz) (lit "SRV") name) = st.store (skey (st.keyZone tz) (lit "SRV") name) :=
    vkSet_ne hsrvKey
  have hsrv : st.store (skey (st.keyZone tz) (lit "SRV") name) = none := by
    by_contra hsome
    refine Bumped.not_srpUnchanged ?_ h
    refine (grows_srpSetOwner st tz host owner keyLease).trans_bumped ?_
    exact (bumped_srpDrop (by rwa [← hstored] at hsome)).trans_grows (Grows.of_counter_eq rfl)
  have hstore := h.store
  rw [srpClearService, srpDrop_of_absent (hstored.trans hsrv)] at hstore
  refine ⟨?_, hsrv, ?_⟩
  · rw [← hstore _ (srpKey_skey ..)]
    exact (vkDel_ne htxtKey).trans (vkSet_self ..)
  · rw [← hstore _ (srpKey_skey ..)]
    exact vkDel_self ..

/-- The same writes, where that is so. -/
theorem srpClearService_srpSetOwner_eq_self {host owner : Text} {keyLease : Nat}
    (howner : st.store (skey (st.keyZone tz) (lit "OWNER") host) = some (leaseCell owner keyLease))
    (hsrv : st.store (skey (st.keyZone tz) (lit "SRV") name) = none)
    (htxt : st.store (skey (st.keyZone tz) (lit "TXT") name) = none) :
    srpClearService S (srpSetOwner st tz host owner keyLease) tz name = st := by
  have hset : srpSetOwner st tz host owner keyLease = st := by
    rw [srpSetOwner, vkSet, ← howner, Function.update_eq_self]
  have hdel : vkDel st.store (skey (st.keyZone tz) (lit "TXT") name) = st.store := by
    rw [vkDel, ← htxt, Function.update_eq_self]
  rw [hset, srpClearService, srpDrop_of_absent hsrv, hdel]

variable {ul : UpdateLease}

theorem exists_service_of_fails (h : req.services.any (srpTargetFails pkt) = true) :
    ∃ svc rest, req.services = svc :: rest := by
  cases hs : req.services with
  | nil => simp [hs] at h
  | cons svc rest => exact ⟨svc, rest, rfl⟩

section

variable (hsrv : ∀ svc ∈ req.services, svc.hasSrv)
  (hfail : req.services.any (srpTargetFails pkt) = true)

include hsrv hfail

theorem srpApply_of_fails : srpApply S st tz pkt ul req =
      srpApplyServices S tz pkt (srpLease S ul).1 (srpLease S ul).2 (srpOwnerWrite req.key)
        req.services (srpApplyHost S st tz pkt (srpLease S ul).1 (srpLease S ul).2
          (srpOwnerWrite req.key) req.host) := by
  unfold srpApply
  refine if_neg ?_
  rw [srpApplyServices_fst hsrv, if_pos hfail]
  decide

/-- A registration that fails leaves the server as it was if it wrote nothing new. -/
theorem srpApply_of_quiet (h : SrpQuiet S st tz pkt ul req) :
    (srpApply S st tz pkt ul req).2 = st := by
  obtain ⟨svc, rest, hsvcs⟩ := exists_service_of_fails hfail
  obtain ⟨hf, hsrvNone, htxtNone⟩ := h.first svc (by simp [hsvcs])
  rw [srpApply_of_fails hsrv hfail, hsvcs, srpApplyHost, srpHostAddresses_of_noAddress h.noAddress,
    srpApplyServices_cons_of_fails hf]
  exact srpClearService_srpSetOwner_eq_self h.owner hsrvNone htxtNone

/-- It wrote nothing new if no counter and no key of the namespace has changed. -/
theorem srpQuiet_of_unchanged (h : SrpUnchanged st (srpApply S st tz pkt ul req).2) :
    SrpQuiet S st tz pkt ul req := by
  rw [srpApply_of_fails hsrv hfail] at h
  generalize hl : srpLease S ul = l at h
  obtain ⟨lease, keyLease⟩ := l
  have haddr : SrpNoAddress st tz pkt req.host := by
    by_contra haddr
    refine Bumped.not_srpUnchanged ?_ h
    exact ((bumped_srpHostAddresses haddr).trans_grows (grows_srpSetOwner ..)).trans_grows
      (grows_srpApplyServices hsrv _)
  rw [srpApplyHost, srpHostAddresses_of_noAddress haddr] at h
  obtain ⟨svc, rest, hsvcs⟩ := exists_service_of_fails hfail
  rw [hsvcs] at hsrv h
  have hf : srpTargetFails pkt svc = true := by
    by_contra hf
    rw [Bool.not_eq_true] at hf
    rw [srpApplyServices_cons_of_not_fails (hsrv svc mem_cons_self) hf] at h
    refine Bumped.not_srpUnchanged ?_ h
    exact ((grows_srpSetOwner ..).trans_bumped
      (srpApplyService_of_not_fails (hsrv svc mem_cons_self) hf).2).trans_grows
        (grows_srpApplyServices (fun s hs => hsrv s (mem_cons_of_mem _ hs)) _)
  rw [srpApplyServices_cons_of_fails hf] at h
  obtain ⟨howner, hsrvNone, htxtNone⟩ := stored_of_srpUnchanged h
  refine ⟨haddr, by rw [howner, hl], fun s hs => ?_⟩
  obtain rfl : svc = s := by simpa [hsvcs] using hs
  exact ⟨hf, hsrvNone, htxtNone⟩

end

end SimpleDns.Server
