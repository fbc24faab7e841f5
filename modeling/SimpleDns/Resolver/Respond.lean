import Mathlib.Data.Nat.Bitwise
import SimpleDns.Wire.Address
import SimpleDns.Wire.Opt
import SimpleDns.Wire.Section
import SimpleDns.Resolver.Accept
import SimpleDns.Resolver.Transparent

/-!
# The response to a client (`build_dns_response`, `resolverd.c:4329-4484`)

The rows of a resolution are text (`rdata_to_str`); the response writes them as records again, by a
second switch over the types.

* `encodeRdata`: the switch. It has A, AAAA, CNAME, PTR, NS, MX and TXT; a row of any other type is
  left out. A TXT row is written as one character string, whatever number it was printed from.
* `answerLoop`: the records, while 32 octets are free.
* `buildDnsResponse`: with the designated resolver record of RFC 9462 and DNS64 (RFC 6147).
* **`delivered_iff`**: the records of an upstream answer all reach the client exactly if each of
  them survives the two switches and 32 octets are free before each.
* **`service_dropped`**: an SRV record does not.
-/

namespace SimpleDns.Resolver

open Wire Lib List RRType
open Prog (returns_pure returns_bind returns_ite always_ite always_pure)

/-! ## Rows as records -/

/-- `sscanf(s, "%hu %255s", &pref, mxname)`. -/
def scanMx (s : Text) : Nat × Text :=
  match scanUnsigned 16 s with
  | none => (0, [])
  | some (pref, rest) =>
    (pref, ((rest.dropWhile isspace).takeWhile fun c => !isspace c).take 255)

/-- A text without its outer quotes, as one character string. -/
def encodeTxt (s : Text) : Bytes :=
  let p := if s.head? = some 34 then s.tail else s
  let sl := min 255 (if p.getLast? = some 34 then p.length - 1 else p.length)
  sl.toUInt8 :: p.take sl

/-- The switch of `build_dns_response`; empty for `rdlen == 0`. -/
def encodeRdata (type : Nat) (s : Text) : Bytes :=
  if type = RRType.A then (inetPton4 s).getD []
  else if type = AAAA then (inetPton6 s).getD []
  else if type = CNAME ∨ type = PTR ∨ type = NS then
    (nameToWire s 512).getD []
  else if type = MX then
    match nameToWire (scanMx s).2 510 with
    | none => []
    | some w => put16 (scanMx s).1 ++ w
  else if type = TXT then encodeTxt s
  else []

/-- The loop over the rows, behind a header and `body`: what is written and the number of records.
An owner whose record does not fit stays in the message. -/
def answerLoop (cap : Nat) : List Answer → Bytes → Nat → Bytes × Nat
  | [], body, n => (body, n)
  | a :: as, body, n =>
    if 12 + body.length + 32 < cap then
      let rdata := encodeRdata a.type (cstr a.text)
      if rdata = [] then answerLoop cap as body n
      else
        match nameToWire (cstr a.name) (cap - (12 + body.length)) with
        | none => (body, n)
        | some w =>
          if 12 + body.length + w.length + 10 + rdata.length > cap then (body ++ w, n)
          else answerLoop cap as (body ++ w ++ recordTail a.type RRClass.IN a.ttl rdata) (n + 1)
    else (body, n)

/-! ## The response -/

/-- `ede_for_resolve_failure`. -/
def edeForResolveFailure (rc : Int) : Nat × Text :=
  if rc = -2 then (6, lit "DNSSEC validation failed") else (23, lit "No response from upstream")

/-- `DNS_QR | DNS_RA | (flags & DNS_RD)`. -/
def responseFlags (pkt : Bytes) : Nat := 0x8000 ||| 0x0080 ||| (get16 pkt 2 &&& 0x0100)

/-- The question of the query, if it fits. -/
def copiedQuestion (pkt : Bytes) (after cap : Nat) : Bytes :=
  if 12 + (after - 12 + 4) < cap then slice pkt 12 (after - 12 + 4) else []

/-- The OPT record for a client that sent one; no cookie is known here. -/
def responseOpt (pkt : Bytes) (isTcp : Bool) (cap off : Nat) (rc : Int) : Bytes :=
  let ei := ednsInfo pkt
  if ei.present then
    ednsAppendOpt cap off isTcp ei.doBit { ei with clientCookie := none }
      ⟨0, [], [], if rc < 0 then some (edeForResolveFailure rc) else none, none, [], none⟩
  else []

/-- The response with the rows of a resolution. -/
def respondWith (pkt : Bytes) (after : Nat) (isTcp : Bool) (cap : Nat) (rc : Int)
    (r : ResolveResult) : Bytes :=
  let (body, n) := answerLoop cap r.answers (copiedQuestion pkt after cap) 0
  let opt := responseOpt pkt isTcp cap (12 + body.length) rc
  header (get16 pkt 0) (responseFlags pkt ||| if rc < 0 then 2 else r.rcode) 1 n 0
    (if opt = [] then 0 else 1) ++ body ++ opt

/-- The answer to a discovery query (RFC 9462): the resolver's own SVCB record. -/
def respondDdr (ddr pkt : Bytes) (after : Nat) (qname : Text) (cap : Nat) : Bytes :=
  let body := copiedQuestion pkt after cap
  match nameToWire qname (cap - (12 + body.length)) with
  | none => header (get16 pkt 0) (responseFlags pkt) 1 0 0 0 ++ body
  | some w =>
    if 12 + body.length + w.length + 10 + ddr.length ≤ cap then
      header (get16 pkt 0) (responseFlags pkt) 1 1 0 0 ++ body ++ w ++
        recordTail SVCB RRClass.IN 300 ddr
    else header (get16 pkt 0) (responseFlags pkt) 1 0 0 0 ++ body

/-! ## DNS64 -/

/-- The DNS64 settings: switch, prefix, excluded suffixes. -/
structure Dns64 where
  enabled : Bool
  pref : Bytes
  exclude : Text

/-- `dns64_excluded`. -/
def dns64Excluded (D : Dns64) (qname : Text) : Bool :=
  (strtok 44 (safeStrcpy D.exclude 512)).any fun tok => nameInZone qname tok

/-- `dns64_synthesize_from_a`: aliases stay, addresses are embedded, all else is dropped. -/
def dns64SynthesizeFromA (D : Dns64) (rows : List Answer) : List Answer :=
  (rows.filterMap fun a =>
    if a.type = CNAME then some a
    else if a.type ≠ RRType.A then none
    else (inetPton4 (cstr a.text)).map fun a4 =>
      { a with type := AAAA, text := inetNtop6 (D.pref.take 12 ++ a4) }).take maxAnswers

section

variable (cfg : Config) (C : Crypto) (anchors : List Bytes) (D : Dns64)

/-- `dns64_maybe_synthesize`. -/
def dns64MaybeSynthesize (qname : Text) (qtype : Nat) (rc : Int) (r : ResolveResult) :
    R ResolveResult :=
  if D.enabled = false ∨ qtype ≠ AAAA then pure r
  else if rc ≠ 0 ∨ r.rcode ≠ 0 ∨ r.answers ≠ [] then pure r
  else if r.dnssecStatus = .secure ∨ dns64Excluded D qname then pure r
  else do
    let (rc', a) ← Prog.recurse (qname, RRType.A)
    if rc' ≠ 0 ∨ a.answers = [] then pure r
    else pure { r with answers := dns64SynthesizeFromA D a.answers }

/-- `dns_resolve`. -/
def dnsResolve (qname : Text) (qtype : Nat) : R (Int × ResolveResult) := do
  let (rc, r) ← dnsResolveCore cfg C anchors (qname, qtype)
  if 0 ≤ rc then
    let r' ← dns64MaybeSynthesize D qname qtype rc r
    pure (rc, r')
  else pure (rc, r)

/-- `build_dns_response`; `none` where nothing is sent. -/
def buildDnsResponse (ddr pkt : Bytes) (isTcp : Bool) (cap : Nat) : R (Option Bytes) :=
  if pkt.length < 12 then pure none
  else if hasQR pkt then pure none
  else if qdcount pkt ≠ 1 then pure none
  else
    match nameFromWire pkt 12 256 with
    | none => pure none
    | some (qname, after) =>
      if after + 3 ≥ pkt.length then pure none
      else
        let qtype := get16 pkt after
        if ddr ≠ [] ∧ qtype = SVCB ∧ eqCI qname (lit "_dns.resolver.arpa") then
          pure (some (respondDdr ddr pkt after qname cap))
        else do
          let (rc, r) ← dnsResolve cfg C anchors D qname qtype
          pure (some (respondWith pkt after isTcp cap rc r))

end

/-! ## What survives the two switches -/

/-- No label has a dot or an octet 0. -/
def Dotless (ls : List Text) : Prop := ∀ l ∈ ls, dot ∉ l ∧ 0 ∉ l

/-- The canonical rdata that come back from their text: addresses, names without a dot or an octet 0
inside a label (nor a blank in an MX), one character string without an octet 0. -/
inductive Survives : Nat → Bytes → Prop
  | a {rd : Bytes} (len : rd.length = 4) : Survives RRType.A rd
  | aaaa {rd : Bytes} (len : rd.length = 16) : Survives AAAA rd
  | name {type : Nat} {ls : List Text}
      (named : type = CNAME ∨ type = PTR ∨ type = NS)
      (enc : Encodable ls) (dotless : Dotless ls) : Survives type (nameWire ls)
  | mx {pref : Nat} {ls : List Text} (lt : pref < 2 ^ 16) (enc : Encodable ls)
      (dotless : Dotless ls) (noSpace : ∀ l ∈ ls, ∀ c ∈ l, isspace c = false) :
      Survives MX (put16 pref ++ nameWire ls)
  | txt {s : Text} (len : s.length ≤ 255) (noNul : 0 ∉ s) :
      Survives TXT (s.length.toUInt8 :: s)

/-- A record that comes back from its row. -/
structure Sendable (r : Rec) : Prop where
  owner : Dotless r.owner
  rdata : Survives r.type r.rdata

section Names

variable {ls : List Text}

theorem Dotless.proper (h : Dotless ls) (henc : Encodable ls) : Proper ls := fun l hl =>
  ⟨(henc l hl).1, (h l hl).1⟩

theorem Dotless.noNul (h : Dotless ls) : 0 ∉ joinDots ls :=
  notMem_joinDots (by decide) fun l hl => (h l hl).2

/-- The text of a name is its labels in lower case with dots between. -/
theorem text_of_dotless (h : Dotless (ls.map strlower)) :
    strlower (cstr (joinDots ls)) = joinDots (ls.map strlower) := by
  have hnul : ∀ l ∈ ls, 0 ∉ l :=
    notMem_of_map_strlower (fun _ => lowerByte_eq_zero) (map_strlower_strlower ls).symm
      fun l hl => (h l hl).2
  rw [cstr_eq_self (notMem_joinDots (by decide) hnul), strlower_joinDots]

theorem nameToWire_joinDots (h : Dotless ls) (henc : Encodable ls)
    (hshort : (nameWire ls).length ≤ 255) {blen : Nat} (hblen : (nameWire ls).length ≤ blen) :
    nameToWire (joinDots ls) blen = some (nameWire ls) := by
  have hlen := length_joinDots_lt_nameWire ls
  rw [nameToWire_eq_some_iff (by omega), labels_joinDots (h.proper henc)]
  exact ⟨fun l hl => (henc l hl).2, rfl, hblen⟩

end Names

section Rdata

variable {pkt rd : Bytes} {off len : Nat}

/-- An address is printed and read back. -/
theorem roundtrip_a (h : rd.length = 4) :
    encodeRdata RRType.A (cstr (cstr (inetNtop4 rd))) = rd := by
  have hnul : 0 ∉ inetNtop4 rd := fun h0 =>
    (isAddressChar_spec (isAddressChar_of_mem_inetNtop4 h0)).1 rfl
  rw [cstr_eq_self hnul, cstr_eq_self hnul, encodeRdata, if_pos rfl, inetPton4_inetNtop4 h]
  rfl

theorem roundtrip_aaaa (h : rd.length = 16) :
    encodeRdata AAAA (cstr (cstr (inetNtop6 rd))) = rd := by
  have hnul : 0 ∉ inetNtop6 rd := fun h0 =>
    (isAddressChar_spec ((inetNtop6_text rd).2.1 0 h0)).1 rfl
  rw [cstr_eq_self hnul, cstr_eq_self hnul, encodeRdata, if_neg (by decide), if_pos rfl,
    inetPton6_inetNtop6 h]
  rfl

variable {type : Nat}

theorem roundtrip_name {ls : List Text}
    (htype : type = CNAME ∨ type = PTR ∨ type = NS)
    (h : DomainName pkt off ls (off + len)) (hls : Dotless (ls.map strlower)) :
    ∃ t, rdataToStr pkt off len type 512 = some t ∧
      encodeRdata type (cstr t) = nameWire (ls.map strlower) := by
  have hA : type ≠ RRType.A := by rcases htype with rfl | rfl | rfl <;> decide
  have hAAAA : type ≠ AAAA := by rcases htype with rfl | rfl | rfl <;> decide
  have hread : nameInBuffer pkt off 512 = some (joinDots (ls.map strlower)) := by
    rw [nameInBuffer, h.nameFromWire (by decide), text_of_dotless hls]
  refine ⟨joinDots (ls.map strlower), ?_, ?_⟩
  · unfold rdataToStr
    rw [if_neg hA, if_neg hAAAA, if_pos (by tauto), hread]
  · have hshort := h.short
    rw [← length_nameWire_strlower] at hshort
    rw [cstr_eq_self hls.noNul, encodeRdata, if_neg hA, if_neg hAAAA, if_pos htype,
      nameToWire_joinDots hls (encodable_strlower h.encodable) hshort (hshort.trans (by decide))]
    rfl

/-- The scan of a printed MX stops at its end, if the name has no blank. -/
theorem scanMx_printed {pref : Nat} {name : Text} (hpref : pref < 2 ^ 16)
    (hname : ∀ c ∈ name, isspace c = false) (hlen : name.length ≤ 255) :
    scanMx (decimal pref ++ [32] ++ name) = (pref, name) := by
  have hscan : scanUnsigned 16 (decimal pref ++ 32 :: name) = some (pref, 32 :: name) := by
    refine scanUnsigned_decimal hpref ?_
    intro c hc
    obtain rfl : c = 32 := by simpa using hc.symm
    decide
  have hskip : (32 :: name).dropWhile isspace = name := by
    rw [dropWhile_cons_of_pos (by decide)]
    cases name with
    | nil => rfl
    | cons c cs =>
      rw [dropWhile_cons_of_neg]
      simp [hname c mem_cons_self]
  have htake : name.takeWhile (fun c => !isspace c) = name :=
    takeWhile_eq_self_iff.mpr fun c hc => by simp [hname c hc]
  rw [scanMx, append_assoc, singleton_append, hscan]
  simp only [hskip, htake, take_of_length_le hlen]

theorem roundtrip_mx {ls : List Text} (h : DomainName pkt (off + 2) ls (off + len))
    (hls : Dotless (ls.map strlower))
    (hspace : ∀ l ∈ ls.map strlower, ∀ c ∈ l, isspace c = false) :
    ∃ t, rdataToStr pkt off len MX 512 = some t ∧
      encodeRdata MX (cstr t) = slice pkt off 2 ++ nameWire (ls.map strlower) := by
  have hpref : get16 pkt off < 2 ^ 16 := get16_lt pkt off
  have hshort := h.short
  rw [← length_nameWire_strlower] at hshort
  have hlen := length_joinDots_lt_nameWire (ls.map strlower)
  have hread : nameInZeros pkt (off + 2) 256 = joinDots (ls.map strlower) := by
    rw [nameInZeros, h.nameFromWire (by decide), text_of_dotless hls]
  have hnum : (decimal (get16 pkt off)).length ≤ 5 :=
    length_numeral_le (by decide) (by decide) (hpref.trans (by decide))
  have hnul : 0 ∉ decimal (get16 pkt off) ++ [32] ++ joinDots (ls.map strlower) := by
    simp only [mem_append, mem_singleton, not_or]
    exact ⟨⟨notMem_decimal (by decide) _, by decide⟩, hls.noNul⟩
  have hblank : ∀ c ∈ joinDots (ls.map strlower), isspace c = false := by
    intro c hc
    rcases mem_intercalate_singleton hc with rfl | ⟨l, hl, hcl⟩
    · decide
    · exact hspace l hl c hcl
  refine ⟨decimal (get16 pkt off) ++ [32] ++ joinDots (ls.map strlower), ?_, ?_⟩
  · have hfits : safeStrcpy (decimal (get16 pkt off) ++ [32] ++ joinDots (ls.map strlower)) 512 =
        decimal (get16 pkt off) ++ [32] ++ joinDots (ls.map strlower) := by
      refine take_of_length_le ?_
      simp only [length_append, length_singleton]
      omega
    unfold rdataToStr
    rw [if_neg (by decide), if_neg (by decide), if_neg (by decide), if_pos rfl, hread, hfits]
  · have hscan := scanMx_printed hpref hblank (by omega)
    rw [cstr_eq_self hnul, encodeRdata, if_neg (by decide), if_neg (by decide),
      if_neg (by decide), if_pos rfl, hscan,
      nameToWire_joinDots hls (encodable_strlower h.encodable) hshort (hshort.trans (by decide))]
    have htwo : slice pkt off 2 = [byteAt pkt off, byteAt pkt (off + 1)] :=
      slice_pair (by have := h.lt; omega)
    simp only [put16_get16, htwo]

/-- One character string is printed in quotes and read back. -/
theorem roundtrip_txt {s : Text} (hs : s.length ≤ 255) (hnul : 0 ∉ s)
    (hrd : slice pkt off len = s.length.toUInt8 :: s) (hfit : off + len ≤ pkt.length) :
    ∃ t, rdataToStr pkt off len TXT 512 = some t ∧
      encodeRdata TXT (cstr t) = s.length.toUInt8 :: s := by
  have hlen : len = s.length + 1 := by
    have := congrArg length hrd
    rwa [length_slice hfit, length_cons] at this
  have hoctet : (byteAt pkt off).toNat = s.length := by
    have hbyte : byteAt (slice pkt off len) 0 = byteAt pkt (off + 0) := byteAt_slice (by omega)
    rw [hrd] at hbyte
    rw [Nat.add_zero] at hbyte
    rw [← hbyte]
    simp [byteAt]
    omega
  have hbody : slice pkt (off + 1) s.length = s := by
    rw [← slice_slice (n := len) (by omega), hrd]
    simp [slice]
  have hprint : txtText pkt (off + len) 512 len off [] = [34] ++ s ++ [34, 32] := by
    have hstep : txtText pkt (off + len) 512 (s.length + 1) off [] =
        txtText pkt (off + len) 512 s.length (off + 1 + s.length) ([34] ++ s ++ [34, 32]) := by
      rw [txtText, if_pos (by omega)]
      simp only [hoctet, hlen]
      rw [Nat.min_eq_left (by omega), if_pos (by simp; omega), hbody]
      rfl
    have hend : ∀ fuel out, txtText pkt (off + len) 512 fuel (off + 1 + s.length) out = out := by
      intro fuel out
      cases fuel with
      | zero => rfl
      | succ fuel => rw [txtText, if_neg (by omega)]
    rw [hlen] at hstep hend ⊢
    rw [hstep, hend]
  have hquoted : 0 ∉ [34] ++ s ++ [34] := by
    simp [hnul]
  refine ⟨[34] ++ s ++ [34], ?_, ?_⟩
  · unfold rdataToStr
    rw [if_neg (by decide), if_neg (by decide), if_neg (by decide), if_neg (by decide), if_pos rfl,
      hprint]
    have hdrop : ([34] ++ s ++ [34, 32]).dropLast = [34] ++ s ++ [34] := by
      rw [show [34] ++ s ++ [34, 32] = ([34] ++ s ++ [34]) ++ [32] by simp]
      exact dropLast_concat
    rw [hdrop, cstr_eq_self hquoted]
  · rw [cstr_eq_self hquoted, encodeRdata, if_neg (by decide), if_neg (by decide),
      if_neg (by decide), if_neg (by decide), if_pos rfl, encodeTxt]
    have hmin : min 255 s.length = s.length := Nat.min_eq_right hs
    simp [hmin]

/-- The name behind canonical rdata that is a name. -/
theorem name_of_canonAt {ls : List Text} (h : CanonAt pkt off len type (nameWire ls))
    (hmem : type ∈ nameTypes) (henc : Encodable ls) :
    ∃ ms, DomainName pkt off ms (off + len) ∧ ls = ms.map strlower := by
  obtain ⟨ms, hname, heq⟩ := h.of_name hmem
  exact ⟨ms, hname, henc.eq_of_nameWire (encodable_strlower hname.encodable) heq⟩

/-- The preference and the name behind canonical MX rdata. -/
theorem mx_of_canonAt {pref : Nat} {ls : List Text}
    (h : CanonAt pkt off len MX (put16 pref ++ nameWire ls)) (henc : Encodable ls) :
    ∃ ms, DomainName pkt (off + 2) ms (off + len) ∧ slice pkt off 2 = put16 pref ∧
      ls = ms.map strlower := by
  obtain ⟨ms, hname, heq⟩ := h.of_mx
  have htwo : (slice pkt off 2).length = (put16 pref).length := by
    have := hname.lt
    rw [length_slice (by omega)]
    rfl
  obtain ⟨hpref, hwire⟩ := append_inj heq.symm htwo
  exact ⟨ms, hname, hpref, henc.eq_of_nameWire (encodable_strlower hname.encodable) hwire.symm⟩

theorem mem_nameTypes (h : type = CNAME ∨ type = PTR ∨ type = NS) :
    type ∈ nameTypes := by
  rcases h with rfl | rfl | rfl <;> decide

/-- **What survives is sent as it came**: the row of the record is written as its canonical
rdata. -/
theorem Survives.roundtrip (hs : Survives type rd) (hcanon : CanonAt pkt off len type rd)
    (hfit : off + len ≤ pkt.length) :
    ∃ t, rdataToStr pkt off len type 512 = some t ∧ encodeRdata type (cstr t) = rd := by
  cases hs with
  | a hlen =>
    obtain rfl := hcanon.of_plain (by decide)
    rw [length_slice hfit] at hlen
    subst hlen
    exact ⟨_, by unfold rdataToStr; rw [if_pos rfl, if_pos rfl],
      roundtrip_a (length_slice hfit)⟩
  | aaaa hlen =>
    obtain rfl := hcanon.of_plain (by decide)
    rw [length_slice hfit] at hlen
    subst hlen
    exact ⟨_, by unfold rdataToStr; rw [if_neg (by decide), if_pos rfl, if_pos rfl],
      roundtrip_aaaa (length_slice hfit)⟩
  | name named enc dotless =>
    obtain ⟨ls, hname, rfl⟩ := name_of_canonAt hcanon (mem_nameTypes named) enc
    exact roundtrip_name named hname dotless
  | mx lt enc dotless noSpace =>
    obtain ⟨ls, hname, hpref, rfl⟩ := mx_of_canonAt hcanon enc
    rw [← hpref]
    exact roundtrip_mx hname dotless noSpace
  | txt hlen noNul =>
    have hrd := hcanon.of_plain (by decide)
    exact roundtrip_txt hlen noNul hrd.symm hfit

/-- What survives, once written out in lower case, is its own canonical form. -/
theorem Survives.rereads (hs : Survives type rd) (hcanon : CanonAt pkt off len type rd) :
    (∀ pre post, CanonAt (pre ++ rd ++ post) pre.length rd.length type rd) ∧
      rd.length ≤ 512 ∧ rd ≠ [] := by
  cases hs with
  | a hlen | aaaa hlen =>
    exact ⟨fun pre post => canonAt_plain (by decide) pre rd post, by omega, by
      rintro rfl
      cases hlen⟩
  | name named enc dotless =>
    have hmem := mem_nameTypes named
    obtain ⟨ls, hname, rfl⟩ := name_of_canonAt hcanon hmem enc
    have hshort := hname.short
    rw [← length_nameWire_strlower] at hshort
    refine ⟨fun pre post => ?_, hshort.trans (by decide), by simp [nameWire]⟩
    have h := CanonAt.name hmem (domainName_nameWire enc hshort pre post)
    rwa [map_strlower_strlower] at h
  | @mx pref ls₀ lt enc dotless noSpace =>
    obtain ⟨ls, hname, -, rfl⟩ := mx_of_canonAt hcanon enc
    have hshort := hname.short
    rw [← length_nameWire_strlower] at hshort
    refine ⟨fun pre post => ?_, ?_, by simp [nameWire]⟩
    · have h := canonAt_behind (.inl ⟨rfl, length_put16 pref⟩) enc hshort pre post
      rwa [map_strlower_strlower] at h
    · rw [length_append, length_put16]
      omega
  | txt hlen noNul =>
    refine ⟨fun pre post => canonAt_plain (by decide) pre _ post, ?_, by simp⟩
    rw [length_cons]
    omega

theorem Survives.type_lt (hs : Survives type rd) : type < 2 ^ 16 ∧ type ≠ OPT := by
  cases hs with
  | name named => rcases named with rfl | rfl | rfl <;> decide
  | _ => decide

end Rdata

/-! ## The rows of an upstream answer -/

/-- A record that can be written and read again. -/
structure Deliverable (r : Rec) : Prop where
  enc : Encodable r.owner
  dotless : Dotless r.owner
  short : (nameWire r.owner).length ≤ 255
  lower : r.owner.map strlower = r.owner
  type : r.type < 2 ^ 16
  rdata : ∀ pre post, CanonAt (pre ++ r.rdata ++ post) pre.length r.rdata.length r.type r.rdata
  size : r.rdata.length ≤ 512
  ne_nil : r.rdata ≠ []

/-- A row that is written as the record. -/
structure RowOf (a : Answer) (r : Rec) : Prop where
  name : a.name = joinDots r.owner
  type : a.type = r.type
  rdata : encodeRdata a.type (cstr a.text) = r.rdata

variable {recs : List Rec}

section

variable {resp : Bytes} {off : Nat} (h : SectionAt resp off recs) (hs : ∀ r ∈ recs, Sendable r)

include h hs

theorem deliverable_of_sectionAt : ∀ r ∈ recs, Deliverable r := by
  induction h with
  | nil => exact nofun
  | @cons off a ls rd recs owner cls fits rdata rest ih =>
    intro r hr
    rcases mem_cons.mp hr with rfl | hr
    · have hsend := hs _ mem_cons_self
      obtain ⟨hread, hsize, hne⟩ := hsend.rdata.rereads rdata
      refine ⟨encodable_strlower owner.encodable, hsend.owner, ?_, map_strlower_strlower ls,
        hsend.rdata.type_lt.1, hread, hsize, hne⟩
      rw [length_nameWire_strlower]
      exact owner.short
    · exact ih (fun r hr => hs r (mem_cons_of_mem _ hr)) r hr

/-- Records that survive have rows that are written as these records. -/
theorem answerRows_section {room : Nat} (hroom : recs.length ≤ room) :
    ∃ rows, answerRows resp (rawAnswers resp recs.length off room) = pure rows ∧
      List.Forall₂ RowOf rows recs := by
  induction h generalizing room with
  | nil => exact ⟨[], rfl, .nil⟩
  | @cons off a ls rd recs owner cls fits rdata rest ih =>
    have hsend := hs _ mem_cons_self
    obtain ⟨t, htext, hback⟩ := hsend.rdata.roundtrip rdata fits
    have hless : recs.length ≤ room - 1 := by
      rw [length_cons] at hroom
      omega
    obtain ⟨rows, hrows, hall⟩ := ih (fun r hr => hs r (mem_cons_of_mem _ hr)) hless
    have hname := owner.nameFromWire (le_refl 256)
    rw [text_of_dotless hsend.owner] at hname
    have hraw : rawAnswers resp (recs.length + 1) off room =
        ⟨joinDots (ls.map strlower), get16 resp a, get32 resp (a + 4), a + 10,
          get16 resp (a + 8)⟩ ::
            rawAnswers resp recs.length (a + 10 + get16 resp (a + 8)) (room - 1) := by
      rw [rawAnswers, if_pos ⟨owner.lt, by rw [length_cons] at hroom; omega⟩, hname]
      dsimp only
      rw [if_neg (by omega), if_pos ⟨cls, hsend.rdata.type_lt.2⟩]
    refine ⟨⟨joinDots (ls.map strlower), get16 resp a, get32 resp (a + 4), t⟩ :: rows, ?_,
      .cons ⟨rfl, rfl, hback⟩ hall⟩
    have hshown : rdataText resp (a + 10) (get16 resp (a + 8)) (get16 resp a) = some t := by
      rw [rdataText, if_neg (Nat.not_lt.mpr fits), htext]
    rw [length_cons, hraw, answerRows, answerText_eq hshown]
    rw [hrows]
    rfl

end

/-! ## What is written -/

theorem isspace_lowerByte : ∀ c, isspace (lowerByte c) = isspace c := by decide +kernel

theorem dotless_strlower {ls : List Text} (h : Dotless ls) : Dotless (ls.map strlower) := by
  have hlow := map_strlower_strlower ls
  exact fun l hl =>
    ⟨notMem_of_map_strlower (fun _ => lowerByte_eq_dot) hlow (fun m hm => (h m hm).1) l hl,
      notMem_of_map_strlower (fun _ => lowerByte_eq_zero) hlow (fun m hm => (h m hm).2) l hl⟩

/-- The labels that `name_to_wire` writes of a C string. -/
theorem nameToWire_cstr {s : Text} {blen : Nat} {w : Bytes} (h0 : 0 ∉ s)
    (h : nameToWire s blen = some w) :
    ∃ ls, w = nameWire ls ∧ Encodable ls ∧ Dotless ls ∧ w.length ≤ blen ∧
      ∀ l ∈ ls, ∀ c ∈ l, c ∈ s := by
  obtain ⟨hshort, hw, hlen⟩ := wireLoop_eq_some_iff.mp h
  have hmem : ∀ l ∈ labels (safeStrcpy s 256), ∀ c ∈ l, c ∈ s := fun l hl c hc =>
    mem_of_mem_take (mem_of_mem_labels hl hc)
  have hproper := proper_labels (safeStrcpy s 256)
  exact ⟨_, hw, fun l hl => ⟨(hproper l hl).1, hshort l hl⟩,
    fun l hl => ⟨(hproper l hl).2, fun hc => h0 (hmem l hl 0 hc)⟩, by omega, hmem⟩

theorem scanMx_spec (t : Text) :
    (scanMx t).1 < 2 ^ 16 ∧ ∀ c ∈ (scanMx t).2, c ∈ t ∧ isspace c = false := by
  unfold scanMx
  cases hscan : scanUnsigned 16 t with
  | none => exact ⟨by decide, nofun⟩
  | some v =>
    obtain ⟨hlt, hrest⟩ := scanUnsigned_spec hscan
    refine ⟨hlt, fun c hc => ?_⟩
    have hword := mem_of_mem_take hc
    refine ⟨hrest c ((dropWhile_suffix _).subset ((List.takeWhile_prefix _).subset hword)), ?_⟩
    simpa using mem_takeWhile_imp hword

theorem survives_encodeTxt {t : Text} (h0 : 0 ∉ t) : Survives TXT (encodeTxt t) := by
  unfold encodeTxt
  dsimp only
  obtain ⟨p, hp⟩ : ∃ p, p = if t.head? = some 34 then t.tail else t := ⟨_, rfl⟩
  obtain ⟨sl, hsl⟩ : ∃ sl, sl = min 255 (if p.getLast? = some 34 then p.length - 1 else p.length) :=
    ⟨_, rfl⟩
  have hpart : ∀ c ∈ p, c ∈ t := by
    intro c hc
    rw [hp] at hc
    split at hc
    · exact mem_of_mem_tail hc
    · exact hc
  have hle : sl ≤ p.length := by
    rw [hsl]
    split <;> omega
  have hlen : (p.take sl).length = sl := length_take_of_le hle
  rw [← hp, ← hsl]
  have h := Survives.txt (s := p.take sl) (by omega)
    fun hc => h0 (hpart 0 (mem_of_mem_take hc))
  rwa [hlen] at h

/-- **The second switch writes only what survives**, at most 512 octets. -/
theorem survives_encodeRdata {type : Nat} {t : Text} (h0 : 0 ∉ t)
    (hne : encodeRdata type t ≠ []) :
    Survives type (encodeRdata type t) ∧ (encodeRdata type t).length ≤ 512 := by
  unfold encodeRdata at hne ⊢
  split_ifs at hne ⊢ with hA hAAAA hname hMX hTXT
  · subst hA
    cases haddr : inetPton4 t with
    | none => simp [haddr] at hne
    | some rd =>
      have hlen := (Family.pton_spec (f := .inet) haddr).1
      exact ⟨.a hlen, hlen.le.trans (by decide)⟩
  · subst hAAAA
    cases haddr : inetPton6 t with
    | none => simp [haddr] at hne
    | some rd =>
      have hlen := (Family.pton_spec (f := .inet6) haddr).1
      exact ⟨.aaaa hlen, hlen.le.trans (by decide)⟩
  · cases hwire : nameToWire t 512 with
    | none => simp [hwire] at hne
    | some w =>
      obtain ⟨ls, rfl, henc, hdot, hlen, -⟩ := nameToWire_cstr h0 hwire
      exact ⟨.name hname henc hdot, hlen⟩
  · subst hMX
    obtain ⟨hpref, hword⟩ := scanMx_spec t
    cases hwire : nameToWire (scanMx t).2 510 with
    | none => simp [hwire] at hne
    | some w =>
      obtain ⟨ls, rfl, henc, hdot, hlen, hmem⟩ :=
        nameToWire_cstr (fun hc => h0 (hword 0 hc).1) hwire
      refine ⟨.mx hpref henc hdot fun l hl c hc => (hword c (hmem l hl c hc)).2, ?_⟩
      rw [length_append, length_put16]
      omega
  · subst hTXT
    refine ⟨survives_encodeTxt h0, ?_⟩
    rw [encodeTxt, length_cons, length_take]
    omega
  · exact absurd rfl hne

/-- The canonical form of what survives does so too. -/
theorem Survives.of_canon {type : Nat} {rd rd' pre post : Bytes} (hs : Survives type rd)
    (h : CanonAt (pre ++ rd ++ post) pre.length rd.length type rd') : Survives type rd' := by
  have hplain : type ∉ namedTypes → rd = rd' := fun hnot => by
    rw [h.of_plain hnot, slice_between]
  cases hs with
  | a hlen => exact hplain (by decide) ▸ .a hlen
  | aaaa hlen => exact hplain (by decide) ▸ .aaaa hlen
  | name named enc dotless =>
    obtain ⟨ls', hname, rfl⟩ := h.of_name (mem_nameTypes named)
    rw [(hname.eq_of_written enc).1]
    exact .name named (encodable_strlower enc) (dotless_strlower dotless)
  | @mx pref ls lt enc dotless noSpace =>
    obtain ⟨ls', hname, rfl⟩ := h.of_mx
    have hpkt : pre ++ (put16 pref ++ nameWire ls) ++ post =
        pre ++ put16 pref ++ nameWire ls ++ post := by simp
    have htwo : slice (pre ++ (put16 pref ++ nameWire ls) ++ post) pre.length 2 = put16 pref := by
      rw [hpkt, append_assoc (pre ++ put16 pref)]
      exact slice_between pre (put16 pref) _
    have hoff : pre.length + 2 = (pre ++ put16 pref).length := by
      rw [length_append, length_put16]
    rw [htwo]
    rw [hpkt, hoff] at hname
    rw [(hname.eq_of_written enc).1]
    refine .mx lt (encodable_strlower enc) (dotless_strlower dotless) fun l hl c hc => ?_
    obtain ⟨m, hm, rfl⟩ := mem_map.mp hl
    obtain ⟨d, hd, rfl⟩ := mem_map.mp hc
    rw [isspace_lowerByte]
    exact noSpace m hm d hd
  | txt hlen noNul => exact hplain (by decide) ▸ .txt hlen noNul

/-- A record that the loop has written. -/
structure FromRow (w : Written) : Prop where
  enc : Encodable w.labels
  dotless : Dotless w.labels
  rdata : ∃ t, 0 ∉ t ∧ w.rdata = encodeRdata w.type t ∧ w.rdata ≠ []

variable {w : Written}

theorem FromRow.valid (h : FromRow w) : w.Valid := by
  obtain ⟨t, h0, hrd, hne⟩ := h.rdata
  obtain ⟨hs, hlen⟩ := survives_encodeRdata h0 (hrd ▸ hne)
  rw [← hrd] at hlen
  exact ⟨h.enc, hs.type_lt.1, lt_of_le_of_lt hlen (by decide)⟩

theorem FromRow.sendable {r : Rec} (h : FromRow w) (hsaid : w.Says r) : Sendable r := by
  obtain ⟨t, h0, hrd, hne⟩ := h.rdata
  obtain ⟨pre, post, hcanon⟩ := hsaid.rdata
  have hs := (survives_encodeRdata h0 (hrd ▸ hne)).1
  rw [← hrd] at hs
  refine ⟨?_, ?_⟩
  · rw [hsaid.owner]
    exact dotless_strlower h.dotless
  · rw [hsaid.type]
    exact hs.of_canon hcanon

/-- **The loop writes records that survive**, and what is behind them counts for nothing. -/
theorem answerLoop_written (cap : Nat) (rows : List Answer) (body : Bytes) (n : Nat) :
    ∃ (ws : List Written) (tail : Bytes), answerLoop cap rows body n =
        (body ++ ws.flatMap Written.wire ++ tail, n + ws.length) ∧
      ws.length ≤ rows.length ∧ ∀ w ∈ ws, FromRow w := by
  induction rows generalizing body n with
  | nil => exact ⟨[], [], by simp [answerLoop], by simp, nofun⟩
  | cons a rows ih =>
    unfold answerLoop
    dsimp only
    split
    · split
      · obtain ⟨ws, tail, heq, hle, hrow⟩ := ih body n
        exact ⟨ws, tail, heq, hle.trans (Nat.le_succ _), hrow⟩
      · rename_i hne
        split
        · exact ⟨[], [], by simp, by simp, nofun⟩
        · rename_i w hw
          split
          · exact ⟨[], w, by simp, by simp, nofun⟩
          · obtain ⟨ls, rfl, henc, hdot, -, -⟩ := nameToWire_cstr (notMem_cstr a.name) hw
            let wrote : Written := ⟨ls, a.type, a.ttl, encodeRdata a.type (cstr a.text)⟩
            obtain ⟨ws, tail, heq, hle, hrow⟩ := ih (body ++ nameWire ls ++
              recordTail a.type RRClass.IN a.ttl (encodeRdata a.type (cstr a.text))) (n + 1)
            refine ⟨wrote :: ws, tail, ?_, Nat.succ_le_succ hle, ?_⟩
            · rw [heq]
              simp [wrote, Written.wire]
              omega
            · intro w hw
              rcases mem_cons.mp hw with rfl | hw
              · exact ⟨henc, hdot, cstr a.text, notMem_cstr _, rfl, hne⟩
              · exact hrow w hw
    · exact ⟨[], [], by simp, by simp, nofun⟩

/-- 32 octets are free before each record. -/
def Room (cap : Nat) : Nat → List Rec → Prop
  | _, [] => True
  | off, r :: rs => off + 32 < cap ∧ Room cap (off + r.size) rs

/-- The rows of records that can be delivered and fit: the loop writes them all and goes on behind
them, or stops before the last because it wants 32 octets. -/
theorem answerLoop_rows {cap : Nat} {rows : List Answer} (h : List.Forall₂ RowOf rows recs)
    (hd : ∀ r ∈ recs, Deliverable r) (extra : List Answer) (body : Bytes) (n : Nat)
    (hfit : 12 + body.length + (recs.map Rec.size).sum ≤ cap) :
    (Room cap (12 + body.length) recs → ∃ ws, List.Forall₂ Written.Reads ws recs ∧
        answerLoop cap (rows ++ extra) body n =
          answerLoop cap extra (body ++ ws.flatMap Written.wire) (n + recs.length)) ∧
      (¬ Room cap (12 + body.length) recs →
        (answerLoop cap (rows ++ extra) body n).2 < n + recs.length) := by
  induction h generalizing body n with
  | nil => exact ⟨fun _ => ⟨[], .nil, by simp⟩, fun hno => absurd trivial hno⟩
  | @cons a r rows recs hrow _ ih =>
    have hr := hd r mem_cons_self
    rw [map_cons, sum_cons] at hfit
    by_cases hroom : 12 + body.length + 32 < cap
    · let wrote : Written := ⟨r.owner, r.type, a.ttl, r.rdata⟩
      have hname : nameToWire (cstr a.name) (cap - (12 + body.length)) =
          some (nameWire r.owner) := by
        rw [hrow.name, cstr_eq_self hr.dotless.noNul]
        refine nameToWire_joinDots hr.dotless hr.enc hr.short ?_
        unfold Rec.size at hfit
        omega
      have hstep : answerLoop cap (a :: (rows ++ extra)) body n =
          answerLoop cap (rows ++ extra) (body ++ wrote.wire) (n + 1) := by
        rw [answerLoop, if_pos hroom]
        rw [hrow.rdata, if_neg hr.ne_nil, hname]
        dsimp only
        rw [if_neg (by unfold Rec.size at hfit; omega), hrow.type]
        simp [wrote, Written.wire]
      have hlen : 12 + (body ++ wrote.wire).length = 12 + body.length + r.size := by
        simp only [length_append, Written.length_wire, Rec.size, wrote]
        omega
      obtain ⟨hall, hnone⟩ := ih (fun r hr => hd r (mem_cons_of_mem _ hr)) (body ++ wrote.wire)
        (n + 1) (by omega)
      rw [hlen] at hall hnone
      rw [cons_append, hstep, length_cons]
      refine ⟨fun hr' => ?_, fun hno => ?_⟩
      · obtain ⟨ws, hreads, heq⟩ := hall hr'.2
        refine ⟨wrote :: ws, .cons ⟨⟨hr.enc, hr.type, ?_⟩, hr.short, hr.lower.symm, rfl, hr.rdata⟩
          hreads, ?_⟩
        · exact lt_of_le_of_lt hr.size (by decide)
        · rw [heq, flatMap_cons, append_assoc, Nat.add_assoc, Nat.add_comm 1]
      · have := hnone fun h => hno ⟨hroom, h⟩
        omega
    · refine ⟨fun hr' => absurd hr'.1 hroom, fun _ => ?_⟩
      rw [cons_append, answerLoop, if_neg hroom, length_cons]
      omega

/-! ## The response -/

/-- A query whose question name is written out. -/
structure PlainQuery (pkt : Bytes) (qls : List Text) : Prop where
  enc : Encodable qls
  short : (nameWire qls).length ≤ 255
  octets : slice pkt 12 (nameWire qls).length = nameWire qls
  fits : 12 + (nameWire qls).length + 4 ≤ pkt.length

/-- Where the answers begin. -/
def answersAt (qls : List Text) : Nat := 12 + (nameWire qls).length + 4

/-- The question of the query: its name, type and class. -/
def questionOctets (pkt : Bytes) (qls : List Text) : Bytes :=
  nameWire qls ++ slice pkt (12 + (nameWire qls).length) 4

section Response

variable {pkt : Bytes} {qls : List Text} {isTcp : Bool} {cap : Nat}

theorem PlainQuery.domainName (h : PlainQuery pkt qls) :
    DomainName pkt 12 qls (12 + (nameWire qls).length) := by
  have hsplit := append_slice pkt 12 (nameWire qls).length
  rw [h.octets] at hsplit
  have hpre : (pkt.take 12).length = 12 := by
    rw [length_take]
    have := h.fits
    omega
  have hname := domainName_nameWire h.enc h.short (pkt.take 12)
    (pkt.drop (12 + (nameWire qls).length))
  rwa [hsplit, hpre] at hname

theorem PlainQuery.length_octets (h : PlainQuery pkt qls) :
    12 + (questionOctets pkt qls).length = answersAt qls := by
  rw [questionOctets, length_append, length_slice h.fits, answersAt]
  omega

theorem PlainQuery.copied (h : PlainQuery pkt qls) (hcap : answersAt qls < cap) :
    copiedQuestion pkt (12 + (nameWire qls).length) cap = questionOctets pkt qls := by
  unfold answersAt at hcap
  have hadd : ∀ n m : Nat, slice pkt 12 (n + m) = slice pkt 12 n ++ slice pkt (12 + n) m := by
    intro n m
    rw [slice, slice, slice, take_add, drop_drop]
  rw [copiedQuestion, if_pos (by omega), Nat.add_sub_cancel_left, hadd, h.octets, questionOctets]

variable (isTcp) in
/-- The response: a header, what the loop leaves behind the question, and what follows. -/
theorem respondWith_eq (hq : PlainQuery pkt qls) (hcap : answersAt qls < cap) (rc : Int)
    (r : ResolveResult) {body : Bytes} {n : Nat}
    (hloop : answerLoop cap r.answers (questionOctets pkt qls) 0 = (body, n)) :
    ∃ (opt : Bytes) (ar : Nat),
      respondWith pkt (12 + (nameWire qls).length) isTcp cap rc r =
        header (get16 pkt 0) (responseFlags pkt ||| if rc < 0 then 2 else r.rcode) 1 n 0 ar ++
          (body ++ opt) := by
  refine ⟨responseOpt pkt isTcp cap (12 + body.length) rc,
    if responseOpt pkt isTcp cap (12 + body.length) rc = [] then 0 else 1, ?_⟩
  rw [respondWith, hq.copied hcap, hloop, ← append_assoc]

/-- The answers of a message that begins like the response. -/
theorem firstAnswers_iff (hq : PlainQuery pkt qls) (id flags ar : Nat) {n : Nat}
    (hn : n < 2 ^ 16) (tail : Bytes) (recs : List Rec) :
    FirstAnswers (header id flags 1 n 0 ar ++ (questionOctets pkt qls ++ tail)) recs ↔
      SectionAt (header id flags 1 n 0 ar ++ (questionOctets pkt qls ++ tail)) (answersAt qls)
        recs ∧ recs.length ≤ n := by
  have hname := domainName_nameWire hq.enc hq.short (header id flags 1 n 0 ar)
    (slice pkt (12 + (nameWire qls).length) 4 ++ tail)
  have hpkt : header id flags 1 n 0 ar ++ nameWire qls ++
      (slice pkt (12 + (nameWire qls).length) 4 ++ tail) =
        header id flags 1 n 0 ar ++ (questionOctets pkt qls ++ tail) := by
    simp [questionOctets]
  rw [hpkt, length_header] at hname
  have hquestion : QuestionsAt (header id flags 1 n 0 ar ++ (questionOctets pkt qls ++ tail)) 1 12
      (answersAt qls) := by
    refine .cons hname ?_ (.nil _)
    have := hq.length_octets
    simp only [length_append, length_header, answersAt] at this ⊢
    omega
  unfold FirstAnswers
  rw [qdcount_header _ (by decide), ancount_header _ hn]
  constructor
  · rintro ⟨off, hoff, hsec, hlen⟩
    rw [hoff.unique hquestion] at hsec
    exact ⟨hsec, hlen⟩
  · rintro ⟨hsec, hlen⟩
    exact ⟨_, hquestion, hsec, hlen⟩

/-- The records find one record each in the answers of the message. -/
def Delivered (out : Bytes) (recs : List Rec) : Prop :=
  ∃ sent, FirstAnswers out sent ∧ recs.Subperm sent

/-- The prefix of a response behind which its records stand. -/
theorem PlainQuery.length_front (hq : PlainQuery pkt qls) (id flags n ar : Nat) :
    (header id flags 1 n 0 ar ++ questionOctets pkt qls).length = answersAt qls := by
  rw [length_append, length_header, hq.length_octets]

variable {rc : Int} {r : ResolveResult} (hq : PlainQuery pkt qls) (hcap : answersAt qls < cap)
  (hmax : r.answers.length ≤ maxAnswers)

include hq hcap hmax

/-- **What reaches the client of any rows**: records that survive, no more than the loop counts. -/
theorem sent_of_respondWith {sent : List Rec}
    (h : FirstAnswers (respondWith pkt (12 + (nameWire qls).length) isTcp cap rc r) sent) :
    (∀ x ∈ sent, Sendable x) ∧
      sent.length ≤ (answerLoop cap r.answers (questionOctets pkt qls) 0).2 := by
  obtain ⟨ws, tail, hloop, hle, hws⟩ := answerLoop_written cap r.answers (questionOctets pkt qls) 0
  obtain ⟨opt, ar, hout⟩ := respondWith_eq isTcp hq hcap rc r hloop
  have hcount : 0 + ws.length < 2 ^ 16 := by
    have : maxAnswers = 32 := rfl
    omega
  rw [hout, append_assoc, append_assoc, firstAnswers_iff hq _ _ _ hcount] at h
  obtain ⟨hsec, hlen⟩ := h
  rw [hloop]
  refine ⟨fun x hx => ?_, hlen⟩
  rw [← hq.length_front (get16 pkt 0)
    (responseFlags pkt ||| if rc < 0 then 2 else r.rcode) (0 + ws.length) ar,
    ← append_assoc, ← append_assoc] at hsec
  obtain ⟨w, hw, hsaid⟩ := hsec.written (fun w hw => (hws w hw).valid) (by omega) x hx
  exact (hws w hw).sendable hsaid

variable {rows : List Answer} {recs : List Rec} (hpre : rows <+: r.answers)
  (hrows : List.Forall₂ RowOf rows recs) (hd : ∀ x ∈ recs, Deliverable x)
  (hfit : answersAt qls + (recs.map Rec.size).sum ≤ cap)

include hpre hrows hd hfit

/-- **Rows of records that survive reach the client** if there is room for them. -/
theorem delivered_of_rows (hroom : Room cap (answersAt qls) recs) :
    Delivered (respondWith pkt (12 + (nameWire qls).length) isTcp cap rc r) recs := by
  obtain ⟨extra, hextra⟩ := hpre
  rw [← hq.length_octets] at hfit hroom
  obtain ⟨ws, hreads, hstep⟩ := (answerLoop_rows hrows hd extra _ 0 hfit).1 hroom
  obtain ⟨more, tail, hloop, hle, -⟩ := answerLoop_written cap extra
    (questionOctets pkt qls ++ ws.flatMap Written.wire) (0 + recs.length)
  rw [← hstep, hextra] at hloop
  obtain ⟨opt, ar, hout⟩ := respondWith_eq isTcp hq hcap rc r hloop
  have hcount : 0 + recs.length + more.length < 2 ^ 16 := by
    have hlen := congrArg length hextra
    rw [length_append, hrows.length_eq] at hlen
    have : maxAnswers = 32 := rfl
    omega
  refine ⟨recs, ?_, List.Subperm.refl _⟩
  rw [hout, append_assoc, append_assoc, append_assoc,
    firstAnswers_iff hq _ _ _ hcount]
  refine ⟨?_, by omega⟩
  rw [← hq.length_front (get16 pkt 0) (responseFlags pkt ||| if rc < 0 then 2 else r.rcode)
    (0 + recs.length + more.length) ar, ← append_assoc, ← append_assoc]
  exact sectionAt_written hreads _ _

/-- Where there is no room for them, fewer are sent. -/
theorem not_delivered_of_rows (hroom : ¬ Room cap (answersAt qls) recs) :
    ¬ Delivered (respondWith pkt (12 + (nameWire qls).length) isTcp cap rc r) recs := by
  rintro ⟨sent, hsent, hsub⟩
  obtain ⟨extra, hextra⟩ := hpre
  have hlen := (sent_of_respondWith hq hcap hmax hsent).2
  rw [← hq.length_octets] at hfit hroom
  have hlt := (answerLoop_rows hrows hd extra _ 0 hfit).2 hroom
  rw [hextra] at hlt
  have := hsub.length_le
  omega

end Response

/-! ## The resolution -/

section Resolution

variable {cfg : Config} {C : Crypto} {anchors : List Bytes} {D : Dns64}

theorem length_rawAnswers (resp : Bytes) :
    ∀ n off room, (rawAnswers resp n off room).length ≤ room
  | 0, _, _ => Nat.zero_le _
  | n + 1, off, room => by
    unfold rawAnswers
    split
    · rename_i hroom
      split
      · exact Nat.zero_le _
      split
      · exact Nat.zero_le _
      split
      · rw [length_cons]
        exact Nat.le_sub_one_iff_lt hroom.2 |>.mp (length_rawAnswers resp n _ (room - 1))
      · exact length_rawAnswers resp n _ room
    · exact Nat.zero_le _

variable {tr : Trace}

theorem length_answerRows {resp : Bytes} {raws : List RawAnswer} {rows : List Answer}
    (h : Calls cfg C anchors (answerRows resp raws) tr rows) : rows.length = raws.length := by
  induction raws generalizing rows tr with
  | nil =>
    obtain ⟨-, rfl⟩ := returns_pure.mp h
    rfl
  | cons a raws ih =>
    unfold answerRows at h
    obtain ⟨-, tr₂, t, -, -, h₂⟩ := returns_bind.mp h
    obtain ⟨tr₃, tr₄, rest, -, h₃, h₄⟩ := returns_bind.mp h₂
    obtain ⟨-, rfl⟩ := returns_pure.mp h₄
    rw [length_cons, length_cons, ih h₃]

variable {rep : Reply} {qname : Text} {qtype : Nat} {rc : Int} {r : ResolveResult}

/-- An accepted reply comes to its rows. -/
theorem calls_finish
    (h : Calls cfg C anchors (acceptReply cfg C anchors rep qname qtype) tr (rc, r)) (hrc : 0 ≤ rc)
    :
    ∃ result tr', Calls cfg C anchors (finish rep.resp qtype result) tr' (rc, r) := by
  unfold acceptReply at h
  obtain ⟨now, tr₁, -, h₁⟩ := Prog.returns_perform_bind.mp h
  cases hparse : parseResponseToEntry cfg rep.resp qname qtype now with
  | none =>
    rw [hparse] at h₁
    exact ⟨_, _, h₁⟩
  | some e =>
    rw [hparse] at h₁
    obtain ⟨-, tr₂, -, -, -, h₂⟩ := returns_bind.mp h₁
    rcases returns_ite.mp h₂ with ⟨-, hpure⟩ | ⟨-, h₃⟩
    · obtain ⟨-, hv⟩ := returns_pure.mp hpure
      rw [(Prod.mk.inj hv).1] at hrc
      cases hrc
    · obtain ⟨-, tr₃, -, h₄⟩ := Prog.returns_perform_bind.mp h₃
      obtain ⟨-, tr₄, -, h₅⟩ := Prog.returns_perform_bind.mp h₄
      exact ⟨_, _, h₅⟩

/-- The rows of a reply come first in its result, which has no more than fit. -/
theorem rows_of_finish {resp : Bytes} {result : ResolveResult}
    (h : Calls cfg C anchors (finish resp qtype result) tr (rc, r)) :
    r.answers.length ≤ maxAnswers ∧ ∃ rows tr', Calls cfg C anchors (populate resp) tr' rows ∧
      rows <+: r.answers := by
  unfold finish at h
  obtain ⟨tr₁, tr₂, rows, -, hpop, h₁⟩ := returns_bind.mp h
  have hlen : rows.length ≤ maxAnswers := by
    unfold populate at hpop
    split at hpop
    · obtain ⟨-, rfl⟩ := returns_pure.mp hpop
      exact Nat.zero_le _
    · rw [length_answerRows hpop]
      exact length_rawAnswers _ _ _ _
  cases rows with
  | nil =>
    obtain ⟨-, hv⟩ := returns_pure.mp h₁
    rw [(Prod.mk.inj hv).2]
    exact ⟨Nat.zero_le _, [], tr₁, hpop, nil_prefix⟩
  | cons a rows =>
    rcases returns_ite.mp h₁ with ⟨-, hchase⟩ | ⟨-, hpure⟩
    · obtain ⟨tr₃, tr₄, r', -, h₂, hpure⟩ := returns_bind.mp hchase
      obtain ⟨-, hv⟩ := returns_pure.mp hpure
      rw [(Prod.mk.inj hv).2]
      obtain ⟨hpre, hmax⟩ := chase_extends hlen h₂
      exact ⟨hmax, a :: rows, tr₁, hpop, hpre⟩
    · obtain ⟨-, hv⟩ := returns_pure.mp hpure
      rw [(Prod.mk.inj hv).2]
      exact ⟨hlen, a :: rows, tr₁, hpop, prefix_refl _⟩

/-- DNS64 adds rows to a result that has none. -/
theorem dns64_rows {r' : ResolveResult}
    (h : Calls cfg C anchors (dns64MaybeSynthesize D qname qtype rc r) tr r')
    (hmax : r.answers.length ≤ maxAnswers) :
    r.answers <+: r'.answers ∧ r'.answers.length ≤ maxAnswers := by
  unfold dns64MaybeSynthesize at h
  have hsame : ∀ {tr'}, Calls cfg C anchors (pure r) tr' r' →
      r.answers <+: r'.answers ∧ r'.answers.length ≤ maxAnswers := by
    intro tr' hpure
    obtain ⟨-, rfl⟩ := returns_pure.mp hpure
    exact ⟨prefix_refl _, hmax⟩
  rcases returns_ite.mp h with ⟨-, hpure⟩ | ⟨-, h₁⟩
  · exact hsame hpure
  rcases returns_ite.mp h₁ with ⟨-, hpure⟩ | ⟨hnone, h₂⟩
  · exact hsame hpure
  rcases returns_ite.mp h₂ with ⟨-, hpure⟩ | ⟨-, h₃⟩
  · exact hsame hpure
  obtain ⟨v, -, tr', -, -, h₄⟩ := Prog.returns_recurse_bind.mp h₃
  rcases returns_ite.mp h₄ with ⟨-, hpure⟩ | ⟨-, hpure⟩
  · exact hsame hpure
  · obtain ⟨-, rfl⟩ := returns_pure.mp hpure
    have hnil : r.answers = [] := by
      by_contra hne
      exact hnone (.inr (.inr hne))
    rw [hnil]
    exact ⟨List.nil_prefix, length_take_le _ _⟩

theorem always_dns64 (qname : Text) (qtype : Nat) (rc : Int) (r : ResolveResult) :
    (dns64MaybeSynthesize D qname qtype rc r).Always NotUpstream fun _ _ => True := by
  unfold dns64MaybeSynthesize
  refine always_ite (fun _ => always_pure _) fun _ => ?_
  refine always_ite (fun _ => always_pure _) fun _ => ?_
  refine always_ite (fun _ => always_pure _) fun _ => ?_
  refine Prog.always_bind (Prog.always_recurse _) fun a => ?_
  exact always_ite (fun _ => always_pure _) fun _ => always_pure _

/-- The rows behind an upstream reply that is accepted. -/
theorem rows_of_dnsResolve {n : Text} {q : Nat}
    (h : Calls cfg C anchors (dnsResolve cfg C anchors D qname qtype) tr (rc, r))
    (hasked : .op (.upstreamQuery .foreground n q) (some rep) ∈ tr) (hrc : 0 ≤ rc)
    (hlen : 12 ≤ rep.resp.length) (hrcode : rcodeOf rep.resp ≠ 2) :
    r.answers.length ≤ maxAnswers ∧ ∃ rows tr', Calls cfg C anchors (populate rep.resp) tr' rows ∧
      rows <+: r.answers := by
  unfold dnsResolve at h
  obtain ⟨tr₁, tr₂, ⟨rc', r'⟩, rfl, hcore, hrest⟩ := returns_bind.mp h
  -- the reply belongs to the first resolution: what follows asks nobody itself
  have hpart : .op (.upstreamQuery .foreground n q) (some rep) ∈ tr₁ ∧ rc' = rc ∧
      (r'.answers.length ≤ maxAnswers →
        r'.answers <+: r.answers ∧ r.answers.length ≤ maxAnswers) := by
    rcases returns_ite.mp hrest with ⟨-, h64⟩ | ⟨-, hpure⟩
    · obtain ⟨tr₃, tr₄, r'', rfl, h₃, hpure⟩ := returns_bind.mp h64
      obtain ⟨rfl, hv⟩ := returns_pure.mp hpure
      cases hv
      refine ⟨?_, rfl, dns64_rows h₃⟩
      rw [append_nil] at hasked
      exact (mem_append.mp hasked).resolve_right fun hmem =>
        h₃.always (always_dns64 _ _ _ _) hmem
    · obtain ⟨rfl, hv⟩ := returns_pure.mp hpure
      cases hv
      exact ⟨by simpa using hasked, rfl, fun hmax => ⟨prefix_refl _, hmax⟩⟩
  obtain ⟨hmem, rfl, hmore⟩ := hpart
  obtain ⟨front, back, rfl⟩ := append_of_mem hmem
  obtain ⟨result, tr', hfin⟩ := calls_finish (calls_accept hcore hlen hrcode) hrc
  obtain ⟨hmax, rows, tr'', hpop, hpre⟩ := rows_of_finish hfin
  obtain ⟨hpre', hmax'⟩ := hmore hmax
  exact ⟨hmax', rows, tr'', hpop, hpre.trans hpre'⟩

/-- A response that needed an upstream query shows the rows of the resolution. -/
theorem respondWith_of_build {ddr pkt out : Bytes} {qls : List Text} {isTcp : Bool} {cap : Nat}
    {n : Text} {q : Nat} (hq : PlainQuery pkt qls)
    (h : Calls cfg C anchors (buildDnsResponse cfg C anchors D ddr pkt isTcp cap) tr (some out))
    (hasked : .op (.upstreamQuery .foreground n q) (some rep) ∈ tr) :
    ∃ rc r qname qtype, out = respondWith pkt (12 + (nameWire qls).length) isTcp cap rc r ∧
      Calls cfg C anchors (dnsResolve cfg C anchors D qname qtype) tr (rc, r) := by
  -- every early answer is given without an operation
  have hgo : ∀ {c : Prop} [Decidable c] {v : Option Bytes} {p : R (Option Bytes)},
      Calls cfg C anchors (if c then pure v else p) tr (some out) →
        Calls cfg C anchors p tr (some out) := by
    intro c _ v p h
    rcases returns_ite.mp h with ⟨-, hpure⟩ | ⟨-, hp⟩
    · obtain ⟨rfl, -⟩ := returns_pure.mp hpure
      cases hasked
    · exact hp
  unfold buildDnsResponse at h
  have h₁ := hgo (hgo (hgo h))
  rw [hq.domainName.nameFromWire (le_refl 256)] at h₁
  obtain ⟨tr₁, tr₂, ⟨rc, r⟩, rfl, hres, hlast⟩ := returns_bind.mp (hgo (hgo h₁))
  obtain ⟨rfl, hout⟩ := returns_pure.mp hlast
  rw [append_nil]
  exact ⟨rc, r, _, _, Option.some.inj hout, hres⟩

/-- A failed resolution is answered with SERVFAIL. -/
theorem rcodeOf_respondWith {pkt : Bytes} {qls : List Text} {isTcp : Bool} {cap : Nat}
    (hq : PlainQuery pkt qls) (hcap : answersAt qls < cap) (r : ResolveResult) (hrc : rc < 0) :
    rcodeOf (respondWith pkt (12 + (nameWire qls).length) isTcp cap rc r) = 2 := by
  have hlt : responseFlags pkt ||| 2 < 2 ^ 16 :=
    Nat.or_lt_two_pow (Nat.or_lt_two_pow (by decide) (Nat.and_lt_two_pow _ (by decide)))
      (by decide)
  obtain ⟨opt, ar, hout⟩ := respondWith_eq isTcp hq hcap rc r rfl
  rw [hout, rcodeOf, if_pos hrc, flags_header _ hlt, responseFlags, show 16 = 2 ^ 4 from rfl,
    Nat.or_mod_two_pow, Nat.or_mod_two_pow, Nat.and_mod_two_pow, Nat.and_zero]
  rfl

/-- **The records of an upstream answer all reach the client exactly if each of them survives the
way to text and back and 32 octets of the buffer are free before each.** -/
theorem delivered_iff {ddr pkt out : Bytes} {qls : List Text} {isTcp : Bool} {cap : Nat}
    {n : Text} {q : Nat} {rep : Reply} {recs : List Rec}
    {tr : List (Act Op Op.Res (Text × Nat) (Int × ResolveResult))} (hq : PlainQuery pkt qls)
    (hlen : 12 ≤ rep.resp.length) (hanswer : AnswersOf rep.resp recs)
    (hfew : recs.length ≤ maxAnswers) (hcap : answersAt qls < cap)
    (hfit : answersAt qls + (recs.map Rec.size).sum ≤ cap)
    (hcall : Calls cfg C anchors (buildDnsResponse cfg C anchors D ddr pkt isTcp cap) tr (some out))
    (hasked : .op (.upstreamQuery .foreground n q) (some rep) ∈ tr)
    (hup : rcodeOf rep.resp ≠ 2) (hdown : rcodeOf out ≠ 2) :
    Delivered out recs ↔ (∀ r ∈ recs, Sendable r) ∧ Room cap (answersAt qls) recs := by
  obtain ⟨rc, r, qname, qtype, rfl, hres⟩ := respondWith_of_build hq hcall hasked
  have hrc : 0 ≤ rc := not_lt.mp fun hneg => hdown (rcodeOf_respondWith hq hcap r hneg)
  obtain ⟨hmax, rows, tr', hpop, hpre⟩ := rows_of_dnsResolve hres hasked hrc hlen hup
  -- of records that survive, the rows are those they are written from
  have hrows : (∀ x ∈ recs, Sendable x) → List.Forall₂ RowOf rows recs ∧
      ∀ x ∈ recs, Deliverable x := by
    intro hs
    obtain ⟨⟨off, hquestions, hsec, -⟩, hcount⟩ := hanswer
    obtain ⟨rows', heq, hall⟩ := answerRows_section hsec hs hfew
    unfold populate answersStart at hpop
    rw [hquestions.skipQuestions, hcount] at hpop
    dsimp only at hpop
    rw [heq] at hpop
    obtain ⟨-, rfl⟩ := returns_pure.mp hpop
    exact ⟨hall, deliverable_of_sectionAt hsec hs⟩
  constructor
  · intro hdel
    have hs : ∀ x ∈ recs, Sendable x := by
      obtain ⟨sent, hsent, hsub⟩ := hdel
      exact fun x hx => (sent_of_respondWith hq hcap hmax hsent).1 x (hsub.subset hx)
    refine ⟨hs, not_not.mp fun hno => ?_⟩
    exact not_delivered_of_rows hq hcap hmax hpre (hrows hs).1 (hrows hs).2 hfit hno hdel
  · rintro ⟨hs, hroom⟩
    exact delivered_of_rows hq hcap hmax hpre (hrows hs).1 (hrows hs).2 hfit hroom

end Resolution

/-! ## An address that arrives, and a service that does not -/

/-- A query for the records of `a.b`. -/
def clientQuery (qtype : Nat) : Bytes :=
  header 9 0x0100 1 0 0 0 ++ (nameWire [lit "a", lit "b"] ++ put16 qtype ++ put16 RRClass.IN)

theorem encodable_ab : Wire.Encodable [lit "a", lit "b"] := by
  unfold Wire.Encodable
  decide

theorem plainQuery_clientQuery (qtype : Nat) : PlainQuery (clientQuery qtype) [lit "a", lit "b"] :=
  ⟨encodable_ab, by decide, rfl,
    by simp [clientQuery, length_header, put16, Nat.add_assoc]⟩

/-- Upstream answers the query with the record. -/
def upstreamAnswer (w : Written) : Reply :=
  ⟨header 7 0x8180 1 1 0 0 ++ (questionOctets (clientQuery w.type) [lit "a", lit "b"] ++
    [w].flatMap Written.wire), Env.sample.fetch⟩

theorem answersOf_upstreamAnswer {r : Rec} (h : w.Reads r) :
    AnswersOf (upstreamAnswer w).resp [r] := by
  have hq := plainQuery_clientQuery w.type
  refine ⟨(firstAnswers_iff hq 7 0x8180 0 (by decide) _ _).mpr ⟨?_, le_refl 1⟩,
    ancount_header _ (by decide)⟩
  have hsec := sectionAt_written (.cons h .nil)
    (header 7 0x8180 1 1 0 0 ++ questionOctets (clientQuery w.type) [lit "a", lit "b"]) []
  rwa [hq.length_front, append_nil, append_assoc] at hsec

/-- The response to the query for the type of the record. -/
def clientResponse (w : Written) : R (Option Bytes) :=
  buildDnsResponse sampleConfig .sample Env.sample.anchors ⟨false, [], []⟩ [] (clientQuery w.type)
    false (dnsBuf * 2)

/-- An upstream query of the foreground. -/
def asksUpstream : Act Op Op.Res (Text × Nat) (Int × ResolveResult) → Bool
  | .op (.upstreamQuery .foreground _ _) _ => true
  | _ => false

/-- The world in which upstream answers with the record. -/
def answeringWorld (w : Written) : (o : Op) → o.Res :=
  world 1000 (some (upstreamAnswer w).resp) none

/-- What the client gets there. -/
def responseOctets (w : Written) : Bytes :=
  (((clientResponse w).outcome (answeringWorld w)).getD none).getD []

theorem calls_clientResponse (w : Written)
    (hout : (clientResponse w).outcome (answeringWorld w) = some (some (responseOctets w)))
    (hasks : ((clientResponse w).script (answeringWorld w)).any asksUpstream) :
    ∃ tr n q, Calls sampleConfig .sample Env.sample.anchors (clientResponse w) tr
        (some (responseOctets w)) ∧
      .op (.upstreamQuery .foreground n q) (some (upstreamAnswer w)) ∈ tr := by
  obtain ⟨u, hmem, hu⟩ := any_eq_true.mp hasks
  unfold asksUpstream at hu
  split at hu
  · rename_i n q r
    obtain rfl := Prog.eq_of_mem_script hmem
    exact ⟨_, n, q, Prog.returns_script hout, hmem⟩
  · cases hu

/-- An address record of `a.b`. -/
def addressRecord : Written := ⟨[lit "a", lit "b"], RRType.A, 100, [192, 0, 2, 1]⟩

/-- A service record of `a.b`: port 80 of `a.b` itself. -/
def serviceRecord : Written :=
  ⟨[lit "a", lit "b"], SRV, 100, [0, 0, 0, 0, 0, 80] ++ nameWire [lit "a", lit "b"]⟩

/-- The address arrives. -/
theorem address_delivered :
    ∃ tr n q, Calls sampleConfig .sample Env.sample.anchors (clientResponse addressRecord) tr
        (some (responseOctets addressRecord)) ∧
      .op (.upstreamQuery .foreground n q) (some (upstreamAnswer addressRecord)) ∈ tr ∧
      Delivered (responseOctets addressRecord)
        [⟨[lit "a", lit "b"], RRType.A, [192, 0, 2, 1]⟩] := by
  have hread : addressRecord.Reads ⟨[lit "a", lit "b"], RRType.A, [192, 0, 2, 1]⟩ :=
    ⟨⟨encodable_ab, by decide, by decide⟩, by decide, by decide, rfl,
      fun pre post => canonAt_plain (by decide) pre _ post⟩
  obtain ⟨tr, n, q, hcall, hasked⟩ := calls_clientResponse addressRecord (by decide +kernel)
    (by decide +kernel)
  refine ⟨tr, n, q, hcall, hasked, ?_⟩
  refine (delivered_iff (plainQuery_clientQuery RRType.A) (by decide +kernel)
    (answersOf_upstreamAnswer hread) (by decide) (by decide) (by decide) hcall hasked
    (by decide +kernel) (by decide +kernel)).mpr ⟨?_, by simp only [Room]; decide⟩
  intro r hr
  obtain rfl := mem_singleton.mp hr
  exact ⟨by unfold Dotless; decide, .a rfl⟩

/-- **A service record is dropped**: upstream answers with one SRV record, and the client gets
NOERROR without an answer. -/
theorem service_dropped :
    ∃ tr n q, Calls sampleConfig .sample Env.sample.anchors (clientResponse serviceRecord) tr
        (some (responseOctets serviceRecord)) ∧
      .op (.upstreamQuery .foreground n q) (some (upstreamAnswer serviceRecord)) ∈ tr ∧
      AnswersOf (upstreamAnswer serviceRecord).resp
        [⟨[lit "a", lit "b"], SRV, serviceRecord.rdata⟩] ∧
      rcodeOf (responseOctets serviceRecord) = 0 ∧ ancount (responseOctets serviceRecord) = 0 ∧
      ¬ Delivered (responseOctets serviceRecord)
        [⟨[lit "a", lit "b"], SRV, serviceRecord.rdata⟩] := by
  have hread : serviceRecord.Reads ⟨[lit "a", lit "b"], SRV, serviceRecord.rdata⟩ :=
    ⟨⟨encodable_ab, by decide, by decide⟩, by decide, by decide, rfl,
      fun pre post => canonAt_behind (.inr ⟨rfl, rfl⟩) encodable_ab (by decide) pre post⟩
  obtain ⟨tr, n, q, hcall, hasked⟩ := calls_clientResponse serviceRecord (by decide +kernel)
    (by decide +kernel)
  have hcount : ancount (responseOctets serviceRecord) = 0 := by decide +kernel
  refine ⟨tr, n, q, hcall, hasked, answersOf_upstreamAnswer hread,
    by decide +kernel, hcount, ?_⟩
  rintro ⟨sent, ⟨-, -, -, hlen⟩, hsub⟩
  have := hsub.length_le
  rw [length_singleton] at this
  omega

end SimpleDns.Resolver
