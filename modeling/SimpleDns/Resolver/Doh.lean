import SimpleDns.Lib.Sending
import SimpleDns.Wire.Codec

/-!
# DNS over HTTPS (`doh_query_on`, `resolverd.c:2647-2760`)

The exchange behind the handshake: the head of the request is sent in one loop and the query in
another.

* `Doh`: where the exchange stands, with all that was written; `Doh.step`: one `SSL_write`.
* **`writing_ends_iff`**: the writing ends only where a write fails, because the loop over the head
  does not move; the query is never sent.

Looking up the host, connecting and the handshake are left out, each of which returns -1 or goes on,
and so is the reading of an answer, which is not reached.
-/

namespace SimpleDns.Resolver

open Wire Lib

/-! ## The request -/

/-- The head of the request. -/
def dohHead (path host : Text) (qlen : Nat) : Bytes :=
  lit "POST " ++ path ++ lit " HTTP/1.1\r\n" ++ lit "Host: " ++ host ++ lit "\r\n" ++
    lit "Content-Type: application/dns-message\r\n" ++ lit "Accept: application/dns-message\r\n" ++
    lit "Content-Length: " ++ decimal qlen ++ lit "\r\n" ++ lit "Connection: close\r\n" ++
      lit "\r\n"

/-- `char req[1024]`. -/
def dohReqCap : Nat := 1024

/-- A request whose head fits its buffer. -/
structure DohRequest where
  path : Text
  host : Text
  query : Bytes
  fits : (dohHead path host query.length).length < dohReqCap

/-- `req`. -/
def DohRequest.head (r : DohRequest) : Bytes := dohHead r.path r.host r.query.length

/-! ## Writing -/

/-- An exchange: in the loop over the head, in the loop over the query (with what was written
before), behind both (with all that was written), or given up. -/
inductive Doh
  | head (c : Sending UInt8)
  | body (before : Bytes) (c : Sending UInt8)
  | reading (written : Bytes)
  | failed
deriving DecidableEq, Repr

namespace Doh

variable (r : DohRequest)

/-- The condition of the second loop. -/
def enterBody (before : Bytes) (c : Sending UInt8) : Doh :=
  if c.Goes r.query then .body before c else .reading (before ++ c.taken)

/-- The condition of the first loop. -/
def enterHead (c : Sending UInt8) : Doh :=
  if c.Goes r.head then .head c else enterBody r c.taken .start

/-- `SSL_write` returns `n`. The first loop keeps `sent` as it is. -/
def step (n : Int) : Doh → Doh
  | .head c =>
    if n ≤ 0 then .failed else enterHead r (c.write r.head (fun sent _ => sent) n.toNat)
  | .body before c =>
    if n ≤ 0 then .failed else enterBody r before (c.write r.query (· + ·) n.toNat)
  | d => d

@[simp] theorem step_failed (n : Int) : step r n .failed = .failed := rfl

/-- The octets the next `SSL_write` is given. -/
def offered : Doh → Nat
  | .head c => r.head.length - c.sent
  | .body _ c => r.query.length - c.sent
  | _ => 0

/-- An exchange after `k` more writes, where `w i len` is what `SSL_write` returns for the write
number `i` of `len` octets. -/
def runFrom (d : Doh) (w : Nat → Nat → Int) : Nat → Doh
  | 0 => d
  | k + 1 => (runFrom d w k).step r (w k ((runFrom d w k).offered r))

/-- The exchange after `k` writes. -/
def run (w : Nat → Nat → Int) (k : Nat) : Doh := runFrom r (enterHead r .start) w k

/-- Another write is to come. -/
def Writing : Doh → Prop
  | .head _ => True
  | .body _ _ => True
  | _ => False

end Doh

/-! ## What is written -/

section Written

variable {r : DohRequest} {w : Nat → Nat → Int}

/-- What is taken by a peer that takes something each time. -/
def taken (w : Nat → Nat → Int) (i len : Nat) : Nat := (w i len).toNat

theorem DohRequest.head_ne_nil (r : DohRequest) : r.head ≠ [] := by
  intro h
  have hlen := congrArg List.length h
  simp [DohRequest.head, dohHead, lit] at hlen

/-- As long as no write fails, the exchange is in the loop over the head. -/
theorem run_head {k : Nat} (hw : ∀ i < k, 0 < w i r.head.length) :
    Doh.run r w k = .head (Sending.after r.head (fun sent _ => sent) (taken w) k) := by
  have hgoes := Sending.after_stay r.head_ne_nil (taken w)
  induction k with
  | zero =>
    have hstart : Sending.start.Goes r.head := hgoes 0
    rw [Doh.run, Doh.runFrom, Doh.enterHead, if_pos hstart, Sending.after]
  | succ k ih =>
    have hrun := ih fun i hi => hw i (Nat.lt_succ_of_lt hi)
    have hpos := hw k (Nat.lt_succ_self k)
    have hsent := Sending.sent_after_stay r.head (taken w) k
    have hnext := hgoes (k + 1)
    rw [Doh.run] at hrun ⊢
    rw [Doh.runFrom, hrun, Doh.offered, hsent, Nat.sub_zero, Doh.step, if_neg (not_le.mpr hpos)]
    rw [Sending.after, if_pos (hgoes k), hsent, Nat.sub_zero] at hnext ⊢
    exact if_pos hnext

/-- A write of the head that fails ends the exchange. -/
theorem run_failed {k : Nat} (hw : ∀ i < k, 0 < w i r.head.length) (hk : w k r.head.length ≤ 0) :
    Doh.run r w (k + 1) = .failed := by
  have hrun := run_head hw
  have hsent := Sending.sent_after_stay r.head (taken w) k
  rw [Doh.run] at hrun ⊢
  rw [Doh.runFrom, hrun, Doh.offered, hsent, Nat.sub_zero, Doh.step, if_pos hk]

theorem run_failed_le {j k : Nat} (h : Doh.run r w j = .failed) (hjk : j ≤ k) :
    Doh.run r w k = .failed := by
  induction hjk with
  | refl => exact h
  | step _ ih =>
    rw [Doh.run] at ih ⊢
    rw [Doh.runFrom, ih, Doh.step_failed]

/-- The request was sent: the exchange gets to reading, and what was written before is the head and
the query, once. -/
def SentOnce (r : DohRequest) (w : Nat → Nat → Int) : Prop :=
  ∃ k, Doh.run r w k = .reading (r.head ++ r.query)

/-- **The writing ends only where a write of the head fails, and the request is never sent.** -/
theorem writing_ends_iff (r : DohRequest) (w : Nat → Nat → Int) :
    ((∃ k, ¬ (Doh.run r w k).Writing) ↔ ∃ k, w k r.head.length ≤ 0) ∧ ¬ SentOnce r w := by
  -- at each moment, either no write has failed yet or the first failure is behind it
  have hcases : ∀ k, (∀ i < k, 0 < w i r.head.length) ∨
      (∃ i, w i r.head.length ≤ 0) ∧ Doh.run r w k = .failed := by
    intro k
    by_cases hall : ∀ i < k, 0 < w i r.head.length
    · exact .inl hall
    · have hex : ∃ i, i < k ∧ w i r.head.length ≤ 0 := by simpa using hall
      have hspec := Nat.find_spec hex
      have hmin : ∀ j < Nat.find hex, 0 < w j r.head.length := by
        intro j hj
        by_contra hle
        exact Nat.find_min hex hj ⟨by omega, by omega⟩
      exact .inr ⟨⟨_, hspec.2⟩, run_failed_le (run_failed hmin hspec.2) hspec.1⟩
  refine ⟨⟨?_, ?_⟩, ?_⟩
  · rintro ⟨k, hk⟩
    rcases hcases k with hall | ⟨hex, -⟩
    · rw [run_head hall] at hk
      exact absurd trivial hk
    · exact hex
  · rintro ⟨i, hi⟩
    rcases hcases (i + 1) with hall | ⟨-, hfail⟩
    · exact absurd (hall i (Nat.lt_succ_self i)) (not_lt.mpr hi)
    · exact ⟨i + 1, by rw [hfail]; exact id⟩
  · rintro ⟨k, hk⟩
    rcases hcases k with hall | ⟨-, hfail⟩
    · cases (run_head hall).symm.trans hk
    · cases hfail.symm.trans hk

end Written

/-! ## A peer that takes everything -/

/-- A query of twelve octets to the host `h`. -/
def smallRequest : DohRequest := ⟨lit "/dns-query", lit "h", List.replicate 12 0, by decide +kernel⟩

/-- **A peer that takes all it is given gets the head again and again.** -/
theorem head_sent_forever :
    ∃ (r : DohRequest) (w : Nat → Nat → Int), (∀ i len, 0 < len → 0 < w i len ∧ w i len ≤ len) ∧
      (∀ k, (Doh.run r w k).Writing) ∧ ¬ SentOnce r w := by
  have hpos : ∀ len : Nat, 0 < len → (0 : Int) < len := fun _ h => Int.natCast_pos.mpr h
  have hhead := hpos _ (List.length_pos_iff.mpr smallRequest.head_ne_nil)
  refine ⟨smallRequest, fun _ len => len, fun _ len h => ⟨hpos len h, le_rfl⟩, ?_, ?_⟩
  · intro k
    rw [run_head fun i _ => hhead]
    trivial
  · rintro ⟨k, hk⟩
    rw [run_head fun i _ => hhead] at hk
    cases hk

end SimpleDns.Resolver
