import SimpleDns.Wire.Address

/-!
# Relaying a query to the server (`dns_forward`, `apid.c:465-530`, `doqd.c:127-190`)

`apid` and `doqd` ask the server over UDP and, where the reply has TC set, again over TCP. The reply
over TCP is read into the buffer that holds the datagram.

* **`relayed_whole_iff`**: what is relayed is one complete reply, unless the stream ends inside a
  message that differs from the datagram.
* `relayed_mixed`: it then is the beginning of the one with the end of the other.
-/

namespace SimpleDns.Api

open Wire Lib List

/-! ## The source -/

/-- `sizeof(resp)` of both callers: `DNS_BUF`, `DOQ_MAX_MSG`. -/
def respBuf : Nat := 65535

/-- What the server does: the datagram it sends, if one arrives, and, if it takes the connection,
what each `recv` can bring until one fails. -/
structure Exchange where
  datagram : Option Bytes
  stream : Option (List Bytes)
  /-- The limit of UDP over IPv4. -/
  fits : ∀ d ∈ datagram, d.length ≤ 65507

/-- `while (got < n) recv(tfd, buf + got, n - got, 0)`: what was received, and what is left. -/
def recvLoop : Nat → List Bytes → Bytes × List Bytes
  | 0, ps => ([], ps)
  | _, [] => ([], [])
  | n + 1, p :: ps =>
    if n + 1 < p.length then (p.take (n + 1), p.drop (n + 1) :: ps)
    else
      let (r, rest) := recvLoop (n + 1 - p.length) ps
      (p ++ r, rest)

/-- `dns_forward`: the first octets of the buffer, as many as are returned; `none` is -1. -/
def dnsForward (rmax : Nat) (q : Bytes) (X : Exchange) : Option Bytes :=
  if q.length < 12 then none
  else
    match X.datagram with
    | none => none
    | some d =>
      let udp := d.take rmax
      if udp.length < 12 then none
      else if byteAt udp 2 &&& 2 = 0 then some udp
      else
        match X.stream with
        | none => some udp
        | some segs =>
          let (lr, rest) := recvLoop 2 segs
          if lr.length < 2 then some udp
          else
            let tlen := get16 lr 0
            if tlen < 12 ∨ tlen > rmax then some udp
            else
              let body := (recvLoop tlen rest).1
              if body.length < tlen then some ((body ++ udp.drop body.length).take udp.length)
              else some body

/-! ## Complete replies -/

/-- The message that a stream begins with. -/
def framed (s : Bytes) : Option Bytes :=
  if 2 ≤ s.length ∧ 2 + get16 s 0 ≤ s.length then some (slice s 2 (get16 s 0)) else none

/-- One complete reply of the server. -/
def Exchange.Replied (X : Exchange) (out : Bytes) : Prop :=
  X.datagram = some out ∨ ∃ segs, X.stream = some segs ∧ framed segs.flatten = some out

/-- How the stream is cut does not matter. -/
theorem recvLoop_stream (n : Nat) (ps : List Bytes) :
    (recvLoop n ps).1 = ps.flatten.take n ∧ (recvLoop n ps).2.flatten = ps.flatten.drop n := by
  induction ps generalizing n with
  | nil => cases n <;> simp [recvLoop]
  | cons p ps ih =>
    cases n with
    | zero => simp [recvLoop]
    | succ n =>
      unfold recvLoop
      split
      · rename_i hlt
        simp [take_append_of_le_length hlt.le, drop_append_of_le_length hlt.le]
      · rename_i hle
        obtain ⟨htake, hdrop⟩ := ih (n + 1 - p.length)
        simp [htake, hdrop, take_append, drop_append, take_of_length_le (not_lt.mp hle),
          drop_of_length_le (not_lt.mp hle)]

/-- Octets written over others leave them as they are iff they are the same ones. -/
theorem overlay_eq_iff (body d : Bytes) :
    (body ++ d.drop body.length).take d.length = d ↔ body.take d.length = d.take body.length := by
  rcases le_total body.length d.length with hle | hle
  · have hlen : (body ++ d.drop body.length).length = d.length := by simp; omega
    rw [← hlen, take_length, take_of_length_le (by omega)]
    constructor
    · intro h
      rw [← h, take_left']
      rfl
    · intro h
      nth_rewrite 1 [h]
      exact take_append_drop ..
  · simp [drop_of_length_le hle, take_of_length_le hle]

/-- A truncated datagram, and a stream that ends inside its message. -/
structure Exchange.Breaks (X : Exchange) (d s : Bytes) : Prop where
  datagram : X.datagram = some d
  long : 12 ≤ d.length
  truncated : byteAt d 2 &&& 2 ≠ 0
  stream : ∃ segs, X.stream = some segs ∧ segs.flatten = s
  begun : 2 ≤ s.length ∧ 12 ≤ get16 s 0
  ends : s.length < 2 + get16 s 0

/-- What is left in the buffer then. -/
def mixed (d s : Bytes) : Bytes := (s.drop 2 ++ d.drop (s.length - 2)).take d.length

section Retried

variable {q d : Bytes} {X : Exchange} {segs : List Bytes} (hq : 12 ≤ q.length)
  (hd : X.datagram = some d) (hlong : 12 ≤ d.length) (htc : byteAt d 2 &&& 2 ≠ 0)
  (hs : X.stream = some segs)

include hq hd hlong htc hs

/-- The second exchange, by the stream as a whole. -/
theorem dnsForward_retried :
    dnsForward respBuf q X =
      if segs.flatten.length < 2 ∨ get16 segs.flatten 0 < 12 then some d
      else if segs.flatten.length < 2 + get16 segs.flatten 0 then some (mixed d segs.flatten)
      else some (slice segs.flatten 2 (get16 segs.flatten 0)) := by
  have hcut : d.take respBuf = d := take_of_length_le ((X.fits d hd).trans (by decide))
  obtain ⟨hhead, hrest⟩ := recvLoop_stream 2 segs
  generalize segs.flatten = s at hhead hrest ⊢
  unfold dnsForward
  simp only [hd, hcut, hs, hhead]
  rw [if_neg (by omega), if_neg (by omega), if_neg htc]
  by_cases htwo : s.length < 2
  · rw [if_pos (by simp; omega), if_pos (.inl htwo)]
  have hprefix : get16 (s.take 2) 0 = get16 s 0 := by simp [get16, byteAt]
  have hlt := get16_lt s 0
  rw [if_neg (by simp; omega), hprefix]
  by_cases hsmall : get16 s 0 < 12
  · rw [if_pos (.inl hsmall), if_pos (.inr hsmall)]
  have hbegun : ¬(s.length < 2 ∨ get16 s 0 < 12) := by omega
  rw [if_neg (by simp [respBuf]; omega), if_neg hbegun, (recvLoop_stream _ _).1, hrest]
  by_cases hends : s.length < 2 + get16 s 0
  · have hall : (s.drop 2).take (get16 s 0) = s.drop 2 := take_of_length_le (by simp; omega)
    rw [if_pos (by simp; omega), if_pos hends, hall, length_drop]
    rfl
  · rw [if_neg (by simp; omega), if_neg hends]
    rfl

end Retried

theorem dnsForward_breaks {q d s : Bytes} {X : Exchange} (hq : 12 ≤ q.length) (h : X.Breaks d s) :
    dnsForward respBuf q X = some (mixed d s) := by
  obtain ⟨hd, hlong, htc, ⟨segs, hs, rfl⟩, hbegun, hends⟩ := h
  rw [dnsForward_retried hq hd hlong htc hs, if_neg (by omega), if_pos hends]

/-- Everything that can be relayed. -/
theorem dnsForward_cases {q out : Bytes} {X : Exchange} (h : dnsForward respBuf q X = some out) :
    X.Replied out ∨ 12 ≤ q.length ∧ ∃ d s, X.Breaks d s ∧ out = mixed d s := by
  by_cases hq : q.length < 12
  · simp [dnsForward, hq] at h
  cases hd : X.datagram with
  | none => simp [dnsForward, hd] at h
  | some d =>
    have hcut : d.take respBuf = d := take_of_length_le ((X.fits d hd).trans (by decide))
    have hsame : dnsForward respBuf q X = some d → X.Replied out := fun h' =>
      .inl (hd.trans (h'.symm.trans h))
    by_cases hlong : d.length < 12
    · simp [dnsForward, hd, hcut, hlong] at h
    by_cases htc : byteAt d 2 &&& 2 = 0
    · exact .inl (hsame (by simp [dnsForward, hd, hcut, hlong, hq, htc]))
    cases hs : X.stream with
    | none => exact .inl (hsame (by simp [dnsForward, hd, hcut, hlong, hq, htc, hs]))
    | some segs =>
      have hretried := dnsForward_retried (not_lt.mp hq) hd (not_lt.mp hlong) htc hs
      split at hretried
      · exact .inl (hsame hretried)
      split at hretried
      · refine .inr ⟨not_lt.mp hq, d, segs.flatten, ⟨hd, not_lt.mp hlong, htc, ⟨segs, hs, rfl⟩,
          by omega, ‹_›⟩, ?_⟩
        exact Option.some.inj (h.symm.trans hretried)
      · refine .inl (.inr ⟨segs, hs, ?_⟩)
        rw [framed, if_pos (by omega), ← hretried, h]

/-- **What is relayed is one complete reply iff** a stream that ends inside its message has brought
nothing but octets of the datagram. -/
theorem relayed_whole_iff (q : Bytes) (X : Exchange) :
    (∀ out, dnsForward respBuf q X = some out → X.Replied out) ↔
      (12 ≤ q.length → ∀ d s, X.Breaks d s → (s.drop 2).take d.length = d.take (s.length - 2)) := by
  have hover : ∀ d s : Bytes, mixed d s = d ↔ (s.drop 2).take d.length = d.take (s.length - 2) := by
    intro d s
    have := overlay_eq_iff (s.drop 2) d
    rwa [length_drop] at this
  constructor
  · intro h hq d s hb
    rw [← hover]
    rcases h _ (dnsForward_breaks hq hb) with hd | ⟨segs, hs, hframed⟩
    · exact Option.some.inj (hd.symm.trans hb.datagram)
    · obtain ⟨segs', hs', rfl⟩ := hb.stream
      obtain rfl : segs = segs' := Option.some.inj (hs.symm.trans hs')
      rw [framed, if_neg (by have := hb.ends; omega)] at hframed
      cases hframed
  · intro h out hout
    rcases dnsForward_cases hout with hr | ⟨hq, d, s, hb, rfl⟩
    · exact hr
    · exact .inl (hb.datagram.trans (congrArg some ((hover d s).mpr (h hq d s hb)).symm))

/-- A truncated reply, and eight octets of a message of twelve. -/
def cutExchange : Exchange where
  datagram := some [0, 7, 0x82, 0, 0, 1, 0, 0, 0, 0, 0, 0]
  stream := some [[0], [12, 0, 7, 0x80], [0, 0, 1, 0, 2]]
  fits := by simp

/-- **A stream that breaks leaves a mixture**: a header that promises two answers, with TC gone. -/
theorem relayed_mixed :
    dnsForward respBuf (replicate 12 0) cutExchange = some [0, 7, 0x80, 0, 0, 1, 0, 2, 0, 0, 0, 0] ∧
      ¬ cutExchange.Replied [0, 7, 0x80, 0, 0, 1, 0, 2, 0, 0, 0, 0] := by
  refine ⟨by decide +kernel, ?_⟩
  rintro (h | ⟨segs, hs, hframed⟩)
  · cases h
  · cases hs
    exact absurd hframed (by decide)

end SimpleDns.Api
