import SimpleDns.Lib.Buffered
import SimpleDns.Wire.Compress

/-!
# Frames of a connection (`eppd.c:311-374`)

A frame is its total length in four octets and a payload (RFC 5734). `epp_read_frame` collects what
the connection brings in a buffer that outlives the call, until a frame is complete.

* `readFrame_frame`: a frame in front of the stream is read, however the stream is cut.
* **`framing_exact_iff`**: payloads are returned in order, and 0 only for a closed connection,
  exactly if no payload is empty and the reading ends with the peer's close.
* **`empty_frame_closes`**: an empty frame is returned as 0.
-/

namespace SimpleDns.Epp

open Wire Lib List

/-- `EPP_MAX_FRAME`. -/
def maxFrame : Nat := 65535

/-- What `epp_frame_next` finds: too little, a wrong length, or a payload and what is behind it. -/
inductive NextFrame
  | more
  | malformed
  | frame (xml rest : Bytes)

/-- `epp_frame_next`. -/
def eppFrameNext (buf : Bytes) : NextFrame :=
  if buf.length < 4 then .more
  else if get32 buf 0 < 4 ∨ get32 buf 0 > maxFrame + 4 then .malformed
  else if buf.length < get32 buf 0 then .more
  else .frame (slice buf 4 (get32 buf 0 - 4)) (buf.drop (get32 buf 0))

/-- `epp_read_frame`: what it returns, what is in `out` then, and the connection with `acc`. A read
fails where nothing comes any more. -/
def eppReadFrame (acccap outcap : Nat) (c : Buffered UInt8) : Int × Bytes × Buffered UInt8 :=
  match eppFrameNext c.unread with
  | .malformed => (-1, [], c)
  | .frame xml rest =>
    if outcap ≤ xml.length then (-1, [], c) else (xml.length, xml, { c with unread := rest })
  | .more =>
    if acccap ≤ c.unread.length then (-1, [], c)
    else
      match _h : c.fill acccap with
      | none => (if c.unread.length = 0 then 0 else -1, [], c)
      | some c' => eppReadFrame acccap outcap c'
termination_by c.pending
decreasing_by exact (Buffered.fill_refilled _h).pending

/-- The call of `handle_session`. -/
def readFrame (c : Buffered UInt8) : Int × Bytes × Buffered UInt8 :=
  eppReadFrame (4 + maxFrame) (maxFrame + 1) c

/-- The connection after `i` calls. -/
def afterCalls (c : Buffered UInt8) : Nat → Buffered UInt8
  | 0 => c
  | i + 1 => (readFrame (afterCalls c i)).2.2

/-! ## A frame in front -/

/-- A payload as it is sent. -/
def sentFrame (p : Bytes) : Bytes := put32 (p.length + 4) ++ p

variable {p s : Bytes}

theorem get32_frameOf (hp : p.length ≤ maxFrame) (s : Bytes) :
    get32 (sentFrame p ++ s) 0 = p.length + 4 := by
  unfold maxFrame at hp
  have h := get32_put32 (v := p.length + 4) (by omega) [] (p ++ s)
  rwa [nil_append, ← append_assoc] at h

theorem length_frameOf (p : Bytes) : (sentFrame p).length = p.length + 4 := by
  simp [sentFrame, Nat.add_comm]

theorem eppFrameNext_frame (hp : p.length ≤ maxFrame) (s : Bytes) :
    eppFrameNext (sentFrame p ++ s) = .frame p s := by
  have hlen := length_frameOf p
  rw [eppFrameNext, get32_frameOf hp, if_neg (by simp [hlen]; omega), if_neg (by omega),
    if_neg (by simp [hlen]), ← hlen, drop_left, hlen, Nat.add_sub_cancel]
  simp [slice, sentFrame, put32]

/-- Less than a frame is not taken for one. -/
theorem eppFrameNext_part (hp : p.length ≤ maxFrame) {buf : Bytes} (hbuf : buf <+: sentFrame p ++ s)
    (hlt : buf.length < p.length + 4) : eppFrameNext buf = .more := by
  unfold eppFrameNext
  split
  · rfl
  · have htotal : get32 buf 0 = p.length + 4 := by
      obtain ⟨t, ht⟩ := hbuf
      rw [← get32_frameOf hp s, ← ht]
      simp only [get32, byteAt, getD_eq_getElem?_getD]
      rw [getElem?_append_left (by omega), getElem?_append_left (by omega),
        getElem?_append_left (by omega), getElem?_append_left (by omega)]
    rw [htotal, if_neg (by omega), if_pos hlt]

variable {c : Buffered UInt8}

/-- Where the frame is not complete the call reads on. -/
theorem readFrame_more (h : eppFrameNext c.unread = .more)
    (hroom : c.unread.length < 4 + maxFrame) :
    readFrame c = (c.fill (4 + maxFrame)).elim (if c.unread.length = 0 then 0 else -1, [], c)
      readFrame := by
  rw [readFrame, eppReadFrame, h]
  dsimp only
  rw [if_neg (by omega)]
  split
  · rename_i hnone
    rw [hnone]
    rfl
  · rename_i c' hsome
    rw [hsome]
    rfl

/-- **A frame is read whatever part of it has arrived.** -/
theorem readFrame_frame (hp : p.length ≤ maxFrame) {c : Buffered UInt8}
    (hc : c.unread.length ≤ 4 + maxFrame) (hstream : c.stream = sentFrame p ++ s) :
    (readFrame c).1 = p.length ∧ (readFrame c).2.1 = p ∧ (readFrame c).2.2.stream = s ∧
      (readFrame c).2.2.unread.length ≤ 4 + maxFrame := by
  have hlen := length_frameOf p
  have hpre : c.unread <+: sentFrame p ++ s := ⟨c.pieces.flatten, hstream⟩
  by_cases hlt : c.unread.length < p.length + 4
  · rw [readFrame_more (eppFrameNext_part hp hpre hlt) (by omega)]
    cases hfill : c.fill (4 + maxFrame) with
    | none =>
      rcases Buffered.fill_none hfill with hend | hfull
      · have hshort := congrArg length (hend.symm.trans hstream)
        rw [length_append] at hshort
        omega
      · omega
    | some c' =>
      have hr := Buffered.fill_refilled hfill
      exact readFrame_frame hp hr.bounded (hr.stream.trans hstream)
  · obtain ⟨rest, hrest⟩ := prefix_of_prefix_length_le (prefix_append _ s) hpre (by omega)
    have hread : readFrame c = ((p.length : Int), p, { c with unread := rest }) := by
      rw [readFrame, eppReadFrame, ← hrest, eppFrameNext_frame hp]
      exact if_neg (by omega)
    rw [Buffered.stream, ← hrest, append_assoc] at hstream
    rw [← hrest, length_append] at hc
    rw [hread]
    exact ⟨rfl, rfl, append_cancel_left hstream, by dsimp only; omega⟩
termination_by c.pending
decreasing_by exact hr.pending

/-- At the end of the stream the call returns 0. -/
theorem readFrame_end (h : c.stream = []) : readFrame c = (0, [], c) := by
  obtain ⟨hunread, hpieces⟩ := append_eq_nil_iff.mp h
  rw [readFrame_more (by rw [hunread]; rfl) (by rw [hunread]; decide), hunread]
  cases hfill : c.fill (4 + maxFrame) with
  | none => rfl
  | some c' =>
    have hless := (Buffered.fill_refilled hfill).pending
    rw [Buffered.pending, Buffered.pending, hpieces] at hless
    cases hless

/-! ## All frames -/

/-- The calls return the payloads in order, and 0 only where the peer has closed the connection
(the failing read is no error and no timeout) with nothing pending. -/
structure Exact (closed : Bool) (ps : List Bytes) (c : Buffered UInt8) : Prop where
  payloads : ∀ i p, ps[i]? = some p →
    (readFrame (afterCalls c i)).1 = p.length ∧ (readFrame (afterCalls c i)).2.1 = p
  closing : ∀ i, (readFrame (afterCalls c i)).1 = 0 → closed = true ∧ (afterCalls c i).stream = []

variable {ps : List Bytes}

theorem afterCalls_stream (hps : ∀ p ∈ ps, p.length ≤ maxFrame)
    (hc : c.unread.length ≤ 4 + maxFrame) (hstream : c.stream = ps.flatMap sentFrame) (i : Nat) :
    (afterCalls c i).stream = (ps.drop i).flatMap sentFrame ∧
      (afterCalls c i).unread.length ≤ 4 + maxFrame := by
  induction i with
  | zero => exact ⟨hstream, hc⟩
  | succ i ih =>
    obtain ⟨hs, hb⟩ := ih
    rw [afterCalls]
    by_cases hi : i < ps.length
    · rw [drop_eq_getElem_cons hi, flatMap_cons] at hs
      exact (readFrame_frame (hps _ (getElem_mem hi)) hb hs).2.2
    · rw [drop_of_length_le (by omega), flatMap_nil] at hs
      rw [readFrame_end hs, drop_of_length_le (by omega)]
      exact ⟨hs, hb⟩

/-- **When the framing is exact.** -/
theorem framing_exact_iff (hps : ∀ p ∈ ps, p.length ≤ maxFrame) {pieces : List Bytes}
    (hpieces : ∀ q ∈ pieces, q ≠ []) (hsent : pieces.flatten = ps.flatMap sentFrame)
    (closed : Bool) :
    Exact closed ps (.ofPieces pieces hpieces) ↔ (∀ p ∈ ps, p ≠ []) ∧ closed = true := by
  have hstate := afterCalls_stream hps (c := .ofPieces pieces hpieces) (Nat.zero_le _) hsent
  have hread : ∀ i (hi : i < ps.length), _ := fun i hi =>
    readFrame_frame (hps _ (getElem_mem hi)) (hstate i).2
      ((hstate i).1.trans (by rw [drop_eq_getElem_cons hi, flatMap_cons]))
  constructor
  · intro h
    refine ⟨fun p hp hnil => ?_, (h.closing ps.length ?_).1⟩
    · obtain ⟨i, hi, rfl⟩ := mem_iff_getElem.mp hp
      have hzero := (hread i hi).1
      rw [hnil] at hzero
      have hnone := (h.closing i hzero).2
      rw [(hstate i).1, drop_eq_getElem_cons hi] at hnone
      cases hnone
    · rw [readFrame_end ((hstate _).1.trans (by simp))]
  · rintro ⟨hne, hclosed⟩
    refine ⟨fun i p hp => ?_, fun i h0 => ⟨hclosed, ?_⟩⟩
    · obtain ⟨hi, rfl⟩ := List.getElem?_eq_some_iff.mp hp
      exact ⟨(hread i hi).1, (hread i hi).2.1⟩
    · by_cases hi : i < ps.length
      · rw [(hread i hi).1] at h0
        have hnil : ps[i] = [] := by simpa using h0
        exact absurd hnil (hne _ (getElem_mem hi))
      · rw [(hstate i).1, drop_of_length_le (by omega), flatMap_nil]

/-- A payload of one octet, of which half the length arrives first. -/
theorem framing_exact_cut : Exact true [[7]] (.ofPieces [[0, 0], [0, 5, 7]] (by decide)) :=
  (@framing_exact_iff [[7]] (by decide) [[0, 0], [0, 5, 7]] (by decide) rfl true).mpr
    ⟨by decide, rfl⟩

/-- **An empty frame is taken for the end of the connection**, and so is a timeout before the next
frame. -/
theorem empty_frame_closes :
    (readFrame (.ofPieces [sentFrame []] (by decide))).1 = 0 ∧
      ¬ Exact true [[]] (.ofPieces [sentFrame []] (by decide)) ∧
      (readFrame (.ofPieces [] nofun)).1 = 0 ∧ ¬ Exact false [] (.ofPieces [] nofun) := by
  have hempty := (readFrame_frame (p := []) (s := []) (c := .ofPieces [sentFrame []] (by decide))
    (by decide) (by decide) rfl).1
  have hend := congrArg Prod.fst (readFrame_end (c := .ofPieces [] nofun) rfl)
  refine ⟨hempty, fun h => ?_, hend, fun h => ?_⟩
  · cases (h.closing 0 hempty).2
  · cases (h.closing 0 hend).1

end SimpleDns.Epp
