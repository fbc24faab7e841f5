import SimpleDns.Lib.Buffered
import SimpleDns.Wire.Codec
import SimpleDns.Wire.Compress

/-!
# Replies of the store

`vkc_parse` of `dns_wire.c` and `resp_parse` of `dns_server.c`, the same code over two connection
types: `vkc_fill`, `vkc_readline` and `vkc_readbytes` read a fixed buffer that `recv` refills
(`Lib.Buffered`), `vkc_parse` switches on the type octet of a line.

A bulk string longer than the reply's `str` is read in one piece of `sizeof(str) - 1` octets and
pieces of 256 (`drain`). Every piece goes through `vkc_readbytes`, which skips two octets behind it,
so each piece but the last takes two octets of what follows the reply.

* `Reply`, `encode`: what the store sends.
* **`framed_iff`**: for which sequences of replies every call gives the next one or fails.
* **`reply_swallowed`**: a long bulk string and two integers: the second call gives the second one.
-/

namespace SimpleDns.Wire

open Lib List Option

/-! ## The parser -/

/-- A reply: the `type` of `vkc_reply_t` with the field that goes with it. -/
inductive Reply where
  | simple (str : Text)
  | error (str : Text)
  | bulk (str : Bytes)
  | integer (integer : Int)
  | nil
  | array (count : Int)
  deriving DecidableEq, Repr

/-- A number that `strtol` can return. -/
def clampLong (n : Int) : Int := max (-2 ^ 63) (min n (2 ^ 63 - 1))

/-- `atol`. -/
def atol (s : Text) : Int := clampLong (strtol 10 s)

/-- `atoi`, that is `(int) strtol(s, NULL, 10)`, over all its range. -/
def atoiInt (s : Text) : Int := (atol s).bmod (2 ^ 32)

section Parser

variable {σ : Type} (R : Reader UInt8 σ)

/-- `vkc_readline(c, out, olen)`: a line without its CR, cut to the buffer. -/
def vkcReadline (olen : Nat) (c : σ) : Option Text × σ :=
  match R.line c with
  | (none, c) => (none, c)
  | (some raw, c) =>
    let raw := if raw.getLast? = some 13 then raw.dropLast else raw
    (some (raw.take (olen - 1)), c)

/-- The loop over `excess`, with `char drain[257]`. -/
def drain (excess : Nat) (c : σ) : Bool × σ :=
  if _h : excess = 0 then (true, c)
  else
    let d := min excess 256
    match R.block d c with
    | (none, c) => (false, c)
    | (some _, c) => drain (excess - d) c
termination_by excess

/-- The case `$` with a length `bl` that is not negative. -/
def readBulk (strsz bl : Nat) (c : σ) : Option Reply × σ :=
  let take := if bl < strsz - 1 then bl else strsz - 1
  match R.block take c with
  | (none, c) => (none, c)
  | (some str, c) =>
    match drain R (bl - take) c with
    | (false, c) => (none, c)
    | (true, c) => (some (.bulk str), c)

/-- The switch on `line[0]`; `line + 1` is a C string. -/
def readReply (strsz : Nat) (line : Text) (c : σ) : Option Reply × σ :=
  match line with
  | [] => (none, c)
  | t :: rest =>
    if t = 43 then (some (.simple (safeStrcpy (cstr rest) strsz)), c)
    else if t = 45 then (some (.error (safeStrcpy (cstr rest) strsz)), c)
    else if t = 58 then (some (.integer (atol (cstr rest))), c)
    else if t = 36 then
      if atoiInt (cstr rest) < 0 then (some .nil, c)
      else readBulk R strsz (atoiInt (cstr rest)).toNat c
    else if t = 42 then (some (.array (atoiInt (cstr rest))), c)
    else (none, c)

/-- The body of `vkc_parse` and of `resp_parse`, with `sizeof(r->str)` as a parameter. -/
def parseReply (strsz : Nat) (c : σ) : Option Reply × σ :=
  match vkcReadline R 512 c with
  | (none, c) => (none, c)
  | (some line, c) => readReply R strsz line c

end Parser

/-- `VKC_BUF`, and `RESP_BUF` and `MAX_PEM` of the server. -/
def vkcBuf : Nat := 65536

/-- `vkc_parse`. One octet of the buffer is kept for the terminator. -/
def vkcParse : Buffered UInt8 → Option Reply × Buffered UInt8 :=
  parseReply (Reader.ofBuffer (vkcBuf - 1) 10 2) vkcBuf

/-- `resp_parse`. -/
def respParse : Buffered UInt8 → Option Reply × Buffered UInt8 :=
  parseReply (Reader.ofBuffer (vkcBuf - 1) 10 2) vkcBuf

/-! ## What the store sends -/

def crlf : Bytes := [13, 10]

/-- A number with its sign. -/
def signedDecimal (n : Int) : Text :=
  if n < 0 then 45 :: decimal n.natAbs else decimal n.toNat

namespace Reply

/-- The first line of a reply. -/
def head : Reply → Text
  | simple s => 43 :: s
  | error s => 45 :: s
  | bulk b => 36 :: decimal b.length
  | integer n => 58 :: signedDecimal n
  | nil => 36 :: signedDecimal (-1)
  | array n => 42 :: signedDecimal n

/-- What follows the first line. -/
def body : Reply → Bytes
  | bulk b => b ++ crlf
  | _ => []

/-- The reply on the wire. -/
def encode (r : Reply) : Bytes := r.head ++ crlf ++ r.body

/-- A simple string or an error is one line, a number has 64 bits and an array no other negative
count than -1. -/
def WellFormed : Reply → Prop
  | simple s | error s => 13 ∉ s ∧ 10 ∉ s
  | integer n => -2 ^ 63 ≤ n ∧ n < 2 ^ 63
  | array n => -1 ≤ n ∧ n < 2 ^ 63
  | _ => True

end Reply

/-- A sequence of replies on the wire. -/
def encodeAll (rs : List Reply) : Bytes := rs.flatMap Reply.encode

/-- What `m` calls gave, the failed ones left out, and the state behind them. -/
def calls {σ : Type} (parse : σ → Option Reply × σ) : Nat → σ → List Reply × σ
  | 0, c => ([], c)
  | m + 1, c =>
    let (got, c) := calls parse m c
    let (r, c) := parse c
    (got ++ r.toList, c)

/-- **Replies stay framed.** However the octets of `rs` arrive, the calls give the first replies of
`rs`, and a further call fails or reads exactly the next one. -/
def Framed (parse : Buffered UInt8 → Option Reply × Buffered UInt8) (rs : List Reply) : Prop :=
  ∀ c, c.unread.length < vkcBuf → c.stream = encodeAll rs → ∀ m, ∃ post,
    rs = (calls parse m c).1 ++ post ∧
      ((parse (calls parse m c).2).1 = none ∨ ∃ r rest, post = r :: rest ∧
        (calls parse m c).2.stream = encodeAll post ∧
        (parse (calls parse m c).2).1 = some r ∧
        (parse (calls parse m c).2).2.stream = encodeAll rest)

/-! ## Readers that cannot be told apart -/

section Simulation

variable {σ τ : Type} {R : Reader UInt8 σ} {S : Reader UInt8 τ} {rel : σ → τ → Prop}

open Reader (Same Simulates)

variable {s : σ} {t : τ}

section

variable (h : Simulates R S rel)

include h

theorem vkcReadline_same (olen : Nat) (hst : rel s t) :
    Same rel (vkcReadline R olen s) (vkcReadline S olen t) := by
  obtain ⟨raw, s', t', hx, hy, hrel⟩ := (h.line hst).exists_eq
  unfold vkcReadline
  rw [hx, hy]
  cases raw with
  | none | some raw => exact ⟨rfl, hrel⟩

theorem drain_same (excess : Nat) (hst : rel s t) :
    Same rel (drain R excess s) (drain S excess t) := by
  induction excess using Nat.strong_induction_on generalizing s t with
  | _ excess ih =>
    rw [drain, drain]
    by_cases h0 : excess = 0
    · rw [dif_pos h0, dif_pos h0]
      exact ⟨rfl, hst⟩
    obtain ⟨piece, s', t', hx, hy, hrel⟩ := (h.block (min excess 256) hst).exists_eq
    rw [dif_neg h0, dif_neg h0]
    simp only [hx, hy]
    cases piece with
    | none => exact ⟨rfl, hrel⟩
    | some _ => exact ih _ (by omega) hrel

theorem readBulk_same (strsz bl : Nat) (hst : rel s t) :
    Same rel (readBulk R strsz bl s) (readBulk S strsz bl t) := by
  unfold readBulk
  simp only
  generalize (if bl < strsz - 1 then bl else strsz - 1) = take
  obtain ⟨str, s', t', hx, hy, hrel⟩ := (h.block take hst).exists_eq
  rw [hx, hy]
  cases str with
  | none => exact ⟨rfl, hrel⟩
  | some str =>
    obtain ⟨ok, s', t', hx, hy, hrel⟩ := (drain_same h (bl - take) hrel).exists_eq
    simp only [hx, hy]
    cases ok with
    | false | true => exact ⟨rfl, hrel⟩

theorem readReply_same (strsz : Nat) (line : Text) (hst : rel s t) :
    Same rel (readReply R strsz line s) (readReply S strsz line t) := by
  unfold readReply
  cases line with
  | nil => exact ⟨rfl, hst⟩
  | cons c rest =>
    simp only
    split_ifs
    all_goals first
      | exact ⟨rfl, hst⟩
      | exact readBulk_same h strsz _ hst

/-- The parser gives the same on states its reader cannot tell apart. -/
theorem parseReply_same (strsz : Nat) (hst : rel s t) :
    Same rel (parseReply R strsz s) (parseReply S strsz t) := by
  obtain ⟨line, s', t', hx, hy, hrel⟩ := (vkcReadline_same h 512 hst).exists_eq
  unfold parseReply
  rw [hx, hy]
  cases line with
  | none => exact ⟨rfl, hrel⟩
  | some line => exact readReply_same h strsz line hrel

end

theorem calls_same {p : σ → Option Reply × σ} {q : τ → Option Reply × τ}
    (h : ∀ {s t}, rel s t → Same rel (p s) (q t)) (hst : rel s t) :
    ∀ m, Same rel (calls p m s) (calls q m t)
  | 0 => ⟨rfl, hst⟩
  | m + 1 => by
    obtain ⟨hgot, hrel⟩ := calls_same h hst m
    obtain ⟨hval, hrel'⟩ := h hrel
    exact ⟨by simp only [calls, hgot, hval], hrel'⟩

end Simulation

/-! ## The numbers -/

theorem notMem_signedDecimal {c : UInt8} (hc : c < 45) (n : Int) : c ∉ signedDecimal n := by
  have hlt : c < 48 := UInt8.lt_trans hc (by decide)
  unfold signedDecimal
  split
  · rw [mem_cons, not_or]
    exact ⟨UInt8.ne_of_lt hc, notMem_decimal_of_lt hlt _⟩
  · exact notMem_decimal_of_lt hlt _

theorem strtol_signedDecimal (n : Int) : strtol 10 (signedDecimal n) = n := by
  unfold signedDecimal
  split
  · rename_i hneg
    have hscan : scanNumeral 10 0 (numeral 10 n.natAbs ++ []) = (n.natAbs, []) :=
      scanNumeral_numeral (by decide) (by decide) n.natAbs (by simp [NoDigit])
    rw [append_nil] at hscan
    have hspace : isspace 45 = false := by decide
    rw [strtol, dropWhile_cons, if_neg (by simp [hspace])]
    simp only [decimal, hscan]
    omega
  · rename_i hpos
    rw [← atoi, atoi_decimal]
    omega

variable {n : Int}

theorem length_signedDecimal (hlo : -2 ^ 63 ≤ n) (hhi : n < 2 ^ 63) :
    (signedDecimal n).length ≤ 20 := by
  have hnum : ∀ k < 10 ^ 19, (decimal k).length ≤ 19 := fun k hk =>
    length_numeral_le (by decide) (by decide) hk
  unfold signedDecimal
  split
  · rw [length_cons]
    exact Nat.succ_le_succ (hnum _ (by omega))
  · exact (hnum _ (by omega)).trans (by decide)

theorem atol_signedDecimal (hlo : -2 ^ 63 ≤ n) (hhi : n < 2 ^ 63) : atol (signedDecimal n) = n := by
  rw [atol, strtol_signedDecimal, clampLong]
  omega

theorem atoiInt_lt (s : Text) : atoiInt s < 2 ^ 31 := by
  have h := Int.bmod_lt (x := atol s) (m := 2 ^ 32) (by decide)
  unfold atoiInt
  omega

theorem atoiInt_signedDecimal (hlo : -2 ^ 31 ≤ n) (hhi : n < 2 ^ 31) :
    atoiInt (signedDecimal n) = n := by
  rw [atoiInt, atol_signedDecimal (by omega) (by omega)]
  exact Int.bmod_eq_of_le (by omega) (by omega)

theorem decimal_eq_signedDecimal (n : Nat) : decimal n = signedDecimal n := by
  rw [signedDecimal, if_neg (by omega), Int.toNat_natCast]

/-! ## One call on the stream -/

/-- The reader of the two parsers, on the stream as a whole. -/
def wire : Reader UInt8 Bytes := Reader.ofStream (vkcBuf - 1) 10 2

/-- The pieces a rest of `excess` octets is drained in. -/
def pieces (excess : Nat) : Nat := (excess + 255) / 256

/-- The line of the reply fits the buffer. -/
def Reply.Readable (r : Reply) : Prop := r.head.length + 2 < vkcBuf

theorem line_wire {xs : Bytes} (hxs : 10 ∉ xs) (hlen : xs.length + 1 < vkcBuf) (rest : Bytes) :
    wire.line (xs ++ 10 :: rest) = (some xs, rest) := by
  obtain ⟨htake, hdrop⟩ := takeWhile_ne_append hxs rest
  have hin : 10 ∈ (xs ++ 10 :: rest).take (vkcBuf - 1) := by
    rw [take_append, mem_append]
    obtain ⟨k, hk⟩ : ∃ k, vkcBuf - 1 - xs.length = k + 1 := ⟨vkcBuf - 2 - xs.length, by omega⟩
    exact .inr (hk ▸ mem_cons_self)
  simp only [wire, Reader.ofStream, if_pos hin]
  rw [htake, hdrop, tail_cons]

theorem line_wire_long {xs : Bytes} (hxs : 10 ∉ xs) (hlen : vkcBuf ≤ xs.length + 1)
    (rest : Bytes) :
    wire.line (xs ++ rest) = (none, xs ++ rest) := by
  have hout : 10 ∉ (xs ++ rest).take (vkcBuf - 1) := by
    rw [take_append_of_le_length (by omega)]
    exact fun h => hxs (mem_of_mem_take h)
  simp only [wire, Reader.ofStream, if_neg hout]

variable {r : Reply}

theorem Reply.lf_notMem_line (hr : r.WellFormed) : 10 ∉ r.head ++ [13] := by
  have hnum : ∀ n : Int, 10 ∉ signedDecimal n := notMem_signedDecimal (by decide)
  refine fun hmem => absurd ((mem_append.mp hmem).resolve_right (by decide)) ?_
  cases r with
  | simple s | error s => exact mt mem_cons.mp (not_or.mpr ⟨by decide, hr.2⟩)
  | bulk b =>
    rw [head, decimal_eq_signedDecimal]
    exact mt mem_cons.mp (not_or.mpr ⟨by decide, hnum _⟩)
  | integer n | nil | array n => exact mt mem_cons.mp (not_or.mpr ⟨by decide, hnum _⟩)

theorem Reply.encode_append (r : Reply) (rest : Bytes) :
    r.encode ++ rest = (r.head ++ [13]) ++ 10 :: (r.body ++ rest) := by
  simp [encode, crlf]

/-- A readable line is read without its end, as far as `line[512]` holds it. -/
theorem parseReply_readable (hr : r.WellFormed) (hread : r.Readable) (strsz : Nat) (rest : Bytes) :
    parseReply wire strsz (r.encode ++ rest) =
      readReply wire strsz (r.head.take 511) (r.body ++ rest) := by
  have hline := line_wire (Reply.lf_notMem_line hr) (by rw [length_append]; exact hread)
    (r.body ++ rest)
  rw [parseReply, vkcReadline, r.encode_append, hline]
  simp

/-- A line that does not fit the buffer stays where it is. -/
theorem parseReply_unreadable (hr : r.WellFormed) (hread : ¬ r.Readable) (strsz : Nat)
    (rest : Bytes) : parseReply wire strsz (r.encode ++ rest) = (none, r.encode ++ rest) := by
  have hline := line_wire_long (Reply.lf_notMem_line hr)
    (by rw [length_append]; exact not_lt.mp hread) (10 :: (r.body ++ rest))
  rw [parseReply, vkcReadline, r.encode_append, hline]

variable {s : Bytes}

/-- At most one octet is left: no call succeeds any more. -/
theorem parseReply_dead (strsz : Nat) (hs : s.length ≤ 1) :
    ∃ s', parseReply wire strsz s = (none, s') ∧ s'.length ≤ 1 := by
  by_cases h10 : s = [10]
  · subst h10
    have hline : wire.line ([] ++ [10]) = (some [], []) := line_wire (by simp) (by decide) []
    refine ⟨[], ?_, by simp⟩
    rw [parseReply, vkcReadline, ← nil_append [10], hline]
    rfl
  · have hno : 10 ∉ s := by
      intro hmem
      obtain ⟨x, rfl⟩ := length_eq_one_iff.mp
        (le_antisymm hs (length_pos_of_mem hmem))
      exact h10 (by rw [mem_singleton.mp hmem])
    have hline : wire.line s = (none, s) := by
      simp only [wire, Reader.ofStream, if_neg fun h => hno (mem_of_mem_take h)]
    exact ⟨s, by rw [parseReply, vkcReadline, hline], hs⟩

/-- A piece takes two octets more than it has, or all there are but one. -/
theorem block_wire (n : Nat) (s : Bytes) :
    (n + 2 ≤ s.length ∧ wire.block n s = (some (s.take n), s.drop (n + 2))) ∨
      (s.length < n + 2 ∧ ∃ s', wire.block n s = (none, s') ∧ s'.length ≤ 1) := by
  by_cases hroom : n + 2 ≤ s.length
  · exact .inl ⟨hroom, by simp only [wire, Reader.ofStream, if_pos hroom]⟩
  · refine .inr ⟨not_le.mp hroom, s.drop n, ?_, by rw [length_drop]; omega⟩
    simp only [wire, Reader.ofStream, if_neg hroom]

/-- **What a drain costs**: two octets for every piece. -/
theorem drain_wire (excess : Nat) (s : Bytes) :
    (excess + 2 * pieces excess ≤ s.length ∧
        drain wire excess s = (true, s.drop (excess + 2 * pieces excess))) ∨
      (s.length < excess + 2 * pieces excess ∧
        ∃ s', drain wire excess s = (false, s') ∧ s'.length ≤ 1) := by
  induction excess using Nat.strong_induction_on generalizing s with
  | _ excess ih =>
    rw [drain]
    by_cases h0 : excess = 0
    · left
      rw [dif_pos h0]
      simp [h0, pieces]
    rw [dif_neg h0]
    have hpieces : pieces excess = pieces (excess - min excess 256) + 1 := by
      unfold pieces
      omega
    rcases block_wire (min excess 256) s with ⟨hroom, hblock⟩ | ⟨hshort, s', hblock, hs'⟩
    · simp only [hblock]
      rcases ih (excess - min excess 256) (by omega) (s.drop (min excess 256 + 2)) with
        ⟨hle, heq⟩ | ⟨hlt, s', heq, hs'⟩
      · left
        rw [length_drop] at hle
        refine ⟨by omega, ?_⟩
        rw [heq, drop_drop]
        congr 2
        omega
      · right
        rw [length_drop] at hlt
        exact ⟨by omega, s', heq, hs'⟩
    · simp only [hblock]
      exact .inr ⟨by omega, s', rfl, hs'⟩

/-- The octets a bulk string of announced length `bl` takes. -/
def bulkCost (strsz bl : Nat) : Nat := bl + 2 + 2 * pieces (bl - (strsz - 1))

theorem readBulk_wire (strsz bl : Nat) (s : Bytes) :
    (bulkCost strsz bl ≤ s.length ∧ readBulk wire strsz bl s =
        (some (.bulk (s.take (min bl (strsz - 1)))), s.drop (bulkCost strsz bl))) ∨
      (s.length < bulkCost strsz bl ∧
        ∃ s', readBulk wire strsz bl s = (none, s') ∧ s'.length ≤ 1) := by
  have htake : (if bl < strsz - 1 then bl else strsz - 1) = min bl (strsz - 1) := by
    split <;> omega
  have hexcess : bl - min bl (strsz - 1) = bl - (strsz - 1) := by omega
  unfold readBulk
  simp only [htake, hexcess]
  rcases block_wire (min bl (strsz - 1)) s with ⟨hroom, hblock⟩ | ⟨hshort, s', hblock, hs'⟩
  · simp only [hblock]
    rcases drain_wire (bl - (strsz - 1)) (s.drop (min bl (strsz - 1) + 2)) with
      ⟨hle, heq⟩ | ⟨hlt, s', heq, hs'⟩
    · left
      rw [length_drop] at hle
      refine ⟨by unfold bulkCost; omega, ?_⟩
      simp only [heq, drop_drop]
      congr 2
      unfold bulkCost
      omega
    · right
      rw [length_drop] at hlt
      exact ⟨by unfold bulkCost; omega, s', by simp only [heq], hs'⟩
  · simp only [hblock]
    exact .inr ⟨by unfold bulkCost; omega, s', rfl, hs'⟩

/-! ## Which replies are read as they are -/

namespace Reply

/-- The reply fits the fields it is read into: a text into `line[512]` as a C string, a bulk string
into `str`, a count into an `int`. -/
def Fits : Reply → Prop
  | simple s | error s => s.length ≤ 510 ∧ 0 ∉ s
  | bulk b => b.length < vkcBuf
  | array n => n < 2 ^ 31
  | _ => True

/-- A long bulk string of which less follows than its drain takes too much: the call waits until
the connection ends, and fails. -/
def RunsDry (r : Reply) (rest : Bytes) : Prop :=
  ∃ b, r = bulk b ∧ b.length < 2 ^ 31 ∧ rest.length < 2 * pieces (b.length - (vkcBuf - 1))

end Reply

/-- The text of a line that is read whole is the text that was sent. -/
theorem safeStrcpy_eq_self_iff {t : Text} :
    safeStrcpy (cstr (t.take 510)) vkcBuf = t ↔ t.length ≤ 510 ∧ 0 ∉ t := by
  constructor
  · intro h
    have hmem : 0 ∉ t := by
      rw [← h]
      exact fun h0 => notMem_cstr _ (mem_of_mem_take h0)
    have hlen := congrArg length h
    have hle : (cstr (t.take 510)).length ≤ 510 :=
      (takeWhile_sublist _).length_le.trans (length_take_le _ _)
    rw [safeStrcpy, length_take] at hlen
    exact ⟨by omega, hmem⟩
  · rintro ⟨hlen, h0⟩
    rw [take_of_length_le hlen, cstr_eq_self h0, safeStrcpy]
    exact take_of_length_le (hlen.trans (by decide))

theorem cstr_take_signedDecimal (hlo : -2 ^ 63 ≤ n) (hhi : n < 2 ^ 63) :
    cstr ((signedDecimal n).take 510) = signedDecimal n := by
  rw [take_of_length_le ((length_signedDecimal hlo hhi).trans (by decide))]
  exact cstr_eq_self (notMem_signedDecimal (by decide) n)

/-- The announced length of a bulk string that is not absurdly long. -/
theorem atoiInt_length {n : Nat} (hn : n < 2 ^ 32) :
    atoiInt (cstr ((decimal n).take 510)) = (n : Int).bmod (2 ^ 32) := by
  rw [decimal_eq_signedDecimal, cstr_take_signedDecimal (by omega) (by omega), atoiInt,
    atol_signedDecimal (by omega) (by omega)]

variable {b : Bytes}

/-- The call on a bulk string, up to the announced length as it is read. -/
theorem parseReply_bulk (hread : (Reply.bulk b).Readable) (rest : Bytes) :
    parseReply wire vkcBuf ((Reply.bulk b).encode ++ rest) =
      if atoiInt (cstr ((decimal b.length).take 510)) < 0 then (some .nil, b ++ crlf ++ rest)
      else readBulk wire vkcBuf (atoiInt (cstr ((decimal b.length).take 510))).toNat
        (b ++ crlf ++ rest) := by
  rw [parseReply_readable (r := .bulk b) trivial hread]
  rfl

theorem parseReply_bulk_short (hread : (Reply.bulk b).Readable) (hb : b.length < 2 ^ 31)
    (rest : Bytes) : parseReply wire vkcBuf ((Reply.bulk b).encode ++ rest) =
      readBulk wire vkcBuf b.length (b ++ crlf ++ rest) := by
  have hnum : atoiInt (cstr ((decimal b.length).take 510)) = b.length := by
    rw [atoiInt_length (by omega)]
    exact Int.bmod_eq_of_le (by omega) (by omega)
  rw [parseReply_bulk hread, hnum, if_neg (by omega), Int.toNat_natCast]

theorem length_bulk_stream (b rest : Bytes) :
    (b ++ crlf ++ rest).length = b.length + 2 + rest.length := by
  simp [crlf]
  omega

/-- What is read of a reply that is one line. -/
def Reply.asRead : Reply → Reply
  | simple s => simple (safeStrcpy (cstr (s.take 510)) vkcBuf)
  | error s => error (safeStrcpy (cstr (s.take 510)) vkcBuf)
  | array n => array (atoiInt (cstr ((signedDecimal n).take 510)))
  | r => r

theorem parseReply_line (hr : r.WellFormed) (hread : r.Readable) (hline : ∀ b, r ≠ .bulk b)
    (rest : Bytes) : parseReply wire vkcBuf (r.encode ++ rest) = (some r.asRead, rest) := by
  rw [parseReply_readable hr hread]
  cases r with
  | simple s | error s | array n => rfl
  | bulk b => exact absurd rfl (hline b)
  | integer n =>
    show (some (Reply.integer (atol (cstr ((signedDecimal n).take 510)))), rest) = _
    rw [cstr_take_signedDecimal hr.1 hr.2, atol_signedDecimal hr.1 hr.2]
    rfl
  | nil =>
    have hneg : atoiInt (cstr ((signedDecimal (-1)).take 510)) = -1 := by
      rw [cstr_take_signedDecimal (by decide) (by decide), atoiInt_signedDecimal (by decide)
        (by decide)]
    show readReply wire vkcBuf (36 :: (signedDecimal (-1)).take 510) rest = _
    simp [readReply, hneg, Reply.asRead]

theorem Reply.asRead_eq_iff (hr : r.WellFormed) (hline : ∀ b, r ≠ .bulk b) :
    r.asRead = r ↔ r.Fits := by
  cases r with
  | simple s | error s =>
    simp only [asRead, Reply.simple.injEq, Reply.error.injEq]
    exact safeStrcpy_eq_self_iff
  | bulk b => exact absurd rfl (hline b)
  | integer n | nil => exact ⟨fun _ => trivial, fun _ => rfl⟩
  | array n =>
    have hlo := hr.1
    simp only [asRead, Reply.array.injEq]
    constructor
    · intro heq
      exact heq ▸ atoiInt_lt _
    · intro hn
      have hn : n < 2 ^ 31 := hn
      rw [cstr_take_signedDecimal (by omega) (by omega), atoiInt_signedDecimal (by omega) hn]

/-- **A reply that fits is read, and nothing else.** -/
theorem parseReply_fits (hr : r.WellFormed) (hread : r.Readable) (hfits : r.Fits) (rest : Bytes) :
    parseReply wire vkcBuf (r.encode ++ rest) = (some r, rest) := by
  by_cases hline : ∀ b, r ≠ .bulk b
  · rw [parseReply_line hr hread hline, (Reply.asRead_eq_iff hr hline).mpr hfits]
  obtain ⟨b, rfl⟩ := not_forall_not.mp hline
  have hb : b.length < 65536 := hfits
  have hcost : bulkCost vkcBuf b.length = b.length + 2 := by
    rw [bulkCost, pieces, Nat.sub_eq_zero_of_le (Nat.le_sub_one_of_lt hfits)]
  rw [parseReply_bulk_short hread (by omega)]
  rcases readBulk_wire vkcBuf b.length (b ++ crlf ++ rest) with ⟨-, heq⟩ | ⟨hlt, -⟩
  · rw [heq, hcost, Nat.min_eq_left (Nat.le_sub_one_of_lt hfits)]
    simp [crlf]
  · rw [hcost, length_bulk_stream] at hlt
    omega

theorem parseReply_runsDry (hread : r.Readable) {rest : Bytes} (hdry : r.RunsDry rest) :
    ∃ s', parseReply wire vkcBuf (r.encode ++ rest) = (none, s') ∧ s'.length ≤ 1 := by
  obtain ⟨b, rfl, hb, hrest⟩ := hdry
  rw [parseReply_bulk_short hread hb]
  rcases readBulk_wire vkcBuf b.length (b ++ crlf ++ rest) with ⟨hle, -⟩ | ⟨-, hfail⟩
  · rw [bulkCost, length_bulk_stream] at hle
    omega
  · exact hfail

/-- **Any other reply is read wrongly.** -/
theorem parseReply_wrong (hr : r.WellFormed) (hread : r.Readable) (hfits : ¬ r.Fits) {rest : Bytes}
    (hdry : ¬ r.RunsDry rest) :
    ∃ x s', parseReply wire vkcBuf (r.encode ++ rest) = (some x, s') ∧ x ≠ r := by
  by_cases hline : ∀ b, r ≠ .bulk b
  · exact ⟨_, rest, parseReply_line hr hread hline _, mt (Reply.asRead_eq_iff hr hline).mp hfits⟩
  obtain ⟨b, rfl⟩ := not_forall_not.mp hline
  have hlong : 65536 ≤ b.length := not_lt.mp hfits
  rw [parseReply_bulk hread]
  by_cases hneg : atoiInt (cstr ((decimal b.length).take 510)) < 0
  · rw [if_pos hneg]
    exact ⟨_, _, rfl, nofun⟩
  rw [if_neg hneg]
  have hlt := atoiInt_lt (cstr ((decimal b.length).take 510))
  -- the announced length is the real one, or the real one is out of reach for an `int`
  have hreal : b.length < 2 ^ 31 ∧ atoiInt (cstr ((decimal b.length).take 510)) = b.length ∨
      2 ^ 32 ≤ b.length := by
    by_cases hbig : b.length < 2 ^ 32
    · rw [atoiInt_length hbig, Int.bmod_def, Int.emod_eq_of_lt (by omega) (by omega)] at hneg ⊢
      left
      split at hneg
      · rw [if_pos ‹_›]
        omega
      · omega
    · exact .inr (not_lt.mp hbig)
  generalize atoiInt (cstr ((decimal b.length).take 510)) = bl at hneg hlt hreal
  have hcost : bulkCost vkcBuf bl.toNat ≤ (b ++ crlf ++ rest).length := by
    rw [length_bulk_stream]
    rcases hreal with ⟨hb, rfl⟩ | hbig
    · have henough : ¬ rest.length < 2 * pieces (b.length - (vkcBuf - 1)) := fun h =>
        hdry ⟨b, rfl, hb, h⟩
      rw [Int.toNat_natCast, bulkCost]
      omega
    · unfold bulkCost pieces
      omega
  rcases readBulk_wire vkcBuf bl.toNat (b ++ crlf ++ rest) with ⟨-, heq⟩ | ⟨hfail, -⟩
  · refine ⟨_, _, heq, fun hb => ?_⟩
    have hlen := congrArg length (Reply.bulk.inj hb)
    rw [length_take, vkcBuf] at hlen
    omega
  · omega

/-! ## Many calls -/

/-- **The condition.** The first reply that does not fit runs dry; if a line before it, or its own,
does not fit the buffer, it is never reached. -/
def Kept (rs : List Reply) : Prop :=
  ∀ pre r post, rs = pre ++ r :: post → (∀ x ∈ pre, x.Readable ∧ x.Fits) → r.Readable →
    r.Fits ∨ r.RunsDry (encodeAll post)

/-- Where the calls stand: in front of a reply, with those before it given, or at the end of the
stream. -/
inductive Position (rs got : List Reply) (s : Bytes) : Prop
  | aligned (post : List Reply) (hrs : rs = got ++ post)
      (hgot : ∀ x ∈ got, x.Readable ∧ x.Fits) (hs : s = encodeAll post)
  | dead (post : List Reply) (hrs : rs = got ++ post) (hs : s.length ≤ 1)

variable {rs : List Reply}

/-- One call from a position: it fails or gives the next reply, and leads to a position. -/
theorem Position.step {got : List Reply} (hwf : ∀ r ∈ rs, r.WellFormed) (hk : Kept rs)
    (hp : Position rs got s) : (∃ s', parseReply wire vkcBuf s = (none, s') ∧ Position rs got s') ∨
      ∃ r rest, rs = got ++ r :: rest ∧ s = encodeAll (r :: rest) ∧
        parseReply wire vkcBuf s = (some r, encodeAll rest) ∧
        Position rs (got ++ [r]) (encodeAll rest) := by
  cases hp with
  | dead post hrs hs =>
    obtain ⟨s', heq, hs'⟩ := parseReply_dead vkcBuf hs
    exact .inl ⟨s', heq, .dead post hrs hs'⟩
  | aligned post hrs hgot hs =>
    cases post with
    | nil =>
      have hlen : s.length ≤ 1 := by simp [hs, encodeAll]
      obtain ⟨s', heq, hs'⟩ := parseReply_dead vkcBuf hlen
      exact .inl ⟨s', heq, .dead [] hrs hs'⟩
    | cons r rest =>
      have hr : r.WellFormed := hwf r (by simp [hrs])
      have hsplit : s = r.encode ++ encodeAll rest := hs
      by_cases hread : r.Readable
      · rcases hk got r rest hrs hgot hread with hfits | hdry
        · have heq := parseReply_fits hr hread hfits (encodeAll rest)
          refine .inr ⟨r, rest, hrs, hs, hsplit ▸ heq, .aligned rest (by simp [hrs]) ?_ rfl⟩
          intro x hx
          rcases mem_append.mp hx with hx | hx
          · exact hgot x hx
          · rw [mem_singleton.mp hx]
            exact ⟨hread, hfits⟩
        · obtain ⟨s', heq, hs'⟩ := parseReply_runsDry hread hdry
          exact .inl ⟨s', hsplit ▸ heq, .dead _ hrs hs'⟩
      · have heq := parseReply_unreadable hr hread vkcBuf (encodeAll rest)
        exact .inl ⟨s, hsplit ▸ heq, .aligned _ hrs hgot hs⟩

theorem Position.calls (hwf : ∀ r ∈ rs, r.WellFormed) (hk : Kept rs) (m : Nat) :
    Position rs (calls (parseReply wire vkcBuf) m (encodeAll rs)).1
      (calls (parseReply wire vkcBuf) m (encodeAll rs)).2 := by
  induction m with
  | zero => exact .aligned rs rfl nofun rfl
  | succ m ih =>
    simp only [Wire.calls]
    rcases ih.step hwf hk with ⟨s', heq, hp⟩ | ⟨r, rest, -, -, heq, hp⟩
    · rwa [heq, toList_none, append_nil]
    · rwa [heq, toList_some]

/-- The calls over replies that fit. -/
theorem calls_fits {pre : List Reply} (hwf : ∀ r ∈ pre, r.WellFormed)
    (hfits : ∀ x ∈ pre, x.Readable ∧ x.Fits) (post : List Reply) :
    calls (parseReply wire vkcBuf) pre.length (encodeAll (pre ++ post)) =
      (pre, encodeAll post) := by
  induction pre using reverseRecOn generalizing post with
  | nil => rfl
  | append_singleton pre x ih =>
    have hx := hfits x (by simp)
    have hread := parseReply_fits (hwf x (by simp)) hx.1 hx.2 (encodeAll post)
    have hrun := ih (fun r hr => hwf r (by simp [hr])) (fun r hr => hfits r (by simp [hr]))
      (x :: post)
    rw [length_append, length_singleton, calls, append_assoc, singleton_append,
      hrun]
    have hcons : encodeAll (x :: post) = x.encode ++ encodeAll post := rfl
    simp only [hcons, hread, toList_some]

/-! ## The parsers -/

theorem vkcParse_same {c : Buffered UInt8} (h : Reader.Holds (vkcBuf - 1) c s) :
    Reader.Same (Reader.Holds (vkcBuf - 1)) (vkcParse c) (parseReply wire vkcBuf s) :=
  parseReply_same (Reader.simulates_ofBuffer 10 (by decide) (by decide)) vkcBuf h

theorem Kept.framed (hwf : ∀ r ∈ rs, r.WellFormed) (hk : Kept rs) : Framed vkcParse rs := by
  intro c hc hs m
  obtain ⟨hgot, hst⟩ := calls_same vkcParse_same ⟨hs, Nat.le_sub_one_of_lt hc⟩ m
  obtain ⟨hval, hrest, -⟩ := vkcParse_same hst
  have hp := Position.calls hwf hk m
  rw [hgot]
  rcases hp.step hwf hk with ⟨s', heq, hp'⟩ | ⟨r, rest, hrs, hpos, heq, -⟩
  · obtain ⟨post, hrs⟩ : ∃ post, rs = _ ++ post := by
      cases hp with
      | aligned post hrs _ _ | dead post hrs _ => exact ⟨post, hrs⟩
    exact ⟨post, hrs, .inl (by rw [hval, heq])⟩
  · refine ⟨r :: rest, hrs, .inr ⟨r, rest, rfl, hst.1.trans hpos, ?_, ?_⟩⟩
    · rw [hval, heq]
    · rw [hrest, heq]

/-- A connection of which nothing is read, with all of `rs` to come in one piece. -/
def fresh (rs : List Reply) (h : encodeAll rs ≠ []) : Buffered UInt8 :=
  .ofPieces [encodeAll rs] (by simpa using h)

theorem holds_fresh (rs : List Reply) (h : encodeAll rs ≠ []) :
    Reader.Holds (vkcBuf - 1) (fresh rs h) (encodeAll rs) :=
  ⟨by simp [fresh, Buffered.ofPieces, Buffered.stream], Nat.zero_le _⟩

theorem encodeAll_ne_nil (pre : List Reply) (r : Reply) (post : List Reply) :
    encodeAll (pre ++ r :: post) ≠ [] := by
  simp [encodeAll, Reply.encode, crlf]

theorem Framed.kept (hwf : ∀ r ∈ rs, r.WellFormed) (hf : Framed vkcParse rs) : Kept rs := by
  intro pre r post hrs hpre hread
  have hne : encodeAll rs ≠ [] := hrs ▸ encodeAll_ne_nil pre r post
  have hholds := holds_fresh rs hne
  obtain ⟨hgot, hst⟩ := calls_same vkcParse_same hholds pre.length
  have hrun := calls_fits (fun x hx => hwf x (by simp [hrs, hx])) hpre (r :: post)
  rw [← hrs] at hrun
  rw [hrun] at hgot hst
  obtain ⟨post', hrs', hnext⟩ := hf (fresh rs hne)
    (Nat.lt_of_le_sub_one (by decide) hholds.2) hholds.1 pre.length
  rw [hgot, hrs] at hrs'
  obtain rfl := append_cancel_left hrs'
  by_contra hbad
  rw [not_or] at hbad
  obtain ⟨x, s', heq, hx⟩ := parseReply_wrong (hwf r (by simp [hrs])) hread hbad.1 hbad.2
  have hval := (vkcParse_same hst).1
  have hcons : encodeAll (r :: post) = r.encode ++ encodeAll post := rfl
  rw [hcons, heq] at hval
  rcases hnext with hnone | ⟨r', rest, hpost, -, hsome, -⟩
  · rw [hval] at hnone
    cases hnone
  · rw [hval] at hsome
    exact hx ((some.inj hsome).trans (cons.inj hpost).1.symm)

/-- **Replies stay framed exactly if the first one that does not fit runs dry**, in both parsers. -/
theorem framed_iff {rs : List Reply} (hwf : ∀ r ∈ rs, r.WellFormed) :
    (Framed vkcParse rs ↔ Kept rs) ∧ (Framed respParse rs ↔ Kept rs) :=
  ⟨⟨Framed.kept hwf, Kept.framed hwf⟩, ⟨Framed.kept hwf, Kept.framed hwf⟩⟩

theorem kept_of_fits (h : ∀ r ∈ rs, r.Fits) : Kept rs :=
  fun _ r _ hrs _ _ => .inl (h r (by simp [hrs]))

/-- A value, a missing value and a status are read as they are, however they arrive. -/
theorem get_get_set_framed :
    Framed vkcParse [.bulk (lit "a"), .nil, .simple (lit "OK")] ∧
      Framed respParse [.bulk (lit "a"), .nil, .simple (lit "OK")] := by
  have hwf : ∀ r ∈ [Reply.bulk (lit "a"), .nil, .simple (lit "OK")], r.WellFormed := by
    simp [Reply.WellFormed]
    decide
  have hk : Kept [.bulk (lit "a"), .nil, .simple (lit "OK")] :=
    kept_of_fits (by simp [Reply.Fits]; decide)
  exact ⟨(framed_iff hwf).1.mpr hk, (framed_iff hwf).2.mpr hk⟩

/-- A bulk string of 66047 octets is drained in two pieces behind the first, so that the call takes
the four octets of the integer behind it as well. -/
theorem calls_swallow (hb : b.length = 66047) :
    calls (parseReply wire vkcBuf) 2 (encodeAll [.bulk b, .integer 1, .integer 2]) =
      ([.bulk (b.take 65535), .integer 2], []) := by
  have hread : (Reply.bulk b).Readable := by
    rw [Reply.Readable, Reply.head, hb]
    decide
  have hfirst : parseReply wire vkcBuf (encodeAll [.bulk b, .integer 1, .integer 2]) =
      (some (.bulk (b.take 65535)), encodeAll [.integer 2]) := by
    have hcons : encodeAll [.bulk b, .integer 1, .integer 2] =
        (Reply.bulk b).encode ++ encodeAll [.integer 1, .integer 2] := rfl
    have hcost : bulkCost vkcBuf b.length = (b ++ crlf).length + 4 := by
      rw [hb, length_append, hb]
      decide
    have hdrop : (encodeAll [.integer 1, .integer 2]).drop 4 = encodeAll [.integer 2] := by
      decide
    rw [hcons, parseReply_bulk_short hread (by omega)]
    rcases readBulk_wire vkcBuf b.length (b ++ crlf ++ encodeAll [.integer 1, .integer 2])
      with ⟨-, heq⟩ | ⟨hlt, -⟩
    · have hmin : min b.length (vkcBuf - 1) = 65535 := by
        rw [hb]
        decide
      rw [heq, hcost, drop_length_add_append, hdrop, hmin, append_assoc,
        take_append_of_le_length (by omega)]
    · have hrest : (encodeAll [.integer 1, .integer 2]).length = 8 := by decide
      rw [hcost, length_append, hrest] at hlt
      omega
  have hsecond : parseReply wire vkcBuf (encodeAll [.integer 2]) = (some (.integer 2), []) := by
    have hwf : (Reply.integer 2).WellFormed := ⟨by decide, by decide⟩
    have hread : (Reply.integer 2).Readable := by
      unfold Reply.Readable
      decide
    exact parseReply_fits hwf hread trivial []
  simp only [calls, hfirst, hsecond]
  rfl

/-- **A reply is taken for the answer to another command.** Behind a value of 66047 octets the
integer 1 is lost: the second call gives the integer 2. -/
theorem reply_swallowed :
    ¬ Framed vkcParse [.bulk (replicate 66047 97), .integer 1, .integer 2] ∧
      ∃ c : Buffered UInt8, c.unread = [] ∧
        c.stream = encodeAll [.bulk (replicate 66047 97), .integer 1, .integer 2] ∧
        (calls vkcParse 2 c).1 = [.bulk (replicate 65535 97), .integer 2] := by
  have hb := length_replicate (n := 66047) (a := (97 : UInt8))
  have htake : (replicate 66047 (97 : UInt8)).take 65535 = replicate 65535 97 :=
    take_replicate
  generalize replicate 66047 (97 : UInt8) = b at hb htake
  generalize replicate 65535 (97 : UInt8) = b' at htake
  have hne : encodeAll [.bulk b, .integer 1, .integer 2] ≠ [] := encodeAll_ne_nil [] _ _
  have hholds := holds_fresh _ hne
  have hcalls := (calls_same vkcParse_same hholds 2).1
  rw [calls_swallow hb, htake] at hcalls
  refine ⟨fun hf => ?_, _, rfl, hholds.1, hcalls⟩
  obtain ⟨post, hrs, -⟩ := hf _ (Nat.lt_of_le_sub_one (by decide) hholds.2) hholds.1 2
  rw [hcalls] at hrs
  have hlen := congrArg length (Reply.bulk.inj (cons.inj hrs).1)
  rw [← htake, length_take] at hlen
  omega

end SimpleDns.Wire
