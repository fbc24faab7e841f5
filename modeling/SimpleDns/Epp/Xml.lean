import SimpleDns.Wire.Codec
import SimpleDns.Wire.Compress

/-!
# The EPP/XML tokenizer (`eppd.c:393-805`)

The functions of the source take a buffer and a range `[pos, end)` of it and read nothing else, so a
range is the list of its octets here, and a position in it the octets that are left.

* `nextTag` (`xml_next_tag`): the next tag-like construct.
* `skipToClose`, `xmlFindChild`, `children`: `xml_skip_to_close`, `xml_find_child`, and a loop over
  the siblings of one name. Every tag takes an octet at least, so the range's length is enough fuel.
* `attrExtract` (`epp_xml_attr_extract`): the value of an attribute.
* `textDecode` (`xml_text_decode`): the octets written to the buffer, and whether the result is not
  `-1`; a caller that ignores the result goes on with what was written.
-/

namespace SimpleDns.Epp

open Wire Lib List

/-! ## Tags -/

/-- What `xml_next_tag` finds. `start` are the octets from the `<` on, `rest` those behind the
tag. -/
inductive Tag
  | opening (name start rest : Bytes)
  | closing (name start rest : Bytes)
  | selfClosing (name start rest : Bytes)
  | skip (rest : Bytes)
  | error
  | eof
deriving DecidableEq, Repr

/-- The octets behind the first occurrence of `stop`. -/
def behind (stop : Bytes) : Bytes → Option Bytes
  | [] => none
  | c :: cs => if stop.isPrefixOf (c :: cs) then some ((c :: cs).drop stop.length)
      else behind stop cs

/-- The octets that do not end a tag name. -/
def inName (c : UInt8) : Bool := !(c = 62 ∨ c = 47 ∨ c = 32 ∨ c = 9 ∨ c = 13 ∨ c = 10)

/-- The end of a tag behind its name, inside the quotes `quote` if there are: whether it closes
itself, and what follows. A tag that the range cuts off ends there; an open quote is an error. -/
def tagEnd : Option UInt8 → Bytes → Option (Bool × Bytes)
  | none, [] => some (false, [])
  | some _, [] => none
  | some q, c :: cs => tagEnd (if c = q then none else some q) cs
  | none, c :: cs =>
    if c = 34 ∨ c = 39 then tagEnd (some c) cs
    else if c = 47 ∧ cs.head? = some 62 then some (true, cs.tail)
    else if c = 62 then some (false, cs)
    else tagEnd none cs

/-- A construct that is skipped up to its end. -/
def Tag.skipTo (stop rest : Bytes) : Tag :=
  match behind stop rest with
  | some r => .skip r
  | none => .error

/-- A tag with a name; `start` begins with its `<`. -/
def namedTag (start body : Bytes) : Tag :=
  let close := body.head? = some 47
  let named := if close then body.tail else body
  let name := named.takeWhile inName
  let tail := named.dropWhile inName
  if name = [] ∨ tail = [] then .error
  else
    match tagEnd none tail with
    | none => .error
    | some (self, rest) =>
      if close then if self then .error else .closing name start rest
      else if self then .selfClosing name start rest
      else .opening name start rest

variable (range : Bytes)

/-- `xml_next_tag`. -/
def nextTag : Tag :=
  match range.dropWhile (· ≠ 60) with
  | [] => .eof
  | lt :: body =>
    match body with
    | 33 :: decl =>
      if (lit "--").isPrefixOf decl then .skipTo (lit "-->") (decl.drop 2)
      else if (lit "[CDATA[").isPrefixOf decl then .skipTo (lit "]]>") (decl.drop 7)
      else .error
    | 63 :: instr => .skipTo (lit "?>") instr
    | _ => namedTag (lt :: body) body

/-! ## Elements -/

/-- `EPP_XML_MAX_DEPTH`. -/
def eppXmlMaxDepth : Nat := 32

/-- `xml_skip_to_close`: the octets from the close tag on, and those behind it. -/
def skipToClose : Nat → Nat → Bytes → Bytes → Option (Bytes × Bytes)
  | 0, _, _, _ => none
  | fuel + 1, depth, name, range =>
    if depth > eppXmlMaxDepth then none
    else
      match nextTag range with
      | .skip rest => skipToClose fuel depth name rest
      | .opening inner _ rest =>
        match skipToClose fuel (depth + 1) inner rest with
        | none => none
        | some (_, rest') => skipToClose fuel depth name rest'
      | .selfClosing _ _ rest => skipToClose fuel depth name rest
      | .closing inner start rest => if inner = name then some (start, rest) else none
      | .error => none
      | .eof => none

/-- An element that was found: its opening tag, its content and what follows it. -/
structure Found where
  openTag : Bytes
  content : Bytes
  rest : Bytes
deriving DecidableEq, Repr

/-- The loop of `xml_find_child`; `error` is `-1`, `none` is 0. -/
def findLoop (tag : Text) : Nat → Bytes → Except Unit (Option Found)
  | 0, _ => .error ()
  | fuel + 1, range =>
    match nextTag range with
    | .skip rest => findLoop tag fuel rest
    | .closing _ _ _ => .ok none
    | .eof => .ok none
    | .selfClosing name start rest =>
      if name = tag then .ok (some ⟨start.take (start.length - rest.length), [], rest⟩)
      else findLoop tag fuel rest
    | .opening name start rest =>
      match skipToClose (rest.length + 1) 1 name rest with
      | none => .error ()
      | some (close, rest') =>
        if name = tag then
          .ok (some ⟨start.take (start.length - rest.length),
            rest.take (rest.length - close.length), rest'⟩)
        else findLoop tag fuel rest'
    | .error => .error ()

variable (tag : Text)

/-- `xml_find_child`. -/
def xmlFindChild : Except Unit (Option Found) :=
  findLoop tag (range.length + 1) range

/-- The element where `xml_find_child` returns 1. -/
def child : Option Found :=
  match xmlFindChild range tag with
  | .ok found => found
  | .error () => none

/-- The siblings that a loop over `xml_find_child` meets. -/
def childrenLoop (tag : Text) : Nat → Bytes → List Found
  | 0, _ => []
  | fuel + 1, range =>
    match child range tag with
    | none => []
    | some f => f :: childrenLoop tag fuel f.rest

/-- The elements of one name, in their order. -/
def children : List Found :=
  childrenLoop tag (range.length + 1) range

/-! ## Attributes -/

/-- `isalnum` in the C locale, or an octet that continues an attribute name. -/
def inIdentifier (c : UInt8) : Bool :=
  (48 ≤ c && c ≤ 57) || (65 ≤ c && c ≤ 90) || (97 ≤ c && c ≤ 122) || c == 58 || c == 45

/-- Blanks between the parts of an attribute. -/
def blank (c : UInt8) : Bool := c == 32 || c == 9

/-- The value behind an attribute name: `none` if this is no attribute, `some none` for a value
without its closing quote. -/
def attrValue (s : Bytes) : Option (Option Bytes) :=
  match s.dropWhile blank with
  | 61 :: s =>
    match s.dropWhile blank with
    | q :: s =>
      if q = 34 ∨ q = 39 then some (if q ∈ s then some (s.takeWhile (· ≠ q)) else none) else none
    | [] => none
  | _ => none

/-- The loop of `epp_xml_attr_extract` behind the octet `prev`. -/
def attrLoop (attr : Text) : Option UInt8 → Bytes → Text
  | _, [] => []
  | prev, c :: cs =>
    if cs.length + 1 ≤ attr.length then []
    else if prev.any inIdentifier ∨ ¬ attr.isPrefixOf (c :: cs) then attrLoop attr (some c) cs
    else
      match attrValue ((c :: cs).drop attr.length) with
      | none => attrLoop attr (some c) cs
      | some none => []
      | some (some v) => v

/-- `epp_xml_attr_extract` on an opening tag. -/
def attrExtract (openTag : Bytes) (attr : Text) (cap : Nat) : Text :=
  cstr ((attrLoop attr none openTag).take (cap - 1))

/-! ## Text -/

/-- `strtol(s, &endp, base)` where nothing may be left behind the number. -/
def strtolWhole (base : Nat) (s : Text) : Option Int :=
  let s := s.dropWhile isspace
  let neg := s.head? = some 45
  let digits := if neg ∨ s.head? = some 43 then s.tail else s
  let hex := base = 16 ∧ digits.head? = some 48 ∧
    (digits[1]? = some 120 ∨ digits[1]? = some 88) ∧ (digits[2]?.bind (digitVal 16)).isSome
  let digits := if hex then digits.drop 2 else digits
  let (n, rest) := scanNumeral base 0 digits
  if (digits.head?.bind (digitVal base)).isNone ∨ rest ≠ [] then none
  else some (if neg then -(n : Int) else n)

/-- The code point of an entity reference, without `&` and `;`. -/
def entity (e : Bytes) : Option Nat :=
  if e = lit "lt" then some 60
  else if e = lit "gt" then some 62
  else if e = lit "amp" then some 38
  else if e = lit "apos" then some 39
  else if e = lit "quot" then some 34
  else if e.length ≥ 2 ∧ e.head? = some 35 then
    let hex := e.length ≥ 3 ∧ (e[1]? = some 120 ∨ e[1]? = some 88)
    let v := strtolWhole (if hex then 16 else 10) (cstr (e.drop (if hex then 2 else 1)))
    v.bind fun v => if v ≤ 0 ∨ v > 0x10FFFF then none else some v.toNat
  else none

/-- UTF-8. -/
def utf8 (cp : Nat) : Bytes :=
  if cp < 0x80 then [cp.toUInt8]
  else if cp < 0x800 then [(0xC0 + cp / 64).toUInt8, (0x80 + cp % 64).toUInt8]
  else if cp < 0x10000 then
    [(0xE0 + cp / 4096).toUInt8, (0x80 + cp / 64 % 64).toUInt8, (0x80 + cp % 64).toUInt8]
  else
    [(0xF0 + cp / 262144).toUInt8, (0x80 + cp / 4096 % 64).toUInt8, (0x80 + cp / 64 % 64).toUInt8,
      (0x80 + cp % 64).toUInt8]

/-- The loop of `xml_text_decode` behind the octets `out`. -/
def decodeLoop (cap : Nat) : Nat → Bytes → Bytes → Bytes × Bool
  | _, out, [] => (out, true)
  | 0, out, _ => (out, false)
  | fuel + 1, out, c :: cs =>
    if c ≠ 38 then
      if out.length ≥ cap - 1 then (out, false) else decodeLoop cap fuel (out ++ [c]) cs
    else
      let e := cs.takeWhile (· ≠ 59)
      if e.length > 11 ∨ e.length = cs.length then (out, false)
      else
        match entity e with
        | none => (out, false)
        | some cp =>
          if out.length ≥ cap - (utf8 cp).length then (out, false)
          else decodeLoop cap fuel (out ++ utf8 cp) (cs.drop (e.length + 1))

variable (content : Bytes) (cap : Nat)

/-- `xml_text_decode`: the octets written, and whether the result is not `-1`. -/
def textDecode : Bytes × Bool :=
  if content.length ≥ 12 ∧ (lit "<![CDATA[").isPrefixOf content ∧
      content.drop (content.length - 3) = lit "]]>" then
    if content.length - 12 ≥ cap then ([], false)
    else ((content.drop 9).take (content.length - 12), true)
  else decodeLoop cap content.length [] content

/-- The text of an element, where it decodes. -/
def textOf : Option Text :=
  match textDecode content cap with
  | (t, true) => some (cstr t)
  | (_, false) => none

/-- What a zeroed buffer holds after `xml_text_decode`, whatever it returned. -/
def textIn : Text := cstr (textDecode content cap).1

/-- What a buffer with the string `old` holds after `xml_text_decode`: a text that does not decode
overwrites the front of it. -/
def textOver (old : Text) (content : Bytes) (cap : Nat) : Text :=
  match textDecode content cap with
  | (t, true) => cstr t
  | (t, false) => cstr (t ++ old.drop t.length)

/-- A required text: an element that is there, decodes and is not empty. -/
def requiredText : Option Text :=
  (child range tag).bind fun f => (textOf f.content cap).filter (· ≠ [])

/-- An optional text: empty where the element is missing. -/
def optionalText : Text :=
  match child range tag with
  | some f => textIn f.content cap
  | none => []

/-! ## Texts fit their buffers -/

theorem length_decodeLoop {cap fuel : Nat} {out rest : Bytes} (h : out.length < cap) :
    (decodeLoop cap fuel out rest).1.length < cap := by
  induction fuel generalizing out rest with
  | zero => cases rest <;> exact h
  | succ fuel ih =>
    cases rest with
    | nil => exact h
    | cons c cs =>
      unfold decodeLoop
      split
      · split
        · exact h
        · refine ih ?_
          simp only [length_append, length_singleton]
          omega
      · dsimp only
        split
        · exact h
        · split
          · exact h
          · split
            · exact h
            · refine ih ?_
              simp only [length_append]
              omega

theorem length_textDecode {content : Bytes} {cap : Nat} (hcap : 0 < cap) :
    (textDecode content cap).1.length < cap := by
  unfold textDecode
  split
  · split
    · exact hcap
    · simp only [length_take, length_drop]
      omega
  · exact length_decodeLoop hcap

theorem length_cstr_le (b : Bytes) : (cstr b).length ≤ b.length :=
  (List.takeWhile_prefix _).length_le

theorem length_requiredText {range : Bytes} {tag t : Text} {cap : Nat} (hcap : 0 < cap)
    (h : requiredText range tag cap = some t) : t.length < cap ∧ 0 ∉ t ∧ t ≠ [] := by
  obtain ⟨f, -, hf⟩ := Option.bind_eq_some_iff.mp h
  obtain ⟨htext, hne⟩ := Option.filter_eq_some_iff.mp hf
  unfold textOf at htext
  split at htext
  · rename_i b hb
    cases htext
    have hlen : (textDecode f.content cap).1.length < cap := length_textDecode hcap
    rw [hb] at hlen
    exact ⟨(length_cstr_le b).trans_lt hlen, notMem_cstr b, by simpa using hne⟩
  · cases htext

end SimpleDns.Epp
