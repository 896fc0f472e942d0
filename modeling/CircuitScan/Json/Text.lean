import CircuitScan.Json.Reader

/-!
# CircuitScan.Json.Text

Quoted texts. Control characters have to be escaped, and a code point beyond the sixteen-bit range
is escaped as a surrogate pair: a high half followed at once by a low half.
-/

namespace CircuitScan.Json

/-! ## Escapes -/

/-- The value of a hexadecimal digit. -/
def hexDigit? (c : Char) : Option Nat :=
  if '0' ≤ c && c ≤ '9' then some (c.toNat - '0'.toNat)
  else if 'a' ≤ c && c ≤ 'f' then some (c.toNat - 'a'.toNat + 10)
  else if 'A' ≤ c && c ≤ 'F' then some (c.toNat - 'A'.toNat + 10)
  else none

/-- The character of an escape of two characters. -/
def shortEscape? : Char → Option Char
  | '"' => some '"'
  | '\\' => some '\\'
  | '/' => some '/'
  | 'b' => some '\x08'
  | 'f' => some '\x0c'
  | 'n' => some '\n'
  | 'r' => some '\r'
  | 't' => some '\t'
  | _ => none

/-- Whether a number is a high half of a surrogate pair. -/
def isHighHalf (n : Nat) : Bool := 0xD800 ≤ n && n ≤ 0xDBFF

/-- Whether a number is a low half of a surrogate pair. -/
def isLowHalf (n : Nat) : Bool := 0xDC00 ≤ n && n ≤ 0xDFFF

/-- The character of a surrogate pair. -/
def ofHalves (high low : Nat) : Char :=
  Char.ofNat (0x10000 + (high - 0xD800) * 0x400 + (low - 0xDC00))

/-- The number of bytes of a text in UTF-8. -/
def byteLength (cs : List Char) : Nat := cs.foldl (fun n c => n + c.utf8Size) 0

/-! ## Texts -/

/-- Where the reader of a text is. -/
inductive TextMode where
  /-- between two characters -/
  | plain
  /-- behind a backslash -/
  | escape
  /-- behind `\u` and some of its four digits; `high` is the high half that came before -/
  | digits (left value : Nat) (high : Option Nat)
  /-- behind a high half, in front of the backslash of the low one -/
  | lowHalf (high : Nat)
  /-- behind a high half and a backslash -/
  | lowEscape (high : Nat)

/-- What the code unit `n` adds to a text, and how the text goes on. A skimmed text takes every
unit for a character. -/
def endUnit (rigor : Rigor) (n : Nat) (high : Option Nat) :
    Except Fault (Option Char × TextMode) :=
  match rigor, high with
  | .skim, _ => .ok (some (Char.ofNat n), .plain)
  | .full, some h =>
    if isLowHalf n then .ok (some (ofHalves h n), .plain) else .error .malformed
  | .full, none =>
    if isLowHalf n then .error .malformed
    else if isHighHalf n then .ok (none, .lowHalf n)
    else .ok (some (Char.ofNat n), .plain)

/-- Reads a text through its closing quote; `acc` is what has been read of it. Four digits have to
follow `\u`: a text with fewer than four bytes left there is truncated, whatever they are. -/
def textFrom (rigor : Rigor) : TextMode → (acc : String) → List Char →
    Except Fault (String × List Char)
  | _, _, [] => .error .truncated
  | .plain, acc, c :: cs =>
    if c = '"' then .ok (acc, cs)
    else if c = '\\' then textFrom rigor .escape acc cs
    else if c.toNat < 0x20 then .error .malformed
    else textFrom rigor .plain (acc.push c) cs
  | .escape, acc, c :: cs =>
    if c = 'u' then
      if byteLength (cs.take 4) < 4 then .error .truncated
      else textFrom rigor (.digits 4 0 none) acc cs
    else match shortEscape? c with
      | some d => textFrom rigor .plain (acc.push d) cs
      | none => .error .malformed
  | .digits left value high, acc, c :: cs =>
    match hexDigit? c with
    | none => .error .malformed
    | some d =>
      let value := value * 16 + d
      if left ≤ 1 then
        match endUnit rigor value high with
        | .error e => .error e
        | .ok (some ch, mode) => textFrom rigor mode (acc.push ch) cs
        | .ok (none, mode) => textFrom rigor mode acc cs
      else textFrom rigor (.digits (left - 1) value high) acc cs
  | .lowHalf high, acc, c :: cs =>
    if c = '\\' then textFrom rigor (.lowEscape high) acc cs else .error .malformed
  | .lowEscape high, acc, c :: cs =>
    if c = 'u' then
      if byteLength (cs.take 4) < 4 then .error .truncated
      else textFrom rigor (.digits 4 0 (some high)) acc cs
    else .error .malformed

/-- A text behind its opening quote. -/
def text (rigor : Rigor) : Reader String := fun cs => textFrom rigor .plain "" cs

end CircuitScan.Json
