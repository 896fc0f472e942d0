import CircuitScan.Text.Printable

/-!
# CircuitScan.Text.Quoted

Quoted texts and characters, as messages and token listings print them:

1. the text stands between two quotes, `"` for a text and `'` for a single character;
2. NUL, tab, carriage return, line feed, the backslash and the quote in use have two-character
   escapes;
3. every other character that is not printable is written by its code point, `\u{…}` in
   lower-case hexadecimal digits;
4. all others are written as they are.

What counts as printable is a parameter: reading a quoted text back does not depend on it.
-/

namespace CircuitScan.Text

/-! ## Escapes -/

/-- A character by its code point. -/
def escapeCode (c : Char) : List Char :=
  '\\' :: 'u' :: '\x7b' :: Nat.toDigits 16 c.toNat ++ ['\x7d']

/-- One character inside a quoted text. -/
def escape (printable : Char → Bool) (quote : Char) (c : Char) : List Char :=
  if c = '\x00' then ['\\', '0']
  else if c = '\t' then ['\\', 't']
  else if c = '\r' then ['\\', 'r']
  else if c = '\n' then ['\\', 'n']
  else if c = '\\' || c = quote then ['\\', c]
  else if printable c then [c]
  else escapeCode c

/-- The characters between the quotes. -/
def escapeAll (printable : Char → Bool) (quote : Char) (cs : List Char) : List Char :=
  cs.flatMap (escape printable quote)

@[simp] theorem escapeAll_nil (printable : Char → Bool) (quote : Char) :
    escapeAll printable quote [] = [] := rfl

@[simp] theorem escapeAll_cons (printable : Char → Bool) (quote c : Char) (cs : List Char) :
    escapeAll printable quote (c :: cs) =
      escape printable quote c ++ escapeAll printable quote cs := rfl

/-! ## Quotes -/

/-- A text between double quotes. -/
def quoteWith (printable : Char → Bool) (s : String) : String :=
  String.ofList ('"' :: escapeAll printable '"' s.toList ++ ['"'])

/-- A text between double quotes, as messages print it. -/
def quote (s : String) : String := quoteWith isPrintable s

/-- A character between single quotes, as messages print it. -/
def quoteChar (c : Char) : String :=
  String.ofList ('\'' :: escape isPrintable '\'' c ++ ['\''])

/-! ## Escapes of hints -/

/-- One character as a hint prints it: ASCII only, and both quotes escaped, since a hint does not
put the character between quotes. -/
def escapeAscii (c : Char) : String :=
  String.ofList <|
    if c = '\t' then ['\\', 't']
    else if c = '\r' then ['\\', 'r']
    else if c = '\n' then ['\\', 'n']
    else if c = '\'' || c = '"' || c = '\\' then ['\\', c]
    else if 0x20 ≤ c.toNat && c.toNat ≤ 0x7E then [c]
    else escapeCode c

end CircuitScan.Text
