import CircuitScan.LoadError
import CircuitScan.Text.Split

/-!
# CircuitScan.Label

Shorthand for sets of characters on the edges of a graph and between the brackets of a pattern.
A label is read in one of three ways, tried in this order:

1. a single character stands for itself, whatever it is;
2. `x-y`, three characters with neither end a line feed, is the inclusive range from `x` to `y`;
3. everything else is a list of items divided by `|`, each a single character or one of the
   escapes `\t`, `\n` and `\r`.

A range that runs backwards and a list with a bad item stand for nothing. The first bad item
decides how the label fails.
-/

namespace CircuitScan.Label

/-! ## Ranges -/

/-- The character with code point `n`, unless `n` is a surrogate or too great. -/
def scalar? (n : Nat) : Option Char :=
  if n.isValidChar then some (Char.ofNat n) else none

/-- The characters from `low` to `high` in ascending order; none if they are the wrong way round. -/
def range (low high : Char) : List Char :=
  (List.range' low.toNat (high.toNat + 1 - low.toNat)).filterMap scalar?

theorem scalar?_eq_some_iff {n : Nat} {c : Char} : scalar? n = some c ↔ n = c.toNat := by
  unfold scalar?
  constructor
  · intro h
    split at h
    · rename_i hn
      cases h
      rw [Char.ofNat, dif_pos hn]
      rfl
    · contradiction
  · rintro rfl
    have hc : c.toNat.isValidChar := c.valid
    simp [hc]

/-- A range holds the characters between its ends, and the surrogates between them are no
characters. -/
theorem mem_range {low high c : Char} : c ∈ range low high ↔ low ≤ c ∧ c ≤ high := by
  simp only [range, List.mem_filterMap, scalar?_eq_some_iff, exists_eq_right, List.mem_range'_1,
    Char.le_def, UInt32.le_iff_toNat_le, Char.toNat]
  omega

/-! ## Items -/

/-- The character that is written as an escape with the given letter. -/
def escape? : Char → Option Char
  | 't' => some '\t'
  | 'n' => some '\n'
  | 'r' => some '\r'
  | _ => none

/-- The character that one item of a list stands for. -/
def item? : List Char → Option Char
  | [c] => some c
  | ['\\', c] => escape? c
  | _ => none

/-- Whether an item has the form of an escape: a backslash and one character of its own line. -/
def isEscape : List Char → Bool
  | ['\\', c] => c ≠ '\n'
  | _ => false

/-- How a label fails on a bad item. -/
def itemError (label : String) (item : List Char) : LoadError :=
  if isEscape item then .illegalEscape (String.ofList item) else .unresolvableClass label

/-- The character of an item, or the label's failure. -/
def readItem (label : String) (item : List Char) : Except LoadError Char :=
  match item? item with
  | some c => .ok c
  | none => .error (itemError label item)

/-- The characters of a list label; one that is listed twice stands where it is listed first. -/
def expandList (label : String) : Except LoadError (List Char) := do
  let cs ← (Text.splitOn '|' label.toList).mapM (readItem label)
  return cs.eraseDups

/-! ## Labels -/

/-- The characters a label stands for, in the order of the label. -/
def expand (label : String) : Except LoadError (List Char) :=
  match label.toList with
  | [] => .error (.unresolvableClass label)
  | [c] => .ok [c]
  | [low, '-', high] =>
    if low = '\n' || high = '\n' then expandList label
    else if low ≤ high then .ok (range low high)
    else .error (.unresolvableClass label)
  | _ => expandList label

end CircuitScan.Label
