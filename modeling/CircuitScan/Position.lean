/-!
# CircuitScan.Position

A point of a source text. Rows and columns count from one:

1. a line feed ends its row, so the point after it is column one of the next row;
2. every other character moves one column to the right;
3. both numbers are 32-bit words, and a point that would leave their range does not exist.

As the end of a span, a position points just past the last character.
-/

namespace CircuitScan

/-- A point of a source text. -/
structure Position where
  row : UInt32
  col : UInt32
deriving DecidableEq

namespace Position

/-- The point in front of the first character. -/
def origin : Position := ⟨1, 1⟩

/-! ## Moving over characters -/

/-- The word after `n`; the greatest word has none. -/
def succ? (n : UInt32) : Option UInt32 :=
  if n = 4294967295 then none else some (n + 1)

/-- The point after `c`, when `c` stands at `p`. -/
def advance? (p : Position) (c : Char) : Option Position :=
  if c = '\n' then (succ? p.row).map fun row => ⟨row, 1⟩
  else (succ? p.col).map fun col => ⟨p.row, col⟩

/-- The point after a list of characters, when the first stands at `p`. -/
def advanceAll? (p : Position) (cs : List Char) : Option Position := cs.foldlM advance? p

/-- The points after each of the characters that follow `p`, in order. -/
def trail? : Position → List Char → Option (List Position)
  | _, [] => some []
  | p, c :: cs => do
    let q ← p.advance? c
    let qs ← q.trail? cs
    return q :: qs

theorem succ?_eq_some {n m : UInt32} (h : succ? n = some m) : m.toNat = n.toNat + 1 := by
  unfold succ? at h
  split at h
  · contradiction
  · rename_i hn
    cases h
    have h1 : n.toNat ≠ 4294967295 := fun h2 => hn (UInt32.toNat_inj.mp h2)
    have h3 := n.toNat_lt
    rw [UInt32.toNat_add]
    simp
    omega

@[simp] theorem advanceAll?_nil (p : Position) : p.advanceAll? [] = some p := rfl

@[simp] theorem advanceAll?_cons (p : Position) (c : Char) (cs : List Char) :
    p.advanceAll? (c :: cs) = (p.advance? c).bind (·.advanceAll? cs) := rfl

theorem advanceAll?_append (p : Position) (cs ds : List Char) :
    p.advanceAll? (cs ++ ds) = (p.advanceAll? cs).bind (·.advanceAll? ds) := by
  simp [advanceAll?, Option.bind_eq_bind]

@[simp] theorem trail?_nil (p : Position) : p.trail? [] = some [] := rfl

/-- A trail ends at the point after all of its characters. -/
theorem getLast?_trail? {p : Position} {cs : List Char} {ps : List Position}
    (h : p.trail? cs = some ps) : p.advanceAll? cs = some (ps.getLast?.getD p) := by
  induction cs generalizing p ps with
  | nil =>
    obtain rfl : ps = [] := by simpa using h.symm
    rfl
  | cons c cs ih =>
    simp only [trail?, Option.bind_eq_bind, Option.bind_eq_some_iff, Option.pure_def,
      Option.some.injEq] at h
    obtain ⟨q, hq, qs, hqs, rfl⟩ := h
    have hlast := ih hqs
    rw [advanceAll?_cons, hq, Option.bind_some, hlast]
    cases qs with
    | nil => rfl
    | cons r rs => simp [List.getLast?_eq_some_getLast]

/-! ## Order -/

/-- Rows decide; on one row the columns do. -/
instance : Ord Position :=
  ⟨fun p q => (compare p.row q.row).then (compare p.col q.col)⟩

instance : LT Position := ltOfOrd

instance : LE Position := leOfOrd

/-! ## Text -/

/-- A position is written `row:col`. -/
def render (p : Position) : String :=
  p.row.toNat.repr ++ ":" ++ p.col.toNat.repr

end Position

end CircuitScan
