/-!
# CircuitScan.Text.Split

Cutting a text at every occurrence of one character. The pieces keep everything but the
separators, so a text with `n` separators has `n + 1` pieces, some of them possibly empty.
-/

namespace CircuitScan.Text

/-- The pieces of a text between the occurrences of `sep`. -/
def splitOn (sep : Char) : List Char → List (List Char)
  | [] => [[]]
  | c :: cs =>
    if c = sep then [] :: splitOn sep cs
    else match splitOn sep cs with
      | [] => [[c]]
      | piece :: pieces => (c :: piece) :: pieces

@[simp] theorem splitOn_nil (sep : Char) : splitOn sep [] = [[]] := rfl

theorem splitOn_ne_nil (sep : Char) (cs : List Char) : splitOn sep cs ≠ [] := by
  cases cs with
  | nil => simp
  | cons c cs =>
    unfold splitOn
    split
    · simp
    · split <;> simp

@[simp] theorem splitOn_cons_self (sep : Char) (cs : List Char) :
    splitOn sep (sep :: cs) = [] :: splitOn sep cs := by
  simp [splitOn]

/-- Every separator adds a piece. -/
theorem length_splitOn (sep : Char) (cs : List Char) :
    (splitOn sep cs).length = cs.count sep + 1 := by
  induction cs with
  | nil => simp
  | cons c cs ih =>
    unfold splitOn
    split
    · rename_i h
      simp [h, ih]
    · rename_i h
      rw [List.count_cons_of_ne h]
      split
      · rename_i hs
        exact absurd hs (splitOn_ne_nil sep cs)
      · rename_i hs
        rw [hs] at ih
        simpa using ih

end CircuitScan.Text
