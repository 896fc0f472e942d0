import CircuitScan.Position
import CircuitScan.Text.Line
import Mathlib.Data.List.DropRight
import Mathlib.Data.List.Induction
import Mathlib.Data.List.TakeWhile

/-!
# CircuitScan.Proofs.Lines

Positions and lines. A position is counted character by character, and a line is found by dividing
the whole text; both come to the same:

1. a line feed divides a text, and everything about the division follows from that
   (`splitOn_append_cons`);
2. the row of a place is one more than the line feeds in front of it, and its column is one more
   than the characters between the last of them and the place;
3. so the line that a position names is the line around it.

* `lineAt?_of_advanceAll?` — the line of a place.
-/

namespace CircuitScan

namespace Text

variable {sep : Char}

/-! ## Dividing a text -/

/-- A separator divides a text into what stands in front of it and what stands behind it. -/
theorem splitOn_append_cons (xs ys : List Char) :
    splitOn sep (xs ++ sep :: ys) = splitOn sep xs ++ splitOn sep ys := by
  induction xs with
  | nil => simp
  | cons c xs ih =>
      by_cases hc : c = sep
      · subst hc
        rw [List.cons_append, splitOn_cons_self, splitOn_cons_self, ih, List.cons_append]
      · obtain ⟨piece, pieces, hpieces⟩ := List.exists_cons_of_ne_nil (splitOn_ne_nil sep xs)
        simp [splitOn, hc, ih, hpieces]

/-- The first piece ends in front of the first separator. -/
theorem head?_splitOn (cs : List Char) :
    (splitOn sep cs).head? = some (cs.takeWhile (· ≠ sep)) := by
  induction cs with
  | nil => simp
  | cons c cs ih =>
      by_cases hc : c = sep
      · simp [splitOn, hc]
      · obtain ⟨piece, pieces, hpieces⟩ := List.exists_cons_of_ne_nil (splitOn_ne_nil sep cs)
        rw [hpieces, List.head?_cons, Option.some.injEq] at ih
        simp [splitOn, hc, hpieces, ih]

/-- A text without a separator is one piece. -/
theorem splitOn_of_notMem {cs : List Char} (h : sep ∉ cs) : splitOn sep cs = [cs] := by
  have hlength := length_splitOn sep cs
  rw [List.count_eq_zero.mpr h, Nat.zero_add, List.length_eq_one_iff] at hlength
  obtain ⟨piece, hpiece⟩ := hlength
  have hhead := @head?_splitOn sep cs
  have hall : cs.takeWhile (· ≠ sep) = cs := by
    rw [List.takeWhile_eq_self_iff]
    intro c hc
    simpa using fun heq : c = sep => h (heq ▸ hc)
  rw [hpiece, hall] at hhead
  rw [hpiece, Option.some.inj hhead]

/-- The last two of the lines that all end in a separator. -/
theorem splitOn_append_two {line last : List Char} (hline : sep ∉ line) (hlast : sep ∉ last)
    (head : List Char) :
    splitOn sep (head ++ sep :: line ++ sep :: last ++ [sep]) =
      splitOn sep head ++ [line, last, []] := by
  rw [splitOn_append_cons, splitOn_append_cons, splitOn_append_cons, splitOn_of_notMem hline,
    splitOn_of_notMem hlast]
  simp

/-! ## The line around a place -/

/-- The characters of the last line of a text, which a place behind the text has before it. -/
def lineBefore (front : List Char) : List Char := front.rtakeWhile (· ≠ '\n')

/-- The characters of the first line of a text, which a place in front of the text has behind it. -/
def lineBehind (rest : List Char) : List Char := rest.takeWhile (· ≠ '\n')

theorem lineBefore_concat (front : List Char) (c : Char) :
    lineBefore (front ++ [c]) = if c = '\n' then [] else lineBefore front ++ [c] := by
  simp [lineBefore, List.rtakeWhile_concat]

theorem notMem_lineBefore (front : List Char) : '\n' ∉ lineBefore front := fun h => by
  have hne := List.mem_rtakeWhile_imp h
  simp at hne

theorem notMem_lineBehind (rest : List Char) : '\n' ∉ lineBehind rest := fun h => by
  have hne := List.mem_takeWhile_imp h
  simp at hne

/-- What stands in front of a line ends in a line feed, if there is anything. -/
theorem exists_eq_append_lineBefore (front : List Char) :
    front = lineBefore front ∨ ∃ above, front = above ++ '\n' :: lineBefore front := by
  induction front using List.reverseRecOn with
  | nil => exact .inl rfl
  | append_singleton front c ih =>
      rw [lineBefore_concat]
      by_cases hc : c = '\n'
      · exact .inr ⟨front, by simp [hc]⟩
      · rw [if_neg hc]
        obtain hone | ⟨above, habove⟩ := ih
        · exact .inl (by rw [← hone])
        · exact .inr ⟨above, by rw [← List.cons_append, ← List.append_assoc, ← habove]⟩

/-- The line around a place comes behind as many lines as there are line feeds in front. -/
theorem getElem?_splitOn (front rest : List Char) :
    (splitOn '\n' (front ++ rest))[front.count '\n']? =
      some (lineBefore front ++ lineBehind rest) := by
  have hnone := notMem_lineBefore front
  -- the line itself is the first one of what begins with it
  have hfirst : (splitOn '\n' (lineBefore front ++ rest)).head? =
      some (lineBefore front ++ lineBehind rest) := by
    rw [head?_splitOn, List.takeWhile_append_of_pos]
    · rfl
    · intro c hc
      simpa using fun heq : c = '\n' => hnone (heq ▸ hc)
  obtain hone | ⟨above, habove⟩ := exists_eq_append_lineBefore front
  · have hcount : front.count '\n' = 0 := by
      rw [hone]
      exact List.count_eq_zero.mpr hnone
    rw [← hone] at hfirst ⊢
    rw [hcount, ← List.head?_eq_getElem?, hfirst]
  · have hcount : front.count '\n' = (splitOn '\n' above).length := by
      rw [length_splitOn, habove]
      simp [List.count_eq_zero.mpr hnone]
    have hsplit : splitOn '\n' (front ++ rest) =
        splitOn '\n' above ++ splitOn '\n' (lineBefore front ++ rest) := by
      rw [← splitOn_append_cons, ← List.cons_append, ← List.append_assoc, ← habove]
    rw [hsplit, hcount, List.getElem?_append_right (Nat.le_refl _), Nat.sub_self,
      ← List.head?_eq_getElem?, hfirst]

end Text

/-! ## Rows and columns -/

namespace Position

open Text

variable {p q : Position}

theorem advanceAll?_concat_eq_some {cs : List Char} {c : Char} :
    p.advanceAll? (cs ++ [c]) = some q ↔
      ∃ m, p.advanceAll? cs = some m ∧ m.advance? c = some q := by
  rw [advanceAll?_append, Option.bind_eq_some_iff]
  simp

/-- Each line feed is a row. -/
theorem row_of_advanceAll? {cs : List Char} (h : p.advanceAll? cs = some q) :
    q.row.toNat = p.row.toNat + cs.count '\n' := by
  induction cs generalizing p with
  | nil =>
      obtain rfl : p = q := by simpa using h
      rfl
  | cons c cs ih =>
      rw [advanceAll?_cons] at h
      obtain ⟨m, hm, hrest⟩ := Option.bind_eq_some_iff.mp h
      rw [ih hrest, List.count_cons]
      unfold Position.advance? at hm
      split at hm
      · next hc =>
          obtain ⟨row, hrow, rfl⟩ := Option.map_eq_some_iff.mp hm
          simp only [succ?_eq_some hrow, hc, beq_self_eq_true, if_true]
          omega
      · next hc =>
          obtain ⟨col, -, rfl⟩ := Option.map_eq_some_iff.mp hm
          simp [hc]

/-- Each character of the last line is a column. -/
theorem col_of_advanceAll? {cs : List Char} (h : origin.advanceAll? cs = some q) :
    q.col.toNat = (lineBefore cs).length + 1 := by
  induction cs using List.reverseRecOn generalizing q with
  | nil =>
      obtain rfl : origin = q := by simpa using h
      rfl
  | append_singleton cs c ih =>
      obtain ⟨m, hm, hc⟩ := advanceAll?_concat_eq_some.mp h
      rw [lineBefore_concat]
      unfold advance? at hc
      split at hc
      · next hfeed =>
          obtain ⟨row, -, rfl⟩ := Option.map_eq_some_iff.mp hc
          rw [if_pos hfeed]
          rfl
      · next hfeed =>
          obtain ⟨col, hcol, rfl⟩ := Option.map_eq_some_iff.mp hc
          rw [if_neg hfeed, List.length_append, List.length_singleton]
          rw [succ?_eq_some hcol, ih hm]

end Position

/-- The line of a place is the line around it, without its line end. -/
theorem Text.lineAt?_of_advanceAll? {source : String} {front rest : List Char} {p : Position}
    (hsource : source.toList = front ++ rest) (h : Position.origin.advanceAll? front = some p) :
    lineAt? source p.row =
      some (String.ofList (dropReturn (lineBefore front ++ lineBehind rest))) := by
  have hrow := Position.row_of_advanceAll? h
  have hone : Position.origin.row.toNat = 1 := rfl
  have hne : p.row ≠ 0 := by
    intro hzero
    rw [hzero] at hrow
    have hnull : (0 : UInt32).toNat = 0 := rfl
    omega
  have hindex : p.row.toNat - 1 = front.count '\n' := by omega
  rw [lineAt?, if_neg hne, hsource, hindex, getElem?_splitOn]
  rfl

end CircuitScan
