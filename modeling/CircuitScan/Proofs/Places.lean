import CircuitScan.Proofs.Lines
import CircuitScan.Proofs.PositionOrder

/-!
# CircuitScan.Proofs.Places

The places of a text, one in front of each character and one behind the last, and the lines they
lie in. A position is counted from the origin on, character by character, and a line is looked up
by its number in the divided text. At every place the two agree:

1. the row is the number of the line around the place, and the column counts the characters of the
   line in front of it;
2. so the line has the character of the place at that column, unless what is left of the line is
   its end (`AtLineEnd`); there the line has come to its end too;
3. places in reading order have positions in ascending order;
4. the rows of places are the only numbers of lines.

* `length_lineBefore_lt_iff` — a line goes on at a place, or has come to its end;
* `Position.agrees_lineAt?` — all places of a text, and all rows.
-/

namespace CircuitScan

namespace Text

variable {front rest : List Char}

/-! ## Line ends -/

/-- Behind a place its line has nothing but a line end, or the second part of one. -/
def AtLineEnd (rest : List Char) : Prop :=
  rest = [] ∨ rest = ['\r'] ∨ ∃ below, rest = '\n' :: below ∨ rest = '\r' :: '\n' :: below

/-- `line` is `raw` less one carriage return at the end, if there is one. -/
def LessReturn (raw line : List Char) : Prop :=
  raw = line ++ ['\r'] ∨ raw = line ∧ raw.getLast? ≠ some '\r'

/-- The line around the place `i` of a text: what is between the line feeds, or ends of the text, on
both sides. -/
def lineAround (text : List Char) (i : Nat) : List Char :=
  lineBefore (text.take i) ++ lineBehind (text.drop i)

theorem lineBehind_eq_nil_iff :
    lineBehind rest = [] ↔ rest = [] ∨ ∃ below, rest = '\n' :: below := by
  cases rest with
  | nil => simp [lineBehind]
  | cons c rest => by_cases hc : c = '\n' <;> simp [lineBehind, hc]

theorem lineBehind_eq_return_iff :
    lineBehind rest = ['\r'] ↔ rest = ['\r'] ∨ ∃ below, rest = '\r' :: '\n' :: below := by
  cases rest with
  | nil => simp [lineBehind]
  | cons c rest =>
      by_cases hc : c = '\n'
      · simp [lineBehind, hc]
      · have hcons : lineBehind (c :: rest) = c :: lineBehind rest := by simp [lineBehind, hc]
        rw [hcons, List.cons.injEq, lineBehind_eq_nil_iff]
        simp only [List.cons.injEq, exists_and_left, and_or_left]

/-- A place is at a line end if its line has nothing behind it, or a carriage return alone. -/
theorem atLineEnd_iff : AtLineEnd rest ↔ lineBehind rest = [] ∨ lineBehind rest = ['\r'] := by
  rw [lineBehind_eq_nil_iff, lineBehind_eq_return_iff, AtLineEnd, exists_or]
  tauto

theorem lessReturn_dropReturn (raw : List Char) : LessReturn raw (dropReturn raw) := by
  unfold dropReturn
  split
  · next hlast => exact .inl (List.dropLast_append_getLast? '\r' hlast).symm
  · next hlast => exact .inr ⟨rfl, hlast⟩

theorem prefix_dropReturn (raw : List Char) : dropReturn raw <+: raw := by
  unfold dropReturn
  split
  · exact List.dropLast_prefix raw
  · exact List.prefix_rfl

theorem length_lt_dropReturn_iff (before behind : List Char) :
    before.length < (dropReturn (before ++ behind)).length ↔ behind ≠ [] ∧ behind ≠ ['\r'] := by
  rcases List.eq_nil_or_concat behind with rfl | ⟨cs, x, rfl⟩
  · have hle := (prefix_dropReturn before).length_le
    simpa using hle
  · rw [List.concat_eq_append, ← List.append_assoc, dropReturn_concat]
    split
    · next hx => simp [hx, List.length_pos_iff]
    · next hx =>
        have hne : cs ++ [x] ≠ ['\r'] := fun heq =>
          hx (List.singleton_inj.mp (List.append_inj' (heq.trans (List.nil_append _).symm) rfl).2)
        simpa using hne

/-- **A line goes on** at a place exactly if the place is not at a line end. -/
theorem length_lineBefore_lt_iff :
    (lineBefore front).length < (dropReturn (lineBefore front ++ lineBehind rest)).length ↔
      ¬AtLineEnd rest := by
  rw [length_lt_dropReturn_iff, atLineEnd_iff, not_or]

/-- Where a line goes on, it does so with the character of the place. -/
theorem getElem?_dropReturn (h : ¬AtLineEnd rest) :
    (dropReturn (lineBefore front ++ lineBehind rest))[(lineBefore front).length]? =
      rest.head? := by
  have hlt : (lineBefore front).length < _ := length_lineBefore_lt_iff.mpr h
  have hhead : (lineBehind rest).head? = rest.head? := by
    cases rest with
    | nil => rfl
    | cons c rest =>
        have hc : c ≠ '\n' := by
          rintro rfl
          exact h (.inr (.inr ⟨rest, .inl rfl⟩))
        simp [lineBehind, hc]
  obtain ⟨t, ht⟩ := prefix_dropReturn (lineBefore front ++ lineBehind rest)
  calc (dropReturn (lineBefore front ++ lineBehind rest))[(lineBefore front).length]?
    _ = (lineBefore front ++ lineBehind rest)[(lineBefore front).length]? := by
        rw [← List.getElem?_append_left hlt, ht]
    _ = (lineBehind rest)[0]? := by
        rw [List.getElem?_append_right (Nat.le_refl _), Nat.sub_self]
    _ = rest.head? := by rw [← List.head?_eq_getElem?, hhead]

/-! ## Numbers of lines -/

/-- No line has the number zero, or one above the last row. -/
theorem lineAt?_eq_none_iff {source : String} {row : UInt32} :
    lineAt? source row = none ↔ row = 0 ∨ 1 + source.toList.count '\n' < row.toNat := by
  unfold lineAt?
  split
  · next hrow => simp [hrow]
  · next hrow =>
      have hpos : row.toNat ≠ 0 := fun hzero => hrow (UInt32.toNat_inj.mp hzero)
      rw [Option.map_eq_none_iff, List.getElem?_eq_none_iff, length_splitOn]
      simp only [hrow, false_or]
      omega

end Text

/-! ## Places -/

namespace Position

open Text

/-- The place behind the first `i` characters of a text, at `p`: its row is that of the line around
it, and its column is where this line has the character of the place, or is over. -/
structure Agrees (source : String) (i : Nat) (p : Position) : Prop where
  row_eq : p.row.toNat = 1 + (source.toList.take i).count '\n'
  col_pos : 0 < p.col.toNat
  exists_line : ∃ line, lineAt? source p.row = some line ∧
    LessReturn (lineAround source.toList i) line.toList ∧
    (∀ c, source.toList[i]? = some c → ¬AtLineEnd (source.toList.drop i) →
      line.toList[p.col.toNat - 1]? = some c) ∧
    (AtLineEnd (source.toList.drop i) → line.toList.length ≤ p.col.toNat - 1)

variable {source : String} {i j : Nat} {p q : Position}

theorem agrees_of_advanceAll? (h : origin.advanceAll? (source.toList.take i) = some p) :
    Agrees source i p := by
  have hsource : source.toList = source.toList.take i ++ source.toList.drop i :=
    (List.take_append_drop i source.toList).symm
  have hpast : p.col.toNat = (lineBefore (source.toList.take i)).length + 1 := col_of_advanceAll? h
  have hcol : p.col.toNat - 1 = (lineBefore (source.toList.take i)).length := by
    rw [hpast, Nat.add_sub_cancel]
  constructor
  case row_eq => exact row_of_advanceAll? h
  case col_pos => exact hpast ▸ Nat.succ_pos _
  case exists_line =>
    refine ⟨_, lineAt?_of_advanceAll? hsource h, ?_, ?_, ?_⟩
    · rw [String.toList_ofList]
      exact lessReturn_dropReturn _
    · intro c hc hgoesOn
      rw [hcol, String.toList_ofList, getElem?_dropReturn hgoesOn, List.head?_drop, hc]
    · intro hend
      rw [hcol, String.toList_ofList]
      exact Nat.not_lt.mp fun hlt => length_lineBefore_lt_iff.mp hlt hend

/-- A later place has a later position. -/
theorem lt_of_place_lt (hij : i < j) (hj : j ≤ source.toList.length)
    (hp : origin.advanceAll? (source.toList.take i) = some p)
    (hq : origin.advanceAll? (source.toList.take j) = some q) : p < q := by
  obtain ⟨n, rfl⟩ := Nat.exists_eq_add_of_lt hij
  have hbetween : (source.toList.drop i).take (n + 1) ≠ [] := by
    rw [← List.length_pos_iff, List.length_take, List.length_drop]
    omega
  rw [Nat.add_assoc, List.take_add, advanceAll?_append, hp, Option.bind_some] at hq
  exact lt_of_advanceAll? hq hbetween

/-- **Positions and lines agree**: at each place of a text the position names the line around the
place and the column of its character, later places have later positions, and no line is found
under a number that is the row of no place. -/
theorem agrees_lineAt? (source : String) :
    (∀ i p, i ≤ source.toList.length → origin.advanceAll? (source.toList.take i) = some p →
      Agrees source i p) ∧
    (∀ i j p q, i < j → j ≤ source.toList.length →
      origin.advanceAll? (source.toList.take i) = some p →
      origin.advanceAll? (source.toList.take j) = some q → p < q) ∧
    ∀ row, lineAt? source row = none ↔ row = 0 ∨ 1 + source.toList.count '\n' < row.toNat :=
  ⟨fun _ _ _ => agrees_of_advanceAll?, fun _ _ _ _ => lt_of_place_lt,
    fun _ => lineAt?_eq_none_iff⟩

/-- Between a carriage return that ends a line and one that does not: the place of the second one,
in the second line. -/
theorem agrees_lineAt?_returns :
    (3 ≤ "a\r\n\rb\r".toList.length ∧
        origin.advanceAll? ("a\r\n\rb\r".toList.take 3) = some ⟨2, 1⟩ ∧
        Agrees "a\r\n\rb\r" 3 ⟨2, 1⟩) ∧
      (origin.advanceAll? ("a\r\n\rb\r".toList.take 1) = some ⟨1, 2⟩ ∧
        (⟨1, 2⟩ : Position) < ⟨2, 1⟩) ∧
      lineAt? "a\r\n\rb\r" 2 = some "\rb" ∧ lineAt? "a\r\n\rb\r" 3 = none := by
  obtain ⟨hagrees, hlt, hnone⟩ := agrees_lineAt? "a\r\n\rb\r"
  have hfirst : origin.advanceAll? ("a\r\n\rb\r".toList.take 1) = some ⟨1, 2⟩ := by decide
  have hsecond : origin.advanceAll? ("a\r\n\rb\r".toList.take 3) = some ⟨2, 1⟩ := by decide
  exact ⟨⟨by decide, hsecond, hagrees 3 _ (by decide) hsecond⟩,
    ⟨hfirst, hlt 1 3 _ _ (by decide) (by decide) hfirst hsecond⟩, by decide,
    (hnone 3).mpr (by decide)⟩

end Position

end CircuitScan
