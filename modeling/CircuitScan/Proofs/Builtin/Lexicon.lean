import CircuitScan.Proofs.Entries
import CircuitScan.Proofs.GraphEdges
import CircuitScan.Proofs.Related
import CircuitScan.Registry.Builtin

/-!
# CircuitScan.Proofs.Builtin.Lexicon

The words of the circuit language, and the recognizers that spell them. The lexicon lists kinds
with their words from the highest rank to the lowest, without a word about automata.

* `Registry.speaks_builtin` — the recognizers of the language spell the lexicon, in order.
-/

namespace CircuitScan

namespace Builtin

/-! ## Characters -/

/-- Letters and the underscore. -/
def isWordStart (c : Char) : Bool := c.isAlpha || c = '_'

/-- What may follow in a word: digits as well. -/
def isWordPart (c : Char) : Bool := isWordStart c || c.isDigit

/-- Spaces, tabs and line ends. -/
def isBlank (c : Char) : Bool := c = ' ' || c = '\t' || c = '\n' || c = '\r'

/-- The blanks. -/
def blanks : List Char := [' ', '\t', '\n', '\r']

theorem mem_blanks {c : Char} : c ∈ blanks ↔ isBlank c := by
  simp [blanks, isBlank, or_assoc]

/-! ## Words -/

/-- The reserved words. -/
def reserved : List (String × Kind) :=
  [ ("and", .and), ("or", .or), ("not", .not), ("xor", .xor), ("in", .input), ("out", .output),
    ("bits", .bits), ("clock", .clock), ("register", .register), ("circuit", .circuit) ]

/-- The marks. -/
def marks : List (Char × Kind) :=
  [ ('<', .leftAngle), ('>', .rightAngle), ('=', .equals), ('\x7b', .leftBrace),
    ('\x7d', .rightBrace), ('(', .leftParen), (')', .rightParen), (';', .semicolon),
    (',', .comma), ('?', .question), (':', .colon) ]

/-- The kind of a reserved word. -/
def reservedKind? (w : List Char) : Option Kind :=
  (reserved.find? fun e => w = e.1.toList).map (·.2)

/-- The kind of a mark. -/
def markKind? (c : Char) : Option Kind := (marks.find? fun e => e.1 = c).map (·.2)

/-- The kind of a word: an identifier unless it is reserved. -/
def wordKind (w : List Char) : Kind := (reservedKind? w).getD .identifier

/-- Words: letters, digits and underscores, with no digit in front. -/
def isWord : List Char → Bool
  | [] => false
  | c :: w => isWordStart c && w.all isWordPart

/-- Numbers: a zero, or digits with no zero in front. -/
def isNumber : List Char → Bool
  | [] => false
  | c :: w => if c = '0' then w.isEmpty else c.isDigit && w.all Char.isDigit

/-- Blanks, at least one. -/
def isBlanks : List Char → Bool
  | [] => false
  | c :: w => isBlank c && w.all isBlank

/-- The kinds of the language with their words, from the highest rank to the lowest. -/
def lexicon : List (Kind × (List Char → Bool)) :=
  reserved.map (fun e => (e.2, fun w => decide (w = e.1.toList))) ++
    marks.map (fun e => (e.2, fun w => decide (w = [e.1]))) ++
      [(Kind.identifier, isWord), (Kind.number, isNumber), (Kind.ignored, isBlanks)]

/-- Recognizers that spell the lexicon, in the order of rank. -/
def Speaks (rs : List Recognizer) : Prop :=
  List.Forall₂ (fun l x => Recognizer.Spells x l.1 l.2) lexicon rs

end Builtin

open Builtin

namespace Entry

/-- Every recognizer of the entry spells these words. -/
def Spells (e : Entry) (kind : Kind) (word : List Char → Bool) : Prop :=
  ∀ x, e.Builds x → x.Spells kind word

/-- A pattern whose units are known, none without characters, spells the words of the units. -/
theorem spells_pattern {name text : String} {kind : Kind} {us : List Pattern.Unit}
    {word : List Char → Bool} (hparse : Pattern.parse text = .ok us)
    (hus : ∀ u ∈ us, u.characters ≠ []) (hword : ∀ w, Pattern.Denotes us w ↔ word w) :
    (Registry.patternEntry name kind text).Spells kind word := by
  rintro x ⟨y, n, hy, rfl⟩
  obtain ⟨a, ha, rfl⟩ := Recognizer.ofPattern_eq_ok hy
  exact Recognizer.spells_of_parse ha hparse hus hword rfl

/-- A pattern without special characters spells itself. -/
theorem spells_plain {name text : String} {kind : Kind} {cs : List Char} (htext : text.toList = cs)
    (hne : cs ≠ []) (h : cs.all Pattern.isPlain) :
    (Registry.patternEntry name kind text).Spells kind fun w => decide (w = cs) := by
  subst htext
  have hparse := Pattern.parse_plain hne (List.all_eq_true.mp h)
  apply spells_pattern hparse Pattern.characters_plain_ne_nil
  intro w
  rw [Pattern.denotes_map_plain, decide_eq_true_iff]

end Entry

/-! ## Ranges of letters and digits -/

theorem standsFor_lower {c : Char} : Label.StandsFor "a-z" c ↔ c.isLower := by
  have htext : "a-z".toList = ['a', '-', 'z'] := rfl
  rw [Label.standsFor_range htext (by decide) (by decide)]
  unfold Char.isLower
  simp [Char.le_def]

theorem standsFor_upper {c : Char} : Label.StandsFor "A-Z" c ↔ c.isUpper := by
  have htext : "A-Z".toList = ['A', '-', 'Z'] := rfl
  rw [Label.standsFor_range htext (by decide) (by decide)]
  unfold Char.isUpper
  simp [Char.le_def]

theorem standsFor_digit {c : Char} : Label.StandsFor "0-9" c ↔ c.isDigit := by
  have htext : "0-9".toList = ['0', '-', '9'] := rfl
  rw [Label.standsFor_range htext (by decide) (by decide)]
  simp [Char.isDigit, Char.le_def]

/-- The digits without zero. -/
theorem standsFor_positive {c : Char} : Label.StandsFor "1-9" c ↔ c.isDigit ∧ c ≠ '0' := by
  have htext : "1-9".toList = ['1', '-', '9'] := rfl
  rw [Label.standsFor_range htext (by decide) (by decide)]
  simp only [Char.isDigit, Char.le_def, Bool.and_eq_true, decide_eq_true_eq, ne_eq,
    ← Char.val_inj, UInt32.le_iff_toNat_le, ← UInt32.toNat_inj, ge_iff_le]
  simp
  omega

theorem standsFor_underscore {c : Char} : Label.StandsFor "_" c ↔ c = '_' :=
  Label.standsFor_singleton rfl

theorem standsFor_zero {c : Char} : Label.StandsFor "0" c ↔ c = '0' :=
  Label.standsFor_singleton rfl

/-! ## Words, numbers and blanks -/

namespace Entry

/-- Words go from the start to one state and stay there. -/
theorem spells_identifier : Registry.identifierEntry.Spells .identifier isWord := by
  rintro x ⟨y, n, hy, rfl⟩
  obtain ⟨t, ht, rfl⟩ := Recognizer.ofGraph_eq_ok hy
  have hedges (s : Nat) (c : Char) (q : Nat) : t.get? s c = some q ↔
      q = 1 ∧ (s = 0 ∧ isWordStart c ∨ s = 1 ∧ isWordPart c) := by
    rw [Graph.get?_toTable ht]
    unfold isWordPart isWordStart Char.isAlpha
    simp [Graph.arrows, Graph.rowArrows, standsFor_lower, standsFor_upper, standsFor_digit,
      standsFor_underscore]
    grind
  have hloop (v : List Char) (q : Nat) : t.run 1 v = some q ↔ q = 1 ∧ v.all isWordPart :=
    Table.run_loop fun c q => by simp [hedges]
  have hrun (c : Char) (v : List Char) (q : Nat) :
      t.run 0 (c :: v) = some q ↔ q = 1 ∧ isWord (c :: v) := by
    rw [Table.run_cons, Option.bind_eq_some_iff]
    simp [hedges, hloop, isWord]
    grind
  apply Recognizer.spells_of_run rfl rfl ⟨['_'], by decide⟩
  · intro c v q hq
    rw [((hrun c v q).mp hq).1]
    simp
  · intro c v
    constructor
    · rintro ⟨q, hq⟩
      exact ((hrun c v q).mp hq).2
    · intro hw
      exact ⟨_, (hrun c v _).mpr ⟨rfl, hw⟩⟩

/-- A zero goes to a state without edges, the other digits to a state that all digits keep. -/
theorem spells_number : Registry.numberEntry.Spells .number isNumber := by
  rintro x ⟨y, n, hy, rfl⟩
  obtain ⟨t, ht, rfl⟩ := Recognizer.ofGraph_eq_ok hy
  have hedges (s : Nat) (c : Char) (q : Nat) : t.get? s c = some q ↔
      s = 0 ∧ q = 1 ∧ c = '0' ∨ s = 0 ∧ q = 2 ∧ c.isDigit ∧ c ≠ '0' ∨
        s = 2 ∧ q = 2 ∧ c.isDigit := by
    rw [Graph.get?_toTable ht]
    simp [Graph.arrows, Graph.rowArrows, standsFor_digit, standsFor_positive, standsFor_zero]
    grind
  have hzero (v : List Char) (q : Nat) : t.run 1 v = some q ↔ q = 1 ∧ v.all fun _ => false :=
    Table.run_loop fun c q => by simp [hedges]
  have hdigits (v : List Char) (q : Nat) : t.run 2 v = some q ↔ q = 2 ∧ v.all Char.isDigit :=
    Table.run_loop fun c q => by simp [hedges]
  have hrun (c : Char) (v : List Char) (q : Nat) :
      t.run 0 (c :: v) = some q ↔ q = (if c = '0' then 1 else 2) ∧ isNumber (c :: v) := by
    rw [Table.run_cons, Option.bind_eq_some_iff]
    by_cases hc : c = '0'
    · simp [hedges, hzero, isNumber, hc, List.eq_nil_iff_forall_not_mem]
    · simp [hedges, hdigits, isNumber, hc]
      grind
  apply Recognizer.spells_of_run rfl rfl ⟨['0'], by decide⟩
  · intro c v q hq
    rw [((hrun c v q).mp hq).1]
    split <;> simp
  · intro c v
    constructor
    · rintro ⟨q, hq⟩
      exact ((hrun c v q).mp hq).2
    · intro hw
      exact ⟨_, (hrun c v _).mpr ⟨rfl, hw⟩⟩

theorem spells_whitespace : Registry.whitespaceEntry.Spells .ignored isBlanks := by
  have hparse : Pattern.parse "[ |\\t|\\n|\\r][ |\\t|\\n|\\r]*" =
      .ok [⟨blanks, false⟩, ⟨blanks, true⟩] := rfl
  apply spells_pattern hparse
  · simp [blanks]
  · intro w
    constructor
    · intro hw
      obtain ⟨p, v, rfl, ⟨c, hc, rfl⟩, hv⟩ := Pattern.denotes_cons.mp hw
      obtain ⟨q, v, rfl, hq, hv⟩ := Pattern.denotes_cons.mp hv
      have hall : ∀ d ∈ q, d ∈ blanks := hq
      simp_all [isBlanks, mem_blanks, Pattern.denotes_nil]
    · intro hw
      cases w with
      | nil => contradiction
      | cons c v =>
          simp only [isBlanks, Bool.and_eq_true, List.all_eq_true, ← mem_blanks] at hw
          have hplain : Pattern.Unit.Holds ⟨blanks, false⟩ [c] := ⟨c, hw.1, rfl⟩
          have hstar : Pattern.Unit.Holds ⟨blanks, true⟩ v := hw.2
          exact ⟨[[c], v], by simp, .cons hplain (.cons hstar .nil)⟩

end Entry

/-! ## The language -/

theorem wordEntries_eq :
    Registry.wordEntries = reserved.map fun e => Registry.patternEntry e.1 e.2 e.1 := rfl

theorem markEntries_eq :
    Registry.markEntries =
      marks.map fun e => Registry.patternEntry (.singleton e.1) e.2 (.singleton e.1) := rfl

theorem forall₂_spells :
    List.Forall₂ (fun l e => Entry.Spells e l.1 l.2) lexicon Registry.builtinEntries := by
  unfold lexicon Registry.builtinEntries
  rw [wordEntries_eq, markEntries_eq]
  apply List.rel_append
  · apply List.rel_append
    · rw [List.forall₂_map_left_iff, List.forall₂_map_right_iff, List.forall₂_same]
      have hplain : ∀ e ∈ reserved, e.1.toList ≠ [] ∧ e.1.toList.all Pattern.isPlain := by
        decide
      intro e he
      exact Entry.spells_plain rfl (hplain e he).1 (hplain e he).2
    · rw [List.forall₂_map_left_iff, List.forall₂_map_right_iff, List.forall₂_same]
      have hplain : ∀ e ∈ marks, Pattern.isPlain e.1 := by decide
      intro e he
      exact Entry.spells_plain (String.toList_singleton _) (by simp) (by simpa using hplain e he)
  · exact .cons Entry.spells_identifier
      (.cons Entry.spells_number (.cons Entry.spells_whitespace .nil))

/-- The recognizers of the circuit language spell its lexicon. -/
theorem Registry.speaks_builtin {r : Registry} (h : builtin = .ok r) : Speaks r.recognizers :=
  forall₂_trans (fun _ _ _ hspells hbuilds => hspells _ hbuilds) forall₂_spells (forall₂_builds h)

end CircuitScan
