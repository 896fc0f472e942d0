import CircuitScan.Diagnostic.Excerpt
import CircuitScan.Proofs.Cover
import CircuitScan.Proofs.Lines

/-!
# CircuitScan.Proofs.Caret

The caret of an excerpt stands under the character that the report is about. Four counts have to
agree for that: the position that the scan kept, the division of the text into lines, the
indentation that is taken off, and the width of the row number in front of both lines.

A character is not shown in two places only. In the indentation of its line it is taken off with
what stands around it, and so it is in the white space at the end of the line.

* `exists_shownLine_eq` — what is shown of a line keeps the character, and what stands in front
  of it up to the indentation;
* `excerpt_pointsAt` — the caret stands under any other character;
* `Registry.tokenize_pointsAt` — a report stands where the text it is about begins.
-/

namespace CircuitScan

open Text

/-! ## Places -/

/-- The character `c` of a text stands at `p`, between `front` and `rest`. -/
structure StandsAt (source : String) (p : Position) (front : List Char) (c : Char)
    (rest : List Char) : Prop where
  text : source.toList = front ++ c :: rest
  position : Position.origin.advanceAll? front = some p

/-- On its line `c` belongs to the spaces and tabs that come first. -/
def InIndentation (front : List Char) (c : Char) : Prop :=
  ∀ x ∈ lineBefore front ++ [c], Diagnostic.isIndent x = true

/-- On its line `c` belongs to the white space that comes last. A line feed ends its line. -/
def InTrail (c : Char) (rest : List Char) : Prop :=
  c = '\n' ∨ ∀ x ∈ c :: lineBehind rest, isBlank x = true

-- by name, as a search could also decide these by going through all characters that there are
instance (front : List Char) (c : Char) : Decidable (InIndentation front c) :=
  List.decidableBAll _ (lineBefore front ++ [c])

instance (c : Char) (rest : List Char) : Decidable (InTrail c rest) :=
  letI := List.decidableBAll (isBlank · = true) (c :: lineBehind rest)
  instDecidableOr

/-- The last line of a text ends in a caret, under the character `c` of the line above it. In that
line `c` stands behind `lead`. -/
def PointsAt (text lead : List Char) (c : Char) : Prop :=
  ∃ lines behind shaft,
    splitOn '\n' text = lines ++ [lead ++ c :: behind, shaft ++ ['^'], []] ∧
      shaft.length = lead.length

/-! ## White space at the ends -/

section

variable {front back : List Char} {c : Char}

/-- The first characters end in front of one that has not their property, or with the first
part. -/
theorem takeWhile_append_cons {p : Char → Bool} (h : ∃ x ∈ front ++ [c], p x = false) :
    (front ++ c :: back).takeWhile p = front.takeWhile p := by
  induction front with
  | nil =>
      have hc : p c = false := by simpa using h
      simp [hc]
  | cons a front ih =>
      cases ha : p a with
      | false => simp [ha]
      | true =>
          have hrest : ∃ x ∈ front ++ [c], p x = false := by simpa [ha] using h
          simp [ha, ih hrest]

theorem dropWhile_append_cons {p : Char → Bool} (h : ∃ x ∈ front ++ [c], p x = false) :
    (front ++ c :: back).dropWhile p = front.dropWhile p ++ c :: back := by
  have hwhole := List.takeWhile_append_dropWhile (p := p) (l := front ++ c :: back)
  have hfront := List.takeWhile_append_dropWhile (p := p) (l := front)
  rw [takeWhile_append_cons h] at hwhole
  rw [← List.append_right_inj (front.takeWhile p), hwhole, ← List.append_assoc, hfront]

theorem trimEnd_concat (cs : List Char) (x : Char) :
    trimEnd (cs ++ [x]) = if isBlank x then trimEnd cs else cs ++ [x] :=
  List.rdropWhile_concat isBlank cs x

/-- Trimming stops behind a character that is not white space. -/
theorem exists_trimEnd_eq (h : ∃ x ∈ c :: back, isBlank x = false) (front : List Char) :
    ∃ back', trimEnd (front ++ c :: back) = front ++ c :: back' := by
  induction back using List.reverseRecOn with
  | nil =>
      have hc : isBlank c = false := by simpa using h
      exact ⟨[], by rw [trimEnd_concat, hc]; rfl⟩
  | append_singleton back x ih =>
      have hshape : front ++ c :: (back ++ [x]) = (front ++ c :: back) ++ [x] := by simp
      rw [hshape, trimEnd_concat]
      cases hx : isBlank x with
      | true =>
          have hrest : ∃ x ∈ c :: back, isBlank x = false := by simpa [hx] using h
          exact ih hrest
      | false => exact ⟨back ++ [x], by simp⟩

/-- So does dropping a carriage return, which is white space. -/
theorem exists_dropReturn_eq (h : ∃ x ∈ c :: back, isBlank x = false) (front : List Char) :
    ∃ back', dropReturn (front ++ c :: back) = front ++ c :: back' ∧
      ∃ x ∈ c :: back', isBlank x = false := by
  have hreturn : isBlank '\r' = true := by decide
  rcases List.eq_nil_or_concat back with rfl | ⟨back, x, rfl⟩
  · have hc : c ≠ '\r' := by
      rintro rfl
      simp [hreturn] at h
    exact ⟨[], by rw [dropReturn_concat, if_neg hc], h⟩
  · rw [List.concat_eq_append] at h ⊢
    have hshape : front ++ c :: (back ++ [x]) = (front ++ c :: back) ++ [x] := by simp
    rw [hshape, dropReturn_concat]
    by_cases hx : x = '\r'
    · have hrest : ∃ x ∈ c :: back, isBlank x = false := by simpa [hx, hreturn] using h
      exact ⟨back, if_pos hx, hrest⟩
    · exact ⟨back ++ [x], by rw [if_neg hx, ← hshape], h⟩

end

theorem mem_of_mem_dropReturn {line : List Char} {x : Char} (h : x ∈ dropReturn line) :
    x ∈ line := by
  unfold dropReturn at h
  split at h
  · exact List.dropLast_subset line h
  · exact h

theorem mem_of_mem_trimEnd {line : List Char} {x : Char} (h : x ∈ trimEnd line) : x ∈ line :=
  (List.rdropWhile_prefix isBlank line).subset h

/-! ## Excerpts -/

namespace Diagnostic

variable {d : Diagnostic} {source : String} {front rest : List Char} {c : Char}

/-- What stands in front of the line in an excerpt. -/
def margin (d : Diagnostic) : List Char := d.position.row.toNat.repr.toList ++ [' ', '|', ' ']

/-- What stands in front of the caret and its dashes. -/
def bar (d : Diagnostic) : List Char := padLeft ' ' (d.position.row.toNat.repr.length + 2) ['|']

/-- What an excerpt shows in front of a character. -/
def lead (d : Diagnostic) (front : List Char) : List Char :=
  d.margin ++ (lineBefore front).dropWhile isIndent

theorem length_padLeft (fill : Char) (width : Nat) (s : List Char) :
    (padLeft fill width s).length = max width s.length := by
  simp [padLeft]
  omega

/-- The line of a report is the line around its place. -/
theorem sourceLine_eq (h : StandsAt source d.position front c rest) :
    d.sourceLine source = dropReturn (lineBefore front ++ lineBehind (c :: rest)) := by
  rw [sourceLine, lineAt?_of_advanceAll? h.text h.position]
  simp

theorem notMem_shownLine (h : StandsAt source d.position front c rest) :
    '\n' ∉ shownLine (d.sourceLine source) := by
  intro hmem
  have hline := (List.dropWhile_suffix _).subset (mem_of_mem_trimEnd hmem)
  rw [sourceLine_eq h] at hline
  rcases List.mem_append.mp (mem_of_mem_dropReturn hline) with hbefore | hbehind
  · exact notMem_lineBefore front hbefore
  · exact notMem_lineBehind (c :: rest) hbehind

/-- A character that lies neither in the indentation nor in the white space at the end of its line
is shown behind what is left of the line in front of it, and the caret is set to its column. -/
theorem exists_shownLine_eq (h : StandsAt source d.position front c rest)
    (hindent : ¬InIndentation front c) (htrail : ¬InTrail c rest) :
    (∃ behind, shownLine (d.sourceLine source) =
        (lineBefore front).dropWhile isIndent ++ c :: behind) ∧
      caretOffset (d.sourceLine source) d.position.col.toNat =
        ((lineBefore front).dropWhile isIndent).length + 1 := by
  have hfirst : ∃ x ∈ lineBefore front ++ [c], isIndent x = false := by
    simpa [InIndentation] using hindent
  obtain ⟨hfeed, hlast⟩ : c ≠ '\n' ∧ ∃ x ∈ c :: lineBehind rest, isBlank x = false := by
    simpa only [InTrail, not_or, not_forall, exists_prop, Bool.not_eq_true] using htrail
  have hline : lineBehind (c :: rest) = c :: lineBehind rest := by simp [lineBehind, hfeed]
  obtain ⟨kept, hkept, hlast'⟩ := exists_dropReturn_eq hlast (lineBefore front)
  rw [sourceLine_eq h, hline, hkept]
  constructor
  · unfold shownLine
    rw [dropWhile_append_cons hfirst]
    exact exists_trimEnd_eq hlast' _
  · have hcol := Position.col_of_advanceAll? h.position
    have hparts := congrArg List.length
      (List.takeWhile_append_dropWhile (p := isIndent) (l := lineBefore front))
    rw [List.length_append] at hparts
    rw [caretOffset, takeWhile_append_cons hfirst]
    omega

/-- The lines of an excerpt end in the shown line and the line of the caret. -/
theorem toList_excerpt (d : Diagnostic) (file source : String) :
    ∃ head, (d.excerpt file source).toList =
      head ++ '\n' :: (d.margin ++ shownLine (d.sourceLine source)) ++
        '\n' :: (d.bar ++ ' ' ::
          padLeft '-' (caretOffset (d.sourceLine source) d.position.col.toNat) ['^']) ++
        ['\n'] := by
  refine ⟨(d.heading ++ "\n" ++ "-> " ++ file ++ ":" ++ d.position.render ++ "\n").toList ++ d.bar,
    ?_⟩
  -- not by its equation, which Lean takes long to state for a text of that many parts
  delta excerpt
  simp [margin, bar]

theorem notMem_padLeft {x fill : Char} {width : Nat} {s : List Char} (hfill : x ≠ fill)
    (hs : x ∉ s) : x ∉ padLeft fill width s := by
  simp [padLeft, hfill, hs]

theorem notMem_margin (d : Diagnostic) : '\n' ∉ d.margin := by
  have hdigits : '\n' ∉ Nat.toDigits 10 d.position.row.toNat := fun hmem =>
    absurd (Nat.isDigit_of_mem_toDigits (by decide) (by decide) hmem) (by decide)
  simp [margin, hdigits]

/-- **The caret** of an excerpt stands under the character at the position of the report, if the
excerpt shows that character. -/
theorem excerpt_pointsAt (h : StandsAt source d.position front c rest)
    (hindent : ¬InIndentation front c) (htrail : ¬InTrail c rest) (file : String) :
    PointsAt (d.excerpt file source).toList (d.lead front) c := by
  obtain ⟨⟨behind, hshown⟩, hcaret⟩ := exists_shownLine_eq h hindent htrail
  obtain ⟨head, htext⟩ := d.toList_excerpt file source
  have hline : '\n' ∉ d.margin ++ shownLine (d.sourceLine source) := by
    simp [d.notMem_margin, notMem_shownLine h]
  have hbar : '\n' ∉ d.bar := notMem_padLeft (by decide) (by decide)
  have harrow (width : Nat) : '\n' ∉ padLeft '-' width ['^'] :=
    notMem_padLeft (by decide) (by decide)
  have hlast (width : Nat) : '\n' ∉ d.bar ++ ' ' :: padLeft '-' width ['^'] := by
    simp [hbar, harrow]
  refine ⟨splitOn '\n' head, behind, d.bar ++ ' ' ::
    List.replicate ((lineBefore front).dropWhile isIndent).length '-', ?_, ?_⟩
  · rw [htext, splitOn_append_two hline (hlast _), hshown, hcaret]
    simp [lead, padLeft]
  · simp only [lead, margin, bar, length_padLeft, String.length_toList, List.length_append,
      List.length_cons, List.length_nil, List.length_replicate]
    omega

end Diagnostic

/-! ## Scans -/

/-- The characters that a cause is about. -/
def Cause.text : Cause → List Char
  | unrecognised c => [c]
  | loneSlash => ['/']
  | unterminated text => text.toList

theorem Placed.diagnostic?_eq_some {y : Placed} {d : Diagnostic} (h : y.diagnostic? = some d) :
    d.cause.text = y.piece.text ∧ d.position = y.start := by
  obtain ⟨piece, start, stop⟩ := y
  cases piece with
  | token kind text => contradiction
  | unterminated text =>
      cases h
      exact ⟨String.toList_ofList, rfl⟩
  | unrecognised c =>
      cases h
      exact ⟨rfl, rfl⟩
  | slash =>
      cases h
      exact ⟨rfl, rfl⟩
  | comment text => contradiction

/-- The text that a report is about begins at the position of the report. -/
theorem Scan.Covers.exists_standsAt {rs : List Recognizer} {source : String} {ys : List Placed}
    {scan : Scan} (h : scan.Covers rs source.toList ys) {d : Diagnostic} (hd : d ∈ scan.errors) :
    ∃ front c rest, StandsAt source d.position front c rest ∧ d.cause.text.head? = some c := by
  rw [h.errors_eq] at hd
  obtain ⟨y, hy, hreport⟩ := List.mem_filterMap.mp hd
  obtain ⟨before, after, rfl⟩ := List.append_of_mem hy
  obtain ⟨htext, hposition⟩ := Placed.diagnostic?_eq_some hreport
  obtain ⟨c, cs, hcs⟩ := List.exists_cons_of_ne_nil (h.fits before y after rfl).1
  have hsource := h.texts_eq
  rw [List.map_append, List.map_cons, Piece.texts_append, Piece.texts_cons, hcs] at hsource
  refine ⟨Piece.texts (before.map (·.piece)), c, cs ++ Piece.texts (after.map (·.piece)),
    ⟨?_, ?_⟩, ?_⟩
  · rw [← hsource, List.cons_append]
  · rw [hposition]
    exact (h.spans before y after rfl).1
  · rw [htext, hcs, List.head?_cons]

/-- **Reports point at what they are about**: on a text without overflow each report stands at the
first character of the text it is about, and the caret of its excerpt stands under that character,
unless it belongs to the indentation of its line or to the white space at the end. -/
theorem Registry.tokenize_pointsAt (r : Registry) (source : String)
    (h : (Position.origin.advanceAll? source.toList).isSome) :
    ∃ scan, r.tokenize source = .ok scan ∧ ∀ d ∈ scan.errors,
      (∃ front c rest, StandsAt source d.position front c rest ∧
        d.cause.text.head? = some c) ∧
      ∀ front c rest, StandsAt source d.position front c rest →
        ¬InIndentation front c → ¬InTrail c rest →
          ∀ file, PointsAt (d.excerpt file source).toList (d.lead front) c := by
  obtain ⟨ys, hplace⟩ := exists_place?_cut r.recognizers h
  have hcovers := covers_ofPlaced hplace
  refine ⟨_, tokenize_of_place? hplace, fun d hd => ⟨hcovers.exists_standsAt hd, ?_⟩⟩
  exact fun front c rest hat => Diagnostic.excerpt_pointsAt hat

/-- The number sign in the second line is indented, and white space follows it. -/
theorem tokenize_pointsAt_nestedWords :
    (Position.origin.advanceAll? "a\n\t ab# \r\n".toList).isSome ∧
      ∃ scan, nestedWords.tokenize "a\n\t ab# \r\n" = .ok scan ∧
        ⟨.unrecognised '#', ⟨2, 5⟩⟩ ∈ scan.errors ∧
        PointsAt ((⟨.unrecognised '#', ⟨2, 5⟩⟩ : Diagnostic).excerpt "x"
          "a\n\t ab# \r\n").toList "2 | ab".toList '#' := by
  have hpos : (Position.origin.advanceAll? "a\n\t ab# \r\n".toList).isSome := by decide
  obtain ⟨scan, hscan, hall⟩ := nestedWords.tokenize_pointsAt _ hpos
  have hmem : (nestedWords.tokenize "a\n\t ab# \r\n").map
      (fun s => decide (⟨.unrecognised '#', ⟨2, 5⟩⟩ ∈ s.errors)) = .ok true := by
    decide +kernel
  rw [hscan] at hmem
  have hd : ⟨.unrecognised '#', ⟨2, 5⟩⟩ ∈ scan.errors := of_decide_eq_true (Except.ok.inj hmem)
  have hat : StandsAt "a\n\t ab# \r\n" ⟨2, 5⟩ "a\n\t ab".toList '#' " \r\n".toList :=
    ⟨by decide, by decide⟩
  have hlead : Diagnostic.lead ⟨.unrecognised '#', ⟨2, 5⟩⟩ "a\n\t ab".toList =
      "2 | ab".toList := by
    decide
  have hpoints := (hall _ hd).2 _ '#' _ hat (by decide) (by decide) "x"
  rw [hlead] at hpoints
  exact ⟨hpos, scan, hscan, hd, hpoints⟩

example :
    (⟨.unrecognised '#', ⟨2, 10⟩⟩ : Diagnostic).excerpt "c.circuit"
        "circuit c \x7b\n    in a # b;\n\x7d" =
      "Error: UnrecognisedCharacter (`#` cannot start any token)\n-> c.circuit:2:10\n" ++
        "  |\n2 | in a # b;\n  | -----^\n" := by
  decide +kernel

end CircuitScan
