import CircuitScan.Proofs.LockStep

/-!
# CircuitScan.Proofs.Refinement

A scanner does what a cursor does. `Tracks` relates the two: the lanes have read the word of the
cursor, and the positions are those around its characters. Each step of the scanner then is a step
of the cursor, with the pieces placed and their results added (`step_reaches`), and so is a whole
run (`run_reaches`). Since a cursor hands out the cut of a text, a scan returns the results of
that cut, or fails where a position overflows (`run_eq_error`).
-/

namespace CircuitScan

open Piece (texts)

namespace Scanner

variable {rs : List Recognizer} {w : List Char} {s : Scanner} {p : Position}

/-- The scanner is where the cursor is, behind characters that begin at `p`. -/
def Tracks (rs : List Recognizer) (p : Position) (u : Cursor) (s : Scanner) : Prop :=
  match u with
  | .word w => Holds rs p w s ∧ p.advanceAll? w = some s.position
  | .comment t => Clear rs s ∧ s.inComment = true ∧ p.advanceAll? t = some s.position

/-- An operation of the scanner succeeds, and gives the pieces and the cursor `o`. -/
def Reaches (rs : List Recognizer) (s : Scanner) (p : Position) (e : Except Fault Scanner)
    (o : List Piece × Cursor) : Prop :=
  ∃ s' q, e = .ok s' ∧ Adds s s' p o.1 q ∧ Tracks rs q o.2 s'

/-- Results that came before an operation stand before its own. -/
theorem Reaches.after {s' : Scanner} {q : Position} {e : Except Fault Scanner} {xs : List Piece}
    {o : List Piece × Cursor} (h : Reaches rs s' q e o) (hadds : Adds s s' p xs q) :
    Reaches rs s p e (xs ++ o.1, o.2) := by
  obtain ⟨s'', q', he, hadds', htracks⟩ := h
  exact ⟨s'', q', he, hadds.trans hadds', htracks⟩

/-- Only the results of a scanner count before an operation. -/
theorem Reaches.of_results {s' : Scanner} {e : Except Fault Scanner} {o : List Piece × Cursor}
    (h : Reaches rs s' p e o) (htokens : s'.tokens = s.tokens) (herrors : s'.errors = s.errors) :
    Reaches rs s p e o :=
  h.after (.nil p htokens herrors)

/-! ## Characters of words -/

theorem advanceAll?_concat {here after : Position} {c : Char} (hw : p.advanceAll? w = some here)
    (hc : here.advance? c = some after) : p.advanceAll? (w ++ [c]) = some after := by
  rw [Position.advanceAll?_append, hw, Option.bind_some, Position.advanceAll?_cons, hc]
  rfl

theorem ofList_push {t : String} (h : t = String.ofList w) (c : Char) :
    t.push c = String.ofList (w ++ [c]) := by
  rw [h, ← String.toList_inj, String.toList_push, String.toList_ofList, String.toList_ofList]

/-- A word that some lane took goes on, or ends with a token. -/
theorem grow_reaches {c : Char} {next : Option Char} (hreads : Reads rs (w ++ [c]) s)
    (hlexeme : s.lexeme = String.ofList w) (hstart : s.start = p) (hout : s.inComment = false)
    (hpos : p.advanceAll? (w ++ [c]) = some s.position) :
    Reaches rs s p (s.grow c next) (Cursor.grow rs (w ++ [c]) next) := by
  have hholds : Holds rs p (w ++ [c]) { s with lexeme := s.lexeme.push c } :=
    ⟨hreads, ofList_push hlexeme c, hstart, hout⟩
  have hpending : Reaches rs s p (.ok { s with lexeme := s.lexeme.push c })
      ([], .word (w ++ [c])) := ⟨_, p, rfl, .nil p rfl rfl, hholds, hpos⟩
  unfold grow Cursor.grow
  dsimp only
  obtain ⟨hbest, hnone⟩ | ⟨l, x, hbest, hx, hl⟩ := hholds.reads.best?_eq
  · rw [hbest, hnone]
    exact hpending
  · rw [hbest, hx, hholds.reads.canExtend_eq]
    dsimp only
    split
    · exact hpending
    · obtain ⟨s', htake, hclear, hposition, hout', hadds⟩ := take_spec hholds hl hx hpos
      rw [htake]
      exact ⟨_, s.position, rfl, ⟨hadds.stop, hadds.results⟩,
        ⟨hclear.reads, hclear.lexeme, hposition, hout'⟩, congrArg some hposition.symm⟩

/-- A character that starts no token is reported. -/
theorem reject_reaches {c : Char} (hreads : Reads rs w s) (hout : s.inComment = false)
    (hpos : p.advanceAll? [c] = some s.position) :
    Reaches rs s p (.ok (s.reject c p)) ([.unrecognised c], .word []) := by
  have hclear := Reads.clear (s := s.report (.unrecognised c) p) hreads
  have hadds : Adds s (s.reject c p) p [.unrecognised c] s.position := by
    apply Adds.singleton hpos
    · simp [reject, report, resetAll, Placed.token?]
    · simp [reject, report, resetAll, Placed.diagnostic?]
  exact ⟨_, s.position, rfl, hadds, ⟨hclear.reads, rfl, rfl, hout⟩, rfl⟩

/-- Behind the lanes that took a character, a word goes on or the character is reported. -/
def growOrReject (s : Scanner) (c : Char) (next : Option Char) (here : Position) :
    Except Fault Scanner :=
  if s.isLive then s.grow c next else .ok (s.reject c here)

/-- A character behind no word begins one, or is reported. -/
theorem begin_reaches {c : Char} {next : Option Char} (h : Holds rs p [] s)
    (hpos : p.advanceAll? [c] = some s.position) :
    Reaches rs s p ((s.feed c).growOrReject c next p) (Cursor.begin rs c next) := by
  have hreads : Reads rs ([] ++ [c]) (s.feed c) := h.reads.feed c
  have hlive := hreads.isLive_eq
  rw [List.nil_append] at hlive
  unfold growOrReject Cursor.begin
  rw [hlive]
  split
  · exact (grow_reaches hreads h.lexeme h.start h.outside hpos).of_results rfl rfl
  · exact (reject_reaches hreads h.outside hpos).of_results rfl rfl

section

variable {here : Position} {c : Char} {next : Option Char}

/-- Where some lane has a path over the character, the word grows. -/
theorem advance_reaches_of_path (hc : c ≠ '/') (h : Holds rs p w s)
    (hpath : someFollows rs (w ++ [c])) (hpos : p.advanceAll? (w ++ [c]) = some s.position) :
    Reaches rs s p ((s.advance c here).growOrReject c next here)
      (Cursor.step rs (.word w) c next) := by
  have hreads := h.reads.feed c
  have hlive := hreads.isLive_eq
  have hadvance : s.advance c here = s.feed c := by
    rw [advance, hlive, hpath]
    rfl
  have hstep : Cursor.step rs (.word w) c next = Cursor.grow rs (w ++ [c]) next := by
    simp [Cursor.step, hc, hpath]
  rw [hadvance, hstep, growOrReject, hlive, if_pos hpath]
  exact (grow_reaches hreads h.lexeme h.start h.outside hpos).of_results rfl rfl

/-- Where no lane has a path, the word is given up, and the character is taken behind no word. -/
theorem advance_reaches_of_stuck (hc : c ≠ '/') (h : Holds rs p w s) (hw : w ≠ [])
    (hstuck : someFollows rs (w ++ [c]) = false) (hhere : p.advanceAll? w = some here)
    (hpos : here.advanceAll? [c] = some s.position) :
    Reaches rs s p ((s.advance c here).growOrReject c next here)
      (Cursor.step rs (.word w) c next) := by
  have hreads := h.reads.feed c
  have hlexeme : s.lexeme ≠ "" := by
    rw [h.lexeme]
    simpa using hw
  have hadvance : s.advance c here =
      ({ (s.feed c).abandon with start := here } : Scanner).feed c := by
    simp [advance, hreads.isLive_eq, hstuck, hlexeme]
  have hstep : Cursor.step rs (.word w) c next =
      (.unterminated w :: (Cursor.begin rs c next).1, (Cursor.begin rs c next).2) := by
    simp [Cursor.step, hc, hstuck, hw]
  obtain ⟨hclear, hadds⟩ := abandon_spec hreads h.lexeme h.start hhere
  have hholds : Holds rs here [] { (s.feed c).abandon with start := here } :=
    ⟨hclear.reads, hclear.lexeme, rfl, h.outside⟩
  have hgiven : Adds s { (s.feed c).abandon with start := here } p [.unterminated w] here :=
    ⟨hadds.stop, hadds.results⟩
  rw [hadvance, hstep]
  exact (begin_reaches hholds hpos).after hgiven

/-- A character that is no slash, outside comments, behind the word `w`. -/
theorem advance_reaches (hc : c ≠ '/') (h : Holds rs p w s) (hhere : p.advanceAll? w = some here)
    (hafter : here.advance? c = some s.position) :
    Reaches rs s p ((s.advance c here).growOrReject c next here)
      (Cursor.step rs (.word w) c next) := by
  have hone : here.advanceAll? [c] = some s.position := advanceAll?_concat (w := []) rfl hafter
  by_cases hpath : someFollows rs (w ++ [c])
  · exact advance_reaches_of_path hc h hpath (advanceAll?_concat hhere hafter)
  · rw [Bool.not_eq_true] at hpath
    by_cases hw : w = []
    · subst hw
      obtain rfl : p = here := by simpa using hhere
      have hadvance : s.advance c p = s.feed c := by simp [advance, h.lexeme]
      have hstep : Cursor.step rs (.word []) c next = Cursor.begin rs c next := by
        simp [Cursor.step, Cursor.begin, hc]
      rw [hadvance, hstep]
      exact begin_reaches h hone
    · exact advance_reaches_of_stuck hc h hw hpath hhere hone

end

/-! ## Steps -/

theorem step_of_comment {c : Char} {after : Position} (next : Option Char)
    (hin : s.inComment = true) (hafter : s.position.advance? c = some after) :
    s.step c next =
      if c = '\n' then .ok { s with position := after, inComment := false, start := after }
      else .ok { s with position := after } := by
  simp only [step, hafter, hin]
  rfl

theorem step_of_slash {after : Position} (next : Option Char) (hout : s.inComment = false)
    (hafter : s.position.advance? '/' = some after) :
    s.step '/' next =
      (settle { s with position := after } s.position).bind fun s' =>
        if next = some '/' then .ok { s' with inComment := true }
        else .ok { s'.report .loneSlash s.position with start := after } := by
  simp only [step, hafter, hout]
  rfl

theorem step_of_word {c : Char} {after : Position} (next : Option Char)
    (hout : s.inComment = false) (hc : c ≠ '/') (hafter : s.position.advance? c = some after) :
    s.step c next =
      (advance { s with position := after } c s.position).growOrReject c next s.position := by
  simp only [step, hafter, hout, hc]
  rfl

section

variable {c : Char} {after : Position} {next : Option Char}

/-- A comment goes on, or ends at a line feed. -/
theorem step_reaches_comment {t : List Char} (h : Tracks rs p (.comment t) s)
    (hafter : s.position.advance? c = some after) :
    Reaches rs s p (s.step c next) (Cursor.step rs (.comment t) c next) := by
  obtain ⟨hclear, hin, hpos⟩ := h
  have hnext := advanceAll?_concat hpos hafter
  rw [step_of_comment next hin hafter, Cursor.step]
  split
  · have hadds : Adds s { s with position := after, inComment := false, start := after } p
        [.comment (t ++ [c])] after :=
      .singleton hnext (by simp [Placed.token?]) (by simp [Placed.diagnostic?])
    exact ⟨_, after, rfl, hadds, ⟨hclear.reads, hclear.lexeme, rfl, rfl⟩, rfl⟩
  · exact ⟨_, p, rfl, .nil p rfl rfl, ⟨hclear.reads, hclear.lexeme⟩, hin, hnext⟩

/-- A slash settles the word, and opens a comment or is reported. -/
theorem step_reaches_slash (h : Tracks rs p (.word w) s)
    (hafter : s.position.advance? '/' = some after) :
    Reaches rs s p (s.step '/' next) (Cursor.step rs (.word w) '/' next) := by
  obtain ⟨hholds, hpos⟩ := h
  have hmoved : Holds rs p w { s with position := after } :=
    ⟨hholds.reads, hholds.lexeme, hholds.start, hholds.outside⟩
  obtain ⟨s', hsettle, hclear, hposition, hout, hadds⟩ := settle_spec hmoved hpos
  have hslash : s.position.advanceAll? ['/'] = some after :=
    advanceAll?_concat (w := []) rfl hafter
  have hopen : s.position.advanceAll? ['/'] = some s'.position := by
    rw [hslash, hposition]
  have hgiven : Adds s s' p (Cursor.settle rs w) s.position := ⟨hadds.stop, hadds.results⟩
  rw [step_of_slash next hholds.outside hafter, hsettle, Cursor.step, if_pos rfl, Except.bind]
  split
  · exact ⟨_, s.position, rfl, ⟨hadds.stop, hadds.results⟩, ⟨hclear.reads, hclear.lexeme⟩,
      rfl, hopen⟩
  · have hlone : Adds s' { s'.report .loneSlash s.position with start := after }
        s.position [.slash] after :=
      .singleton hslash (by simp [report, Placed.token?]) (by simp [report, Placed.diagnostic?])
    exact ⟨_, after, rfl, hgiven.trans hlone, ⟨hclear.reads, hclear.lexeme, rfl, hout⟩,
      congrArg some hposition.symm⟩

/-- **A step** of a scanner that tracks a cursor is a step of the cursor. -/
theorem step_reaches {u : Cursor} (h : Tracks rs p u s)
    (hafter : s.position.advance? c = some after) :
    Reaches rs s p (s.step c next) (Cursor.step rs u c next) := by
  cases u with
  | comment t => exact step_reaches_comment h hafter
  | word w =>
      by_cases hc : c = '/'
      · subst hc
        exact step_reaches_slash h hafter
      · obtain ⟨hholds, hpos⟩ := h
        have hmoved : Holds rs p w { s with position := after } :=
          ⟨hholds.reads, hholds.lexeme, hholds.start, hholds.outside⟩
        rw [step_of_word next hholds.outside hc hafter]
        exact (advance_reaches hc hmoved hpos hafter).of_results rfl rfl

end

/-! ## Runs -/

theorem Tracks.position {u : Cursor} (h : Tracks rs p u s) :
    p.advanceAll? u.text = some s.position := by
  cases u with
  | word w => exact h.2
  | comment t => exact h.2.2

/-- Behind a step the scanner stands behind its character. -/
theorem position_of_step {u : Cursor} {c : Char} {after q : Position} {next : Option Char}
    {s' : Scanner} (h : Tracks rs p u s) (hafter : s.position.advance? c = some after)
    (hadds : Adds s s' p (Cursor.step rs u c next).1 q)
    (htracks : Tracks rs q (Cursor.step rs u c next).2 s') : s'.position = after := by
  have hnext := advanceAll?_concat h.position hafter
  rw [← Cursor.texts_step u c next, Position.advanceAll?_append, hadds.stop,
    Option.bind_some, htracks.position] at hnext
  exact Option.some.inj hnext

/-- **A run** over characters that overflow no position is a run of the cursor. -/
theorem run_reaches {u : Cursor} {r : List Char} {last : Position} (h : Tracks rs p u s)
    (hlast : s.position.advanceAll? r = some last) :
    Reaches rs s p (s.run r) (Cursor.run rs u r) := by
  induction r generalizing s p u with
  | nil => exact ⟨s, p, rfl, .nil p rfl rfl, h⟩
  | cons c r ih =>
      rw [Position.advanceAll?_cons] at hlast
      obtain ⟨after, hafter, hrest⟩ := Option.bind_eq_some_iff.mp hlast
      obtain ⟨s', q, hstep, hadds, htracks⟩ :
          Reaches rs s p (s.step c r.head?) (Cursor.step rs u c r.head?) := step_reaches h hafter
      obtain rfl := position_of_step h hafter hadds htracks
      rw [run, hstep]
      exact (ih htracks hrest).after hadds

/-- A run over characters of which one overflows a position fails. -/
theorem run_eq_error {u : Cursor} {r : List Char} (h : Tracks rs p u s)
    (hlast : s.position.advanceAll? r = none) : s.run r = .error .positionOverflow := by
  induction r generalizing s p u with
  | nil => simp at hlast
  | cons c r ih =>
      rw [run]
      cases hafter : s.position.advance? c with
      | none =>
          have hstep : s.step c r.head? = .error .positionOverflow := by
            simp only [step, hafter]
            rfl
          rw [hstep]
          rfl
      | some after =>
          rw [Position.advanceAll?_cons, hafter, Option.bind_some] at hlast
          obtain ⟨s', q, hstep, hadds, htracks⟩ :
              Reaches rs s p (s.step c r.head?) (Cursor.step rs u c r.head?) :=
            step_reaches h hafter
          obtain rfl := position_of_step h hafter hadds htracks
          rw [hstep]
          exact ih htracks hlast

/-- The end of the text ends the word, and a comment. -/
theorem finish_spec {u : Cursor} (h : Tracks rs p u s) :
    ∃ s', s.finish = .ok s' ∧ Adds s s' p (Cursor.finish rs u) s.position := by
  cases u with
  | comment t =>
      obtain ⟨-, hin, hpos⟩ := h
      have hfinish : s.finish = .ok s.resetAll := by simp [finish, hin]
      have hadds : Adds s s.resetAll p [.comment t] s.position := by
        apply Adds.singleton hpos
        · simp [resetAll, Placed.token?]
        · simp [resetAll, Placed.diagnostic?]
      exact ⟨_, hfinish, hadds⟩
  | word w =>
      obtain ⟨hholds, hpos⟩ := h
      obtain ⟨s', hsettle, -, -, -, hadds⟩ := settle_spec hholds hpos
      have hfinish : s.finish = .ok s'.resetAll := by simp [finish, hholds.outside, hsettle]
      exact ⟨_, hfinish, hadds.stop, hadds.results⟩

/-! ## Whole texts -/

theorem Reads.tracks_restart (h : Reads rs w s) : Tracks rs .origin (.word []) s.restart :=
  ⟨⟨h.resetAll, rfl, rfl, rfl⟩, rfl⟩

/-- A scan hands out the results of the pieces of a cursor, whatever the scanner has done before.
The ignored tokens stay with the scanner. -/
theorem tokenize_spec {source : String} {last : Position} (h : Reads rs w s)
    (hlast : Position.origin.advanceAll? source.toList = some last) :
    ∃ ys s', place? .origin (Cursor.pieces rs (.word []) source.toList) = some ys ∧
      s.tokenize source = .ok (s'.result, s') ∧
      s'.tokens.toList = ys.filterMap Placed.token? ∧
      s'.errors.toList = ys.filterMap Placed.diagnostic? := by
  obtain ⟨s₁, q, hrun, hadds, htracks⟩ := run_reaches h.tracks_restart hlast
  obtain ⟨s₂, hfinish, hadds'⟩ := finish_spec htracks
  obtain ⟨-, ys, hplace, htokens, herrors⟩ := hadds.trans hadds'
  have htokenize : s.tokenize source = .ok (s₂.result, s₂) := by
    simp only [tokenize, hrun, bind, Except.bind, hfinish]
    rfl
  exact ⟨ys, s₂, hplace, htokenize, htokens, herrors⟩

/-- The results of a scan are those of the pieces of a cursor. -/
theorem tokenize_eq_pieces {source : String} {last : Position} (h : Reads rs w s)
    (hlast : Position.origin.advanceAll? source.toList = some last) :
    ∃ ys s', place? .origin (Cursor.pieces rs (.word []) source.toList) = some ys ∧
      s.tokenize source = .ok (Scan.ofPlaced ys, s') := by
  obtain ⟨ys, s', hplace, htokenize, htokens, herrors⟩ := tokenize_spec h hlast
  have hresult : s'.result = Scan.ofPlaced ys := by
    rw [result, htokens, herrors]
    rfl
  exact ⟨ys, s', hplace, by rw [htokenize, hresult]⟩

/-- A scan of a text on which a position overflows fails. -/
theorem tokenize_eq_error {source : String} (h : Reads rs w s)
    (hlast : Position.origin.advanceAll? source.toList = none) :
    s.tokenize source = .error .positionOverflow := by
  rw [tokenize, run_eq_error h.tracks_restart hlast]
  rfl

end Scanner

/-- A scan returns the results of the cut of the text, once the cut is placed. -/
theorem Registry.tokenize_of_place? {r : Registry} {source : String} {ys : List Placed}
    (h : place? .origin (cut r.recognizers source.toList) = some ys) :
    r.tokenize source = .ok (Scan.ofPlaced ys) := by
  obtain ⟨last, hlast⟩ := exists_advanceAll? h
  rw [texts_cut] at hlast
  obtain ⟨zs, s', hplace, htokenize⟩ :=
    Scanner.tokenize_eq_pieces (Scanner.reads_ofRegistry r) hlast
  rw [Cursor.pieces_eq_cut, h] at hplace
  rw [Registry.tokenize, htokenize, Option.some.inj hplace]
  rfl

/-- **Refinement**: scanning a text on which no position overflows returns the results of the cut
of the text, placed from the origin on. -/
theorem Registry.tokenize_eq_cut (r : Registry) (source : String)
    (h : (Position.origin.advanceAll? source.toList).isSome) :
    ∃ ys, place? .origin (cut r.recognizers source.toList) = some ys ∧
      r.tokenize source = .ok (Scan.ofPlaced ys) := by
  obtain ⟨ys, hplace⟩ := exists_place?_cut r.recognizers h
  exact ⟨ys, hplace, tokenize_of_place? hplace⟩

/-- A recognizer of `a`, and one of `abc` behind it. As no recognizer accepts `ab`, the longer word
is never found. -/
def nestedWords : Registry where
  recognizers :=
    [ { name := "a", kind := .and, automaton := ⟨Table.empty.set 0 'a' 1, 0, [1]⟩ },
      { name := "abc", kind := .identifier, priority := 1,
        automaton := ⟨((Table.empty.set 0 'a' 1).set 1 'b' 2).set 2 'c' 3, 0, [3]⟩ } ]

theorem tokenize_eq_cut_nestedWords :
    (Position.origin.advanceAll? "abc/a//a\na".toList).isSome ∧
      ∃ ys, place? .origin (cut nestedWords.recognizers "abc/a//a\na".toList) = some ys ∧
        nestedWords.tokenize "abc/a//a\na" = .ok (Scan.ofPlaced ys) :=
  ⟨by decide, nestedWords.tokenize_eq_cut _ (by decide)⟩

example : cut nestedWords.recognizers "abc/a//a\na".toList =
    [.token .and ['a'], .unrecognised 'b', .unrecognised 'c', .slash, .token .and ['a'],
      .comment ['/', '/', 'a', '\n'], .token .and ['a']] := by
  decide +kernel

end CircuitScan
