import CircuitScan.Proofs.Builtin.Cut
import CircuitScan.Proofs.Refinement

/-!
# CircuitScan.Proofs.Builtin.Lexer

A longest-match lexer for the circuit language. It takes one lexeme after another from the front
of the text, and knows neither registries nor automata:

1. two slashes and the rest of their line are skipped, and so is a slash on its own;
2. a letter or an underscore takes all letters, digits and underscores behind it;
3. a zero is a number, and another digit takes all digits behind it;
4. a mark is a token, and any other character is skipped, blank or not.

* `Registry.tokens_builtin` — scans with the recognizers of the language find the same tokens.
-/

namespace CircuitScan

namespace Builtin

/-- A text that is taken from the front, and the kind of its token unless it is skipped. -/
structure Lexeme where
  kind? : Option Kind
  text : List Char

/-- What is taken from the front of the text `c :: r`. -/
def lexeme (c : Char) (r : List Char) : Lexeme :=
  if c = '/' then ⟨none, if r.head? = some '/' then throughLine (c :: r) else [c]⟩
  else if isWordStart c then
    ⟨some (wordKind (c :: r.takeWhile isWordPart)), c :: r.takeWhile isWordPart⟩
  else if c = '0' then ⟨some .number, [c]⟩
  else if c.isDigit then ⟨some .number, c :: r.takeWhile Char.isDigit⟩
  else ⟨markKind? c, [c]⟩

/-- The token of a lexeme from `p` to `q`. -/
def Lexeme.token? (l : Lexeme) (p q : Position) : Option Token :=
  l.kind?.map fun kind => ⟨kind, String.ofList l.text, p, q⟩

theorem throughLine_cons_ne_nil (c : Char) (r : List Char) : throughLine (c :: r) ≠ [] := by
  unfold throughLine
  split <;> simp

theorem text_lexeme_ne_nil (c : Char) (r : List Char) : (lexeme c r).text ≠ [] := by
  unfold lexeme
  split_ifs <;> simp [throughLine_cons_ne_nil]

/-- The tokens of a text that begins at `p`, unless a position overflows. -/
def lex (p : Position) : List Char → Option (List Token)
  | [] => some []
  | c :: r => do
    let l := lexeme c r
    let q ← p.advanceAll? l.text
    let ts ← lex q ((c :: r).drop l.text.length)
    return (l.token? p q).toList ++ ts
termination_by r => r.length
decreasing_by
  have hpos := List.length_pos_iff.mpr (text_lexeme_ne_nil c r)
  simp only [List.length_drop, List.length_cons]
  omega

/-- A text is its first lexeme, and what stands behind it. -/
theorem lex_of_append {p q : Position} {c : Char} {r t : List Char} {l : Lexeme}
    (hl : lexeme c r = l) (ht : c :: r = l.text ++ t) (hq : p.advanceAll? l.text = some q) :
    lex p (c :: r) = (lex q t).map fun ts => (l.token? p q).toList ++ ts := by
  rw [lex, hl, ht, List.drop_left]
  simp only [hq, Option.bind_eq_bind, Option.bind_some]
  cases lex q t <;> rfl

/-- What begins neither a comment nor a word nor a number is a mark, or skipped. -/
theorem lexeme_of_other {c : Char} (hslash : c ≠ '/') (hword : isWordStart c = false)
    (hdigit : c.isDigit = false) (r : List Char) : lexeme c r = ⟨markKind? c, [c]⟩ := by
  have hzero : c ≠ '0' := by
    rintro rfl
    contradiction
  simp [lexeme, hslash, hword, hzero, hdigit]

/-! ## Blanks -/

theorem lexeme_of_isBlank {c : Char} (hc : isBlank c) (r : List Char) :
    lexeme c r = ⟨none, [c]⟩ := by
  have hnone : c ≠ '/' ∧ markKind? c = none := by
    simp only [isBlank, Bool.or_eq_true, decide_eq_true_eq] at hc
    rcases hc with ((rfl | rfl) | rfl) | rfl <;> decide
  obtain ⟨hstart, -, hdigit⟩ := first_of_isBlank hc
  rw [lexeme_of_other hnone.1 hstart hdigit, hnone.2]

/-- Blanks are skipped one by one. -/
theorem lex_blanks {p q : Position} {w : List Char} (hw : w.all isBlank)
    (hq : p.advanceAll? w = some q) (t : List Char) : lex p (w ++ t) = lex q t := by
  induction w generalizing p with
  | nil =>
      obtain rfl : p = q := by simpa using hq
      rfl
  | cons c w ih =>
      rw [List.all_cons, Bool.and_eq_true] at hw
      rw [Position.advanceAll?_cons] at hq
      obtain ⟨m, hm, hmq⟩ := Option.bind_eq_some_iff.mp hq
      have hone : p.advanceAll? [c] = some m := by
        rw [Position.advanceAll?_cons, hm]
        rfl
      have hsplit : c :: (w ++ t) = [c] ++ (w ++ t) := rfl
      rw [List.cons_append, lex_of_append (lexeme_of_isBlank hw.1 _) hsplit hone, ih hw.2 hmq]
      cases lex q t <;> rfl

/-! ## Pieces -/

theorem tokens_ofPlaced_cons (y : Placed) (ys : List Placed) :
    (Scan.ofPlaced (y :: ys)).tokens =
      (Scan.ofPlaced [y]).tokens ++ (Scan.ofPlaced ys).tokens := by
  unfold Scan.ofPlaced
  cases h : y.token? with
  | none => simp [h]
  | some t => by_cases ht : t.kind = .ignored <;> simp [h, ht]

/-- Only the token of a piece is shown, and not if it is ignored. -/
theorem tokens_ofPlaced_token {kind : Kind} (hkind : kind ≠ .ignored) (w : List Char)
    (p q : Position) :
    (Scan.ofPlaced [⟨.token kind w, p, q⟩]).tokens = [⟨kind, String.ofList w, p, q⟩] := by
  simp [Scan.ofPlaced, Placed.token?, hkind]

/-- The cut of `s` and the lexer agree on the piece `x` in front of `s`. -/
structure Agrees (rs : List Recognizer) (s : List Char) (x : Piece) (t : List Char) : Prop where
  cut_eq : cut rs s = x :: cut rs t
  split : s = x.text ++ t
  text_ne_nil : x.text ≠ []
  lex_eq : ∀ p q, p.advanceAll? x.text = some q →
    lex p s = (lex q t).map fun ts => (Scan.ofPlaced [⟨x, p, q⟩]).tokens ++ ts

/-- A piece without a token, of which the lexer skips the whole text. -/
theorem agrees_of_skipped {rs : List Recognizer} {c : Char} {r t : List Char} {x : Piece}
    (hcut : cut rs (c :: r) = x :: cut rs t) (hsplit : c :: r = x.text ++ t)
    (hl : lexeme c r = ⟨none, x.text⟩) (hx : ∀ p q, Placed.token? ⟨x, p, q⟩ = none) :
    Agrees rs (c :: r) x t := by
  have hne := text_lexeme_ne_nil c r
  rw [hl] at hne
  have hlex (p q : Position) (hq : p.advanceAll? x.text = some q) :
      lex p (c :: r) = (lex q t).map fun ts => (Scan.ofPlaced [⟨x, p, q⟩]).tokens ++ ts := by
    rw [lex_of_append hl hsplit hq]
    simp [Lexeme.token?, Scan.ofPlaced, hx]
  exact ⟨hcut, hsplit, hne, hlex⟩

/-- A token that the lexer takes. -/
theorem agrees_of_token {rs : List Recognizer} {c : Char} {r t w : List Char} {kind : Kind}
    (hcut : cut rs (c :: r) = .token kind w :: cut rs t) (hsplit : c :: r = w ++ t)
    (hl : lexeme c r = ⟨some kind, w⟩) (hkind : kind ≠ .ignored) :
    Agrees rs (c :: r) (.token kind w) t := by
  have hne := text_lexeme_ne_nil c r
  rw [hl] at hne
  have hlex (p q : Position) (hq : p.advanceAll? w = some q) :
      lex p (c :: r) =
        (lex q t).map fun ts => (Scan.ofPlaced [⟨.token kind w, p, q⟩]).tokens ++ ts := by
    rw [lex_of_append hl hsplit hq, tokens_ofPlaced_token hkind]
    rfl
  exact ⟨hcut, hsplit, hne, hlex⟩

theorem wordKind_ne_ignored (w : List Char) : wordKind w ≠ .ignored := by
  unfold wordKind
  cases h : reservedKind? w with
  | none => simp
  | some k => exact (isWord_of_reservedKind? h).2

theorem markKind?_ne_ignored {c : Char} {kind : Kind} (h : markKind? c = some kind) :
    kind ≠ .ignored := by
  have hkinds : ∀ e ∈ marks, e.2 ≠ .ignored := by decide
  obtain ⟨e, he, rfl⟩ := Option.map_eq_some_iff.mp h
  exact hkinds e (List.mem_of_find?_eq_some he)

theorem agrees_comment (rs : List Recognizer) (r : List Char) :
    Agrees rs ('/' :: '/' :: r) (.comment ('/' :: '/' :: throughLine r)) (afterLine r) := by
  have hsplit : '/' :: '/' :: r = '/' :: '/' :: throughLine r ++ afterLine r := by
    simp [throughLine_append_afterLine]
  have hl : lexeme '/' ('/' :: r) = ⟨none, '/' :: '/' :: throughLine r⟩ := by
    simp [lexeme, throughLine]
  exact agrees_of_skipped (cut_comment r) hsplit hl fun _ _ => rfl

theorem agrees_slash (rs : List Recognizer) {r : List Char} (hr : r.head? ≠ some '/') :
    Agrees rs ('/' :: r) .slash r := by
  have hl : lexeme '/' r = ⟨none, ['/']⟩ := by simp [lexeme, hr]
  exact agrees_of_skipped (cut_slash hr) rfl hl fun _ _ => rfl

section

variable {rs : List Recognizer} (hrs : Speaks rs) {c : Char}

include hrs

theorem exists_agrees_word (hslash : c ≠ '/') (hword : isWordStart c) (r : List Char) :
    ∃ x t, Agrees rs (c :: r) x t := by
  have hsplit : c :: r = c :: r.takeWhile isWordPart ++ r.dropWhile isWordPart := by
    rw [List.cons_append, List.takeWhile_append_dropWhile]
  have hl : lexeme c r =
      ⟨some (wordKind (c :: r.takeWhile isWordPart)), c :: r.takeWhile isWordPart⟩ := by
    simp [lexeme, hslash, hword]
  exact ⟨_, _, agrees_of_token (cut_word hrs hword r) hsplit hl (wordKind_ne_ignored _)⟩

theorem exists_agrees_number (hslash : c ≠ '/') (hword : isWordStart c = false)
    (hdigit : c.isDigit) (r : List Char) : ∃ x t, Agrees rs (c :: r) x t := by
  by_cases hzero : c = '0'
  · subst hzero
    exact ⟨_, _, agrees_of_token (cut_zero hrs r) rfl rfl (by decide)⟩
  · have hsplit : c :: r = c :: r.takeWhile Char.isDigit ++ r.dropWhile Char.isDigit := by
      rw [List.cons_append, List.takeWhile_append_dropWhile]
    have hl : lexeme c r = ⟨some .number, c :: r.takeWhile Char.isDigit⟩ := by
      simp [lexeme, hslash, hword, hzero, hdigit]
    exact ⟨_, _, agrees_of_token (cut_digits hrs hdigit hzero r) hsplit hl (by decide)⟩

/-- The cut takes blanks as one ignored token, and the lexer skips them one by one. -/
theorem exists_agrees_blanks (hblank : isBlank c) (r : List Char) :
    ∃ x t, Agrees rs (c :: r) x t := by
  have hsplit : c :: r = c :: r.takeWhile isBlank ++ r.dropWhile isBlank := by
    rw [List.cons_append, List.takeWhile_append_dropWhile]
  have hall : (c :: r.takeWhile isBlank).all isBlank := by simp [hblank]
  have hlex (p q : Position) (hq : p.advanceAll? (c :: r.takeWhile isBlank) = some q) :
      lex p (c :: r) = (lex q (r.dropWhile isBlank)).map fun ts =>
        (Scan.ofPlaced [⟨.token .ignored (c :: r.takeWhile isBlank), p, q⟩]).tokens ++ ts := by
    rw [hsplit, lex_blanks hall hq]
    simp [Scan.ofPlaced, Placed.token?]
  exact ⟨_, _, cut_blanks hrs hblank r, hsplit, by simp [Piece.text], hlex⟩

/-- Marks are tokens, and what begins nothing is skipped. -/
theorem exists_agrees_other (hslash : c ≠ '/') (hword : isWordStart c = false)
    (hdigit : c.isDigit = false) (hblank : isBlank c = false) (r : List Char) :
    ∃ x t, Agrees rs (c :: r) x t := by
  have hl := lexeme_of_other hslash hword hdigit r
  cases hmark : markKind? c with
  | some kind =>
      rw [hmark] at hl
      exact ⟨_, _, agrees_of_token (cut_mark hrs hmark r) rfl hl (markKind?_ne_ignored hmark)⟩
  | none =>
      have hnone : (marks.any fun e => e.1 = c) = false := by
        simpa [markKind?] using hmark
      have hbegins : begins c = false := by simp [begins, hword, hdigit, hblank, hnone]
      rw [hmark] at hl
      exact ⟨_, _, agrees_of_skipped (cut_foreign hrs hslash hbegins r) rfl hl fun _ _ => rfl⟩

/-- The lexer agrees with the cut on every front piece. -/
theorem exists_agrees (c : Char) (r : List Char) : ∃ x t, Agrees rs (c :: r) x t := by
  by_cases hslash : c = '/'
  · subst hslash
    by_cases hr : r.head? = some '/'
    · obtain ⟨r, rfl⟩ := List.head?_eq_some_iff.mp hr
      exact ⟨_, _, agrees_comment rs r⟩
    · exact ⟨_, _, agrees_slash rs hr⟩
  · cases hword : isWordStart c with
    | true => exact exists_agrees_word hrs hslash hword r
    | false =>
        cases hdigit : c.isDigit with
        | true => exact exists_agrees_number hrs hslash hword hdigit r
        | false =>
            cases hblank : isBlank c with
            | true => exact exists_agrees_blanks hrs hblank r
            | false => exact exists_agrees_other hrs hslash hword hdigit hblank r

end

/-! ## Whole texts -/

/-- The lexer finds the tokens of the placed cut of a text. -/
theorem lex_eq_tokens {rs : List Recognizer} (hrs : Speaks rs) {p : Position} {r : List Char}
    {ys : List Placed} (h : place? p (cut rs r) = some ys) :
    lex p r = some (Scan.ofPlaced ys).tokens := by
  induction hn : r.length using Nat.strong_induction_on generalizing p r ys with
  | _ n ih =>
      cases r with
      | nil =>
          rw [cut_nil] at h
          obtain rfl : ys = [] := by simpa using h.symm
          rw [lex]
          rfl
      | cons c r =>
          obtain ⟨x, t, hagrees⟩ := exists_agrees hrs c r
          rw [hagrees.cut_eq] at h
          obtain ⟨q, zs, hq, hzs, rfl⟩ := place?_cons_eq_some.mp h
          have hlt : t.length < n := by
            have hpos := List.length_pos_iff.mpr hagrees.text_ne_nil
            rw [← hn, hagrees.split, List.length_append]
            omega
          rw [hagrees.lex_eq p q hq, ih t.length hlt hzs rfl, tokens_ofPlaced_cons _ zs]
          rfl

end Builtin

theorem Registry.isOk_builtin : builtin.isOk := by
  decide +kernel

/-- **Longest match**: the recognizers of the circuit language exist, and on a text without
overflow a scan with them finds exactly the tokens of the longest-match lexer. -/
theorem Registry.tokens_builtin (source : String)
    (h : (Position.origin.advanceAll? source.toList).isSome) :
    ∃ r scan, builtin = .ok r ∧ r.tokenize source = .ok scan ∧
      Builtin.lex .origin source.toList = some scan.tokens := by
  have hok := isOk_builtin
  cases hr : builtin with
  | error e =>
      rw [hr] at hok
      contradiction
  | ok r =>
      obtain ⟨ys, hplace⟩ := exists_place?_cut r.recognizers h
      exact ⟨r, _, rfl, tokenize_of_place? hplace,
        Builtin.lex_eq_tokens (speaks_builtin hr) hplace⟩

theorem tokens_builtin_register :
    (Position.origin.advanceAll? "out x1 // rest\n= registers 007".toList).isSome ∧
      ∃ r scan, Registry.builtin = .ok r ∧
        r.tokenize "out x1 // rest\n= registers 007" = .ok scan ∧
        Builtin.lex .origin "out x1 // rest\n= registers 007".toList = some scan.tokens :=
  ⟨by decide, Registry.tokens_builtin _ (by decide)⟩

example : Builtin.lex .origin "in1 in/07".toList =
    some [⟨.identifier, "in1", ⟨1, 1⟩, ⟨1, 4⟩⟩, ⟨.input, "in", ⟨1, 5⟩, ⟨1, 7⟩⟩,
      ⟨.number, "0", ⟨1, 8⟩, ⟨1, 9⟩⟩, ⟨.number, "7", ⟨1, 9⟩, ⟨1, 10⟩⟩] := by
  decide +kernel

end CircuitScan
