import CircuitScan.Proofs.Builtin.Lexer
import CircuitScan.Proofs.Uncommented

/-!
# CircuitScan.Proofs.Builtin.Reports

What a scan of the circuit language reports, and what it leaves for the tokens. Both can be read off
the characters outside comments, one by one:

1. a slash that opens no comment is reported;
2. so is a foreign character, which stands neither in a token nor between tokens;
3. blanks are dropped;
4. all other characters stand in tokens, in order.

No token is left unterminated. Reserved words lead through states that accept nothing, but what
they begin with is an identifier all the way, so some recognizer accepts it
(`accepts_of_follows`).

* `Registry.reports_builtin` — scans with the recognizers of the language do exactly this.
-/

namespace CircuitScan

open Piece (texts)

namespace Builtin

/-! ## Characters -/

/-- The characters that tokens other than blanks consist of. -/
def inAlphabet (c : Char) : Bool := isWordPart c || marks.any fun e => e.1 = c

/-- What is neither a slash nor in a token nor a blank. -/
def isForeign (c : Char) : Bool := !(c = '/' || inAlphabet c || isBlank c)

/-- The report on a character outside comments, if there is one. -/
def report? (x : Located) : Option Diagnostic :=
  if x.char = '/' then some ⟨.loneSlash, x.position⟩
  else if isForeign x.char then some ⟨.unrecognised x.char, x.position⟩
  else none

/-- What is left of a text without slashes, foreign characters and blanks. -/
def kept (cs : List Char) : List Char :=
  cs.filter fun c => !(c = '/' || isForeign c || isBlank c)

theorem begins_eq (c : Char) : begins c = (inAlphabet c || isBlank c) := by
  unfold begins inAlphabet isWordPart
  cases isWordStart c <;> cases c.isDigit <;> cases isBlank c <;> simp

/-- Blanks are neither slashes nor in the alphabet. -/
theorem not_inAlphabet_of_isBlank {c : Char} (h : isBlank c) :
    c ≠ '/' ∧ inAlphabet c = false := by
  simp only [isBlank, Bool.or_eq_true, decide_eq_true_eq] at h
  rcases h with ((rfl | rfl) | rfl) | rfl <;> decide

theorem inAlphabet_slash : inAlphabet '/' = false := by
  decide

/-- The characters of the alphabet are kept, and they are not reported. -/
theorem of_inAlphabet {c : Char} (h : inAlphabet c) :
    c ≠ '/' ∧ isForeign c = false ∧ isBlank c = false := by
  have hslash : c ≠ '/' := by
    rintro rfl
    rw [inAlphabet_slash] at h
    contradiction
  have hblank : isBlank c = false := by
    rw [Bool.eq_false_iff]
    intro hc
    rw [(not_inAlphabet_of_isBlank hc).2] at h
    contradiction
  exact ⟨hslash, by simp [isForeign, h], hblank⟩

@[simp] theorem kept_append (cs ds : List Char) : kept (cs ++ ds) = kept cs ++ kept ds :=
  List.filter_append ..

theorem kept_of_all_inAlphabet {w : List Char} (h : w.all inAlphabet) : kept w = w := by
  rw [kept, List.filter_eq_self]
  intro c hc
  obtain ⟨hslash, hforeign, hblank⟩ := of_inAlphabet (List.all_eq_true.mp h c hc)
  simp [hslash, hforeign, hblank]

theorem kept_of_all_isBlank {w : List Char} (h : w.all isBlank) : kept w = [] := by
  rw [kept, List.filter_eq_nil_iff]
  intro c hc
  have hblank : isBlank c := List.all_eq_true.mp h c hc
  simp [hblank]

/-- There is no report on characters that stand in tokens or between them. -/
theorem report?_eq_none {x : Located} (h : inAlphabet x.char || isBlank x.char) :
    report? x = none := by
  have hslash : x.char ≠ '/' := by
    rw [Bool.or_eq_true] at h
    exact h.elim (fun hc => (of_inAlphabet hc).1) fun hc => (not_inAlphabet_of_isBlank hc).1
  have hforeign : isForeign x.char = false := by
    unfold isForeign
    rw [Bool.or_assoc, h]
    simp
  simp [report?, hslash, hforeign]

/-! ## Words of the lexicon -/

theorem all_inAlphabet_of_isWord {w : List Char} (h : isWord w) : w.all inAlphabet := by
  cases w with
  | nil => rfl
  | cons c w =>
      simp only [isWord, Bool.and_eq_true, List.all_eq_true] at h
      simp only [List.all_cons, Bool.and_eq_true, List.all_eq_true]
      constructor
      · simp [inAlphabet, isWordPart, h.1]
      · intro d hd
        simp [inAlphabet, h.2 d hd]

theorem all_inAlphabet_of_isNumber {w : List Char} (h : isNumber w) : w.all inAlphabet := by
  have hdigit {d : Char} (hd : d.isDigit) : inAlphabet d := by simp [inAlphabet, isWordPart, hd]
  cases w with
  | nil => rfl
  | cons c w =>
      by_cases hc : c = '0'
      · subst hc
        have hw : w = [] := by simpa [isNumber] using h
        rw [hw]
        rfl
      · simp only [isNumber, if_neg hc, Bool.and_eq_true, List.all_eq_true] at h
        simp only [List.all_cons, Bool.and_eq_true, List.all_eq_true]
        exact ⟨hdigit h.1, fun d hd => hdigit (h.2 d hd)⟩

/-- A word of the lexicon is in the alphabet, unless it is ignored: then it is blank. -/
theorem all_of_mem_lexicon {l : Kind × (List Char → Bool)} (hl : l ∈ lexicon) {w : List Char}
    (hw : l.2 w) : w.all (if l.1 = .ignored then isBlank else inAlphabet) := by
  simp only [lexicon, List.mem_append, List.mem_map, List.mem_cons, List.not_mem_nil,
    or_false] at hl
  rcases hl with (⟨e, he, rfl⟩ | ⟨e, he, rfl⟩) | rfl | rfl | rfl
  · have hkind : ∀ e ∈ reserved, e.2 ≠ .ignored := by decide
    have hword := isWord_of_mem_reserved e he
    rw [← of_decide_eq_true hw] at hword
    rw [if_neg (hkind e he)]
    exact all_inAlphabet_of_isWord hword
  · have hkind : ∀ e ∈ marks, e.2 ≠ .ignored := by decide
    have hmark : marks.any fun e' => e'.1 = e.1 := List.any_eq_true.mpr ⟨e, he, by simp⟩
    rw [if_neg (hkind e he), show w = [e.1] from of_decide_eq_true hw]
    simp [inAlphabet, hmark]
  · exact all_inAlphabet_of_isWord hw
  · exact all_inAlphabet_of_isNumber hw
  · have hblanks : isBlanks w := hw
    cases w with
    | nil => rfl
    | cons c w => exact hblanks

section

variable {rs : List Recognizer} (hrs : Speaks rs)

include hrs

/-- Where a recognizer has a path, some recognizer accepts: the path goes over a part of a
word, which is a word itself unless it is empty. -/
theorem accepts_of_follows {w : List Char} (hne : w ≠ []) (h : someFollows rs w) :
    ∃ x ∈ rs, x.accepts w := by
  obtain ⟨y, hy, hfollows⟩ := List.any_eq_true.mp h
  obtain ⟨l, hl, hspells⟩ := exists_related_right hrs y hy
  obtain ⟨v, hv⟩ := hspells.exists_word w hfollows
  cases w with
  | nil => contradiction
  | cons c w =>
      rw [List.cons_append] at hv
      obtain ⟨hbegins, hrest⟩ := rest_of_mem_lexicon hl hv
      rw [List.all_append, Bool.and_eq_true] at hrest
      obtain ⟨l', hl', hall⟩ := exists_mem_lexicon hbegins
      obtain ⟨x, hx, hspells'⟩ := exists_related_left hrs l' hl'
      exact ⟨x, hx, by rw [hspells'.accepts_eq]; exact hall w hrest.1⟩

/-! ## Pieces of the language -/

theorem all_of_fits_token {kind : Kind} {w rest : List Char}
    (h : (Piece.token kind w).Fits rs rest) :
    w.all (if kind = .ignored then isBlank else inAlphabet) := by
  obtain ⟨-, -, y, hy, rfl, hacc⟩ := h
  obtain ⟨l, hl, hspells⟩ := exists_related_right hrs y hy
  rw [hspells.accepts_eq] at hacc
  rw [hspells.kind_eq]
  exact all_of_mem_lexicon hl hacc

/-- No word is left unterminated. -/
theorem not_fits_unterminated {w rest : List Char} : ¬(Piece.unterminated w).Fits rs rest := by
  rintro ⟨hne, -, hpath, hnone⟩
  obtain ⟨x, hx, hacc⟩ := accepts_of_follows hrs hne hpath
  rw [hnone x hx] at hacc
  contradiction

/-- Only foreign characters are not recognised. -/
theorem isForeign_of_fits {c : Char} {rest : List Char}
    (h : (Piece.unrecognised c).Fits rs rest) : isForeign c := by
  obtain ⟨hslash, hpath⟩ := h
  have hbegins : begins c = false := by
    rw [Bool.eq_false_iff]
    intro hc
    obtain ⟨l, hl, hall⟩ := exists_mem_lexicon hc
    obtain ⟨x, hx, hspells⟩ := exists_related_left hrs l hl
    have hacc : x.accepts [c] := by
      rw [hspells.accepts_eq]
      exact hall [] rfl
    rw [someFollows_of_accepts rs hx hacc] at hpath
    contradiction
  rw [begins_eq] at hbegins
  simp [isForeign, hslash, Bool.or_eq_false_iff.mp hbegins]

/-- There is no report on a token, and its characters are kept unless it is ignored. -/
theorem reports_token {kind : Kind} {w rest : List Char} {p q : Position} {xs : List Located}
    (h : (Piece.token kind w).Fits rs rest) (hxs : xs.map (·.char) = w) :
    xs.filterMap report? = [] ∧
      kept w = (Scan.ofPlaced [⟨.token kind w, p, q⟩]).tokens.flatMap (·.text.toList) := by
  have hall := all_of_fits_token hrs h
  constructor
  · rw [List.filterMap_eq_nil_iff]
    intro x hx
    have hmem : x.char ∈ w := hxs ▸ List.mem_map_of_mem hx
    have hchar := List.all_eq_true.mp hall x.char hmem
    apply report?_eq_none
    split at hchar <;> simp [hchar]
  · by_cases hkind : kind = .ignored
    · rw [if_pos hkind] at hall
      rw [kept_of_all_isBlank hall]
      simp [Scan.ofPlaced, Placed.token?, hkind]
    · rw [if_neg hkind] at hall
      rw [kept_of_all_inAlphabet hall]
      simp [tokens_ofPlaced_token hkind]

/-- The reports on a piece and the characters of its token are those of its characters outside
comments. -/
theorem reports_piece {x : Piece} {rest : List Char} {p q : Position} {xs : List Located}
    (h : x.Fits rs rest) (hxs : locate? p x.text = some xs) :
    (if x.isComment then [] else xs).filterMap report? = (Scan.ofPlaced [⟨x, p, q⟩]).errors ∧
      kept ((if x.isComment then [] else xs).map (·.char)) =
        (Scan.ofPlaced [⟨x, p, q⟩]).tokens.flatMap (·.text.toList) := by
  cases x with
  | token kind w =>
      have hchars : xs.map (·.char) = w := map_char_of_locate? hxs
      obtain ⟨hnone, hkept⟩ := reports_token (p := p) (q := q) hrs h hchars
      rw [← hchars] at hkept
      exact ⟨hnone, hchars ▸ hkept⟩
  | unterminated w => exact absurd h (not_fits_unterminated hrs)
  | unrecognised c =>
      have hforeign := isForeign_of_fits hrs h
      have hslash : c ≠ '/' := h.1
      have herrors : (Scan.ofPlaced [⟨.unrecognised c, p, q⟩]).errors = [⟨.unrecognised c, p⟩] := rfl
      have htokens : (Scan.ofPlaced [⟨.unrecognised c, p, q⟩]).tokens = [] := rfl
      rw [locate?_singleton hxs, herrors, htokens]
      simp [Piece.isComment, report?, hslash, hforeign, kept]
  | slash =>
      have herrors : (Scan.ofPlaced [⟨.slash, p, q⟩]).errors = [⟨.loneSlash, p⟩] := rfl
      have htokens : (Scan.ofPlaced [⟨.slash, p, q⟩]).tokens = [] := rfl
      rw [locate?_singleton hxs, herrors, htokens]
      simp [Piece.isComment, report?, kept]
  | comment w => exact ⟨rfl, rfl⟩

/-! ## Whole texts -/

/-- Pieces that are what they are said to be, each in front of those behind it. -/
theorem reports_of_place? {ps : List Piece} {ys : List Placed} {p : Position} {xs : List Located}
    (hfits : ∀ before x after, ps = before ++ x :: after → x.Fits rs (texts after))
    (hys : place? p ps = some ys) (hxs : locate? p (texts ps) = some xs) :
    (uncommented false xs).filterMap report? = (Scan.ofPlaced ys).errors ∧
      kept ((uncommented false xs).map (·.char)) =
        (Scan.ofPlaced ys).tokens.flatMap (·.text.toList) := by
  induction ps generalizing p ys xs with
  | nil =>
      obtain rfl : ys = [] := by simpa using hys.symm
      obtain rfl : xs = [] := by simpa [locate?] using hxs.symm
      exact ⟨rfl, rfl⟩
  | cons x ps ih =>
      obtain ⟨q, zs, hq, hzs, rfl⟩ := place?_cons_eq_some.mp hys
      rw [Piece.texts_cons] at hxs
      obtain ⟨us, ts, hus, hts, rfl⟩ := exists_of_locate?_append hq hxs
      have hx : x.Fits rs (texts ps) := hfits [] x ps rfl
      have hbehind : ∀ before y after, ps = before ++ y :: after → y.Fits rs (texts after) :=
        fun before y after heq => hfits (x :: before) y after (by rw [heq]; rfl)
      obtain ⟨herrors, htokens⟩ := ih hbehind hzs hts
      obtain ⟨herrors', htokens'⟩ := reports_piece (q := q) hrs hx hus
      have hsplit := uncommented_piece hx (map_char_of_locate? hus) (map_char_of_locate? hts)
      have herrors_cons : (Scan.ofPlaced (⟨x, p, q⟩ :: zs)).errors =
          (Scan.ofPlaced [⟨x, p, q⟩]).errors ++ (Scan.ofPlaced zs).errors := by
        simp only [Scan.ofPlaced, ← List.filterMap_append, List.singleton_append]
      constructor
      · rw [hsplit, List.filterMap_append, herrors', herrors, herrors_cons]
      · rw [hsplit, List.map_append, kept_append, htokens', htokens, tokens_ofPlaced_cons _ zs,
          List.flatMap_append]

end

end Builtin

/-- **Reports**: the recognizers of the circuit language exist, and on a text without overflow a
scan with them reports each lone slash and each foreign character outside comments, where it
stands, and nothing else. No token is unterminated, and the texts of the tokens are what is left
of the characters outside comments. -/
theorem Registry.reports_builtin (source : String)
    (h : (Position.origin.advanceAll? source.toList).isSome) :
    ∃ r scan xs, builtin = .ok r ∧ r.tokenize source = .ok scan ∧
      locate? .origin source.toList = some xs ∧
      scan.errors = (uncommented false xs).filterMap Builtin.report? ∧
      (∀ d ∈ scan.errors, ∀ text, d.cause ≠ .unterminated text) ∧
      scan.tokens.flatMap (·.text.toList) =
        Builtin.kept ((uncommented false xs).map (·.char)) := by
  have hok := isOk_builtin
  cases hr : builtin with
  | error e =>
      rw [hr] at hok
      contradiction
  | ok r =>
      obtain ⟨last, hlast⟩ := Option.isSome_iff_exists.mp h
      obtain ⟨xs, hxs⟩ := exists_locate? hlast
      obtain ⟨ys, hplace⟩ := exists_place?_cut r.recognizers h
      have hlocate : locate? .origin (texts (cut r.recognizers source.toList)) = some xs := by
        rw [texts_cut, hxs]
      obtain ⟨herrors, htokens⟩ := Builtin.reports_of_place? (speaks_builtin hr)
        (fun _ _ _ heq => fits_cut heq) hplace hlocate
      have hcauses : ∀ d ∈ (Scan.ofPlaced ys).errors, ∀ text, d.cause ≠ .unterminated text := by
        intro d hd text
        rw [← herrors] at hd
        obtain ⟨x, -, hx⟩ := List.mem_filterMap.mp hd
        unfold Builtin.report? at hx
        split_ifs at hx <;> cases hx <;> simp
      exact ⟨r, _, xs, rfl, tokenize_of_place? hplace, hxs, herrors.symm, hcauses, htokens.symm⟩

theorem reports_builtin_junk :
    (Position.origin.advanceAll? "in1/é // é/\n§ clo\r/".toList).isSome ∧
      ∃ r scan xs, Registry.builtin = .ok r ∧
        r.tokenize "in1/é // é/\n§ clo\r/" = .ok scan ∧
        locate? .origin "in1/é // é/\n§ clo\r/".toList = some xs ∧
        scan.errors = (uncommented false xs).filterMap Builtin.report? ∧
        (∀ d ∈ scan.errors, ∀ text, d.cause ≠ .unterminated text) ∧
        scan.tokens.flatMap (·.text.toList) =
          Builtin.kept ((uncommented false xs).map (·.char)) :=
  ⟨by decide, Registry.reports_builtin _ (by decide)⟩

example : ((locate? .origin "in1/é // é/\n§ clo\r/".toList).map fun xs =>
      ((uncommented false xs).filterMap Builtin.report?,
        Builtin.kept ((uncommented false xs).map (·.char)))) =
    some ([⟨.loneSlash, ⟨1, 4⟩⟩, ⟨.unrecognised 'é', ⟨1, 5⟩⟩, ⟨.unrecognised '§', ⟨2, 1⟩⟩,
      ⟨.loneSlash, ⟨2, 7⟩⟩], ['i', 'n', '1', 'c', 'l', 'o']) := by
  decide

end CircuitScan
