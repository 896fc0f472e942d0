import CircuitScan.Proofs.PositionOrder
import CircuitScan.Proofs.Refinement

/-!
# CircuitScan.Proofs.Cover

A scan covers its text: nothing is lost, nothing is reported twice, and everything stands where it
is said to stand. The pieces of a cut are the text (`texts_cut`), each of them is what its name
says (`fits_cut`), and their spans follow one another in reading order (`pairwise_of_place?`).
`Scan.Covers` says what this means for the results of a scan.
-/

namespace CircuitScan

open Piece (texts)

variable {rs : List Recognizer}

/-! ## What a cut keeps -/

/-- What each piece is said to be, in front of the characters `rest`. -/
def Piece.Fits (rs : List Recognizer) (x : Piece) (rest : List Char) : Prop :=
  match x with
  | token kind text => text ≠ [] ∧ '/' ∉ text ∧ ∃ y ∈ rs, y.kind = kind ∧ y.accepts text
  | unterminated text =>
    text ≠ [] ∧ '/' ∉ text ∧ someFollows rs text ∧ ∀ y ∈ rs, y.accepts text = false
  | unrecognised c => c ≠ '/' ∧ someFollows rs [c] = false
  | slash => rest.head? ≠ some '/'
  | comment text =>
    ∃ body, '\n' ∉ body ∧
      (text = '/' :: '/' :: body ++ ['\n'] ∨ text = '/' :: '/' :: body ∧ rest = [])

theorem accepting?_eq_none {w : List Char} (h : accepting? rs w = none) :
    ∀ y ∈ rs, y.accepts w = false := fun y hy =>
  Bool.eq_false_iff.mpr (List.find?_eq_none.mp h y hy)

/-- A line goes through its line feed, or to the end of the text. -/
theorem throughLine_spec (r : List Char) :
    ∃ body, '\n' ∉ body ∧
      (throughLine r = body ++ ['\n'] ∨ throughLine r = body ∧ r = throughLine r) := by
  induction r with
  | nil => exact ⟨[], by simp, .inr ⟨rfl, rfl⟩⟩
  | cons c r ih =>
      unfold throughLine
      split
      · next hc => exact ⟨[], by simp, .inl (by simp [hc])⟩
      · next hc =>
          obtain ⟨body, hbody, hline | ⟨hline, hend⟩⟩ := ih
          · exact ⟨c :: body, by simp [Ne.symm hc, hbody], .inl (by rw [hline]; rfl)⟩
          · exact ⟨c :: body, by simp [Ne.symm hc, hbody],
              .inr ⟨by rw [hline], by rw [← hend]⟩⟩

/-- The longest path of a block without a front token is not accepted: an accepted word is either
the whole block, or it has a path over one more character. -/
theorem accepting?_longestPath {c : Char} {b : List Char} (h : someFollows rs [c])
    (hfirst : firstToken? rs (c :: b) = none) : accepting? rs (longestPath rs (c :: b)) = none := by
  obtain ⟨k, hk, hkb, hpath, -, hmax⟩ := longestPath_spec (b := b) h
  rw [hpath]
  cases hx : accepting? rs ((c :: b).take k) with
  | none => rfl
  | some x =>
      have hmem : k ∈ List.range' 1 (c :: b).length := by
        rw [List.mem_range'_1]
        omega
      have hat : tokenAt? rs (c :: b) k = none := List.findSome?_eq_none_iff.mp hfirst k hmem
      rw [tokenAt?, hx] at hat
      obtain ⟨hlen, hboth⟩ : k ≠ (c :: b).length ∧
          someAcceptsBoth rs ((c :: b).take k) ((c :: b).take (k + 1)) := by
        simpa using hat
      obtain ⟨y, hy, hacc⟩ := List.any_eq_true.mp hboth
      rw [Bool.and_eq_true] at hacc
      have hlonger := someFollows_of_accepts rs hy hacc.2
      rw [hmax (k + 1) (by omega) (by omega)] at hlonger
      contradiction

/-- What goes through the line behind two slashes is a comment. -/
theorem fits_comment {r t : List Char} (h : r = throughLine r ++ t) :
    (Piece.comment ('/' :: '/' :: throughLine r)).Fits rs t := by
  obtain ⟨body, hbody, hline | ⟨hline, hend⟩⟩ := throughLine_spec r
  · exact ⟨body, hbody, .inl (by rw [hline]; rfl)⟩
  · have ht : t = [] := by simpa [← hend] using h
    exact ⟨body, hbody, .inr ⟨by rw [hline], ht⟩⟩

/-- The front piece of a block is a token that some recognizer accepts, or a path that none
does. -/
theorem fits_blockFront {c : Char} {b t : List Char} (hslash : '/' ∉ c :: b)
    (h : someFollows rs [c]) : (blockFront rs (c :: b)).Fits rs t := by
  have hpart {k : Nat} (hk : 0 < k) : (c :: b).take k ≠ [] ∧ '/' ∉ (c :: b).take k :=
    ⟨by simp; omega, fun hmem => hslash (List.mem_of_mem_take hmem)⟩
  unfold blockFront
  cases hx : firstToken? rs (c :: b) with
  | some x =>
      obtain ⟨k, y, hk, -, hy, rfl⟩ := firstToken?_eq_some hx
      obtain ⟨hmem, hacc⟩ := accepting?_eq_some hy
      exact ⟨(hpart hk).1, (hpart hk).2, y, hmem, rfl, hacc⟩
  | none =>
      have hnone := accepting?_longestPath h hx
      obtain ⟨k, hk, -, hpath, hfollows, -⟩ := longestPath_spec (b := b) h
      rw [hpath] at hnone
      rw [Option.getD_none, hpath]
      exact ⟨(hpart hk).1, (hpart hk).2, hfollows, accepting?_eq_none hnone⟩

theorem slash_not_mem_block (r : List Char) : '/' ∉ block r := fun h => by
  have hne := List.mem_takeWhile_imp h
  simp at hne

/-- A front piece is what it is said to be. -/
theorem fits_front (rs : List Recognizer) {c : Char} {r t : List Char}
    (ht : c :: r = (front rs c r).text ++ t) : (front rs c r).Fits rs t := by
  by_cases hc : c = '/'
  · subst hc
    by_cases hr : r.head? = some '/'
    · obtain ⟨r, rfl⟩ : ∃ r', r = '/' :: r' := List.head?_eq_some_iff.mp hr
      have hfront : front rs '/' ('/' :: r) = .comment ('/' :: '/' :: throughLine r) := by
        simp [front, throughLine]
      rw [hfront] at ht ⊢
      exact fits_comment (by simpa [Piece.text] using ht)
    · have hfront : front rs '/' r = .slash := by simp [front, hr]
      rw [hfront] at ht ⊢
      obtain rfl : r = t := by simpa [Piece.text] using ht
      exact hr
  · by_cases hf : someFollows rs [c]
    · have hslash := slash_not_mem_block (c :: r)
      rw [front, if_neg hc, if_pos hf]
      rw [block_cons hc] at hslash ⊢
      exact fits_blockFront hslash hf
    · rw [Bool.not_eq_true] at hf
      have hfront : front rs c r = .unrecognised c := by simp [front, hc, hf]
      rw [hfront]
      exact ⟨hc, hf⟩

/-- Each piece of a cut is what it is said to be. -/
theorem fits_cut {r : List Char} {before after : List Piece} {x : Piece}
    (h : cut rs r = before ++ x :: after) : x.Fits rs (texts after) := by
  induction before generalizing r with
  | nil =>
      cases r with
      | nil => simp at h
      | cons c r =>
          obtain ⟨-, t, ht⟩ := text_front rs c r
          rw [cut_eq_cons rfl ht, List.nil_append] at h
          obtain ⟨rfl, rfl⟩ := List.cons.inj h
          rw [texts_cut]
          exact fits_front rs ht
  | cons y before ih =>
      cases r with
      | nil => simp at h
      | cons c r =>
          obtain ⟨-, t, ht⟩ := text_front rs c r
          rw [cut_eq_cons rfl ht, List.cons_append] at h
          exact ih (List.cons.inj h).2

/-- A piece that is what it is said to be is not empty. -/
theorem Piece.Fits.text_ne_nil {x : Piece} {rest : List Char} (h : x.Fits rs rest) :
    x.text ≠ [] := by
  cases x with
  | token kind text => exact h.1
  | unterminated text => exact h.1
  | unrecognised c => simp [text]
  | slash => simp [text]
  | comment text =>
      obtain ⟨body, -, rfl | ⟨rfl, -⟩⟩ := h
      · simp [Piece.text]
      · simp [Piece.text]

/-! ## Spans -/

/-- Placed pieces stand behind the first position, and none begins before another one ends. -/
theorem pairwise_of_place? {p : Position} {xs : List Piece} {ys : List Placed}
    (h : place? p xs = some ys) :
    (∀ y ∈ ys, p ≤ y.start) ∧ ys.Pairwise fun y z => y.stop ≤ z.start := by
  induction xs generalizing p ys with
  | nil =>
      obtain rfl : ys = [] := by simpa using h.symm
      exact ⟨by simp, .nil⟩
  | cons x xs ih =>
      obtain ⟨q, zs, hq, hzs, rfl⟩ := place?_cons_eq_some.mp h
      obtain ⟨hbehind, hpairs⟩ := ih hzs
      have hle : p ≤ q := Position.le_of_advanceAll? hq
      constructor
      · intro y hy
        rcases List.mem_cons.mp hy with rfl | hy
        · exact Position.le_refl p
        · exact Position.le_trans hle (hbehind y hy)
      · exact .cons hbehind hpairs

theorem Placed.token?_eq_some {y : Placed} {t : Token} (h : y.token? = some t) :
    t.start = y.start ∧ t.stop = y.stop := by
  unfold token? at h
  split at h
  · cases h
    exact ⟨rfl, rfl⟩
  · contradiction

/-! ## Scans -/

/-- A scan that finds exactly the pieces `ys` of a text. -/
structure Scan.Covers (rs : List Recognizer) (source : List Char) (ys : List Placed)
    (scan : Scan) : Prop where
  /-- the pieces are the text -/
  texts_eq : texts (ys.map (·.piece)) = source
  /-- each piece is what it is said to be, in front of those behind it -/
  fits : ∀ before y after, ys = before ++ y :: after →
    y.piece.text ≠ [] ∧ y.piece.Fits rs (texts (after.map (·.piece)))
  /-- each piece begins behind everything before it, and ends behind its own characters -/
  spans : ∀ before y after, ys = before ++ y :: after →
    Position.origin.advanceAll? (texts (before.map (·.piece))) = some y.start ∧
      y.start.advanceAll? y.piece.text = some y.stop
  /-- the tokens are the token pieces, in order, unless they are ignored -/
  tokens_eq : scan.tokens = (ys.filterMap Placed.token?).filter fun t => t.kind ≠ .ignored
  /-- the reports are the faulty pieces, in order -/
  errors_eq : scan.errors = ys.filterMap Placed.diagnostic?

theorem covers_ofPlaced {source : List Char} {ys : List Placed}
    (h : place? .origin (cut rs source) = some ys) :
    (Scan.ofPlaced ys).Covers rs source ys := by
  have hpieces := map_piece_of_place? h
  constructor
  case texts_eq => rw [hpieces, texts_cut]
  case fits =>
    intro before y after hys
    rw [hys, List.map_append, List.map_cons] at hpieces
    have hfits := fits_cut hpieces.symm
    exact ⟨hfits.text_ne_nil, hfits⟩
  case spans =>
    intro before y after hys
    rw [hys] at h
    exact advanceAll?_of_place? h
  case tokens_eq => rfl
  case errors_eq => rfl

/-- Tokens are not empty. -/
theorem Scan.Covers.start_lt_stop {source : List Char} {ys : List Placed} {scan : Scan}
    (h : scan.Covers rs source ys) : ∀ t ∈ scan.tokens, t.start < t.stop := by
  intro t ht
  rw [h.tokens_eq] at ht
  obtain ⟨y, hy, hty⟩ := List.mem_filterMap.mp (List.mem_of_mem_filter ht)
  obtain ⟨before, after, rfl⟩ := List.append_of_mem hy
  obtain ⟨hstart, hstop⟩ := Placed.token?_eq_some hty
  rw [hstart, hstop]
  exact Position.lt_of_advanceAll? (h.spans before y after rfl).2 (h.fits before y after rfl).1

/-- Tokens that are taken from placed pieces stand in order. -/
theorem pairwise_tokens {p : Position} {xs : List Piece} {ys : List Placed}
    (h : place? p xs = some ys) :
    (Scan.ofPlaced ys).tokens.Pairwise fun t u => t.stop ≤ u.start := by
  apply List.Pairwise.filter
  rw [List.pairwise_filterMap]
  apply (pairwise_of_place? h).2.imp
  intro y z hyz t ht u hu
  rw [(Placed.token?_eq_some ht).2, (Placed.token?_eq_some hu).1]
  exact hyz

/-- **Cover**: on a text without overflow a scan returns exactly what stands in the pieces of the
text, each at its place, and the spans of its tokens are neither empty nor overlapping. -/
theorem Registry.tokenize_covers (r : Registry) (source : String)
    (h : (Position.origin.advanceAll? source.toList).isSome) :
    ∃ ys scan, r.tokenize source = .ok scan ∧ scan.Covers r.recognizers source.toList ys ∧
      (∀ t ∈ scan.tokens, t.start < t.stop) ∧
      scan.tokens.Pairwise fun t u => t.stop ≤ u.start := by
  obtain ⟨ys, hplace⟩ := exists_place?_cut r.recognizers h
  have hcovers := covers_ofPlaced hplace
  exact ⟨ys, _, tokenize_of_place? hplace, hcovers, hcovers.start_lt_stop, pairwise_tokens hplace⟩

theorem tokenize_covers_nestedWords :
    (Position.origin.advanceAll? "abc/a//a\na".toList).isSome ∧
      ∃ ys scan, nestedWords.tokenize "abc/a//a\na" = .ok scan ∧
        scan.Covers nestedWords.recognizers "abc/a//a\na".toList ys ∧
        (∀ t ∈ scan.tokens, t.start < t.stop) ∧
        scan.tokens.Pairwise fun t u => t.stop ≤ u.start :=
  ⟨by decide, nestedWords.tokenize_covers _ (by decide)⟩

end CircuitScan
