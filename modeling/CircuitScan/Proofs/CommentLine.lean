import CircuitScan.Proofs.Lines
import CircuitScan.Proofs.Refinement
import Mathlib.Data.List.Forall2

/-!
# CircuitScan.Proofs.CommentLine

A comment line parts a text. A slash ends the token before it, so the pieces in front of a comment
are those of the text in front of it (`front_append`), also where that text ends in a comment of
its own. Behind the line feed the cut begins anew, and column one is the column of the origin: a
text stands there as it stands alone, some rows further down.

* `cut_append_commentLine` — the cut of such a text, in three parts;
* `exists_place?_above` — what can be placed can be placed some rows further up;
* `Registry.tokenize_commentLine` — so the results are those of the two texts, one above the other.
-/

namespace CircuitScan

open Piece (texts)

/-! ## The cut of a text in front of a comment -/

theorem throughLine_append_of_mem {u : List Char} (h : '\n' ∈ u) (z : List Char) :
    throughLine (u ++ z) = throughLine u := by
  induction u with
  | nil => simp at h
  | cons c u ih =>
      by_cases hc : c = '\n'
      · simp [throughLine, hc]
      · have hu : '\n' ∈ u := by simpa [Ne.symm hc] using h
        simp [throughLine, hc, ih hu]

theorem afterLine_append_lineFeed {u : List Char} (h : '\n' ∉ u) (z : List Char) :
    afterLine (u ++ '\n' :: z) = z := by
  induction u with
  | nil => rfl
  | cons c u ih =>
      rw [List.mem_cons, not_or] at h
      obtain ⟨hc, hu⟩ := h
      simp [afterLine, Ne.symm hc, ih hu]

theorem afterLine_eq_nil {u : List Char} (h : '\n' ∉ u) : afterLine u = [] := by
  induction u with
  | nil => rfl
  | cons c u ih =>
      rw [List.mem_cons, not_or] at h
      obtain ⟨hc, hu⟩ := h
      simp [afterLine, Ne.symm hc, ih hu]

/-- A comment ends with its line. -/
theorem cut_closed (rs : List Recognizer) {u : List Char} (h : '\n' ∉ u) (z : List Char) :
    ∃ t, cut rs ('/' :: '/' :: (u ++ '\n' :: z)) = .comment t :: cut rs z :=
  ⟨_, by rw [cut_comment, afterLine_append_lineFeed h]⟩

/-- A comment on the last line is all that is left of its text. -/
theorem cut_open (rs : List Recognizer) {u : List Char} (h : '\n' ∉ u) :
    ∃ t, cut rs ('/' :: '/' :: u) = [.comment t] :=
  ⟨_, by rw [cut_comment, afterLine_eq_nil h, cut_nil]⟩

/-- A block ends in front of a slash, whatever follows. -/
theorem block_append_slash (u z : List Char) : block (u ++ '/' :: z) = block u := by
  induction u with
  | nil => simp [block]
  | cons c u ih =>
      by_cases hc : c = '/'
      · simp [block, hc]
      · rw [List.cons_append, block_cons hc, block_cons hc, ih]

/-- The front piece of a text does not depend on a slash behind the text, nor on what follows the
slash, unless the text is a comment without an end. -/
theorem front_append {c : Char} {r : List Char} (rs : List Recognizer) (z : List Char)
    (hlast : (c :: r).getLast? ≠ some '/') :
    front rs c (r ++ '/' :: z) = front rs c r ∨
      ∃ u, c :: r = '/' :: '/' :: u ∧ '\n' ∉ u := by
  by_cases hc : c = '/'
  · subst hc
    cases r with
    | nil => simp at hlast
    | cons d r =>
        by_cases hd : d = '/'
        · subst hd
          by_cases hline : '\n' ∈ r
          · left
            have hthrough := throughLine_append_of_mem (u := '/' :: '/' :: r)
              (List.mem_cons_of_mem _ (List.mem_cons_of_mem _ hline)) ('/' :: z)
            simp only [List.cons_append] at hthrough
            simp only [front, if_true, List.cons_append, List.head?_cons, hthrough]
          · exact .inr ⟨r, rfl, hline⟩
        · left
          simp [front, hd]
  · left
    have hblock := block_append_slash (c :: r) z
    rw [List.cons_append] at hblock
    rw [front, front, if_neg hc, if_neg hc, hblock]

/-- The cut of a text with a comment line inside: the pieces of the text in front, the comment, and
the pieces of the text behind. A comment that the text in front leaves open takes the slashes into
itself. -/
theorem cut_append_commentLine (rs : List Recognizer) {a x : List Char} (b : List Char)
    (hlast : a.getLast? ≠ some '/') (hx : '\n' ∉ x) :
    ∃ xs t, cut rs (a ++ '/' :: '/' :: (x ++ '\n' :: b)) = xs ++ .comment t :: cut rs b ∧
      (cut rs a = xs ∨ ∃ u, cut rs a = xs ++ [.comment u]) := by
  induction a using cut.induct rs with
  | case1 =>
      obtain ⟨t, ht⟩ := cut_closed rs hx b
      exact ⟨[], t, ht, .inl cut_nil⟩
  | case2 c r ih =>
      obtain hfront | ⟨u, hu, hline⟩ := front_append rs ('/' :: (x ++ '\n' :: b)) hlast
      · -- the front piece stays, and the induction goes on behind it
        obtain ⟨-, rest, hrest⟩ := text_front rs c r
        have hdrop : (c :: r).drop (front rs c r).text.length = rest := by
          rw [hrest, List.drop_left]
        have hlast' : rest.getLast? ≠ some '/' := by
          intro hslash
          rw [hrest, List.getLast?_append, hslash] at hlast
          exact hlast rfl
        rw [hdrop] at ih
        obtain ⟨xs, t, hcut, hfirst⟩ := ih hlast'
        have hcons : cut rs (c :: r) = front rs c r :: cut rs rest := cut_eq_cons rfl hrest
        refine ⟨front rs c r :: xs, t, ?_, ?_⟩
        · rw [List.cons_append, cut_eq_cons hfront, hcut, List.cons_append]
          rw [← List.cons_append, hrest, List.append_assoc]
        · rw [hcons]
          obtain hsame | ⟨u, hopen⟩ := hfirst
          · exact .inl (by rw [hsame])
          · exact .inr ⟨u, by rw [hopen, List.cons_append]⟩
      · -- an open comment runs through the comment line
        have hjoined : '\n' ∉ u ++ '/' :: '/' :: x := by simp [hline, hx]
        obtain ⟨t, ht⟩ := cut_closed rs hjoined b
        obtain ⟨v, hv⟩ := cut_open rs hline
        rw [hu]
        exact ⟨[], t, by simpa using ht, .inr ⟨v, hv⟩⟩

/-! ## Rows further down -/

namespace Position

/-- `q` stands `n` rows below `p`, in the same column. -/
structure Below (n : Nat) (p q : Position) : Prop where
  row : q.row.toNat = p.row.toNat + n
  col : q.col = p.col

variable {n : Nat} {p q q' : Position}

/-- Below a number with a successor, all numbers have one, and the distance stays. -/
theorem exists_succ? {i j j' : UInt32} (hij : j.toNat = i.toNat + n) (hj : succ? j = some j') :
    ∃ i', succ? i = some i' ∧ j'.toNat = i'.toNat + n := by
  have hjn := succ?_eq_some hj
  have hbound := j'.toNat_lt
  have hne : i ≠ 4294967295 := by
    intro hi
    rw [hi] at hij
    have hmax : (4294967295 : UInt32).toNat = 4294967295 := rfl
    omega
  have hi : succ? i = some (i + 1) := if_neg hne
  refine ⟨i + 1, hi, ?_⟩
  rw [succ?_eq_some hi]
  omega

/-- Where a character has a position behind it, it has one further up. -/
theorem Below.advance? {c : Char} (h : Below n p q) (hq : q.advance? c = some q') :
    ∃ p', p.advance? c = some p' ∧ Below n p' q' := by
  unfold Position.advance? at hq ⊢
  split
  · rw [if_pos ‹_›] at hq
    obtain ⟨row, hrow, rfl⟩ := Option.map_eq_some_iff.mp hq
    obtain ⟨above, habove, hrows⟩ := exists_succ? h.row hrow
    exact ⟨⟨above, 1⟩, by rw [habove]; rfl, hrows, rfl⟩
  · rw [if_neg ‹_›] at hq
    obtain ⟨col, hcol, rfl⟩ := Option.map_eq_some_iff.mp hq
    rw [h.col] at hcol
    exact ⟨⟨p.row, col⟩, by rw [hcol]; rfl, h.row, rfl⟩

theorem Below.advanceAll? {cs : List Char} (h : Below n p q) (hq : q.advanceAll? cs = some q') :
    ∃ p', p.advanceAll? cs = some p' ∧ Below n p' q' := by
  induction cs generalizing p q with
  | nil =>
      obtain rfl : q = q' := by simpa using hq
      exact ⟨p, rfl, h⟩
  | cons c cs ih =>
      rw [advanceAll?_cons] at hq
      obtain ⟨m, hm, hrest⟩ := Option.bind_eq_some_iff.mp hq
      obtain ⟨l, hl, hbelow⟩ := h.advance? hm
      obtain ⟨p', hp', hbelow'⟩ := ih hbelow hrest
      exact ⟨p', by rw [advanceAll?_cons, hl, Option.bind_some, hp'], hbelow'⟩

/-- Behind a line feed one stands below the origin, by as many rows as there are line feeds. -/
theorem below_of_lineFeed {cs : List Char} (h : origin.advanceAll? (cs ++ ['\n']) = some q) :
    Below (cs.count '\n' + 1) origin q := by
  constructor
  case row =>
    rw [row_of_advanceAll? h, List.count_append, List.count_singleton_self]
  case col =>
    rw [advanceAll?_append] at h
    obtain ⟨m, -, hm⟩ := Option.bind_eq_some_iff.mp h
    rw [advanceAll?_cons] at hm
    obtain ⟨m', hm', hq⟩ := Option.bind_eq_some_iff.mp hm
    obtain rfl : m' = q := by simpa using hq
    obtain ⟨row, -, rfl⟩ := Option.map_eq_some_iff.mp hm'
    rfl

end Position

/-! ## Results further down -/

variable {n : Nat}

/-- The same piece, `n` rows further down. -/
structure Placed.Below (n : Nat) (y z : Placed) : Prop where
  piece : z.piece = y.piece
  start : Position.Below n y.start z.start
  stop : Position.Below n y.stop z.stop

/-- The same token, `n` rows further down. -/
structure Token.Below (n : Nat) (t t' : Token) : Prop where
  kind : t'.kind = t.kind
  text : t'.text = t.text
  start : Position.Below n t.start t'.start
  stop : Position.Below n t.stop t'.stop

/-- The same report, `n` rows further down. -/
structure Diagnostic.Below (n : Nat) (d d' : Diagnostic) : Prop where
  cause : d'.cause = d.cause
  position : Position.Below n d.position d'.position

theorem Placed.Below.token? {y z : Placed} (h : Placed.Below n y z) :
    Option.Rel (Token.Below n) y.token? z.token? := by
  obtain ⟨piece, start, stop⟩ := y
  obtain ⟨piece', start', stop'⟩ := z
  obtain ⟨rfl, hstart, hstop⟩ := h
  cases piece' with
  | token kind text => exact .some ⟨rfl, rfl, hstart, hstop⟩
  | _ => exact .none

theorem Placed.Below.diagnostic? {y z : Placed} (h : Placed.Below n y z) :
    Option.Rel (Diagnostic.Below n) y.diagnostic? z.diagnostic? := by
  obtain ⟨piece, start, stop⟩ := y
  obtain ⟨piece', start', stop'⟩ := z
  obtain ⟨rfl, hstart, hstop⟩ := h
  cases piece' with
  | token kind text => exact .none
  | comment t => exact .none
  | _ => exact .some ⟨rfl, hstart⟩

/-- The same results, `n` rows further down. -/
structure Scan.Below (n : Nat) (s s' : Scan) : Prop where
  tokens : List.Forall₂ (Token.Below n) s.tokens s'.tokens
  errors : List.Forall₂ (Diagnostic.Below n) s.errors s'.errors

/-- What can be placed can be placed some rows further up, and gives the same results there. -/
theorem exists_place?_above {p q : Position} {xs : List Piece} {zs : List Placed}
    (h : Position.Below n p q) (hplace : place? q xs = some zs) :
    ∃ ys, place? p xs = some ys ∧ List.Forall₂ (Placed.Below n) ys zs := by
  induction xs generalizing p q zs with
  | nil =>
      cases hplace
      exact ⟨[], rfl, .nil⟩
  | cons x xs ih =>
      obtain ⟨q', zs, hq', hzs, rfl⟩ := place?_cons_eq_some.mp hplace
      obtain ⟨p', hp', hbelow⟩ := h.advanceAll? hq'
      obtain ⟨ys, hys, hall⟩ := ih hbelow hzs
      exact ⟨_, place?_cons_eq_some.mpr ⟨p', ys, hp', hys, rfl⟩, .cons ⟨rfl, h, hbelow⟩ hall⟩

theorem Scan.below_ofPlaced {ys zs : List Placed} (h : List.Forall₂ (Placed.Below n) ys zs) :
    Scan.Below n (Scan.ofPlaced ys) (Scan.ofPlaced zs) := by
  constructor
  case tokens =>
    apply List.rel_filter
    · intro t t' ht
      simp [ht.kind]
    · exact List.rel_filterMap (fun _ _ hy => hy.token?) h
  case errors =>
    exact List.rel_filterMap (fun _ _ hy => hy.diagnostic?) h

/-! ## Two texts, one above the other -/

/-- The results of two stretches of a text, one behind the other. -/
def Scan.append (s s' : Scan) : Scan where
  tokens := s.tokens ++ s'.tokens
  errors := s.errors ++ s'.errors

instance : Append Scan := ⟨Scan.append⟩

theorem Scan.ofPlaced_append (ys zs : List Placed) :
    Scan.ofPlaced (ys ++ zs) = Scan.ofPlaced ys ++ Scan.ofPlaced zs := by
  change _ = Scan.append _ _
  simp [ofPlaced, append]

/-- A comment leaves nothing in the results. -/
theorem Scan.ofPlaced_comment (t : List Char) (p q : Position) (zs : List Placed) :
    Scan.ofPlaced (⟨.comment t, p, q⟩ :: zs) = Scan.ofPlaced zs := rfl

/-- What is placed as a whole is placed in two stretches. -/
theorem exists_of_place?_append {p : Position} {xs xs' : List Piece} {zs : List Placed}
    (h : place? p (xs ++ xs') = some zs) :
    ∃ q ys ys', place? p xs = some ys ∧ p.advanceAll? (texts xs) = some q ∧
      place? q xs' = some ys' ∧ zs = ys ++ ys' := by
  induction xs generalizing p zs with
  | nil => exact ⟨p, [], zs, rfl, rfl, h, rfl⟩
  | cons x xs ih =>
      obtain ⟨m, ws, hm, hws, rfl⟩ := place?_cons_eq_some.mp h
      obtain ⟨q, ys, ys', hys, hq, hys', rfl⟩ := ih hws
      refine ⟨q, _, ys', place?_cons_eq_some.mpr ⟨m, ys, hm, hys, rfl⟩, ?_, hys', rfl⟩
      rw [Piece.texts_cons, Position.advanceAll?_append, hm, Option.bind_some, hq]

/-- A comment that a text leaves open leaves nothing in the results. -/
theorem tokenize_of_open {r : Registry} {source : String} {xs : List Piece} {ys : List Placed}
    {q : Position} (hplace : place? .origin xs = some ys)
    (hq : Position.origin.advanceAll? (texts xs) = some q)
    (hpos : (Position.origin.advanceAll? source.toList).isSome)
    (hcut : cut r.recognizers source.toList = xs ∨
      ∃ u, cut r.recognizers source.toList = xs ++ [.comment u]) :
    r.tokenize source = .ok (Scan.ofPlaced ys) := by
  obtain hcut | ⟨u, hcut⟩ := hcut
  · apply Registry.tokenize_of_place?
    rw [hcut, hplace]
  · obtain ⟨last, hlast⟩ := Option.isSome_iff_exists.mp hpos
    rw [← texts_cut r.recognizers source.toList, hcut, Piece.texts_append,
      Position.advanceAll?_append, hq, Piece.texts_cons, Piece.texts_nil, List.append_nil] at hlast
    have hwhole := place?_append hplace hq (place?_singleton hlast)
    rw [← hcut] at hwhole
    rw [Registry.tokenize_of_place? hwhole, Scan.ofPlaced_append]
    change Except.ok (Scan.append _ ⟨[], []⟩) = _
    simp [Scan.append]

/-- **A comment line is a boundary**: behind a text that does not end in a slash it hides what
stands above it from what stands below. The results are those of the text above, followed by those
of the text below, whatever the comment says; the latter are as many rows further down as there are
line feeds above, the one of the comment line included. -/
theorem Registry.tokenize_commentLine {r : Registry} {a x : String} (b : String)
    (hlast : a.toList.getLast? ≠ some '/') (hx : '\n' ∉ x.toList)
    (hpos : (Position.origin.advanceAll? (a ++ "//" ++ x ++ "\n" ++ b).toList).isSome) :
    ∃ above below further, r.tokenize a = .ok above ∧ r.tokenize b = .ok below ∧
      r.tokenize (a ++ "//" ++ x ++ "\n" ++ b) = .ok (above ++ further) ∧
      Scan.Below (a.toList.count '\n' + 1) below further := by
  have hwhole : (a ++ "//" ++ x ++ "\n" ++ b).toList =
      a.toList ++ '/' :: '/' :: (x.toList ++ '\n' :: b.toList) := by
    simp
  obtain ⟨xs, t, hcut, hfirst⟩ := cut_append_commentLine r.recognizers b.toList hlast hx
  have habove : (Position.origin.advanceAll? a.toList).isSome := by
    rw [hwhole, Position.advanceAll?_append] at hpos
    exact Option.isSome_of_isSome_bind hpos
  obtain ⟨all, hplace, hscan⟩ := r.tokenize_eq_cut _ hpos
  rw [hwhole, hcut] at hplace
  obtain ⟨q, ys, rest, hys, hq, hrest, rfl⟩ := exists_of_place?_append hplace
  obtain ⟨q', zs, hq', hzs, rfl⟩ := place?_cons_eq_some.mp hrest
  -- what stands in front of the text below ends in a line feed
  have htexts : texts xs ++ t = a.toList ++ '/' :: '/' :: x.toList ++ ['\n'] := by
    have hall := congrArg texts hcut
    rw [texts_cut, Piece.texts_append, Piece.texts_cons, texts_cut] at hall
    apply (List.append_left_inj b.toList).mp
    simpa [Piece.text] using hall.symm
  have hend : Position.origin.advanceAll? (a.toList ++ '/' :: '/' :: x.toList ++ ['\n']) =
      some q' := by
    rw [← htexts, Position.advanceAll?_append, hq]
    exact hq'
  have hbelow := Position.below_of_lineFeed hend
  rw [List.count_append, List.count_cons_of_ne (by decide), List.count_cons_of_ne (by decide),
    List.count_eq_zero.mpr hx, Nat.add_zero] at hbelow
  obtain ⟨ws, hws, hall⟩ := exists_place?_above hbelow hzs
  refine ⟨_, _, Scan.ofPlaced zs, tokenize_of_open hys hq habove hfirst,
    Registry.tokenize_of_place? hws, ?_, Scan.below_ofPlaced hall⟩
  rw [hscan, Scan.ofPlaced_append, Scan.ofPlaced_comment]

/-- The text above stops inside a comment, behind a token that `b` does not complete. -/
theorem tokenize_commentLine_nestedWords :
    "a\nab// a".toList.getLast? ≠ some '/' ∧ '\n' ∉ "/ abc".toList ∧
      (Position.origin.advanceAll? ("a\nab// a" ++ "//" ++ "/ abc" ++ "\n" ++ "bc").toList).isSome ∧
      ∃ above below further, nestedWords.tokenize "a\nab// a" = .ok above ∧
        nestedWords.tokenize "bc" = .ok below ∧
        nestedWords.tokenize ("a\nab// a" ++ "//" ++ "/ abc" ++ "\n" ++ "bc") =
          .ok (above ++ further) ∧
        Scan.Below ("a\nab// a".toList.count '\n' + 1) below further := by
  have hlast : "a\nab// a".toList.getLast? ≠ some '/' := by decide
  have hx : '\n' ∉ "/ abc".toList := by decide
  have hpos : (Position.origin.advanceAll?
      ("a\nab// a" ++ "//" ++ "/ abc" ++ "\n" ++ "bc").toList).isSome := by decide
  exact ⟨hlast, hx, hpos, Registry.tokenize_commentLine "bc" hlast hx hpos⟩

end CircuitScan
