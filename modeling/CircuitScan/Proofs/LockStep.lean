import CircuitScan.Proofs.Cursor
import CircuitScan.Proofs.Related

/-!
# CircuitScan.Proofs.LockStep

The lanes of a scanner run in lock step: at any time they have all read the same word, and each
holds what its recognizer makes of that word. A lane whose recognizer has a path over the word is
live, in the state at the end of the path; the others have returned to the start and wait.

What a scanner asks its lanes are therefore questions about the word (`Reads.isLive_eq`,
`Reads.best?_eq`, `Reads.canExtend_eq`), and its operations add the results of pieces (`Adds`):

* `take_spec` — the token of the best lane;
* `abandon_spec` — the report on a word that is given up;
* `settle_spec` — whichever of both a word that must end gets.
-/

namespace CircuitScan

open Piece (texts)

/-! ## One lane -/

theorem Automaton.run_concat (a : Automaton) (w : List Char) (c : Char) :
    a.run (w ++ [c]) = (a.run w).bind fun state => a.table.get? state c := by
  rw [run, Table.run_append]
  cases h : a.table.run a.start w with
  | none => simp [run, h]
  | some state => cases a.table.get? state c <;> simp_all [run]

/-- A lane holds what the recognizer `x` makes of the word `w`. -/
structure Lane.Reads (x : Recognizer) (w : List Char) (l : Lane) : Prop where
  recognizer : l.matcher.recognizer = x
  live : l.live = x.follows w
  state : l.matcher.state = (x.automaton.run w).getD x.automaton.start
  text : l.matcher.text = if x.follows w then String.ofList w else ""

namespace Lane.Reads

variable {x : Recognizer} {w : List Char} {l : Lane}

theorem fresh (x : Recognizer) : Reads x [] (Lane.fresh x) := ⟨rfl, rfl, rfl, rfl⟩

theorem reset (h : Reads x w l) : Reads x [] l.reset := by
  have hx := h.recognizer
  subst hx
  exact ⟨rfl, rfl, rfl, rfl⟩

/-- A live lane stands at the end of its path. -/
theorem run_eq (h : Reads x w l) (hlive : l.live) :
    x.automaton.run w = some l.matcher.state := by
  rw [h.live] at hlive
  obtain ⟨state, hrun⟩ := Option.isSome_iff_exists.mp hlive
  rw [h.state, hrun, Option.getD_some]

/-- A lane that is not live has no path. -/
theorem run_eq_none (h : Reads x w l) (hlive : l.live = false) : x.automaton.run w = none := by
  rw [h.live] at hlive
  exact Option.not_isSome_iff_eq_none.mp (Bool.eq_false_iff.mp hlive)

theorem target?_eq (h : Reads x w l) (hlive : l.live) (c : Char) :
    l.matcher.target? c = x.automaton.run (w ++ [c]) := by
  rw [Automaton.run_concat, h.run_eq hlive, Option.bind_some, Matcher.target?, h.recognizer]

theorem isAccepting_eq (h : Reads x w l) : l.isAccepting = x.accepts w := by
  unfold Lane.isAccepting Recognizer.accepts Automaton.accepts
  cases hlive : l.live with
  | false => rw [h.run_eq_none hlive]; rfl
  | true =>
      rw [h.run_eq hlive, Bool.true_and, Option.any_some, Matcher.isAccepting, h.recognizer]

theorem peek_eq (h : Reads x w l) (c : Char) :
    l.peek c = (x.accepts w && x.accepts (w ++ [c])) := by
  have hacc := h.isAccepting_eq
  unfold Lane.isAccepting at hacc
  unfold Lane.peek Matcher.peek
  rw [← Bool.and_assoc, hacc]
  cases hlive : l.live with
  | false =>
      rw [hlive, Bool.false_and] at hacc
      rw [← hacc]
      rfl
  | true => rw [h.target?_eq hlive, h.recognizer]; rfl

theorem follows_eq (x : Recognizer) (w : List Char) :
    x.follows w = (x.automaton.run w).isSome := rfl

theorem feed_of_live (h : Reads x w l) (hlive : l.live) (c : Char) :
    Reads x (w ++ [c]) (l.feed c) := by
  have htarget := h.target?_eq hlive c
  have htext : l.matcher.text = String.ofList w := by
    rw [h.text, ← h.live, if_pos hlive]
  unfold Lane.feed Matcher.consume
  rw [if_pos hlive]
  cases hrun : x.automaton.run (w ++ [c]) with
  | none =>
      have hfollows : x.follows (w ++ [c]) = false := by simp [follows_eq, hrun]
      rw [hrun] at htarget
      rw [htarget]
      constructor
      case recognizer => exact h.recognizer
      case live => simp [hfollows]
      case state => simp [hrun, h.recognizer]
      case text => simp [hfollows]
  | some state =>
      have hfollows : x.follows (w ++ [c]) := by simp [follows_eq, hrun]
      rw [hrun] at htarget
      rw [htarget]
      constructor
      case recognizer => exact h.recognizer
      case live => simp [hfollows]
      case state => simp [hrun]
      case text => simp [hfollows, htext]

theorem feed_of_dead (h : Reads x w l) (hlive : l.live = false) (c : Char) :
    Reads x (w ++ [c]) (l.feed c) := by
  have hrun : x.automaton.run (w ++ [c]) = none := by
    rw [Automaton.run_concat, h.run_eq_none hlive, Option.bind_none]
  have hfollows : x.follows (w ++ [c]) = false := by simp [follows_eq, hrun]
  have hfeed : l.feed c = l := by simp [Lane.feed, hlive]
  rw [hfeed]
  constructor
  case recognizer => exact h.recognizer
  case live => rw [hlive, hfollows]
  case state => rw [h.state, h.run_eq_none hlive, hrun]
  case text => simp [h.text, ← h.live, hlive, hfollows]

/-- A character takes a lane to the next word, whether it is live or not. -/
theorem feed (h : Reads x w l) (c : Char) : Reads x (w ++ [c]) (l.feed c) := by
  cases hlive : l.live with
  | false => exact h.feed_of_dead hlive c
  | true => exact h.feed_of_live hlive c

/-- An accepting lane makes the token of its word. -/
theorem accept_eq (h : Reads x w l) (hacc : x.accepts w) (start stop : Position) :
    l.matcher.accept start stop =
      .ok (⟨x.kind, String.ofList w, start, stop⟩, l.matcher.reset) := by
  have hlane := h.isAccepting_eq
  have hfollows : x.follows w := Automaton.follows_of_accepts hacc
  rw [hacc, Lane.isAccepting, Bool.and_eq_true] at hlane
  rw [Matcher.accept, if_pos hlane.2, h.text, if_pos hfollows, h.recognizer]

end Lane.Reads

/-! ## All lanes -/

namespace Scanner

/-- All lanes of a scanner have read the word `w`. -/
def Reads (rs : List Recognizer) (w : List Char) (s : Scanner) : Prop :=
  List.Forall₂ (fun l x => l.Reads x w) s.lanes rs

variable {rs : List Recognizer} {w : List Char} {s : Scanner}

theorem Reads.isLive_eq (h : Reads rs w s) : s.isLive = someFollows rs w :=
  any_eq_of_forall₂ h fun _ _ hl => hl.live

theorem Reads.canExtend_eq (h : Reads rs w s) (next : Option Char) :
    s.canExtend next = Cursor.canExtend rs w next := by
  unfold canExtend Cursor.canExtend
  congr 1
  funext c
  exact any_eq_of_forall₂ h fun _ _ hl => hl.peek_eq c

/-- The best lane is that of the best recognizer. -/
theorem Reads.best?_eq (h : Reads rs w s) :
    (s.best? = none ∧ accepting? rs w = none) ∨
      ∃ l x, s.best? = some l ∧ accepting? rs w = some x ∧ l.Reads x w :=
  find?_of_forall₂ h fun _ _ hl => hl.isAccepting_eq

theorem Reads.feed (h : Reads rs w s) (c : Char) : Reads rs (w ++ [c]) (s.feed c) := by
  unfold Reads Scanner.feed
  rw [List.forall₂_map_left_iff]
  exact h.imp fun _ _ hl => hl.feed c

theorem Reads.resetAll (h : Reads rs w s) : Reads rs [] s.resetAll := by
  unfold Reads Scanner.resetAll
  rw [List.forall₂_map_left_iff]
  exact h.imp fun _ _ hl => hl.reset

theorem reads_ofRegistry (r : Registry) : Reads r.recognizers [] (ofRegistry r) := by
  unfold Reads ofRegistry
  rw [List.forall₂_map_left_iff, List.forall₂_same]
  exact fun x _ => .fresh x

/-! ## Results -/

/-- The results of `s'` are those of `s` and those of pieces that are set one behind another from
`p` to `q`. -/
structure Adds (s s' : Scanner) (p : Position) (xs : List Piece) (q : Position) : Prop where
  stop : p.advanceAll? (texts xs) = some q
  results : ∃ ys, place? p xs = some ys ∧
    s'.tokens.toList = s.tokens.toList ++ ys.filterMap Placed.token? ∧
    s'.errors.toList = s.errors.toList ++ ys.filterMap Placed.diagnostic?

namespace Adds

variable {s s' s'' : Scanner} {p q q' : Position} {xs ys : List Piece}

theorem nil (p : Position) (htokens : s'.tokens = s.tokens) (herrors : s'.errors = s.errors) :
    Adds s s' p [] p :=
  ⟨rfl, [], rfl, by simp [htokens], by simp [herrors]⟩

theorem singleton {x : Piece} (h : p.advanceAll? x.text = some q)
    (htokens : s'.tokens.toList = s.tokens.toList ++ (Placed.token? ⟨x, p, q⟩).toList)
    (herrors : s'.errors.toList = s.errors.toList ++ (Placed.diagnostic? ⟨x, p, q⟩).toList) :
    Adds s s' p [x] q := by
  have hstop : p.advanceAll? (texts [x]) = some q := by simpa using h
  have htokens' : s'.tokens.toList = s.tokens.toList ++ [⟨x, p, q⟩].filterMap Placed.token? := by
    rw [htokens]
    cases h : Placed.token? ⟨x, p, q⟩ <;> simp [h]
  have herrors' :
      s'.errors.toList = s.errors.toList ++ [⟨x, p, q⟩].filterMap Placed.diagnostic? := by
    rw [herrors]
    cases h : Placed.diagnostic? ⟨x, p, q⟩ <;> simp [h]
  exact ⟨hstop, _, place?_singleton h, htokens', herrors'⟩

theorem trans (h : Adds s s' p xs q) (h' : Adds s' s'' q ys q') :
    Adds s s'' p (xs ++ ys) q' := by
  obtain ⟨hstop, zs, hplace, htokens, herrors⟩ := h
  obtain ⟨hstop', zs', hplace', htokens', herrors'⟩ := h'
  have hstop'' : p.advanceAll? (texts (xs ++ ys)) = some q' := by
    rw [Piece.texts_append, Position.advanceAll?_append, hstop, Option.bind_some, hstop']
  have htokens'' :
      s''.tokens.toList = s.tokens.toList ++ (zs ++ zs').filterMap Placed.token? := by
    rw [htokens', htokens, List.filterMap_append, List.append_assoc]
  have herrors'' :
      s''.errors.toList = s.errors.toList ++ (zs ++ zs').filterMap Placed.diagnostic? := by
    rw [herrors', herrors, List.filterMap_append, List.append_assoc]
  exact ⟨hstop'', zs ++ zs', place?_append hplace hstop hplace', htokens'', herrors''⟩

end Adds

/-! ## Operations -/

/-- All lanes and the word are cleared for a new token. -/
structure Clear (rs : List Recognizer) (s : Scanner) : Prop where
  reads : Reads rs [] s
  lexeme : s.lexeme = ""

/-- Outside comments the scanner has read the word `w`, which begins at `p`. -/
structure Holds (rs : List Recognizer) (p : Position) (w : List Char) (s : Scanner) : Prop where
  reads : Reads rs w s
  lexeme : s.lexeme = String.ofList w
  start : s.start = p
  outside : s.inComment = false

theorem Reads.clear (h : Reads rs w s) : Clear rs s.resetAll := ⟨h.resetAll, rfl⟩

theorem take_eq {x : Recognizer} {l : Lane} (h : l.Reads x w) (hacc : x.accepts w)
    (stop : Position) :
    s.take l stop = .ok
      ({ s with tokens := s.tokens.push ⟨x.kind, String.ofList w, s.start, stop⟩ }).resetAll := by
  rw [take, h.accept_eq hacc]
  rfl

/-- The token of an accepting lane ends the word. -/
theorem take_spec {p stop : Position} {x : Recognizer} {l : Lane} (h : Holds rs p w s)
    (hl : l.Reads x w) (hx : accepting? rs w = some x) (hstop : p.advanceAll? w = some stop) :
    ∃ s', s.take l stop = .ok s' ∧ Clear rs s' ∧ s'.position = s.position ∧
      s'.inComment = false ∧ Adds s s' p [.token x.kind w] stop := by
  have htake := take_eq (s := s) hl (accepting?_eq_some hx).2 stop
  have hclear (t : Token) : Clear rs { s with tokens := s.tokens.push t }.resetAll :=
    Reads.clear h.reads
  exact ⟨_, htake, hclear _, rfl, h.outside, .singleton hstop
    (by simp [resetAll, Placed.token?, h.start]) (by simp [resetAll, Placed.diagnostic?])⟩

/-- A word that is given up is reported at its start, whatever the lanes have read since. -/
theorem abandon_spec {p stop : Position} {v : List Char} (hreads : Reads rs v s)
    (hlexeme : s.lexeme = String.ofList w) (hstart : s.start = p)
    (hstop : p.advanceAll? w = some stop) :
    Clear rs s.abandon ∧ Adds s s.abandon p [.unterminated w] stop := by
  constructor
  · exact Reads.clear (s := s.report _ _) hreads
  · apply Adds.singleton hstop
    · simp [abandon, report, resetAll, Placed.token?]
    · simp [abandon, report, resetAll, Placed.diagnostic?, hstart, hlexeme]

/-- A word that must end is a token or given up. -/
theorem settle_spec {p stop : Position} (h : Holds rs p w s)
    (hstop : p.advanceAll? w = some stop) :
    ∃ s', s.settle stop = .ok s' ∧ Clear rs s' ∧ s'.position = s.position ∧
      s'.inComment = false ∧ Adds s s' p (Cursor.settle rs w) stop := by
  unfold settle Cursor.settle
  by_cases hw : w = []
  · subst hw
    obtain rfl : p = stop := by simpa using hstop
    rw [if_pos h.lexeme, if_pos rfl]
    exact ⟨s, rfl, ⟨h.reads, h.lexeme⟩, rfl, h.outside, Adds.nil p rfl rfl⟩
  · have hlexeme : s.lexeme ≠ "" := by
      rw [h.lexeme]
      simpa using hw
    rw [if_neg hlexeme, if_neg hw]
    obtain ⟨hbest, hnone⟩ | ⟨l, x, hbest, hx, hl⟩ := h.reads.best?_eq
    · rw [hbest, hnone]
      obtain ⟨hclear, hadds⟩ := abandon_spec h.reads h.lexeme h.start hstop
      exact ⟨_, rfl, hclear, rfl, h.outside, hadds⟩
    · rw [hbest, hx]
      exact take_spec h hl hx hstop

end Scanner

end CircuitScan
