import CircuitScan.Scanner

/-!
# CircuitScan.Proofs.Piece

Pieces: the stretches into which a scan cuts a source text. A piece knows its characters and what
a scan makes of them, but not where it stands. Positions are given to pieces afterwards:

1. `place?` sets pieces one behind another, the first at a given position;
2. a placed token piece gives a token, and a placed faulty piece gives a report;
3. `Scan.ofPlaced` collects both, and leaves out the ignored tokens as every scan does.

* `place?_append` — what is placed in two stretches is placed as a whole;
* `advanceAll?_of_place?` — each piece stands behind all characters before it.
-/

namespace CircuitScan

/-- A stretch of source text and what a scan makes of it. -/
inductive Piece where
  /-- a token of some kind -/
  | token (kind : Kind) (text : List Char)
  /-- a token that never became complete -/
  | unterminated (text : List Char)
  /-- a character that starts no token -/
  | unrecognised (c : Char)
  /-- a slash that opens no comment -/
  | slash
  /-- a comment, with its slashes and its line end -/
  | comment (text : List Char)
deriving DecidableEq

namespace Piece

/-- The characters of a piece. -/
def text : Piece → List Char
  | token _ text => text
  | unterminated text => text
  | unrecognised c => [c]
  | slash => ['/']
  | comment text => text

/-- The characters of pieces that stand one behind another. -/
def texts (xs : List Piece) : List Char := xs.flatMap text

@[simp] theorem texts_nil : texts [] = [] := rfl

@[simp] theorem texts_cons (x : Piece) (xs : List Piece) :
    texts (x :: xs) = x.text ++ texts xs := by
  simp [texts]

@[simp] theorem texts_append (xs ys : List Piece) : texts (xs ++ ys) = texts xs ++ texts ys := by
  simp [texts]

end Piece

open Piece (texts)

/-- A piece with its span. -/
structure Placed where
  piece : Piece
  start : Position
  stop : Position
deriving DecidableEq

namespace Placed

/-- The token of a placed piece. -/
def token? (x : Placed) : Option Token :=
  match x.piece with
  | .token kind text => some ⟨kind, String.ofList text, x.start, x.stop⟩
  | _ => none

/-- The report on a placed piece. -/
def diagnostic? (x : Placed) : Option Diagnostic :=
  match x.piece with
  | .unterminated text => some ⟨.unterminated (String.ofList text), x.start⟩
  | .unrecognised c => some ⟨.unrecognised c, x.start⟩
  | .slash => some ⟨.loneSlash, x.start⟩
  | _ => none

end Placed

/-- The results of a scan that finds these pieces. -/
def Scan.ofPlaced (ys : List Placed) : Scan where
  tokens := (ys.filterMap Placed.token?).filter fun t => t.kind ≠ .ignored
  errors := ys.filterMap Placed.diagnostic?

/-- Sets pieces one behind another, the first at `p`, unless a position overflows. -/
def place? (p : Position) : List Piece → Option (List Placed)
  | [] => some []
  | x :: xs => do
    let q ← p.advanceAll? x.text
    let ys ← place? q xs
    return ⟨x, p, q⟩ :: ys

/-! ## Placing -/

@[simp] theorem place?_nil (p : Position) : place? p [] = some [] := rfl

theorem place?_cons_eq_some {p : Position} {x : Piece} {xs : List Piece} {ys : List Placed} :
    place? p (x :: xs) = some ys ↔
      ∃ q zs, p.advanceAll? x.text = some q ∧ place? q xs = some zs ∧ ys = ⟨x, p, q⟩ :: zs := by
  simp only [place?, Option.bind_eq_bind, Option.bind_eq_some_iff, Option.pure_def,
    Option.some.injEq]
  constructor
  · rintro ⟨q, hq, zs, hzs, rfl⟩
    exact ⟨q, zs, hq, hzs, rfl⟩
  · rintro ⟨q, zs, hq, hzs, rfl⟩
    exact ⟨q, hq, zs, hzs, rfl⟩

/-- One piece is placed where its characters have a position behind them. -/
theorem place?_singleton {p q : Position} {x : Piece} (h : p.advanceAll? x.text = some q) :
    place? p [x] = some [⟨x, p, q⟩] :=
  place?_cons_eq_some.mpr ⟨q, [], h, rfl, rfl⟩

/-- Pieces can be placed if no position in their characters overflows. -/
theorem exists_place? {p q : Position} {xs : List Piece} (h : p.advanceAll? (texts xs) = some q) :
    ∃ ys, place? p xs = some ys := by
  induction xs generalizing p with
  | nil => exact ⟨[], rfl⟩
  | cons x xs ih =>
      rw [Piece.texts_cons, Position.advanceAll?_append] at h
      obtain ⟨m, hm, hq⟩ := Option.bind_eq_some_iff.mp h
      obtain ⟨zs, hzs⟩ := ih hq
      exact ⟨⟨x, p, m⟩ :: zs, place?_cons_eq_some.mpr ⟨m, zs, hm, hzs, rfl⟩⟩

theorem exists_advanceAll? {p : Position} {xs : List Piece} {ys : List Placed}
    (h : place? p xs = some ys) : ∃ q, p.advanceAll? (texts xs) = some q := by
  induction xs generalizing p ys with
  | nil => exact ⟨p, rfl⟩
  | cons x xs ih =>
      obtain ⟨m, zs, hm, hzs, -⟩ := place?_cons_eq_some.mp h
      rw [Piece.texts_cons, Position.advanceAll?_append, hm]
      exact ih hzs

/-- What is placed in two stretches is placed as a whole. -/
theorem place?_append {p q : Position} {xs xs' : List Piece} {ys ys' : List Placed}
    (h : place? p xs = some ys) (hq : p.advanceAll? (texts xs) = some q)
    (h' : place? q xs' = some ys') : place? p (xs ++ xs') = some (ys ++ ys') := by
  induction xs generalizing p ys with
  | nil =>
      obtain rfl : ys = [] := by simpa using h.symm
      obtain rfl : p = q := by simpa using hq
      exact h'
  | cons x xs ih =>
      obtain ⟨m, zs, hm, hzs, rfl⟩ := place?_cons_eq_some.mp h
      rw [Piece.texts_cons, Position.advanceAll?_append, hm, Option.bind_some] at hq
      exact place?_cons_eq_some.mpr ⟨m, zs ++ ys', hm, ih hzs hq, rfl⟩

/-- Placing keeps the pieces. -/
theorem map_piece_of_place? {p : Position} {xs : List Piece} {ys : List Placed}
    (h : place? p xs = some ys) : ys.map (·.piece) = xs := by
  induction xs generalizing p ys with
  | nil =>
      obtain rfl : ys = [] := by simpa using h.symm
      rfl
  | cons x xs ih =>
      obtain ⟨m, zs, -, hzs, rfl⟩ := place?_cons_eq_some.mp h
      rw [List.map_cons, ih hzs]

/-- Each placed piece stands behind all characters before it, and its span is its text. -/
theorem advanceAll?_of_place? {p : Position} {xs : List Piece} {before after : List Placed}
    {y : Placed} (h : place? p xs = some (before ++ y :: after)) :
    p.advanceAll? (texts (before.map (·.piece))) = some y.start ∧
      y.start.advanceAll? y.piece.text = some y.stop := by
  induction before generalizing p xs with
  | nil =>
      cases xs with
      | nil => simp at h
      | cons x xs =>
          obtain ⟨m, zs, hm, -, heq⟩ := place?_cons_eq_some.mp h
          obtain ⟨rfl, -⟩ : y = ⟨x, p, m⟩ ∧ after = zs := by simpa using heq
          exact ⟨rfl, hm⟩
  | cons z before ih =>
      cases xs with
      | nil => simp at h
      | cons x xs =>
          obtain ⟨m, zs, hm, hzs, heq⟩ := place?_cons_eq_some.mp h
          obtain ⟨rfl, rfl⟩ : z = ⟨x, p, m⟩ ∧ before ++ y :: after = zs := by simpa using heq
          obtain ⟨hstart, hstop⟩ := ih hzs
          rw [List.map_cons, Piece.texts_cons, Position.advanceAll?_append, hm]
          exact ⟨hstart, hstop⟩

end CircuitScan
