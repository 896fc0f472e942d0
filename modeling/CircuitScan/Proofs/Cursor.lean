import CircuitScan.Proofs.Cut

/-!
# CircuitScan.Proofs.Cursor

A scan with positions and recognizer states left out. A cursor holds only the characters since the
last piece; it takes one character at a time, sees one more ahead, and hands out pieces as they
become complete. It decides as a scanner does, on what it has seen so far. `Pending` is what holds
of a word between two characters, and by it the decisions agree with those of a cut, which sees
the whole text:

* `step_eq` — what a step hands out and what it leaves are the pieces of the text so far;
* `pieces_eq_cut` — so a cursor that goes over a text hands out the cut of the text.
-/

namespace CircuitScan

open Piece (texts)

/-- The characters of a scan since the last piece. -/
inductive Cursor where
  /-- outside comments, behind the first characters of a token -/
  | word (w : List Char)
  /-- inside a comment, behind its first characters -/
  | comment (t : List Char)

variable (rs : List Recognizer)

namespace Cursor

/-- The characters since the last piece. -/
def text : Cursor → List Char
  | word w => w
  | comment t => t

/-- Whether a recognizer that accepts a word would accept one more character. -/
def canExtend (w : List Char) (next : Option Char) : Bool :=
  next.any fun d => someAcceptsBoth rs w (w ++ [d])

/-- The piece of a word that must end. -/
def settle (w : List Char) : List Piece :=
  if w = [] then []
  else match accepting? rs w with
    | some x => [.token x.kind w]
    | none => [.unterminated w]

/-- Goes on behind a word with a path: the word is a token if it is accepted and cannot go on. -/
def grow (w : List Char) (next : Option Char) : List Piece × Cursor :=
  match accepting? rs w with
  | none => ([], word w)
  | some x => if canExtend rs w next then ([], word w) else ([.token x.kind w], word [])

/-- Takes a character behind no word. -/
def begin (c : Char) (next : Option Char) : List Piece × Cursor :=
  if someFollows rs [c] then grow rs [c] next else ([.unrecognised c], word [])

/-- Takes the character `c`, with `next` behind it. -/
def step (u : Cursor) (c : Char) (next : Option Char) : List Piece × Cursor :=
  match u with
  | comment t =>
    if c = '\n' then ([.comment (t ++ [c])], word []) else ([], comment (t ++ [c]))
  | word w =>
    if c = '/' then
      if next = some '/' then (settle rs w, comment [c]) else (settle rs w ++ [.slash], word [])
    else if someFollows rs (w ++ [c]) then grow rs (w ++ [c]) next
    else if w = [] then ([.unrecognised c], word [])
    else (.unterminated w :: (begin rs c next).1, (begin rs c next).2)

/-- Takes all characters of a list. -/
def run (u : Cursor) : List Char → List Piece × Cursor
  | [] => ([], u)
  | c :: cs =>
    let (xs, v) := step rs u c cs.head?
    let (ys, z) := run v cs
    (xs ++ ys, z)

/-- The pieces of what is left at the end of a text. -/
def finish : Cursor → List Piece
  | word w => settle rs w
  | comment t => [.comment t]

/-- The pieces that a cursor hands out over the rest of a text. -/
def pieces (u : Cursor) (r : List Char) : List Piece := (run rs u r).1 ++ finish rs (run rs u r).2

@[simp] theorem pieces_nil (u : Cursor) : pieces rs u [] = finish rs u := rfl

theorem run_cons (u : Cursor) (c : Char) (cs : List Char) :
    run rs u (c :: cs) =
      ((step rs u c cs.head?).1 ++ (run rs (step rs u c cs.head?).2 cs).1,
        (run rs (step rs u c cs.head?).2 cs).2) := rfl

theorem pieces_cons (u : Cursor) (c : Char) (cs : List Char) :
    pieces rs u (c :: cs) =
      (step rs u c cs.head?).1 ++ pieces rs (step rs u c cs.head?).2 cs := by
  simp [pieces, run_cons]

/-! ## No character is lost -/

variable {rs}

theorem texts_settle (w : List Char) : texts (settle rs w) = w := by
  unfold settle
  split
  · next hw => rw [hw, Piece.texts_nil]
  · split <;> simp [Piece.text]

theorem texts_grow (w : List Char) (next : Option Char) :
    texts (grow rs w next).1 ++ (grow rs w next).2.text = w := by
  unfold grow
  split
  · rfl
  · split
    · rfl
    · simp [text, Piece.text]

theorem texts_begin (c : Char) (next : Option Char) :
    texts (begin rs c next).1 ++ (begin rs c next).2.text = [c] := by
  unfold begin
  split
  · exact texts_grow [c] next
  · rfl

/-- A step adds its character to those of the cursor. -/
theorem texts_step (u : Cursor) (c : Char) (next : Option Char) :
    texts (step rs u c next).1 ++ (step rs u c next).2.text = u.text ++ [c] := by
  unfold step
  cases u with
  | comment t => by_cases hc : c = '\n' <;> simp [hc, text, Piece.text]
  | word w =>
      dsimp only
      split
      · next hc =>
          subst hc
          split <;> simp [texts_settle, text, Piece.text]
      · split
        · exact texts_grow _ next
        · split
          · next hw => simp [hw, text, Piece.text]
          · rw [Piece.texts_cons, List.append_assoc, texts_begin]
            rfl

variable (rs)

/-! ## What holds between two characters -/

/-- A word that is neither complete nor given up, in front of the character `next`. No token ends
inside it, it has a path, and it is accepted only if it can go on. -/
structure Pending (w : List Char) (next : Option Char) : Prop where
  slash : '/' ∉ w
  within : NoEndWithin rs w
  path : w ≠ [] → someFollows rs w
  defers : w ≠ [] → (accepting? rs w).isSome → canExtend rs w next

/-- A cursor between two characters. -/
def Valid (u : Cursor) (next : Option Char) : Prop :=
  match u with
  | word w => Pending rs w next
  | comment _ => True

/-- The pieces that are due over the rest of a text. -/
def due (u : Cursor) (r : List Char) : List Piece :=
  match u with
  | word w => cut rs (w ++ r)
  | comment t => .comment (t ++ throughLine r) :: cut rs (afterLine r)

variable {rs}

theorem pending_nil (next : Option Char) : Pending rs [] next :=
  ⟨by simp, noEndWithin_nil, fun h => absurd rfl h, fun h => absurd rfl h⟩

/-- In front of a slash or of the end a pending word is settled. -/
theorem cut_settle {w u : List Char} {next : Option Char} (h : Pending rs w next)
    (hu : block u = []) : cut rs (w ++ u) = settle rs w ++ cut rs u := by
  have hend (p : Char → Prop) : ∀ d, (block u).head? = some d → p d := by simp [hu]
  unfold settle
  split
  · next hw => rw [hw, List.nil_append, List.nil_append]
  · next hw =>
      split
      · next x hx => exact cut_append_token hw h.slash h.within hx (hend _)
      · next hx => exact cut_append_unterminated hw h.slash h.within hx (h.path hw) (hend _)

/-- A word that grows hands out the token that a cut finds, or stays pending. -/
theorem grow_eq {w r : List Char} (hne : w ≠ []) (hslash : '/' ∉ w) (hin : NoEndWithin rs w)
    (hpath : someFollows rs w) :
    cut rs (w ++ r) = (grow rs w r.head?).1 ++ due rs (grow rs w r.head?).2 r ∧
      Valid rs (grow rs w r.head?).2 r.head? := by
  unfold grow
  cases hx : accepting? rs w with
  | none =>
      exact ⟨rfl, hslash, hin, fun _ => hpath, fun _ hacc => by simp [hx] at hacc⟩
  | some x =>
      dsimp only
      by_cases hext : canExtend rs w r.head?
      · rw [if_pos hext]
        exact ⟨rfl, hslash, hin, fun _ => hpath, fun _ _ => hext⟩
      · rw [if_neg hext]
        have hend : ∀ d, (block r).head? = some d → someAcceptsBoth rs w (w ++ [d]) = false := by
          intro d hd
          rw [canExtend, head?_of_head?_block hd] at hext
          simpa using hext
        exact ⟨cut_append_token hne hslash hin hx hend, pending_nil _⟩

theorem begin_eq {c : Char} {r : List Char} (hc : c ≠ '/') :
    cut rs (c :: r) = (begin rs c r.head?).1 ++ due rs (begin rs c r.head?).2 r ∧
      Valid rs (begin rs c r.head?).2 r.head? := by
  unfold begin
  split
  · next hpath =>
      exact grow_eq (by simp) (by simpa using hc.symm) (noEndWithin_singleton c) hpath
  · next hpath =>
      rw [Bool.not_eq_true] at hpath
      exact ⟨cut_unrecognised hc hpath, pending_nil _⟩

/-- A word that has no path over the next character is not accepted, as else it would have waited
for that character. -/
theorem accepting?_eq_none_of_stuck {w : List Char} {c : Char} (h : Pending rs w (some c))
    (hne : w ≠ []) (hstuck : someFollows rs (w ++ [c]) = false) : accepting? rs w = none := by
  cases hx : accepting? rs w with
  | none => rfl
  | some x =>
      have hext := h.defers hne (by rw [hx]; rfl)
      obtain ⟨y, hy, hboth⟩ := List.any_eq_true.mp (show someAcceptsBoth rs w (w ++ [c]) from hext)
      rw [Bool.and_eq_true] at hboth
      have hpath := someFollows_of_accepts rs hy hboth.2
      rw [hstuck] at hpath
      contradiction

/-! ## A step -/

theorem step_comment_eq (t : List Char) (c : Char) (r : List Char) :
    due rs (comment t) (c :: r) =
      (step rs (comment t) c r.head?).1 ++ due rs (step rs (comment t) c r.head?).2 r := by
  by_cases hc : c = '\n'
  · simp [step, due, throughLine, afterLine, hc]
  · simp [step, due, throughLine, afterLine, hc]

theorem step_slash_eq {w r : List Char} (h : Pending rs w (some '/')) :
    due rs (word w) ('/' :: r) =
        (step rs (word w) '/' r.head?).1 ++ due rs (step rs (word w) '/' r.head?).2 r ∧
      Valid rs (step rs (word w) '/' r.head?).2 r.head? := by
  have hsettle : cut rs (w ++ '/' :: r) = settle rs w ++ cut rs ('/' :: r) :=
    cut_settle h (by simp [block])
  by_cases hr : r.head? = some '/'
  · obtain ⟨r', rfl⟩ := List.head?_eq_some_iff.mp hr
    have hstep : step rs (word w) '/' ('/' :: r').head? = (settle rs w, comment ['/']) := by
      simp [step]
    rw [hstep]
    constructor
    · rw [due, hsettle, cut_comment]
      simp [due, throughLine, afterLine]
    · trivial
  · have hstep : step rs (word w) '/' r.head? = (settle rs w ++ [.slash], word []) := by
      simp [step, hr]
    rw [hstep]
    constructor
    · rw [due, hsettle, cut_slash hr]
      simp [due]
    · exact pending_nil _

theorem step_word_eq {w r : List Char} {c : Char} (h : Pending rs w (some c)) (hc : c ≠ '/') :
    due rs (word w) (c :: r) =
        (step rs (word w) c r.head?).1 ++ due rs (step rs (word w) c r.head?).2 r ∧
      Valid rs (step rs (word w) c r.head?).2 r.head? := by
  have happend : w ++ c :: r = w ++ [c] ++ r := by simp
  rw [step, if_neg hc, due]
  by_cases hpath : someFollows rs (w ++ [c])
  · rw [if_pos hpath, happend]
    have hslash : '/' ∉ w ++ [c] := by simp [h.slash, hc.symm]
    exact grow_eq (by simp) hslash (h.within.concat h.defers) hpath
  · rw [if_neg hpath]
    rw [Bool.not_eq_true] at hpath
    by_cases hw : w = []
    · subst hw
      rw [if_pos rfl]
      exact ⟨cut_unrecognised hc hpath, pending_nil _⟩
    · rw [if_neg hw]
      -- the word is given up, and the character is taken again behind no word
      obtain ⟨hbegin, hvalid⟩ := @begin_eq rs c r hc
      have hnone := accepting?_eq_none_of_stuck h hw hpath
      have hend : ∀ d, (block (c :: r)).head? = some d → someFollows rs (w ++ [d]) = false := by
        intro d hd
        obtain rfl : c = d := by simpa [block_cons hc] using hd
        exact hpath
      have hcut := cut_append_unterminated hw h.slash h.within hnone (h.path hw) hend
      rw [hcut, hbegin, List.cons_append]
      exact ⟨rfl, hvalid⟩

/-- **A step**: what a cursor hands out and what it leaves are the pieces that were due. -/
theorem step_eq {u : Cursor} {c : Char} {r : List Char} (h : Valid rs u (some c)) :
    due rs u (c :: r) = (step rs u c r.head?).1 ++ due rs (step rs u c r.head?).2 r ∧
      Valid rs (step rs u c r.head?).2 r.head? := by
  cases u with
  | comment t =>
      have hvalid : Valid rs (step rs (comment t) c r.head?).2 r.head? := by
        by_cases hc : c = '\n'
        · rw [step, if_pos hc]
          exact pending_nil _
        · rw [step, if_neg hc]
          trivial
      exact ⟨step_comment_eq t c r, hvalid⟩
  | word w =>
      by_cases hc : c = '/'
      · subst hc
        exact step_slash_eq h
      · exact step_word_eq h hc

/-! ## Whole texts -/

/-- A cursor hands out the pieces that are due. -/
theorem pieces_eq_due {u : Cursor} {r : List Char} (h : Valid rs u r.head?) :
    pieces rs u r = due rs u r := by
  induction r generalizing u with
  | nil =>
      cases u with
      | word w =>
          have hsettle := cut_settle h (u := []) rfl
          rw [List.append_nil, cut_nil, List.append_nil] at hsettle
          simp [finish, due, hsettle]
      | comment t => simp [finish, due, throughLine, afterLine]
  | cons c r ih =>
      obtain ⟨heq, hvalid⟩ := step_eq h
      rw [pieces_cons, ih hvalid, heq]

/-- **A cursor cuts a text**: over a whole text it hands out the cut of the text. -/
theorem pieces_eq_cut (r : List Char) : pieces rs (word []) r = cut rs r :=
  pieces_eq_due (pending_nil _)

end Cursor

end CircuitScan
