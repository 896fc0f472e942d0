import CircuitScan.Proofs.Refinement
import CircuitScan.Proofs.Success

/-!
# CircuitScan.Proofs.Between

A scan stopped between two characters. A step sees one character ahead, so to be stopped in front
of `next` is not to be at the end of a text. What has been handed out there and what is due over
the rest of the text are the cut of the whole text:

* `run_append` — a scan may be stopped anywhere and go on;
* `takes_reaches` — what holds where it is stopped;
* `tokenize_of_takes` — what the whole scan returns, seen from there.
-/

namespace CircuitScan

open Piece (texts)

namespace Scanner

/-- Takes all characters of a list, with `next` behind the last. -/
def takes (s : Scanner) : List Char → (next : Option Char) → Except Fault Scanner
  | [], _ => .ok s
  | c :: cs, next => (s.step c (cs.head?.or next)).bind fun s => s.takes cs next

@[simp] theorem takes_nil (s : Scanner) (next : Option Char) : s.takes [] next = .ok s := rfl

theorem takes_cons_eq_ok {s s' : Scanner} {c : Char} {cs : List Char} {next : Option Char} :
    s.takes (c :: cs) next = .ok s' ↔
      ∃ m, s.step c (cs.head?.or next) = .ok m ∧ m.takes cs next = .ok s' :=
  bind_eq_ok

/-- A scan may be stopped anywhere and go on. -/
theorem run_append (s : Scanner) (u v : List Char) :
    s.run (u ++ v) = (s.takes u v.head?).bind fun s => s.run v := by
  induction u generalizing s with
  | nil => rfl
  | cons c u ih =>
      rw [List.cons_append, run, takes, List.head?_append]
      cases s.step c (u.head?.or v.head?) with
      | error e => rfl
      | ok m => exact ih m

variable {rs : List Recognizer} {p : Position}

/-- Where a scan is stopped it tracks a cursor, and the pieces handed out so far and those that are
due over the rest are the pieces that were due before. -/
theorem takes_reaches {cursor : Cursor} {s s' : Scanner} {u r : List Char}
    (h : Tracks rs p cursor s) (hvalid : cursor.Valid rs (u ++ r).head?)
    (hs : s.takes u r.head? = .ok s') :
    ∃ xs q cursor', Adds s s' p xs q ∧ Tracks rs q cursor' s' ∧ cursor'.Valid rs r.head? ∧
      cursor.due rs (u ++ r) = xs ++ cursor'.due rs r ∧
      s.position.advanceAll? u = some s'.position := by
  induction u generalizing s p cursor with
  | nil =>
      cases hs
      exact ⟨[], p, cursor, .nil p rfl rfl, h, hvalid, rfl, rfl⟩
  | cons c u ih =>
      obtain ⟨m, hstep, hrest⟩ := takes_cons_eq_ok.mp hs
      rw [← List.head?_append] at hstep
      cases hafter : s.position.advance? c with
      | none =>
          simp only [step, hafter] at hstep
          contradiction
      | some after =>
          obtain ⟨m', q, hstep', hadds, htracks⟩ :
              Reaches rs s p (s.step c (u ++ r).head?) (Cursor.step rs cursor c (u ++ r).head?) :=
            step_reaches h hafter
          obtain rfl : m = m' := Except.ok.inj (hstep.symm.trans hstep')
          obtain rfl := position_of_step h hafter hadds htracks
          obtain ⟨hdue, hnext⟩ := Cursor.step_eq hvalid
          obtain ⟨xs, q', cursor', hadds', htracks', hvalid', hdue', hpos⟩ :=
            ih htracks hnext hrest
          refine ⟨_, q', cursor', hadds.trans hadds', htracks', hvalid', ?_, ?_⟩
          · rw [List.cons_append, hdue, hdue', List.append_assoc]
          · rw [Position.advanceAll?_cons, hafter, Option.bind_some, hpos]

/-- A scan comes to any place that has a position. -/
theorem exists_takes {cursor : Cursor} {s : Scanner} {u : List Char} {last : Position}
    (h : Tracks rs p cursor s) (hlast : s.position.advanceAll? u = some last)
    (next : Option Char) : ∃ s', s.takes u next = .ok s' := by
  induction u generalizing s p cursor with
  | nil => exact ⟨s, rfl⟩
  | cons c u ih =>
      rw [Position.advanceAll?_cons] at hlast
      obtain ⟨after, hafter, hrest⟩ := Option.bind_eq_some_iff.mp hlast
      obtain ⟨m, q, hstep, hadds, htracks⟩ : Reaches rs s p (s.step c (u.head?.or next))
          (Cursor.step rs cursor c (u.head?.or next)) := step_reaches h hafter
      obtain rfl := position_of_step h hafter hadds htracks
      obtain ⟨s', hs'⟩ := ih htracks hrest
      exact ⟨s', takes_cons_eq_ok.mpr ⟨m, hstep, hs'⟩⟩

/-- From where it is stopped a scan goes on to an overflow, or to the results of the pieces that are
due there, behind those it has. -/
theorem tokenize_of_takes {w u r : List Char} {s s' : Scanner} (h : Reads rs w s)
    (hs : s.restart.takes u r.head? = .ok s') :
    ∃ q cursor, Tracks rs q cursor s' ∧ cursor.Valid rs r.head? ∧
      Position.origin.advanceAll? u = some s'.position ∧
      (s'.position.advanceAll? r = none ∧
          s.tokenize (String.ofList (u ++ r)) = .error .positionOverflow ∨
        ∃ ys t, place? q (cursor.due rs r) = some ys ∧
          s.tokenize (String.ofList (u ++ r)) = .ok (t.result, t) ∧
          t.tokens.toList = s'.tokens.toList ++ ys.filterMap Placed.token? ∧
          t.errors.toList = s'.errors.toList ++ ys.filterMap Placed.diagnostic?) := by
  obtain ⟨-, q, cursor, -, htracks, hvalid, -, hpos⟩ :=
    takes_reaches h.tracks_restart (Cursor.pending_nil _) hs
  have hrun : s.restart.run (u ++ r) = s'.run r := by rw [run_append, hs]; rfl
  refine ⟨q, cursor, htracks, hvalid, hpos, ?_⟩
  cases hlast : s'.position.advanceAll? r with
  | none =>
      left
      rw [tokenize, String.toList_ofList, hrun, run_eq_error htracks hlast]
      exact ⟨rfl, rfl⟩
  | some last =>
      right
      obtain ⟨s₁, q₁, hrun', hadds, htracks'⟩ := run_reaches htracks hlast
      obtain ⟨t, hfinish, hadds'⟩ := finish_spec htracks'
      obtain ⟨-, ys, hplace, htokens, herrors⟩ := hadds.trans hadds'
      have hdue : cursor.due rs r =
          (Cursor.run rs cursor r).1 ++ Cursor.finish rs (Cursor.run rs cursor r).2 :=
        (Cursor.pieces_eq_due hvalid).symm
      have htokenize : s.tokenize (String.ofList (u ++ r)) = .ok (t.result, t) := by
        simp only [tokenize, String.toList_ofList, hrun, hrun', bind, Except.bind, hfinish]
        rfl
      rw [← hdue] at hplace
      exact ⟨ys, t, hplace, htokenize, htokens, herrors⟩

end Scanner

end CircuitScan
