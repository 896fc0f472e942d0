import CircuitScan.Proofs.Registration
import CircuitScan.Proofs.Reuse

/-!
# CircuitScan.Proofs.ScanInvariant

What holds of a scanner between any two characters of a text, said of its own fields
(`Scanner.InLockStep`). The word of the current token is kept many times over, once by the scanner
and once by each live lane, and so is the place that it leads to, as the state of each lane and as
the position behind it; all of them agree. Lanes that are not live have nothing of the word left.

A token that waits is never lost: if a lane accepts between two characters, there is a next one, and
some lane accepts behind it as well.

All this follows from what a scanner tracks (`inLockStep_of_tracks`), and each step keeps track.

* `Registry.inLockStep_of_takes` — every place that a scan of a text comes to.
-/

namespace CircuitScan

namespace Scanner

/-- The lanes of a scanner are in lock step, in front of the character `next`. -/
structure InLockStep (rs : List Recognizer) (next : Option Char) (s : Scanner) : Prop where
  /-- there is one lane for each recognizer, in the order of rank -/
  recognizers_eq : s.recognizers = rs
  /-- a live lane has read the word, and stands at the end of its path -/
  of_live : ∀ l ∈ s.lanes, l.live = true → l.matcher.text = s.lexeme ∧
    l.matcher.recognizer.automaton.run s.lexeme.toList = some l.matcher.state
  /-- any other lane has no path over the word, and has returned to the start -/
  of_not_live : ∀ l ∈ s.lanes, l.live = false → l.matcher.text = "" ∧
    l.matcher.state = l.matcher.recognizer.automaton.start ∧
    l.matcher.recognizer.automaton.run s.lexeme.toList = none
  /-- a word that was begun has a path, and no comment begins inside it -/
  of_pending : s.lexeme ≠ "" → (∃ l ∈ s.lanes, l.live = true) ∧ s.inComment = false
  /-- in front of a word all lanes are live -/
  of_clear : s.lexeme = "" → ∀ l ∈ s.lanes, l.live = true
  /-- the word leads from its first character to the next one -/
  position_eq : s.inComment = false → s.start.advanceAll? s.lexeme.toList = some s.position
  /-- a word that is accepted waits for a character with which it is accepted as well -/
  defers : (∃ l ∈ s.lanes, l.isAccepting = true) →
    ∃ c, next = some c ∧ ∃ l ∈ (s.feed c).lanes, l.isAccepting = true

variable {rs : List Recognizer} {w : List Char} {s : Scanner} {p : Position} {next : Option Char}

/-! ## What a scanner tracks -/

theorem Reads.recognizers_eq (h : Reads rs w s) : s.recognizers = rs := by
  have hmap := map_eq_of_forall₂ (f := fun l : Lane => l.matcher.recognizer) (g := id) h
    fun _ _ hl => hl.recognizer
  rwa [List.map_id] at hmap

/-- The lanes that accept are those of the recognizers that accept the word. -/
theorem Reads.exists_isAccepting_iff (h : Reads rs w s) :
    (∃ l ∈ s.lanes, l.isAccepting = true) ↔ (accepting? rs w).isSome := by
  have hany := any_eq_of_forall₂ (p := Lane.isAccepting) (q := (·.accepts w)) h
    fun _ _ hl => hl.isAccepting_eq
  rw [accepting?, List.find?_isSome, ← List.any_eq_true, ← List.any_eq_true, hany]

/-- The word that a scanner has read is its lexeme, in a comment the empty one. -/
theorem Tracks.exists_reads {cursor : Cursor} (h : Tracks rs p cursor s) :
    ∃ w, Reads rs w s ∧ s.lexeme = String.ofList w := by
  cases cursor with
  | word w => exact ⟨w, h.1.reads, h.1.lexeme⟩
  | comment t => exact ⟨[], h.1.reads, h.1.lexeme⟩

section

variable (h : Reads rs w s)
include h

theorem Reads.of_live {l : Lane} (hl : l ∈ s.lanes) (hlive : l.live = true) :
    l.matcher.text = String.ofList w ∧
      l.matcher.recognizer.automaton.run w = some l.matcher.state := by
  obtain ⟨x, -, hx⟩ := exists_related_left h l hl
  have hfollows : x.follows w := by rw [← hx.live, hlive]
  rw [hx.text, if_pos hfollows, hx.recognizer, hx.run_eq hlive]
  exact ⟨rfl, rfl⟩

theorem Reads.of_not_live {l : Lane} (hl : l ∈ s.lanes) (hlive : l.live = false) :
    l.matcher.text = "" ∧ l.matcher.state = l.matcher.recognizer.automaton.start ∧
      l.matcher.recognizer.automaton.run w = none := by
  obtain ⟨x, -, hx⟩ := exists_related_left h l hl
  have hrun := hx.run_eq_none hlive
  have hfollows : x.follows w = false := by rw [← hx.live, hlive]
  rw [hx.text, hfollows, hx.state, hrun, hx.recognizer]
  exact ⟨rfl, rfl, hrun⟩

/-- All lanes have a path over the empty word. -/
theorem Reads.live_of_nil (hw : w = []) : ∀ l ∈ s.lanes, l.live = true := by
  intro l hl
  obtain ⟨x, -, hx⟩ := exists_related_left h l hl
  rw [hx.live, hw]
  rfl

end

/-- **Lock step** holds of a scanner that tracks a cursor between two characters. That no recognizer
accepts the empty word keeps a scanner from waiting in front of a token. -/
theorem inLockStep_of_tracks {cursor : Cursor} (hrs : ∀ x ∈ rs, x.accepts [] = false)
    (h : Tracks rs p cursor s) (hvalid : cursor.Valid rs next) : s.InLockStep rs next := by
  obtain ⟨w, hreads, hlexeme⟩ := h.exists_reads
  have hword : s.lexeme.toList = w := by rw [hlexeme, String.toList_ofList]
  constructor
  case recognizers_eq => exact hreads.recognizers_eq
  case of_live =>
    intro l hl hlive
    rw [hword, hlexeme]
    exact hreads.of_live hl hlive
  case of_not_live =>
    intro l hl hlive
    rw [hword]
    exact hreads.of_not_live hl hlive
  case of_pending =>
    intro hne
    cases cursor with
    | comment t => exact absurd h.1.lexeme hne
    | word v =>
        have hv : v ≠ [] := by
          rintro rfl
          exact hne h.1.lexeme
        have hlive := h.1.reads.isLive_eq.trans (hvalid.path hv)
        exact ⟨List.any_eq_true.mp hlive, h.1.outside⟩
  case of_clear =>
    intro hempty
    exact hreads.live_of_nil (by rw [← hword, hempty]; rfl)
  case position_eq =>
    intro hout
    cases cursor with
    | comment t => exact absurd (hout.symm.trans h.2.1) Bool.false_ne_true
    | word v =>
        rw [h.1.start, h.1.lexeme, String.toList_ofList]
        exact h.2
  case defers =>
    intro hacc
    rw [hreads.exists_isAccepting_iff] at hacc
    obtain ⟨x, hx⟩ := Option.isSome_iff_exists.mp hacc
    obtain ⟨hmem, haccepts⟩ := accepting?_eq_some hx
    have hne : w ≠ [] := by
      rintro rfl
      rw [hrs x hmem] at haccepts
      contradiction
    cases cursor with
    | comment t =>
        obtain rfl : w = [] := by rw [← hword, h.1.lexeme]; rfl
        contradiction
    | word v =>
        obtain rfl : w = v := by rw [← hword, h.1.lexeme, String.toList_ofList]
        have hext := hvalid.defers hne hacc
        obtain ⟨c, rfl, hboth⟩ := (Option.any_eq_true _ _).mp hext
        obtain ⟨y, hy, hyboth⟩ := List.any_eq_true.mp hboth
        rw [Bool.and_eq_true] at hyboth
        refine ⟨c, rfl, (hreads.feed c).exists_isAccepting_iff.mpr ?_⟩
        rw [accepting?, List.find?_isSome]
        exact ⟨y, hy, hyboth.2⟩

end Scanner

/-- **The invariant of a scan**: whatever a scanner did before, a scan of a text comes to every
place in front of which no position overflows, and goes on from there with its lanes in lock
step. -/
theorem Registry.inLockStep_of_takes {r : Registry} (hr : ∀ x ∈ r.recognizers, x.IsBuilt)
    {s : Scanner} (hs : Scanner.Reached r s) {u v : List Char}
    (hpos : (Position.origin.advanceAll? u).isSome) :
    ∃ t, s.restart.takes u v.head? = .ok t ∧ s.restart.run (u ++ v) = t.run v ∧
      t.InLockStep r.recognizers v.head? := by
  obtain ⟨last, hlast⟩ := Option.isSome_iff_exists.mp hpos
  have hreads := Scanner.reads_restart s
  rw [hs.recognizers_eq] at hreads
  have htracks : Scanner.Tracks r.recognizers .origin (.word []) s.restart :=
    ⟨⟨hreads, rfl, rfl, rfl⟩, rfl⟩
  obtain ⟨t, ht⟩ := Scanner.exists_takes htracks hlast v.head?
  obtain ⟨-, q, cursor, -, htracks', hvalid, -, -⟩ :=
    Scanner.takes_reaches htracks (Cursor.pending_nil _) ht
  have hrun : s.restart.run (u ++ v) = t.run v := by rw [Scanner.run_append, ht]; rfl
  exact ⟨t, ht, hrun,
    Scanner.inLockStep_of_tracks (fun x hx => (hr x hx).not_isAccepting_start) htracks' hvalid⟩

/-- In front of the last character of `out = int` the keyword `in` waits, as the identifier goes on,
and the lanes of all other words have dropped out. -/
theorem inLockStep_of_takes_int :
    ∃ r t, Registry.builtin = .ok r ∧ (∀ x ∈ r.recognizers, x.IsBuilt) ∧
      (Position.origin.advanceAll? "out = in".toList).isSome ∧
      (Scanner.ofRegistry r).restart.takes "out = in".toList "t".toList.head? = .ok t ∧
      t.lexeme = "in" ∧ (∃ l ∈ t.lanes, l.isAccepting = true) ∧
      (∃ l ∈ t.lanes, l.live = false) ∧ t.InLockStep r.recognizers "t".toList.head? := by
  have hstop : (Registry.builtin.toOption.bind fun r =>
      ((Scanner.ofRegistry r).restart.takes "out = in".toList "t".toList.head?).toOption).map
        (fun t => (t.lexeme, t.lanes.any (·.isAccepting), t.lanes.any fun l => !l.live)) =
      some ("in", true, true) := by
    decide +kernel
  have hpos : (Position.origin.advanceAll? "out = in".toList).isSome := by decide
  obtain ⟨t, ht, hfacts⟩ := Option.map_eq_some_iff.mp hstop
  obtain ⟨r, hr, ht⟩ := Option.bind_eq_some_iff.mp ht
  rw [toOption_eq_some] at hr ht
  obtain ⟨hlexeme, hacc, hdead⟩ : t.lexeme = "in" ∧ t.lanes.any (·.isAccepting) = true ∧
      t.lanes.any (fun l => !l.live) = true := by
    simpa only [Prod.mk.injEq] using hfacts
  have hbuilt := (Registry.records_of_ofEntries hr).isBuilt
  obtain ⟨t', ht', -, hlock⟩ :=
    Registry.inLockStep_of_takes hbuilt Scanner.Reached.fresh (v := "t".toList) hpos
  obtain rfl : t = t' := Except.ok.inj (ht.symm.trans ht')
  refine ⟨r, t, hr, hbuilt, hpos, ht, hlexeme, List.any_eq_true.mp hacc, ?_, hlock⟩
  simpa only [Bool.not_eq_true'] using List.any_eq_true.mp hdead

end CircuitScan
