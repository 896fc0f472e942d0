import CircuitScan.Proofs.LockStep

/-!
# CircuitScan.Proofs.MatcherText

The text of a matcher and its state. A matcher is consistent if its text leads from the start of its
automaton to its state. All operations keep that, except for a rewind:

1. a return to the start clears the text, but the state before the last step is remembered;
2. a rewind then goes to that state, and the text stays empty.

`Sound` is what holds of a matcher in between, the remembered state included, and
`Sound.consistent_rewind_iff` says exactly which rewinds are harmful.

* `Recognizer.consistent_of_timely` — without a harmful rewind a matcher is consistent after each
  request, and all of its tokens are accepted;
* `not_consistent_rewind_reset` — a rewind behind a return to the start is harmful.
-/

namespace CircuitScan

/-- What can be asked of a matcher. -/
inductive Request where
  | consume (c : Char)
  | peek (c : Char)
  | accept (start stop : Position)
  | reset
  | rewind
deriving DecidableEq

namespace Matcher

/-- The matcher behind a request, and the token it has made. A matcher that is asked for a token and
does not accept stays as it is. -/
def respond (m : Matcher) : Request → Matcher × Option Token
  | .consume c => ((m.consume c).2, none)
  | .peek _ => (m, none)
  | .accept start stop =>
    match m.accept start stop with
    | .ok (token, m') => (m', some token)
    | .error _ => (m, none)
  | .reset => (m.reset, none)
  | .rewind => (m.rewind, none)

/-- The matcher behind a list of requests, and the tokens it has made. -/
def respondAll (m : Matcher) : List Request → Matcher × List Token
  | [] => (m, [])
  | q :: qs =>
    let (next, token?) := m.respond q
    let (last, tokens) := next.respondAll qs
    (last, token?.toList ++ tokens)

/-- The text leads from the start to the state. -/
def Consistent (m : Matcher) : Prop := m.recognizer.automaton.run m.text.toList = some m.state

/-- A rewind does no harm: the matcher has a text to go back over, or remembers the start. -/
def CanRewind (m : Matcher) : Prop :=
  m.text = "" → m.previous = m.recognizer.automaton.start

/-- No rewind among the requests is harmful when its turn comes. -/
def Timely (m : Matcher) : List Request → Prop
  | [] => True
  | q :: qs => (q = .rewind → m.CanRewind) ∧ (m.respond q).1.Timely qs

instance (m : Matcher) : Decidable m.Consistent :=
  inferInstanceAs (Decidable (_ = some m.state))

instance (m : Matcher) : Decidable m.CanRewind :=
  inferInstanceAs (Decidable (m.text = "" → _))

instance decidableTimely : (m : Matcher) → (qs : List Request) → Decidable (m.Timely qs)
  | _, [] => .isTrue trivial
  | m, q :: qs =>
    have := decidableTimely (m.respond q).1 qs
    inferInstanceAs (Decidable ((q = .rewind → m.CanRewind) ∧ _))

/-- A token is made in an accepting state only, and the matcher returns to the start. -/
theorem accept_eq_ok {m m' : Matcher} {start stop : Position} {token : Token}
    (h : m.accept start stop = .ok (token, m')) :
    m.isAccepting ∧ token = ⟨m.recognizer.kind, m.text, start, stop⟩ ∧ m' = m.reset := by
  unfold accept at h
  split at h
  · next hacc =>
      obtain ⟨rfl, rfl⟩ := Prod.mk.inj (Except.ok.inj h)
      exact ⟨hacc, rfl, rfl⟩
  · contradiction

/-! ## Between two requests -/

/-- The text leads to the state, and the remembered state is the one to go back to, unless the
matcher has returned to the start. -/
structure Sound (m : Matcher) : Prop where
  consistent : m.Consistent
  behind_step : m.rewindable → m.text ≠ "" ∧
    m.recognizer.automaton.run m.text.toList.dropLast = some m.previous
  behind_rewind : m.rewindable = false → m.text ≠ "" → m.previous = m.state

theorem sound_fresh (x : Recognizer) : Sound (fresh x) := ⟨rfl, nofun, fun _ h => absurd rfl h⟩

theorem sound_reset (m : Matcher) : Sound m.reset := ⟨rfl, nofun, fun _ h => absurd rfl h⟩

namespace Sound

variable {m : Matcher}

/-- A step goes from where the text led to where the longer text leads. -/
theorem consume (h : Sound m) (c : Char) : Sound (m.consume c).2 := by
  unfold Matcher.consume
  cases hnext : m.target? c with
  | none => exact sound_reset m
  | some next =>
      have hrun : m.recognizer.automaton.run (m.text.toList ++ [c]) = some next := by
        rw [Automaton.run_concat, show _ = some m.state from h.consistent]
        exact hnext
      have htext : (m.text.push c).toList = m.text.toList ++ [c] := String.toList_push ..
      have hne : m.text.push c ≠ "" := by
        intro heq
        rw [heq] at htext
        simp at htext
      constructor
      case consistent => simpa [Consistent, htext] using hrun
      case behind_step =>
        have hback : m.recognizer.automaton.run m.text.toList = some m.state := h.consistent
        simpa [htext, hne] using hback
      case behind_rewind => simp

/-- The text of a token leads to an accepting state. -/
theorem accept (h : Sound m) {start stop : Position} {token : Token} {m' : Matcher}
    (hacc : m.accept start stop = .ok (token, m')) :
    Sound m' ∧ m.recognizer.accepts token.text.toList := by
  obtain ⟨hstate, rfl, rfl⟩ := accept_eq_ok hacc
  have hrun : m.recognizer.automaton.run m.text.toList = some m.state := h.consistent
  have haccepts : m.recognizer.accepts m.text.toList := by
    unfold Recognizer.accepts Automaton.accepts
    rw [hrun]
    exact hstate
  exact ⟨sound_reset m, haccepts⟩

/-- A rewind keeps the matcher consistent exactly if it does no harm. -/
theorem consistent_rewind_iff (h : Sound m) : m.rewind.Consistent ↔ m.CanRewind := by
  unfold rewind CanRewind
  cases hstep : m.rewindable with
  | true =>
      obtain ⟨hne, hback⟩ := h.behind_step hstep
      simp [Consistent, hne, hback]
  | false =>
      by_cases htext : m.text = ""
      · simp [Consistent, htext, eq_comm]
      · have hsame := h.behind_rewind hstep htext
        have hrun : m.recognizer.automaton.run m.text.toList = some m.state := h.consistent
        simp [Consistent, htext, hsame, hrun]

theorem rewind (h : Sound m) (hm : m.CanRewind) : Sound m.rewind := by
  have hconsistent := h.consistent_rewind_iff.mpr hm
  constructor
  case consistent => exact hconsistent
  case behind_step =>
    intro hstep
    unfold Matcher.rewind at hstep
    split at hstep
    · contradiction
    · exact absurd hstep ‹_›
  case behind_rewind =>
    intro _ _
    unfold Matcher.rewind
    split <;> rfl

/-- **A request** keeps a sound matcher sound, and a token is accepted. -/
theorem respond (h : Sound m) {q : Request} (hq : q = .rewind → m.CanRewind) :
    Sound (m.respond q).1 ∧
      ∀ t ∈ (m.respond q).2, m.recognizer.accepts t.text.toList := by
  cases q with
  | consume c => exact ⟨h.consume c, nofun⟩
  | peek c => exact ⟨h, nofun⟩
  | reset => exact ⟨sound_reset m, nofun⟩
  | rewind => exact ⟨h.rewind (hq rfl), nofun⟩
  | accept start stop =>
      cases hacc : m.accept start stop with
      | error e =>
          have hrespond : m.respond (.accept start stop) = (m, none) := by
            simp only [Matcher.respond, hacc]
          rw [hrespond]
          exact ⟨h, nofun⟩
      | ok r =>
          obtain ⟨token, m'⟩ := r
          obtain ⟨hsound, haccepts⟩ := h.accept hacc
          have hrespond : m.respond (.accept start stop) = (m', some token) := by
            simp only [Matcher.respond, hacc]
          rw [hrespond]
          refine ⟨hsound, fun t ht => ?_⟩
          obtain rfl : token = t := Option.some.inj ht
          exact haccepts

end Sound

/-! ## Runs -/

/-- No request changes the recognizer. -/
theorem recognizer_respond (m : Matcher) (q : Request) :
    (m.respond q).1.recognizer = m.recognizer := by
  cases q with
  | consume c => exact recognizer_consume m c
  | peek c => rfl
  | reset => rfl
  | rewind =>
      simp only [respond, rewind]
      split <;> rfl
  | accept start stop =>
      simp only [respond]
      split
      · next hacc => rw [(accept_eq_ok hacc).2.2, recognizer_reset]
      · rfl

/-- **Requests** without a harmful rewind keep a sound matcher sound at each of them, and all of its
tokens are accepted. -/
theorem Sound.respondAll {m : Matcher} (h : Sound m) {qs : List Request} (hqs : m.Timely qs) :
    (∀ before after, qs = before ++ after → Sound (m.respondAll before).1) ∧
      ∀ t ∈ (m.respondAll qs).2, m.recognizer.accepts t.text.toList := by
  induction qs generalizing m with
  | nil =>
      constructor
      · intro before after heq
        obtain ⟨rfl, -⟩ := List.append_eq_nil_iff.mp heq.symm
        exact h
      · nofun
  | cons q qs ih =>
      obtain ⟨hsound, htoken⟩ := h.respond hqs.1
      obtain ⟨hsounds, htokens⟩ := ih hsound hqs.2
      constructor
      · intro before after heq
        cases before with
        | nil => exact h
        | cons q' before =>
            obtain ⟨rfl, htail⟩ := List.cons.inj heq
            exact hsounds before after htail
      · intro t ht
        rcases List.mem_append.mp ht with ht | ht
        · exact htoken t (Option.mem_toList.mp ht)
        · rw [← recognizer_respond m q]
          exact htokens t ht

end Matcher

/-- **Consistency**: whatever is asked of a matcher, as long as no rewind is harmful its text leads
to its state after each request, and the text of each of its tokens is accepted. -/
theorem Recognizer.consistent_of_timely (x : Recognizer) (qs : List Request)
    (h : (Matcher.fresh x).Timely qs) :
    (∀ before after, qs = before ++ after →
      ((Matcher.fresh x).respondAll before).1.Consistent) ∧
    ∀ t ∈ ((Matcher.fresh x).respondAll qs).2, x.accepts t.text.toList := by
  obtain ⟨hsounds, htokens⟩ := (Matcher.sound_fresh x).respondAll h
  exact ⟨fun before after heq => (hsounds before after heq).consistent, htokens⟩

/-- A recognizer of the word `in`. -/
def wordIn : Recognizer where
  name := "in"
  kind := .input
  automaton := ⟨(Table.empty.set 0 'i' 1).set 1 'n' 2, 0, [2]⟩

/-- Rewinds behind steps, behind a rewind and behind a token that a step has followed. -/
def timelyRequests : List Request :=
  [.consume 'i', .consume 'n', .rewind, .rewind, .consume 'n', .peek 'n', .accept ⟨1, 1⟩ ⟨1, 3⟩,
    .consume 'i', .rewind]

theorem consistent_of_timely_wordIn :
    (Matcher.fresh wordIn).Timely timelyRequests ∧
      (∀ before after, timelyRequests = before ++ after →
        ((Matcher.fresh wordIn).respondAll before).1.Consistent) ∧
      ∀ t ∈ ((Matcher.fresh wordIn).respondAll timelyRequests).2,
        wordIn.accepts t.text.toList :=
  ⟨by decide +kernel, wordIn.consistent_of_timely _ (by decide +kernel)⟩

/-- A rewind behind a return to the start goes to a state that no text has led to, and the next
token lacks its first character. -/
theorem not_consistent_rewind_reset :
    ¬((Matcher.fresh wordIn).respondAll
        [.consume 'i', .consume 'n', .reset, .rewind]).1.Consistent ∧
      ((Matcher.fresh wordIn).respondAll
        [.consume 'i', .consume 'n', .reset, .rewind, .consume 'n',
          .accept ⟨1, 1⟩ ⟨1, 3⟩]).2 = [⟨.input, "n", ⟨1, 1⟩, ⟨1, 3⟩⟩] ∧
      wordIn.accepts ['n'] = false := by
  decide +kernel

end CircuitScan
