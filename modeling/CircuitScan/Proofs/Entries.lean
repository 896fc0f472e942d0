import CircuitScan.Proofs.Pattern.Literal
import CircuitScan.Registry.Entry

/-!
# CircuitScan.Proofs.Entries

What a registry that could be built consists of: one recognizer for each entry, in order
(`forall₂_builds`). A recognizer spells a set of words if it accepts exactly these and follows
nothing that none of them begins with.
-/

namespace CircuitScan

namespace Recognizer

variable {name : String} {kind : Kind} {x : Recognizer}

theorem ofAutomaton_eq_ok {a : Automaton} (h : ofAutomaton name kind a = .ok x) :
    x = { name, kind, automaton := a } := by
  unfold ofAutomaton at h
  split at h
  · contradiction
  · exact (Except.ok.inj h).symm

theorem ofPattern_eq_ok {pattern : String} (h : ofPattern name kind pattern = .ok x) :
    ∃ a, Pattern.compile pattern = .ok a ∧ x = { name, kind, automaton := a } := by
  obtain ⟨a, ha, hx⟩ := bind_eq_ok.mp h
  exact ⟨a, mapError_eq_ok.mp ha, ofAutomaton_eq_ok hx⟩

theorem ofGraph_eq_ok {start : Nat} {accepting : List Nat} {graph : Graph}
    (h : ofGraph name kind start accepting graph = .ok x) :
    ∃ table, graph.toTable = .ok table ∧
      x = { name, kind, automaton := { table, start, accepting } } := by
  obtain ⟨table, htable, hx⟩ := bind_eq_ok.mp h
  exact ⟨table, mapError_eq_ok.mp htable, ofAutomaton_eq_ok hx⟩

/-- A recognizer of the kind that accepts exactly these words, and follows only what they begin
with. -/
structure Spells (x : Recognizer) (kind : Kind) (word : List Char → Bool) : Prop where
  kind_eq : x.kind = kind
  accepts_eq : ∀ w, x.accepts w = word w
  exists_word : ∀ w, x.follows w → ∃ v, word (w ++ v)

/-- A recognizer of units, none without characters, spells the words of the units. -/
theorem spells_of_parse {pattern : String} {us : List Pattern.Unit} {a : Automaton}
    {word : List Char → Bool} (ha : Pattern.compile pattern = .ok a)
    (hparse : Pattern.parse pattern = .ok us) (hus : ∀ u ∈ us, u.characters ≠ [])
    (hword : ∀ w, Pattern.Denotes us w ↔ word w) (hx : x.automaton = a) :
    x.Spells x.kind word := by
  obtain ⟨us', hparse', hunits⟩ := bind_eq_ok.mp ha
  obtain rfl : us = us' := by
    rw [hparse] at hparse'
    exact Except.ok.inj hparse'
  subst hx
  constructor
  case kind_eq => rfl
  case accepts_eq =>
    intro w
    rw [Bool.eq_iff_iff, ← hword]
    exact Pattern.accepts_compileUnits_iff hunits w
  case exists_word =>
    intro w hw
    obtain ⟨v, hv⟩ := Pattern.exists_denotes_of_follows hunits hus hw
    exact ⟨v, (hword _).mp hv⟩

/-- A recognizer that accepts wherever it has left the start spells what it follows. -/
theorem spells_of_run {x : Recognizer} {word : List Char → Bool}
    (hstart : x.accepts [] = false) (hnil : word [] = false) (hsome : ∃ v, word v)
    (haccepts : ∀ c v q, x.automaton.run (c :: v) = some q → q ∈ x.automaton.accepting)
    (hrun : ∀ c v, (∃ q, x.automaton.run (c :: v) = some q) ↔ word (c :: v)) :
    x.Spells x.kind word := by
  have haccept (c : Char) (v : List Char) : x.accepts (c :: v) = word (c :: v) := by
    rw [Bool.eq_iff_iff, ← hrun]
    unfold accepts Automaton.accepts
    rw [Option.any_eq_true]
    constructor
    · rintro ⟨q, hq, -⟩
      exact ⟨q, hq⟩
    · rintro ⟨q, hq⟩
      exact ⟨q, hq, (Automaton.isAccepting_iff _ _).mpr (haccepts c v q hq)⟩
  constructor
  case kind_eq => rfl
  case accepts_eq =>
    intro w
    cases w with
    | nil => rw [hstart, hnil]
    | cons c v => exact haccept c v
  case exists_word =>
    intro w hw
    cases w with
    | nil => exact hsome
    | cons c v =>
        have hword := (hrun c v).mp (Option.isSome_iff_exists.mp hw)
        exact ⟨[], by rwa [List.append_nil]⟩

end Recognizer

/-- A recognizer is that of an entry, at some rank. -/
def Entry.Builds (e : Entry) (x : Recognizer) : Prop :=
  ∃ y n, e.build = .ok y ∧ x = { y with priority := n }

/-- A registry that is built from entries has their recognizers in order. -/
theorem Registry.forall₂_builds {es : List Entry} {r : Registry} (h : ofEntries es = .ok r) :
    List.Forall₂ Entry.Builds es r.recognizers := by
  unfold ofEntries at h
  induction es using List.reverseRecOn generalizing r with
  | nil =>
      cases h
      exact .nil
  | append_singleton es e ih =>
      obtain ⟨m, hm, hadd⟩ := foldlM_concat_eq_ok.mp h
      obtain ⟨x, hx, hregister⟩ := bind_eq_ok.mp hadd
      rw [recognizers_register hregister]
      exact List.rel_append (ih hm) (.cons ⟨x, m.size, hx, rfl⟩ .nil)

end CircuitScan
