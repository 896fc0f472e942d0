import CircuitScan.Pattern.Compile
import CircuitScan.Proofs.TableEdges
import Mathlib.Data.List.Forall2
import Mathlib.Data.List.Induction

/-!
# CircuitScan.Proofs.Pattern.Language

The words of a pattern, and the automaton that accepts them. A word belongs to a sequence of units
if it can be split along them: one character of the set for a plain unit, any number of them for a
starred one. Nothing is said about states or about which split is found.

While units are laid out, the frontier of the draft is where exactly the words of the units so far
lead (`Draft.LaysOut`). One more unit adds no path to the states that were there, and leads to its
own state exactly over the words that end in a part for that unit (`run_next`).

* `LaysOut.layOut` — laying out a unit keeps the invariant;
* `accepts_compileUnits_iff` — the automaton of a sequence of units accepts its words.
-/

namespace CircuitScan.Pattern

/-! ## Words -/

/-- A part of a word that one unit stands for. -/
def Unit.Holds (u : Unit) (p : List Char) : Prop :=
  if u.starred then ∀ c ∈ p, c ∈ u.characters else ∃ c ∈ u.characters, p = [c]

/-- The words that can be split into one part for each unit. -/
def Denotes (us : List Unit) (w : List Char) : Prop :=
  ∃ parts : List (List Char), w = parts.flatten ∧ List.Forall₂ Unit.Holds us parts

theorem denotes_nil {w : List Char} : Denotes [] w ↔ w = [] := by
  constructor
  · rintro ⟨parts, rfl, hparts⟩
    rw [List.forall₂_nil_left_iff] at hparts
    rw [hparts, List.flatten_nil]
  · rintro rfl
    exact ⟨[], rfl, .nil⟩

theorem denotes_cons {u : Unit} {us : List Unit} {w : List Char} :
    Denotes (u :: us) w ↔ ∃ p v, w = p ++ v ∧ u.Holds p ∧ Denotes us v := by
  constructor
  · rintro ⟨parts, rfl, hparts⟩
    obtain ⟨p, rest, hp, hrest, rfl⟩ := List.forall₂_cons_left_iff.mp hparts
    exact ⟨p, rest.flatten, rfl, hp, rest, rfl, hrest⟩
  · rintro ⟨p, v, rfl, hp, parts, rfl, hparts⟩
    exact ⟨p :: parts, rfl, .cons hp hparts⟩

/-- The last part of a word is that of the last unit. -/
theorem denotes_concat {us : List Unit} {u : Unit} {w : List Char} :
    Denotes (us ++ [u]) w ↔ ∃ v p, w = v ++ p ∧ Denotes us v ∧ u.Holds p := by
  induction us generalizing w with
  | nil => simp [denotes_cons, denotes_nil]
  | cons u' us ih =>
      rw [List.cons_append, denotes_cons]
      constructor
      · rintro ⟨p', v, rfl, hp', hv⟩
        obtain ⟨v', p, rfl, hv', hp⟩ := ih.mp hv
        exact ⟨p' ++ v', p, by simp, denotes_cons.mpr ⟨p', v', rfl, hp', hv'⟩, hp⟩
      · rintro ⟨v, p, rfl, hv, hp⟩
        obtain ⟨p', v', rfl, hp', hv'⟩ := denotes_cons.mp hv
        exact ⟨p', v' ++ p, by simp, hp', ih.mpr ⟨v', p, rfl, hv', hp⟩⟩

theorem holds_singleton {u : Unit} {c : Char} : u.Holds [c] ↔ c ∈ u.characters := by
  unfold Unit.Holds
  split <;> simp

/-- Only a starred unit has parts of more than one character. -/
theorem holds_concat {u : Unit} {p : List Char} {c : Char} (hp : p ≠ []) :
    u.Holds (p ++ [c]) ↔ u.starred ∧ u.Holds p ∧ c ∈ u.characters := by
  unfold Unit.Holds
  cases u.starred with
  | true => simp [or_imp, forall_and]
  | false => simp [List.append_eq_singleton_iff, hp]

theorem holds_nil {u : Unit} : u.Holds [] ↔ u.starred := by
  unfold Unit.Holds
  split <;> simp_all

/-! ## One more unit -/

/-- What a draft becomes: the unit's state, its edges, and the new frontier. -/
theorem layOut_eq_ok {d d' : Draft} {u : Unit} (h : d.layOut u = .ok d') :
    d'.next = d.next + 1 ∧
      d'.frontier = (if u.starred then d.frontier ++ [d.next] else [d.next]) ∧
      ∀ s c q, d'.table.get? s c = some q ↔ d.table.get? s c = some q ∨
        q = d.next ∧ c ∈ u.characters ∧ (s ∈ d.frontier ∨ u.starred ∧ s = d.next) := by
  unfold Draft.layOut at h
  obtain ⟨table, htable, hrest⟩ := bind_eq_ok.mp h
  cases hstar : u.starred with
  | false =>
      rw [hstar] at hrest
      cases hrest
      have hedges := fun s c q =>
        Table.get?_foldlM_addEdges_eq_some htable (s := s) (d := c) (q := q)
      exact ⟨rfl, rfl, by grind⟩
  | true =>
      rw [hstar, if_pos rfl] at hrest
      obtain ⟨looped, hlooped, hlast⟩ := bind_eq_ok.mp hrest
      cases hlast
      have hedges := fun s c q =>
        Table.get?_foldlM_addEdges_eq_some htable (s := s) (d := c) (q := q)
      have hloop := fun s c q => Table.get?_addEdges_eq_some hlooped (s := s) (d := c) (q := q)
      exact ⟨rfl, rfl, by grind⟩

/-- A draft of the units `us`: all its states are below the next one, and its frontier is where
the words of `us` lead. -/
structure Draft.LaysOut (us : List Unit) (d : Draft) : Prop where
  next_pos : 0 < d.next
  frontier_lt : ∀ s ∈ d.frontier, s < d.next
  source_lt : ∀ s c q, d.table.get? s c = some q → s < d.next
  target_lt : ∀ s c q, d.table.get? s c = some q → q < d.next
  language : ∀ w, (∃ q ∈ d.frontier, d.table.run 0 w = some q) ↔ Denotes us w

namespace Draft.LaysOut

variable {us : List Unit} {d d' : Draft} {u : Unit}

theorem empty : LaysOut [] {} := by
  have hget (s : Nat) (c : Char) : Table.empty.get? s c = none := Table.get?_empty s c
  constructor
  case next_pos => decide
  case frontier_lt => simp
  case source_lt => simp
  case target_lt => simp
  case language =>
    intro w
    rw [denotes_nil]
    cases w with
    | nil => simp
    | cons c w => simp [hget]

/-- A new unit adds no path to the states that were there. -/
theorem run_old (h : LaysOut us d) (hd : d.layOut u = .ok d') {w : List Char} {q : Nat}
    (hq : q < d.next) : d'.table.run 0 w = some q ↔ d.table.run 0 w = some q := by
  obtain ⟨-, -, hedges⟩ := layOut_eq_ok hd
  induction w using List.reverseRecOn generalizing q with
  | nil => simp
  | append_singleton w c ih =>
      rw [Table.run_concat_eq_some, Table.run_concat_eq_some]
      constructor
      · rintro ⟨m, hm, hmq⟩
        rcases (hedges m c q).mp hmq with hold | ⟨rfl, -, -⟩
        · exact ⟨m, (ih (h.source_lt m c q hold)).mp hm, hold⟩
        · exact absurd hq (Nat.lt_irrefl _)
      · rintro ⟨m, hm, hmq⟩
        exact ⟨m, (ih (h.source_lt m c q hmq)).mpr hm, (hedges m c q).mpr (.inl hmq)⟩

/-- A new unit's state is reached over the words that end in a part for the unit. -/
theorem run_next (h : LaysOut us d) (hd : d.layOut u = .ok d') {w : List Char} :
    d'.table.run 0 w = some d.next ↔
      ∃ v p, w = v ++ p ∧ p ≠ [] ∧ Denotes us v ∧ u.Holds p := by
  obtain ⟨-, -, hedges⟩ := layOut_eq_ok hd
  induction w using List.reverseRecOn with
  | nil =>
      have hpos := h.next_pos
      simp
      omega
  | append_singleton w c ih =>
      -- a part for the unit ends where its only character was read in the frontier, or where a
      -- shorter part was behind it and the unit loops
      rw [Table.run_concat_eq_some]
      constructor
      · rintro ⟨m, hm, hmq⟩
        rcases (hedges m c _).mp hmq with hold | ⟨-, hc, hfrontier | ⟨hstar, rfl⟩⟩
        · exact absurd (h.target_lt _ _ _ hold) (Nat.lt_irrefl _)
        · have hw := (h.language w).mp ⟨m, hfrontier, (h.run_old hd (h.frontier_lt m hfrontier)).mp hm⟩
          exact ⟨w, [c], rfl, by simp, hw, holds_singleton.mpr hc⟩
        · obtain ⟨v, p, rfl, hp, hv, hholds⟩ := ih.mp hm
          exact ⟨v, p ++ [c], by simp, by simp, hv, (holds_concat hp).mpr ⟨hstar, hholds, hc⟩⟩
      · rintro ⟨v, p, hw, hp, hv, hholds⟩
        obtain ⟨p, x, rfl⟩ := (List.eq_nil_or_concat p).resolve_left hp
        rw [List.concat_eq_append] at hw hholds
        rw [← List.append_assoc] at hw
        obtain ⟨rfl, hx⟩ := List.append_inj' hw rfl
        obtain rfl : c = x := by simpa using hx
        by_cases hp' : p = []
        · subst hp'
          rw [List.append_nil] at *
          obtain ⟨s, hs, hrun⟩ := (h.language v).mpr hv
          have hrun' := (h.run_old hd (h.frontier_lt s hs)).mpr hrun
          have hedge := (hedges s c _).mpr (.inr ⟨rfl, holds_singleton.mp hholds, .inl hs⟩)
          exact ⟨s, hrun', hedge⟩
        · obtain ⟨hstar, hholds, hc⟩ := (holds_concat hp').mp hholds
          have hrun := ih.mpr ⟨v, p, rfl, hp', hv, hholds⟩
          have hedge := (hedges d.next c _).mpr (.inr ⟨rfl, hc, .inr ⟨hstar, rfl⟩⟩)
          exact ⟨d.next, hrun, hedge⟩

/-- Where the words of the units so far lead, they still lead. -/
theorem frontier_old (h : LaysOut us d) (hd : d.layOut u = .ok d') (w : List Char) :
    (∃ q ∈ d.frontier, d'.table.run 0 w = some q) ↔ Denotes us w := by
  rw [← h.language]
  constructor
  · rintro ⟨q, hq, hrun⟩
    exact ⟨q, hq, (h.run_old hd (h.frontier_lt q hq)).mp hrun⟩
  · rintro ⟨q, hq, hrun⟩
    exact ⟨q, hq, (h.run_old hd (h.frontier_lt q hq)).mpr hrun⟩

/-- The frontier is where a part for the new unit ends, or where it may be left out. -/
theorem language_layOut (h : LaysOut us d) (hd : d.layOut u = .ok d') (w : List Char) :
    (∃ q ∈ d'.frontier, d'.table.run 0 w = some q) ↔ Denotes (us ++ [u]) w := by
  obtain ⟨-, hfrontier, -⟩ := layOut_eq_ok hd
  have hold := h.frontier_old hd w
  have hnew := h.run_next hd (w := w)
  rw [denotes_concat, hfrontier]
  by_cases hstar : u.starred
  · rw [if_pos hstar]
    constructor
    · rintro ⟨q, hq, hrun⟩
      rcases List.mem_append.mp hq with hq | hq
      · exact ⟨w, [], by simp, hold.mp ⟨q, hq, hrun⟩, holds_nil.mpr hstar⟩
      · obtain rfl := List.mem_singleton.mp hq
        obtain ⟨v, p, hw, -, hv, hp⟩ := hnew.mp hrun
        exact ⟨v, p, hw, hv, hp⟩
    · rintro ⟨v, p, hw, hv, hp⟩
      by_cases hne : p = []
      · subst hne
        rw [List.append_nil] at hw
        obtain ⟨q, hq, hrun⟩ := hold.mpr (hw ▸ hv)
        exact ⟨q, List.mem_append_left _ hq, hrun⟩
      · exact ⟨d.next, by simp, hnew.mpr ⟨v, p, hw, hne, hv, hp⟩⟩
  · rw [if_neg hstar]
    constructor
    · rintro ⟨q, hq, hrun⟩
      obtain rfl := List.mem_singleton.mp hq
      obtain ⟨v, p, hw, -, hv, hp⟩ := hnew.mp hrun
      exact ⟨v, p, hw, hv, hp⟩
    · rintro ⟨v, p, hw, hv, hp⟩
      have hne : p ≠ [] := fun hnil => hstar (holds_nil.mp (hnil ▸ hp))
      exact ⟨d.next, by simp, hnew.mpr ⟨v, p, hw, hne, hv, hp⟩⟩

/-- **Laying out a unit** keeps the invariant. -/
theorem layOut (h : LaysOut us d) (hd : d.layOut u = .ok d') : LaysOut (us ++ [u]) d' := by
  obtain ⟨hnext, hfrontier, hedges⟩ := layOut_eq_ok hd
  constructor
  case next_pos => omega
  case frontier_lt =>
    intro s hs
    rw [hfrontier] at hs
    have hold := h.frontier_lt s
    split at hs <;> grind
  case source_lt =>
    intro s c q hq
    have hold := h.source_lt s c q
    have hfrom := h.frontier_lt s
    grind
  case target_lt =>
    intro s c q hq
    have hold := h.target_lt s c q
    grind
  case language => exact h.language_layOut hd

/-- Paths end in states that are laid out. -/
theorem run_lt (h : LaysOut us d) {w : List Char} {q : Nat} (hrun : d.table.run 0 w = some q) :
    q < d.next := by
  rcases List.eq_nil_or_concat w with rfl | ⟨v, c, rfl⟩
  · have hpos := h.next_pos
    simp at hrun
    omega
  · rw [List.concat_eq_append, Table.run_concat_eq_some] at hrun
    obtain ⟨m, -, hget⟩ := hrun
    exact h.target_lt m c q hget

end Draft.LaysOut

/-! ## Whole patterns -/

/-- A draft that was laid out from the start satisfies the invariant. -/
theorem laysOut_of_foldlM {us : List Unit} {d : Draft}
    (h : us.foldlM Draft.layOut {} = .ok d) : d.LaysOut us := by
  induction us using List.reverseRecOn generalizing d with
  | nil =>
      cases h
      exact Draft.LaysOut.empty
  | append_singleton us u ih =>
      obtain ⟨m, hm, hd⟩ := foldlM_concat_eq_ok.mp h
      exact (ih hm).layOut hd

/-- The automaton of a sequence of units accepts the words of the units. -/
theorem accepts_compileUnits_iff {us : List Unit} {a : Automaton} (h : compileUnits us = .ok a)
    (w : List Char) : a.accepts w ↔ Denotes us w := by
  obtain ⟨d, hd, hpure⟩ := bind_eq_ok.mp h
  cases hpure
  rw [← (laysOut_of_foldlM hd).language]
  simp [Automaton.accepts, Automaton.run, Draft.toAutomaton, Option.any_eq_true, and_comm]

theorem exists_holds {u : Unit} (hu : u.characters ≠ []) : ∃ p, u.Holds p := by
  obtain ⟨c, hc⟩ := List.exists_mem_of_ne_nil _ hu
  exact ⟨[c], holds_singleton.mpr hc⟩

/-- While no unit is without characters, every path of a draft goes on to a word. -/
theorem exists_denotes_append {us : List Unit} {d : Draft} (hd : us.foldlM Draft.layOut {} = .ok d)
    (hus : ∀ u ∈ us, u.characters ≠ []) {w : List Char} {q : Nat}
    (hrun : d.table.run 0 w = some q) : ∃ v, Denotes us (w ++ v) := by
  induction us using List.reverseRecOn generalizing d q with
  | nil =>
      cases hd
      have hlt := Draft.LaysOut.empty.run_lt hrun
      have hfrontier : q ∈ ({} : Draft).frontier := by
        simpa using hlt
      have hw : Denotes [] w := (Draft.LaysOut.empty.language w).mp ⟨q, hfrontier, hrun⟩
      exact ⟨[], by rwa [List.append_nil]⟩
  | append_singleton us u ih =>
      obtain ⟨m, hm, hlayOut⟩ := foldlM_concat_eq_ok.mp hd
      have hold := laysOut_of_foldlM hm
      have hlt := (laysOut_of_foldlM hd).run_lt hrun
      rw [(layOut_eq_ok hlayOut).1] at hlt
      rcases Nat.lt_or_eq_of_le (Nat.le_of_lt_succ hlt) with hq | rfl
      · have hrun' := (hold.run_old hlayOut hq).mp hrun
        obtain ⟨v, hv⟩ := ih hm (fun u hu => hus u (List.mem_append_left _ hu)) hrun'
        obtain ⟨p, hp⟩ := exists_holds (hus u (by simp))
        exact ⟨v ++ p, denotes_concat.mpr ⟨w ++ v, p, by simp, hv, hp⟩⟩
      · obtain ⟨v, p, hw, -, hv, hp⟩ := (hold.run_next hlayOut).mp hrun
        exact ⟨[], denotes_concat.mpr ⟨v, p, by simpa using hw, hv, hp⟩⟩

/-- The automaton of units that all have characters follows only what words begin with. -/
theorem exists_denotes_of_follows {us : List Unit} {a : Automaton} (h : compileUnits us = .ok a)
    (hus : ∀ u ∈ us, u.characters ≠ []) {w : List Char} (hw : a.follows w) :
    ∃ v, Denotes us (w ++ v) := by
  obtain ⟨d, hd, hpure⟩ := bind_eq_ok.mp h
  cases hpure
  obtain ⟨q, hrun⟩ := Option.isSome_iff_exists.mp hw
  exact exists_denotes_append hd hus hrun

/-- **Meaning of patterns**: the automaton of a pattern accepts exactly the words that can be split
along the units of the pattern. -/
theorem accepts_compile_iff {pattern : String} {a : Automaton} (h : compile pattern = .ok a) :
    ∃ us, parse pattern = .ok us ∧ ∀ w, a.accepts w ↔ Denotes us w := by
  obtain ⟨us, hparse, hunits⟩ := bind_eq_ok.mp h
  exact ⟨us, hparse, accepts_compileUnits_iff hunits⟩

theorem accepts_compile_starredClass :
    ∃ a, compile "[a|b]*c" = .ok a ∧
      ∃ us, parse "[a|b]*c" = .ok us ∧ ∀ w, a.accepts w ↔ Denotes us w := by
  have hok : (compile "[a|b]*c").isOk := by decide +kernel
  cases h : compile "[a|b]*c" with
  | error e =>
      rw [h] at hok
      contradiction
  | ok a => exact ⟨a, rfl, accepts_compile_iff h⟩

end CircuitScan.Pattern
