import CircuitScan.Proofs.Entries
import CircuitScan.Proofs.GraphFaults

/-!
# CircuitScan.Proofs.Pattern.Clash

Which patterns make recognizers. A starred unit may be left out, so where it stands the next
character may also be for a unit further on. If both units have the character, an automaton would
have to guess, and the pattern is refused; how far apart the two are does not matter as long as all
units between them may be left out, too.

While units are laid out, the edges that leave the frontier are those of the starred units at the
end of the draft (`Draft.Opens`). A unit can be laid out exactly if it takes none of their
characters, as every edge that is there leads to an earlier state.

* `exists_foldlM_layOut_iff` — units can be laid out if no two of them clash;
* `verdict_of_parse` — what comes of a pattern.
-/

namespace CircuitScan

namespace Table

variable {t : Table} {cs : List Char} {target : Nat}

/-- Edges can be added unless one of them would be a second target. -/
theorem exists_addEdges_iff {s : Nat} :
    (∃ u, t.addEdges s cs target = .ok u) ↔ ∀ c ∈ cs, ∀ q, t.get? s c = some q → q = target := by
  constructor
  · rintro ⟨u, hu⟩ c hc q hq
    have hold := (get?_addEdges_eq_some hu).mpr (.inl hq)
    have hnew := (get?_addEdges_eq_some hu).mpr (.inr ⟨rfl, hc, rfl⟩)
    exact Option.some.inj (hold.symm.trans hnew)
  · intro hfree
    cases hadd : t.addEdges s cs target with
    | ok u => exact ⟨u, rfl⟩
    | error e =>
        obtain ⟨c, hc, existing, hget, hne, -⟩ := addEdges_eq_error hadd
        exact absurd (hfree c hc existing hget) hne

/-- So can edges from each of a list of states. -/
theorem exists_foldlM_addEdges_iff {states : List Nat} :
    (∃ u, states.foldlM (fun t s => t.addEdges s cs target) t = .ok u) ↔
      ∀ s ∈ states, ∀ c ∈ cs, ∀ q, t.get? s c = some q → q = target := by
  constructor
  · rintro ⟨u, hu⟩ s hs c hc q hq
    have hold := (get?_foldlM_addEdges_eq_some hu).mpr (.inl hq)
    have hnew := (get?_foldlM_addEdges_eq_some hu).mpr (.inr ⟨hs, hc, rfl⟩)
    exact Option.some.inj (hold.symm.trans hnew)
  · intro hfree
    induction states generalizing t with
    | nil => exact ⟨t, rfl⟩
    | cons s states ih =>
        obtain ⟨hs, hstates⟩ := List.forall_mem_cons.mp hfree
        obtain ⟨v, hv⟩ := exists_addEdges_iff.mpr hs
        have hrest : ∀ s' ∈ states, ∀ c ∈ cs, ∀ q, v.get? s' c = some q → q = target := by
          intro s' hs' c hc q hq
          obtain hold | ⟨-, -, hnew⟩ := (get?_addEdges_eq_some hv).mp hq
          · exact hstates s' hs' c hc q hold
          · exact hnew
        obtain ⟨u, hu⟩ := ih hrest
        exact ⟨u, foldlM_cons_eq_ok.mpr ⟨v, hv, hu⟩⟩

end Table

namespace Pattern

/-! ## Units that clash -/

/-- Two units share a character, and the first of them and all units between them are starred. -/
def Clashes (us : List Unit) : Prop :=
  ∃ front u mid v back, us = front ++ u :: (mid ++ v :: back) ∧
    u.starred ∧ (∀ w ∈ mid, w.starred) ∧ ∃ c ∈ u.characters, c ∈ v.characters

/-- A starred unit that has only starred units behind it. -/
def Trails (us : List Unit) (u : Unit) : Prop :=
  ∃ front mid, us = front ++ u :: mid ∧ u.starred ∧ ∀ w ∈ mid, w.starred

variable {us : List Unit} {u v : Unit}

theorem not_trails_nil : ¬Trails [] u := by
  rintro ⟨front, mid, h, -⟩
  simp at h

/-- Only behind a starred unit is there anything to trail. -/
theorem trails_concat : Trails (us ++ [v]) u ↔ v.starred ∧ (Trails us u ∨ u = v) := by
  constructor
  · rintro ⟨front, mid, hus, hu, hmid⟩
    rcases List.eq_nil_or_concat mid with rfl | ⟨mid, w, rfl⟩
    · obtain ⟨-, hv⟩ := List.append_inj' hus rfl
      obtain rfl : v = u := by simpa using hv
      exact ⟨hu, .inr rfl⟩
    · rw [List.concat_eq_append] at hus hmid
      rw [← List.cons_append, ← List.append_assoc] at hus
      obtain ⟨rfl, hv⟩ := List.append_inj' hus rfl
      obtain rfl : v = w := by simpa using hv
      have hmid' : ∀ w ∈ mid, w.starred := fun w hw => hmid w (by simp [hw])
      exact ⟨hmid v (by simp), .inl ⟨front, mid, rfl, hu, hmid'⟩⟩
  · rintro ⟨hv, ⟨front, mid, rfl, hu, hmid⟩ | rfl⟩
    · refine ⟨front, mid ++ [v], by simp, hu, ?_⟩
      intro w hw
      rcases List.mem_append.mp hw with hw | hw
      · exact hmid w hw
      · rwa [List.mem_singleton.mp hw]
    · exact ⟨us, [], rfl, hv, by simp⟩

theorem not_clashes_nil : ¬Clashes [] := by
  rintro ⟨front, u, mid, v, back, h, -⟩
  simp at h

/-- One more unit clashes with the starred units before it, or not at all. -/
theorem clashes_concat :
    Clashes (us ++ [v]) ↔
      Clashes us ∨ ∃ u, Trails us u ∧ ∃ c ∈ u.characters, c ∈ v.characters := by
  constructor
  · rintro ⟨front, u, mid, v', back, hus, hu, hmid, hshare⟩
    rcases List.eq_nil_or_concat back with rfl | ⟨back, w, rfl⟩
    · rw [← List.cons_append, ← List.append_assoc] at hus
      obtain ⟨rfl, hv⟩ := List.append_inj' hus rfl
      obtain rfl : v = v' := by simpa using hv
      exact .inr ⟨u, ⟨front, mid, rfl, hu, hmid⟩, hshare⟩
    · have hus' : us ++ [v] = (front ++ u :: (mid ++ v' :: back)) ++ [w] := by
        rw [hus]
        simp
      obtain ⟨rfl, -⟩ := List.append_inj' hus' rfl
      exact .inl ⟨front, u, mid, v', back, rfl, hu, hmid, hshare⟩
  · rintro (⟨front, u, mid, v', back, rfl, hu, hmid, hshare⟩ |
      ⟨u, ⟨front, mid, rfl, hu, hmid⟩, hshare⟩)
    · exact ⟨front, u, mid, v', back ++ [v], by simp, hu, hmid, hshare⟩
    · exact ⟨front, u, mid, v, [], by simp, hu, hmid, hshare⟩

/-- Words can be empty if every unit may be left out. -/
theorem denotes_nil_iff : Denotes us [] ↔ ∀ u ∈ us, u.starred := by
  induction us with
  | nil => simp [denotes_nil]
  | cons u us ih =>
      rw [denotes_cons, List.forall_mem_cons, ← ih, ← holds_nil]
      constructor
      · rintro ⟨p, v, hw, hp, hv⟩
        obtain ⟨rfl, rfl⟩ := List.append_eq_nil_iff.mp hw.symm
        exact ⟨hp, hv⟩
      · rintro ⟨hp, hv⟩
        exact ⟨[], [], rfl, hp, hv⟩

/-! ## Drafts -/

namespace Draft

variable {d d' : Draft}

/-- A unit is laid out, or the draft has an edge that it would need for itself. -/
theorem LaysOut.exists_layOut_iff (h : LaysOut us d) :
    (∃ d', d.layOut u = .ok d') ↔
      ∀ s ∈ d.frontier, ∀ c ∈ u.characters, d.table.get? s c = none := by
  constructor
  · rintro ⟨d', hd⟩ s hs c hc
    obtain ⟨-, -, hedges⟩ := layOut_eq_ok hd
    rw [Option.eq_none_iff_forall_ne_some]
    intro q hq
    have hnew := (hedges s c d.next).mpr (.inr ⟨rfl, hc, .inl hs⟩)
    have hold := (hedges s c q).mpr (.inl hq)
    have hlt := h.target_lt s c q hq
    rw [hnew] at hold
    exact absurd (Option.some.inj hold) (Nat.ne_of_gt hlt)
  · intro hfree
    have hfresh : ∀ s ∈ d.frontier, ∀ c ∈ u.characters, ∀ q,
        d.table.get? s c = some q → q = d.next := by
      intro s hs c hc q hq
      rw [hfree s hs c hc] at hq
      contradiction
    obtain ⟨table, htable⟩ := Table.exists_foldlM_addEdges_iff.mpr hfresh
    have hloop : ∀ c ∈ u.characters, ∀ q, table.get? d.next c = some q → q = d.next := by
      intro c _ q hq
      obtain hold | ⟨-, -, hnew⟩ := (Table.get?_foldlM_addEdges_eq_some htable).mp hq
      · exact absurd (h.source_lt d.next c q hold) (Nat.lt_irrefl _)
      · exact hnew
    obtain ⟨looped, hlooped⟩ := Table.exists_addEdges_iff.mpr hloop
    unfold Draft.layOut
    cases u.starred with
    | false => exact ⟨_, bind_eq_ok.mpr ⟨table, htable, rfl⟩⟩
    | true => exact ⟨_, bind_eq_ok.mpr ⟨table, htable, bind_eq_ok.mpr ⟨looped, hlooped, rfl⟩⟩⟩

/-- What is reported of a unit is a conflict. -/
theorem conflict_of_layOut {e : LoadError} (h : d.layOut u = .error e) :
    ∃ s c q q', e = .conflict s c q q' := by
  have hedges {t : Table} {s q : Nat} {cs : List Char} (hadd : t.addEdges s cs q = .error e) :
      ∃ s c q q', e = .conflict s c q q' := by
    obtain ⟨c, -, existing, -, -, he⟩ := Table.addEdges_eq_error hadd
    exact ⟨_, _, _, _, he⟩
  obtain hfrontier | ⟨table, -, hloop⟩ := bind_eq_error.mp h
  · obtain ⟨t, s, -, hadd⟩ := exists_of_foldlM_eq_error hfrontier
    exact hedges hadd
  · split at hloop
    · obtain hadd | ⟨looped, -, hpure⟩ := bind_eq_error.mp hloop
      · exact hedges hadd
      · cases hpure
    · cases hloop

/-- A state goes on over what it went on over, and over the characters of a unit that is laid out
from it. -/
theorem isSome_get?_layOut (hd : d.layOut u = .ok d') {s : Nat} {c : Char} :
    (d'.table.get? s c).isSome ↔ (d.table.get? s c).isSome ∨
      c ∈ u.characters ∧ (s ∈ d.frontier ∨ u.starred ∧ s = d.next) := by
  obtain ⟨-, -, hedges⟩ := layOut_eq_ok hd
  simp only [Option.isSome_iff_exists, hedges, exists_or, exists_eq_left]

/-- A draft of the units `us` with one state for each of them behind the start. It goes on from its
frontier over the characters of the starred units at its end. -/
structure Opens (us : List Unit) (d : Draft) : Prop where
  laysOut : d.LaysOut us
  next_eq : d.next = us.length + 1
  leaves_iff : ∀ c, (∃ s ∈ d.frontier, (d.table.get? s c).isSome) ↔
    ∃ u, Trails us u ∧ c ∈ u.characters

namespace Opens

theorem empty : Opens [] {} := by
  have hget (s : Nat) (c : Char) : Table.empty.get? s c = none := Table.get?_empty s c
  constructor
  case laysOut => exact LaysOut.empty
  case next_eq => rfl
  case leaves_iff => simp [hget, not_trails_nil]

/-- Behind a plain unit the frontier is new; behind a starred one, the new state and the states
before it go on over its characters. -/
theorem leaves_layOut_iff (h : Opens us d) (hd : d.layOut u = .ok d') (c : Char) :
    (∃ s ∈ d'.frontier, (d'.table.get? s c).isSome) ↔
      ∃ u', Trails (us ++ [u]) u' ∧ c ∈ u'.characters := by
  obtain ⟨-, hfrontier, -⟩ := layOut_eq_ok hd
  have hfresh : d.next ∉ d.frontier := fun hs => Nat.lt_irrefl _ (h.laysOut.frontier_lt _ hs)
  have hnone : d.table.get? d.next c = none := by
    rw [Option.eq_none_iff_forall_ne_some]
    exact fun q hq => Nat.lt_irrefl _ (h.laysOut.source_lt _ c q hq)
  simp only [isSome_get?_layOut hd, trails_concat, hfrontier]
  cases hstar : u.starred with
  | false => simp [hfresh, hnone]
  | true =>
      constructor
      · rintro ⟨s, hs, hsome | ⟨hc, -⟩⟩
        · have hs' : s ∈ d.frontier := by
            rcases List.mem_append.mp hs with hs | hs
            · exact hs
            · rw [List.mem_singleton.mp hs, hnone] at hsome
              contradiction
          obtain ⟨u', hu', hc⟩ := (h.leaves_iff c).mp ⟨s, hs', hsome⟩
          exact ⟨u', ⟨rfl, .inl hu'⟩, hc⟩
        · exact ⟨u, ⟨rfl, .inr rfl⟩, hc⟩
      · rintro ⟨u', ⟨-, hu' | rfl⟩, hc⟩
        · obtain ⟨s, hs, hsome⟩ := (h.leaves_iff c).mpr ⟨u', hu', hc⟩
          exact ⟨s, List.mem_append_left _ hs, .inl hsome⟩
        · exact ⟨d.next, by simp, .inr ⟨hc, .inr ⟨rfl, rfl⟩⟩⟩

/-- **Laying out a unit** keeps the invariant. -/
theorem layOut (h : Opens us d) (hd : d.layOut u = .ok d') : Opens (us ++ [u]) d' := by
  constructor
  case laysOut => exact h.laysOut.layOut hd
  case next_eq =>
    rw [(layOut_eq_ok hd).1, h.next_eq, List.length_append, List.length_singleton]
  case leaves_iff => exact h.leaves_layOut_iff hd

/-- A unit is refused exactly if it clashes with the units before it. -/
theorem exists_layOut_iff (h : Opens us d) :
    (∃ d', d.layOut v = .ok d') ↔ ¬∃ u, Trails us u ∧ ∃ c ∈ u.characters, c ∈ v.characters := by
  rw [h.laysOut.exists_layOut_iff]
  constructor
  · rintro hfree ⟨u, hu, c, hcu, hcv⟩
    obtain ⟨s, hs, hsome⟩ := (h.leaves_iff c).mpr ⟨u, hu, hcu⟩
    rw [hfree s hs c hcv] at hsome
    contradiction
  · intro hclash s hs c hc
    rw [← Option.not_isSome_iff_eq_none]
    intro hsome
    obtain ⟨u, hu, hcu⟩ := (h.leaves_iff c).mp ⟨s, hs, hsome⟩
    exact hclash ⟨u, hu, c, hcu, hc⟩

end Opens

end Draft

/-! ## Whole patterns -/

theorem opens_of_foldlM {d : Draft} (h : us.foldlM Draft.layOut {} = .ok d) : d.Opens us := by
  induction us using List.reverseRecOn generalizing d with
  | nil =>
      cases h
      exact Draft.Opens.empty
  | append_singleton us u ih =>
      obtain ⟨m, hm, hd⟩ := foldlM_concat_eq_ok.mp h
      exact (ih hm).layOut hd

/-- Units can be laid out if no two of them clash. -/
theorem exists_foldlM_layOut_iff : (∃ d, us.foldlM Draft.layOut {} = .ok d) ↔ ¬Clashes us := by
  induction us using List.reverseRecOn with
  | nil => exact iff_of_true ⟨{}, rfl⟩ not_clashes_nil
  | append_singleton us u ih =>
      rw [clashes_concat, not_or, ← ih]
      constructor
      · rintro ⟨d, hd⟩
        obtain ⟨m, hm, hu⟩ := foldlM_concat_eq_ok.mp hd
        exact ⟨⟨m, hm⟩, (opens_of_foldlM hm).exists_layOut_iff.mp ⟨d, hu⟩⟩
      · rintro ⟨⟨m, hm⟩, hfree⟩
        obtain ⟨d, hd⟩ := (opens_of_foldlM hm).exists_layOut_iff.mpr hfree
        exact ⟨d, foldlM_concat_eq_ok.mpr ⟨m, hm, hd⟩⟩

theorem exists_compileUnits_iff : (∃ a, compileUnits us = .ok a) ↔ ¬Clashes us := by
  rw [← exists_foldlM_layOut_iff]
  constructor
  · rintro ⟨a, ha⟩
    obtain ⟨d, hd, -⟩ := bind_eq_ok.mp ha
    exact ⟨d, hd⟩
  · rintro ⟨d, hd⟩
    exact ⟨d.toAutomaton, bind_eq_ok.mpr ⟨d, hd, rfl⟩⟩

theorem conflict_of_compileUnits {e : LoadError} (h : compileUnits us = .error e) :
    ∃ s c q q', e = .conflict s c q q' := by
  obtain hlayout | ⟨d, -, hpure⟩ := bind_eq_error.mp h
  · obtain ⟨d, u, -, hu⟩ := exists_of_foldlM_eq_error hlayout
    exact Draft.conflict_of_layOut hu
  · cases hpure

/-- Units that clash are reported as a conflict. -/
theorem conflict_compileUnits_iff :
    (∃ s c q q', compileUnits us = .error (.conflict s c q q')) ↔ Clashes us := by
  rw [← not_iff_not, ← exists_compileUnits_iff]
  cases h : compileUnits us with
  | ok a => simp
  | error e =>
      obtain ⟨s, c, q, q', rfl⟩ := conflict_of_compileUnits h
      simp

/-- The edges and the accepting states are among the states `0` to `n`. -/
def Within (a : Automaton) (n : Nat) : Prop :=
  (∀ s c q, a.table.get? s c = some q → s ≤ n ∧ q ≤ n) ∧ ∀ s ∈ a.accepting, s ≤ n

theorem within_of_compileUnits {a : Automaton} (h : compileUnits us = .ok a) :
    a.start = 0 ∧ Within a us.length := by
  obtain ⟨d, hd, hpure⟩ := bind_eq_ok.mp h
  cases hpure
  have hopens := opens_of_foldlM hd
  have hle {s : Nat} (hs : s < d.next) : s ≤ us.length := by
    rw [hopens.next_eq] at hs
    exact Nat.le_of_lt_succ hs
  refine ⟨rfl, fun s c q hq => ⟨?_, ?_⟩, fun s hs => ?_⟩
  · exact hle (hopens.laysOut.source_lt s c q hq)
  · exact hle (hopens.laysOut.target_lt s c q hq)
  · exact hle (hopens.laysOut.frontier_lt s hs)

/-- The start is accepting if every unit may be left out. -/
theorem isAccepting_start_iff {a : Automaton} (h : compileUnits us = .ok a) :
    a.isAccepting a.start ↔ ∀ u ∈ us, u.starred := by
  rw [← Automaton.accepts_nil, ← denotes_nil_iff]
  exact accepts_compileUnits_iff h []

/-- The language of a pattern: the words that its automaton accepts. A pattern that is refused has
none. Where there is an automaton, these are the words of the units. -/
def InLanguage (pattern : String) (w : List Char) : Prop :=
  ∃ a, compile pattern = .ok a ∧ a.accepts w

/-- What comes of a pattern with the units `us`: of its automaton, and of a recognizer for it. -/
structure Verdict (us : List Unit) (pattern : String) : Prop where
  /-- it is refused with a conflict exactly if two of its units clash -/
  conflict_iff : (∃ s c q q', compile pattern = .error (.conflict s c q q')) ↔ Clashes us
  /-- else it has an automaton, with one state for each unit behind the start -/
  automaton : ¬Clashes us → ∃ a, compile pattern = .ok a ∧ a.start = 0 ∧ Within a us.length
  /-- the conflict gets the name of the recognizer -/
  clash_iff : ∀ name kind, (∃ s c q q', Recognizer.ofPattern name kind pattern =
    .error (.inRecognizer name (.conflict s c q q'))) ↔ Clashes us
  /-- a recognizer is refused as nullable exactly if all units may be left out and none clash -/
  nullable_iff : ∀ name kind, Recognizer.ofPattern name kind pattern = .error (.nullable name) ↔
    ¬Clashes us ∧ ∀ u ∈ us, u.starred
  /-- that is, if the empty word is in the language of the pattern -/
  nullable_iff_inLanguage : ∀ name kind,
    Recognizer.ofPattern name kind pattern = .error (.nullable name) ↔ InLanguage pattern []
  /-- and where none clash, if the empty word can be split along the units -/
  nullable_iff_denotes : ¬Clashes us → ∀ name kind,
    (Recognizer.ofPattern name kind pattern = .error (.nullable name) ↔ Denotes us [])
  /-- in all other cases there is a recognizer -/
  recognizer_iff : ∀ name kind, (∃ x, Recognizer.ofPattern name kind pattern = .ok x) ↔
    ¬Clashes us ∧ ¬∀ u ∈ us, u.starred

/-- A pattern that clashes is refused before its start is looked at. -/
theorem verdict_of_clashes {pattern : String} (hcompile : compile pattern = compileUnits us)
    (h : Clashes us) : Verdict us pattern := by
  obtain ⟨s, c, q, q', hunits⟩ := conflict_compileUnits_iff.mpr h
  rw [hunits] at hcompile
  have hof (name : String) (kind : Kind) : Recognizer.ofPattern name kind pattern =
      .error (.inRecognizer name (.conflict s c q q')) := by
    unfold Recognizer.ofPattern
    rw [hcompile]
    rfl
  constructor
  case conflict_iff => exact iff_of_true ⟨s, c, q, q', hcompile⟩ h
  case automaton => exact fun hfree => absurd h hfree
  case clash_iff => exact fun name kind => iff_of_true ⟨s, c, q, q', hof name kind⟩ h
  case nullable_iff => simp [hof, h]
  case nullable_iff_inLanguage => simp [hof, hcompile, InLanguage]
  case nullable_iff_denotes => exact fun hfree => absurd h hfree
  case recognizer_iff => simp [hof, h]

/-- A pattern that does not clash has an automaton, and its start decides. -/
theorem verdict_of_not_clashes {pattern : String} (hcompile : compile pattern = compileUnits us)
    (h : ¬Clashes us) : Verdict us pattern := by
  obtain ⟨a, hunits⟩ := exists_compileUnits_iff.mpr h
  have hstart := isAccepting_start_iff hunits
  rw [hunits] at hcompile
  have hof (name : String) (kind : Kind) : Recognizer.ofPattern name kind pattern =
      if a.isAccepting a.start then .error (.nullable name)
      else .ok { name, kind, automaton := a } := by
    unfold Recognizer.ofPattern
    rw [hcompile]
    rfl
  constructor
  case conflict_iff => simp [hcompile, h]
  case automaton => exact fun _ => ⟨a, hcompile, within_of_compileUnits hunits⟩
  case clash_iff =>
    intro name kind
    rw [hof]
    cases a.isAccepting a.start <;> simp [h]
  case nullable_iff =>
    intro name kind
    rw [hof, ← hstart]
    cases a.isAccepting a.start <;> simp [h]
  case nullable_iff_inLanguage =>
    intro name kind
    simp only [hof, InLanguage, hcompile, Except.ok.injEq, exists_eq_left', Automaton.accepts_nil]
    cases a.isAccepting a.start <;> simp
  case nullable_iff_denotes =>
    intro _ name kind
    rw [hof, denotes_nil_iff, ← hstart]
    cases a.isAccepting a.start <;> simp
  case recognizer_iff =>
    intro name kind
    rw [hof, ← hstart]
    cases a.isAccepting a.start <;> simp [h]

/-- **Verdict on patterns**: the units of a pattern decide what comes of it. -/
theorem verdict_of_parse {pattern : String} (h : parse pattern = .ok us) : Verdict us pattern := by
  have hcompile : compile pattern = compileUnits us := by
    unfold compile
    rw [h]
    rfl
  by_cases hclash : Clashes us
  · exact verdict_of_clashes hcompile hclash
  · exact verdict_of_not_clashes hcompile hclash

theorem verdict_of_parse_distantClash : ∃ us, parse "a*b*[a|c]" = .ok us ∧ Clashes us ∧
    Verdict us "a*b*[a|c]" := by
  have hparse : parse "a*b*[a|c]" = .ok [⟨['a'], true⟩, ⟨['b'], true⟩, ⟨['a', 'c'], false⟩] := by
    decide +kernel
  have hclash : Clashes [⟨['a'], true⟩, ⟨['b'], true⟩, ⟨['a', 'c'], false⟩] :=
    ⟨[], _, [_], _, [], rfl, rfl, by simp, 'a', by simp, by simp⟩
  exact ⟨_, hparse, hclash, verdict_of_parse hparse⟩

end Pattern

end CircuitScan
