import CircuitScan.Proofs.Building
import CircuitScan.Proofs.Builtin.Lexer
import Mathlib.Data.List.Nodup

/-!
# CircuitScan.Proofs.Registration

Registration as a sequence of calls, of which some are refused. A refused call leaves the registry
as it was, and the next one finds it so (`attempt`).

A registry records a list of registrations if it holds them in their order, each ranked by its
place, under names that differ (`Records`). One more call keeps this, whether it is taken or
refused (`Records.attempt`), and so does a sequence of calls (`Records.attemptAll`). What can be
asked of a registry follows from its record: names, ranks, look-ups, and which recognizer makes a
token of a text that several accept.

* `Registry.attemptAll_ordered` — all calls on the registry of the circuit language, or on the
  empty one.
-/

namespace CircuitScan

/-! ## Calls -/

namespace Recognizer

/-- What the automaton of a recognizer makes under its name and kind, at any rank. -/
def IsBuilt (x : Recognizer) : Prop :=
  ofAutomaton x.name x.kind x.automaton = .ok { x with priority := 0 }

theorem isBuilt_of_ofAutomaton {name : String} {kind : Kind} {a : Automaton} {x : Recognizer}
    (h : ofAutomaton name kind a = .ok x) : x.IsBuilt := by
  obtain rfl := ofAutomaton_eq_ok h
  exact h

/-- No recognizer that was built accepts at its start. -/
theorem IsBuilt.not_isAccepting_start {x : Recognizer} (h : x.IsBuilt) :
    x.automaton.isAccepting x.automaton.start = false := by
  have hempty := accepts_nil_of_ofAutomaton h
  exact hempty

end Recognizer

namespace Registry

/-- Calls for a registration: the answer, and the registry behind the call. -/
def attempt (r : Registry) (x : Recognizer) : Except LoadError Unit × Registry :=
  match r.register x with
  | .ok s => (.ok (), s)
  | .error e => (.error e, r)

/-- Calls for registrations one after another: the answers, and the registry behind them. -/
def attemptAll (r : Registry) : List Recognizer → List (Except LoadError Unit) × Registry
  | [] => ([], r)
  | x :: xs =>
    let (answer, s) := r.attempt x
    let (answers, t) := s.attemptAll xs
    (answer :: answers, t)

/-- The recognizers of the calls that were not refused. -/
def taken (xs : List Recognizer) (answers : List (Except LoadError Unit)) : List Recognizer :=
  ((xs.zip answers).filter (·.2.isOk)).map (·.1)

variable {r : Registry} {x : Recognizer} {xs ys : List Recognizer}

theorem attempt_of_mem (h : x.name ∈ r.names) : r.attempt x = (.error (.duplicate x.name), r) := by
  simp [attempt, register, h]

theorem attempt_of_notMem (h : x.name ∉ r.names) :
    r.attempt x = (.ok (), ⟨r.recognizers ++ [{ x with priority := r.size }]⟩) := by
  simp [attempt, register, h]

/-- A call adds at the end or not at all. -/
theorem prefix_attempt (r : Registry) (x : Recognizer) :
    r.recognizers <+: (r.attempt x).2.recognizers := by
  by_cases h : x.name ∈ r.names
  · simp [attempt_of_mem h]
  · simp [attempt_of_notMem h]

theorem prefix_attemptAll (r : Registry) (xs : List Recognizer) :
    r.recognizers <+: (r.attemptAll xs).2.recognizers := by
  induction xs generalizing r with
  | nil => exact List.prefix_rfl
  | cons x xs ih => exact (prefix_attempt r x).trans (ih _)

/-- Later calls find what earlier ones left. -/
theorem attemptAll_append (r : Registry) (us vs : List Recognizer) :
    (r.attemptAll (us ++ vs)).2 = ((r.attemptAll us).2.attemptAll vs).2 := by
  induction us generalizing r with
  | nil => rfl
  | cons x us ih => exact ih _

/-! ## Records -/

/-- The registry of these registrations, which have names of their own and are built. -/
structure Records (ys : List Recognizer) (r : Registry) : Prop where
  eq_ofRanked : r = ofRanked ys
  nodup_names : (ys.map (·.name)).Nodup
  isBuilt : ∀ y ∈ ys, y.IsBuilt

namespace Records

theorem names_eq (h : Records ys r) : r.names = ys.map (·.name) := by
  rw [h.eq_ofRanked, names, ofRanked, names_rankFrom]

theorem empty : Records [] Registry.empty := ⟨rfl, List.nodup_nil, by simp⟩

/-- **A call** is recorded if its name is new, and refused if it is not. -/
theorem attempt (h : Records ys r) (hx : x.IsBuilt) :
    Records (ys ++ taken [x] [(r.attempt x).1]) (r.attempt x).2 := by
  by_cases hname : x.name ∈ r.names
  · rw [attempt_of_mem hname]
    simpa [taken, Except.isOk, Except.toBool] using h
  · rw [attempt_of_notMem hname]
    change Records (ys ++ [x]) _
    constructor
    case eq_ofRanked =>
      rw [h.eq_ofRanked, size, ofRanked, ofRanked, rankFrom_concat, length_rankFrom, Nat.zero_add]
    case nodup_names =>
      rw [h.names_eq] at hname
      rw [List.map_append, List.nodup_append]
      exact ⟨h.nodup_names, by simp, by grind⟩
    case isBuilt =>
      intro y hy
      rcases List.mem_append.mp hy with hy | hy
      · exact h.isBuilt y hy
      · obtain rfl := List.mem_singleton.mp hy
        exact hx

/-- **A sequence of calls** records those that are not refused, in their order. -/
theorem attemptAll (h : Records ys r) (hxs : ∀ x ∈ xs, x.IsBuilt) :
    Records (ys ++ taken xs (r.attemptAll xs).1) (r.attemptAll xs).2 := by
  induction xs generalizing r ys with
  | nil => simpa [Registry.attemptAll, taken] using h
  | cons x xs ih =>
      have hfirst := h.attempt (hxs x List.mem_cons_self)
      have hrest := ih hfirst fun y hy => hxs y (List.mem_cons_of_mem x hy)
      have htaken : taken (x :: xs) (r.attemptAll (x :: xs)).1 =
          taken [x] [(r.attempt x).1] ++ taken xs ((r.attempt x).2.attemptAll xs).1 := by
        cases hok : (r.attempt x).1.isOk <;> simp [taken, Registry.attemptAll, hok]
      rw [htaken, ← List.append_assoc]
      exact hrest

end Records

/-! ## What can be asked -/

theorem getElem?_rankFrom (n : Nat) (ys : List Recognizer) (i : Nat) :
    (rankFrom n ys)[i]? = ys[i]?.map fun y => { y with priority := n + i } := by
  induction ys generalizing n i with
  | nil => simp [rankFrom]
  | cons y ys ih =>
      cases i with
      | zero => simp [rankFrom]
      | succ i => simp [rankFrom, ih, Nat.add_assoc, Nat.add_comm 1]

/-- Ranking counts anew. -/
theorem rankFrom_rankFrom (n m : Nat) (ys : List Recognizer) :
    rankFrom n (rankFrom m ys) = rankFrom n ys := by
  apply List.ext_getElem?
  intro i
  rw [getElem?_rankFrom, getElem?_rankFrom, getElem?_rankFrom, Option.map_map]
  rfl

/-- Where names differ, a look-up finds what is there under the name. -/
theorem get?_eq_some_iff (h : r.names.Nodup) {name : String} :
    r.get? name = some x ↔ x ∈ r.recognizers ∧ x.name = name := by
  unfold get?
  constructor
  · intro hfind
    exact ⟨List.mem_of_find?_eq_some hfind, by simpa using List.find?_some hfind⟩
  · rintro ⟨hmem, rfl⟩
    have hsome : (r.recognizers.find? fun y => y.name = x.name).isSome := by
      rw [List.find?_isSome]
      exact ⟨x, hmem, by simp⟩
    obtain ⟨y, hfind⟩ := Option.isSome_iff_exists.mp hsome
    have hname : y.name = x.name := by simpa using List.find?_some hfind
    obtain rfl := List.inj_on_of_nodup_map h (List.mem_of_find?_eq_some hfind) hmem hname
    exact hfind

/-- A token is of the kind of the first recognizer that accepts its text. -/
theorem exists_tokenize_kind (r : Registry) {source : String}
    (h : (Position.origin.advanceAll? source.toList).isSome) :
    ∃ scan, r.tokenize source = .ok scan ∧ ∀ t ∈ scan.tokens,
      (accepting? r.recognizers t.text.toList).map (·.kind) = some t.kind := by
  obtain ⟨last, hlast⟩ := Option.isSome_iff_exists.mp h
  have hreads := Scanner.reads_ofRegistry r
  have hagree : Agree r.recognizers r.recognizers := ⟨fun _ => rfl, fun _ _ => rfl⟩
  obtain ⟨u, u', hscan, -, -, htokens⟩ := Scanner.tokenize_alike hagree hreads hreads hlast
  refine ⟨u.result, by rw [Registry.tokenize, hscan]; rfl, fun t ht => ?_⟩
  obtain ⟨t', -, halike⟩ := exists_related_left htokens t (List.mem_of_mem_filter ht)
  exact halike.kind_left

/-- What can be asked of a registry that holds the registrations `ys` in their order. -/
structure Ordered (ys : List Recognizer) (r : Registry) : Prop where
  /-- names are pairwise distinct -/
  nodup_names : r.names.Nodup
  /-- the recognizers are the registrations in order, each ranked by its place -/
  getElem?_eq : ∀ i : Nat, r.recognizers[i]? = ys[i]?.map fun y => { y with priority := i }
  /-- none of them accepts at its start -/
  not_isAccepting_start : ∀ x ∈ r.recognizers, x.automaton.isAccepting x.automaton.start = false
  /-- a look-up finds the registration of the name -/
  get?_iff : ∀ name x, r.get? name = some x ↔
    ∃ (i : Nat) (y : Recognizer), ys[i]? = some y ∧ y.name = name ∧ x = { y with priority := i }
  /-- and nothing if there is none -/
  get?_eq_none_iff : ∀ name, r.get? name = none ↔ ∀ y ∈ ys, y.name ≠ name
  /-- a call is refused where the name is there, which changes nothing, and is taken elsewhere -/
  attempt_cases : ∀ x, x.name ∈ r.names ∧ r.attempt x = (.error (.duplicate x.name), r) ∨
    x.name ∉ r.names ∧ (r.attempt x).1 = .ok ()
  /-- a token is of the kind of the first registration that accepts its text -/
  kind_eq : ∀ source : String, (Position.origin.advanceAll? source.toList).isSome →
    ∃ scan, r.tokenize source = .ok scan ∧ ∀ t ∈ scan.tokens,
      (ys.find? (·.accepts t.text.toList)).map (·.kind) = some t.kind

namespace Records

theorem getElem?_eq (h : Records ys r) (i : Nat) :
    r.recognizers[i]? = ys[i]?.map fun y => { y with priority := i } := by
  rw [h.eq_ofRanked, ofRanked, getElem?_rankFrom]
  simp

theorem mem_recognizers_iff (h : Records ys r) :
    x ∈ r.recognizers ↔
      ∃ (i : Nat) (y : Recognizer), ys[i]? = some y ∧ x = { y with priority := i } := by
  rw [List.mem_iff_getElem?]
  simp only [h.getElem?_eq, Option.map_eq_some_iff, @eq_comm _ x]

/-- Ranks do not decide which recognizer is found first. -/
theorem map_kind_find?_eq (h : Records ys r) (w : List Char) :
    (ys.find? (·.accepts w)).map (·.kind) = (accepting? r.recognizers w).map (·.kind) := by
  have hranked := forall₂_rankFrom 0 ys
  rw [h.eq_ofRanked, ofRanked, accepting?]
  obtain ⟨hleft, hright⟩ | ⟨y, x, hleft, hright, n, rfl⟩ :=
    find?_of_forall₂ (p := (·.accepts w)) (q := (·.accepts w)) hranked
      (by rintro y x ⟨n, rfl⟩; rfl)
  · rw [hleft, hright]
  · rw [hleft, hright]
    rfl

/-- A registry that records registrations holds them in their order. -/
theorem ordered (h : Records ys r) : Ordered ys r := by
  have hnames : r.names.Nodup := h.names_eq ▸ h.nodup_names
  constructor
  case nodup_names => exact hnames
  case getElem?_eq => exact h.getElem?_eq
  case not_isAccepting_start =>
    intro x hx
    obtain ⟨i, y, hy, rfl⟩ := h.mem_recognizers_iff.mp hx
    exact (h.isBuilt y (List.mem_of_getElem? hy)).not_isAccepting_start
  case get?_iff =>
    intro name x
    rw [get?_eq_some_iff hnames, h.mem_recognizers_iff]
    constructor
    · rintro ⟨⟨i, y, hy, rfl⟩, hname⟩
      exact ⟨i, y, hy, hname, rfl⟩
    · rintro ⟨i, y, hy, hname, rfl⟩
      exact ⟨⟨i, y, hy, rfl⟩, hname⟩
  case get?_eq_none_iff =>
    intro name
    rw [← Option.not_isSome_iff_eq_none, isSome_get?, h.names_eq]
    simp
  case attempt_cases =>
    intro x
    by_cases hname : x.name ∈ r.names
    · exact .inl ⟨hname, attempt_of_mem hname⟩
    · exact .inr ⟨hname, by rw [attempt_of_notMem hname]⟩
  case kind_eq =>
    intro source hpos
    obtain ⟨scan, hscan, hkinds⟩ := exists_tokenize_kind r hpos
    exact ⟨scan, hscan, fun t ht => by rw [h.map_kind_find?_eq, hkinds t ht]⟩

/-- What a registry records it holds. -/
theorem self (h : Records ys r) : Records r.recognizers r := by
  obtain ⟨rfl, hnames, hbuilt⟩ := h
  constructor
  case eq_ofRanked => simp only [ofRanked, rankFrom_rankFrom]
  case nodup_names =>
    rw [ofRanked, names_rankFrom]
    exact hnames
  case isBuilt =>
    intro x hx
    obtain ⟨y, hy, n, rfl⟩ := exists_related_right (forall₂_rankFrom 0 ys) x hx
    exact hbuilt y hy

end Records

/-! ## Runs -/

theorem isBuilt_of_gives {e : Entry} (h : e.Gives (.ok x)) : x.IsBuilt := by
  cases h with
  | recognizer _ hstart =>
      exact Recognizer.isBuilt_of_ofAutomaton (by rw [Recognizer.ofAutomaton, hstart]; rfl)

/-- A registry that was built from entries records its recognizers. -/
theorem records_of_ofEntries {es : List Entry} (h : ofEntries es = .ok r) :
    Records r.recognizers r := by
  have hsame : List.Forall₂ Entry.SameUpToOrder es es :=
    List.forall₂_same.mpr fun e _ => e.sameUpToOrder_refl
  have hgives := gives_ofEntries hsame
  rw [h] at hgives
  cases hgives with
  | @registry xs hxs =>
      have hrecords : Records xs (ofRanked xs) := by
        constructor
        case eq_ofRanked => rfl
        case nodup_names =>
          have hnames := hxs.names_eq
          rw [names, ofRanked, names_rankFrom] at hnames
          rw [hnames]
          exact hxs.nodup_names
        case isBuilt =>
          intro x hx
          obtain ⟨e, -, he⟩ := exists_related_right hxs.recognizers x hx
          exact isBuilt_of_gives he
      exact hrecords.self

/-- **Registration**: after any calls on the empty registry or on that of the circuit language, be
they taken or refused, the registry holds what was registered, in the order of the calls that were
taken. What it held after the first of the calls it still holds, in the same place. -/
theorem attemptAll_ordered {base : Registry} (hbase : base = empty ∨ builtin = .ok base)
    (hxs : ∀ x ∈ xs, x.IsBuilt) :
    Ordered (base.recognizers ++ taken xs (base.attemptAll xs).1) (base.attemptAll xs).2 ∧
      ∀ us vs, xs = us ++ vs →
        (base.attemptAll us).2.recognizers <+: (base.attemptAll xs).2.recognizers := by
  have hrecords : Records base.recognizers base := by
    rcases hbase with rfl | hbuiltin
    · exact Records.empty
    · exact records_of_ofEntries hbuiltin
  refine ⟨(hrecords.attemptAll hxs).ordered, ?_⟩
  rintro us vs rfl
  rw [attemptAll_append]
  exact prefix_attemptAll _ vs

/-- Two new recognizers of the circuit language, each of them called for twice. -/
theorem attemptAll_ordered_nestedWords :
    ∃ base, builtin = .ok base ∧
      (∀ x ∈ nestedWords.recognizers ++ nestedWords.recognizers, x.IsBuilt) ∧
      (base.attemptAll (nestedWords.recognizers ++ nestedWords.recognizers)).1 =
        [.ok (), .ok (), .error (.duplicate "a"), .error (.duplicate "abc")] ∧
      Ordered (base.recognizers ++ nestedWords.recognizers)
        (base.attemptAll (nestedWords.recognizers ++ nestedWords.recognizers)).2 := by
  have hbuilt : ∀ x ∈ nestedWords.recognizers ++ nestedWords.recognizers, x.IsBuilt := by
    intro x hx
    simp only [nestedWords, List.cons_append, List.nil_append, List.mem_cons, List.not_mem_nil,
      or_false] at hx
    rcases hx with rfl | rfl | rfl | rfl <;> rfl
  have hanswers : builtin.map (fun base =>
      (base.attemptAll (nestedWords.recognizers ++ nestedWords.recognizers)).1) =
        .ok [.ok (), .ok (), .error (.duplicate "a"), .error (.duplicate "abc")] := by
    decide +kernel
  cases hbase : builtin with
  | error e =>
      rw [hbase] at hanswers
      cases hanswers
  | ok base =>
      rw [hbase] at hanswers
      have hcalls :
          (base.attemptAll (nestedWords.recognizers ++ nestedWords.recognizers)).1 =
            [.ok (), .ok (), .error (.duplicate "a"), .error (.duplicate "abc")] :=
        Except.ok.inj hanswers
      have hordered := (attemptAll_ordered (.inr hbase) hbuilt).1
      rw [hcalls] at hordered
      exact ⟨base, rfl, hbuilt, hcalls, hordered⟩

end Registry

end CircuitScan
