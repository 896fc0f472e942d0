import CircuitScan.Proofs.Pattern.Clash
import CircuitScan.Proofs.Ranking

/-!
# CircuitScan.Proofs.Building

What comes of building a list of entries, said without the order in which graphs are visited.

1. An entry gives a recognizer, or the report that it accepts the empty text, or one of the faults
   of its body with the name of the entry around it, once (`Entry.Gives`).
2. A list of entries gives a registry of their recognizers, ranked in order; or what its first
   failing entry gives, be it a fault of its own or a name that is taken (`Registry.Gives`).

Rows and labels may be visited in any order (`Entry.SameUpToOrder`). Two orders lead to the same
outcome, but for the choice between several faults of one entry (`Alike`):

* `gives_of_buildsAs` — what any order of visits leads to;
* `alike_of_buildsAs` — two orders compared.
-/

namespace CircuitScan

/-! ## Inner faults -/

/-- Whether an error is the fault of a pattern, of a label, or of edges that meet. Such an error
names no recognizer. -/
def LoadError.isInner : LoadError → Bool
  | .malformedPattern .. | .emptyLabel .. | .illegalEscape .. | .unresolvableClass ..
  | .conflict .. => true
  | _ => false

/-- An inner fault gets the name of its recognizer. -/
theorem LoadError.within_of_isInner {e : LoadError} (h : e.isInner) (name : String) :
    e.within name = .inRecognizer name e := by
  cases e <;> first | rfl | contradiction

theorem Label.isInner_of_expand {label : String} {e : LoadError} (h : expand label = .error e) :
    e.isInner := by
  have hlist (hl : expandList label = .error e) : e.isInner := by
    obtain hmap | ⟨cs, -, hpure⟩ := bind_eq_error.mp hl
    · obtain ⟨item, -, hitem⟩ := exists_of_mapM_eq_error hmap
      unfold readItem at hitem
      split at hitem
      · cases hitem
      · cases hitem
        unfold itemError
        split <;> rfl
    · cases hpure
  unfold expand at h
  split at h
  · cases h
    rfl
  · cases h
  · split at h
    · exact hlist h
    · split at h
      · cases h
      · cases h
        rfl
  · exact hlist h

namespace Pattern

variable {e : LoadError}

theorem isInner_of_read {pattern : String} {r : Reader} {c : Char}
    (h : r.read pattern c = .error e) : e.isInner := by
  unfold Reader.read at h
  split at h
  · split at h
    · split at h
      · cases h
      · cases h
        rfl
    · cases h
    · cases h
      rfl
    · cases h
    · cases h
  · cases h
  · split at h
    · cases h
      rfl
    · split at h
      · cases h
        rfl
      · exact Label.isInner_of_expand (map_eq_error.mp h)
    · cases h

theorem isInner_of_parse {pattern : String} (h : parse pattern = .error e) : e.isInner := by
  obtain hread | ⟨r, -, hfinish⟩ := bind_eq_error.mp h
  · obtain ⟨r, c, -, hc⟩ := exists_of_foldlM_eq_error hread
    exact isInner_of_read hc
  · unfold Reader.finish at hfinish
    split at hfinish
    · cases hfinish
      rfl
    · cases hfinish
      rfl
    · split at hfinish
      · cases hfinish
        rfl
      · cases hfinish

theorem isInner_of_compile {pattern : String} (h : compile pattern = .error e) : e.isInner := by
  obtain hparse | ⟨us, -, hunits⟩ := bind_eq_error.mp h
  · exact isInner_of_parse hparse
  · obtain ⟨s, c, q, q', rfl⟩ := conflict_of_compileUnits hunits
    rfl

end Pattern

theorem Graph.HasFault.isInner {arrows : List Graph.Arrow} {e : LoadError}
    (h : HasFault arrows e) : e.isInner := by
  cases h with
  | emptyLabel => rfl
  | badLabel _ _ hlabel => exact Label.isInner_of_expand hlabel
  | conflict => rfl

/-! ## What an entry gives -/

/-- The automaton that a body describes. That of a graph has one edge for each character of each
arrow. -/
def Body.Describes : Body → Automaton → Prop
  | .pattern text, a => Pattern.compile text = .ok a
  | .graph start accepting g, a =>
    a.start = start ∧ a.accepting = accepting ∧
      (∀ b ∈ g.arrows, ∃ cs, Label.expand b.label = .ok cs) ∧
      ∀ s c t, a.table.get? s c = some t ↔
        ∃ b ∈ g.arrows, b.source = s ∧ b.target = t ∧ Label.StandsFor b.label c

/-- The faults of a body. A pattern has one at most, and a graph may have several. -/
def Body.HasFault : Body → LoadError → Prop
  | .pattern text, e => Pattern.compile text = .error e
  | .graph _ _ g, e => Graph.HasFault g.arrows e

/-- What an entry may give. -/
inductive Entry.Gives (e : Entry) : Except LoadError Recognizer → Prop where
  | recognizer {a : Automaton} (h : e.body.Describes a) (hstart : a.isAccepting a.start = false) :
    Gives e (.ok { name := e.name, kind := e.kind, automaton := a })
  | nullable {a : Automaton} (h : e.body.Describes a) (hstart : a.isAccepting a.start = true) :
    Gives e (.error (.nullable e.name))
  | fault {cause : LoadError} (h : e.body.HasFault cause) (hinner : cause.isInner) :
    Gives e (.error (.inRecognizer e.name cause))

theorem Body.HasFault.isInner {b : Body} {e : LoadError} (h : b.HasFault e) : e.isInner := by
  cases b with
  | pattern text => exact Pattern.isInner_of_compile h
  | graph start accepting g => exact Graph.HasFault.isInner h

/-- A body that describes an automaton has no fault. -/
theorem Body.Describes.not_hasFault {b : Body} {a : Automaton} {e : LoadError}
    (h : b.Describes a) : ¬b.HasFault e := by
  intro hfault
  cases b with
  | pattern text =>
      rw [HasFault, h] at hfault
      cases hfault
  | graph start accepting g =>
      obtain ⟨-, -, hlabels, hedges⟩ := h
      exact Graph.not_hasFault_of_get? hlabels hedges hfault

theorem Entry.gives_ofAutomaton {e : Entry} {a : Automaton} (h : e.body.Describes a) :
    e.Gives (Recognizer.ofAutomaton e.name e.kind a) := by
  unfold Recognizer.ofAutomaton
  split
  · next hstart => exact .nullable h hstart
  · next hstart => exact .recognizer h (Bool.eq_false_iff.mpr hstart)

theorem Entry.gives_within {e : Entry} {cause : LoadError} (h : e.body.HasFault cause) :
    e.Gives (.error (cause.within e.name)) := by
  rw [LoadError.within_of_isInner h.isInner]
  exact .fault h h.isInner

/-! ## Orders of visits -/

/-- The same rows with the same arrows, in some order. -/
def Graph.Reorders (g g' : Graph) : Prop :=
  ∃ mid, g.rows.Perm mid ∧ List.Forall₂ (fun e f => e.1 = f.1 ∧ e.2.Perm f.2) mid g'.rows

theorem Graph.reorders_refl (g : Graph) : g.Reorders g :=
  ⟨g.rows, .refl g.rows, List.forall₂_same.mpr fun e _ => ⟨rfl, .refl e.2⟩⟩

/-- The order of visits decides nothing about the arrows that there are. -/
theorem Graph.Reorders.mem_arrows_iff {g g' : Graph} (h : g.Reorders g') (a : Arrow) :
    a ∈ g'.arrows ↔ a ∈ g.arrows := by
  obtain ⟨mid, hperm, hmid⟩ := h
  have hmem (rows : List (Nat × Row)) :
      a ∈ (Graph.mk rows).arrows ↔ ∃ row, (a.source, row) ∈ rows ∧ (a.label, a.target) ∈ row := by
    obtain ⟨source, label, target⟩ := a
    simp [arrows, rowArrows]
  rw [hmem g'.rows, hmem g.rows]
  constructor
  · rintro ⟨row', hrow', harrow⟩
    obtain ⟨⟨s, row⟩, hrow, rfl, hsame⟩ := exists_related_right hmid (a.source, row') hrow'
    exact ⟨row, hperm.mem_iff.mpr hrow, hsame.mem_iff.mpr harrow⟩
  · rintro ⟨row, hrow, harrow⟩
    obtain ⟨⟨s, row'⟩, hrow', hs, hsame⟩ :=
      exists_related_left hmid (a.source, row) (hperm.mem_iff.mp hrow)
    obtain rfl : a.source = s := hs
    exact ⟨row', hrow', hsame.mem_iff.mp harrow⟩

/-- The same entry, but for the order of rows and arrows. -/
inductive Entry.SameUpToOrder : Entry → Entry → Prop where
  | pattern (name : String) (kind : Kind) (text : String) :
    SameUpToOrder ⟨name, kind, .pattern text⟩ ⟨name, kind, .pattern text⟩
  | graph (name : String) (kind : Kind) (start : Nat) (accepting : List Nat) {g g' : Graph}
    (h : g.Reorders g') :
    SameUpToOrder ⟨name, kind, .graph start accepting g⟩ ⟨name, kind, .graph start accepting g'⟩

theorem Entry.sameUpToOrder_refl (e : Entry) : e.SameUpToOrder e := by
  obtain ⟨name, kind, body⟩ := e
  cases body with
  | pattern text => exact .pattern name kind text
  | graph start accepting g => exact .graph name kind start accepting g.reorders_refl

theorem Entry.SameUpToOrder.name_eq {e e' : Entry} (h : e.SameUpToOrder e') : e'.name = e.name := by
  cases h <;> rfl

/-- **An entry**: whatever the order of visits, building it comes to what it gives. -/
theorem Entry.gives_build {e e' : Entry} (h : e.SameUpToOrder e') : e.Gives e'.build := by
  cases h with
  | pattern name kind text =>
      change Gives _ (Recognizer.ofPattern name kind text)
      unfold Recognizer.ofPattern
      cases hcompile : Pattern.compile text with
      | error cause => exact gives_within (e := ⟨name, kind, .pattern text⟩) hcompile
      | ok a => exact gives_ofAutomaton (e := ⟨name, kind, .pattern text⟩) hcompile
  | @graph name kind start accepting g g' h =>
      change Gives _ (Recognizer.ofGraph name kind start accepting g')
      unfold Recognizer.ofGraph
      cases htable : g'.toTable with
      | error cause =>
          have hfault := (Graph.hasFault_of_toTable htable).mono
            fun a ha => (h.mem_arrows_iff a).mp ha
          exact gives_within (e := ⟨name, kind, .graph start accepting g⟩) hfault
      | ok t =>
          have hdescribes : Body.Describes (.graph start accepting g) ⟨t, start, accepting⟩ := by
            refine ⟨rfl, rfl, fun b hb => ?_, fun s c q => ?_⟩
            · exact Graph.exists_expand_of_foldlM htable b ((h.mem_arrows_iff b).mpr hb)
            · simp only [Graph.get?_toTable htable, h.mem_arrows_iff]
          exact gives_ofAutomaton (e := ⟨name, kind, .graph start accepting g⟩) hdescribes

/-! ## What a list of entries gives -/

/-- Recognizers that entries with distinct names give, one for each. -/
structure Entry.GiveAll (es : List Entry) (xs : List Recognizer) : Prop where
  recognizers : List.Forall₂ (fun e x => e.Gives (.ok x)) es xs
  nodup_names : (es.map (·.name)).Nodup

namespace Registry

/-- What a list of entries may give. -/
inductive Gives (es : List Entry) : Except LoadError Registry → Prop where
  /-- the recognizers of all entries, ranked in order -/
  | registry {xs : List Recognizer} (hxs : Entry.GiveAll es xs) : Gives es (.ok (ofRanked xs))
  /-- what the first entry that fails reports about itself -/
  | fault {before after : List Entry} {e : Entry} {xs : List Recognizer} {err : LoadError}
    (hes : es = before ++ e :: after) (hxs : Entry.GiveAll before xs)
    (herr : e.Gives (.error err)) : Gives es (.error err)
  /-- or that its name is taken -/
  | duplicate {before after : List Entry} {e : Entry} {xs : List Recognizer} {x : Recognizer}
    (hes : es = before ++ e :: after) (hxs : Entry.GiveAll before xs) (hx : e.Gives (.ok x))
    (htaken : e.name ∈ before.map (·.name)) : Gives es (.error (.duplicate e.name))

/-- The outcomes of building and registering entries one by one, in any order of visits. -/
def BuildsAs (es : List Entry) (o : Except LoadError Registry) : Prop :=
  ∃ es', List.Forall₂ Entry.SameUpToOrder es es' ∧ ofEntries es' = o

/-- Entries behind the one that fails do not count. -/
theorem Gives.append {es : List Entry} {err : LoadError} (h : Gives es (.error err))
    (fs : List Entry) : Gives (es ++ fs) (.error err) := by
  cases h with
  | fault hes hxs herr =>
      exact .fault (by rw [hes, List.append_assoc, List.cons_append]) hxs herr
  | duplicate hes hxs hx htaken =>
      exact .duplicate (by rw [hes, List.append_assoc, List.cons_append]) hxs hx htaken

end Registry

theorem Entry.Gives.name_eq {e : Entry} {x : Recognizer} (h : e.Gives (.ok x)) :
    x.name = e.name := by
  cases h
  rfl

/-- The names of the recognizers are those of the entries. -/
theorem Entry.GiveAll.names_eq {es : List Entry} {xs : List Recognizer} (h : GiveAll es xs) :
    (Registry.ofRanked xs).names = es.map (·.name) := by
  rw [Registry.names, Registry.ofRanked, names_rankFrom]
  exact (map_eq_of_forall₂ h.recognizers fun _ _ hx => hx.name_eq.symm).symm

/-- One more entry with a name of its own. -/
theorem Entry.GiveAll.concat {es : List Entry} {xs : List Recognizer} {e : Entry} {x : Recognizer}
    (h : GiveAll es xs) (hx : e.Gives (.ok x)) (hname : e.name ∉ es.map (·.name)) :
    GiveAll (es ++ [e]) (xs ++ [x]) := by
  constructor
  case recognizers => exact List.rel_append h.recognizers (.cons hx .nil)
  case nodup_names =>
    rw [List.map_append, List.nodup_append]
    refine ⟨h.nodup_names, by simp, ?_⟩
    intro name hmem name' hlast heq
    obtain rfl : name' = e.name := by simpa using hlast
    exact hname (heq ▸ hmem)

namespace Registry

/-- **A step**: behind entries that gave recognizers, one more entry is added or fails. -/
theorem gives_add {es : List Entry} {xs : List Recognizer} {e e' : Entry}
    (h : Entry.GiveAll es xs) (he : e.SameUpToOrder e') :
    Gives (es ++ [e]) ((ofRanked xs).add e') := by
  have hgives := Entry.gives_build he
  unfold add
  cases hbuild : e'.build with
  | error err =>
      rw [hbuild] at hgives
      exact .fault rfl h hgives
  | ok x =>
      rw [hbuild] at hgives
      change Gives _ ((ofRanked xs).register x)
      rw [register_ofRanked, h.names_eq, hgives.name_eq]
      split
      · next htaken => exact .duplicate rfl h hgives htaken
      · next hfree => exact .registry (h.concat hgives hfree)

/-- **A run**: whatever the order of visits, a list of entries comes to what it gives. -/
theorem gives_ofEntries {es es' : List Entry} (h : List.Forall₂ Entry.SameUpToOrder es es') :
    Gives es (ofEntries es') := by
  unfold ofEntries
  -- from the back, as the last entry meets what all others have come to
  induction es' using List.reverseRecOn generalizing es with
  | nil =>
      obtain rfl := List.forall₂_nil_right_iff.mp h
      have hnone : Entry.GiveAll [] [] := ⟨.nil, List.nodup_nil⟩
      exact .registry hnone
  | append_singleton es' e' ih =>
      obtain ⟨front, e, rfl, hfront, he⟩ := exists_of_forall₂_concat h
      have hgives := ih hfront
      rw [List.foldlM_append]
      cases hall : es'.foldlM add empty with
      | error err =>
          rw [hall] at hgives
          exact hgives.append [e]
      | ok m =>
          rw [hall] at hgives
          cases hgives with
          | registry hxs =>
              change Gives _ ([e'].foldlM add _)
              simp only [List.foldlM_cons, List.foldlM_nil, bind_pure]
              exact gives_add hxs he

theorem gives_of_buildsAs {es : List Entry} {o : Except LoadError Registry}
    (h : BuildsAs es o) : Gives es o := by
  obtain ⟨es', horder, rfl⟩ := h
  exact gives_ofEntries horder

end Registry

/-! ## Orders compared -/

/-- Recognizers with the same edges, the same in all else. -/
structure Recognizer.Alike (x y : Recognizer) : Prop where
  name_eq : x.name = y.name
  kind_eq : x.kind = y.kind
  priority_eq : x.priority = y.priority
  start_eq : x.automaton.start = y.automaton.start
  accepting_eq : x.automaton.accepting = y.automaton.accepting
  get?_eq : ∀ s c, x.automaton.table.get? s c = y.automaton.table.get? s c

/-- Registries of such recognizers. -/
def Registry.Alike (r r' : Registry) : Prop :=
  List.Forall₂ Recognizer.Alike r.recognizers r'.recognizers

/-- Outcomes that differ at most in which fault of one of the entries is reported. -/
inductive OutcomesAlike (R : α → α → Prop) (es : List Entry) :
    Except LoadError α → Except LoadError α → Prop where
  | built {a b : α} (h : R a b) : OutcomesAlike R es (.ok a) (.ok b)
  | failed (err : LoadError) : OutcomesAlike R es (.error err) (.error err)
  | faults {e : Entry} {cause cause' : LoadError} (he : e ∈ es) (h : e.body.HasFault cause)
    (h' : e.body.HasFault cause') :
    OutcomesAlike R es (.error (.inRecognizer e.name cause)) (.error (.inRecognizer e.name cause'))

theorem OutcomesAlike.mono {R : α → α → Prop} {es fs : List Entry} {o o' : Except LoadError α}
    (h : OutcomesAlike R es o o') (hsub : es ⊆ fs) : OutcomesAlike R fs o o' := by
  cases h with
  | built h => exact .built h
  | failed err => exact .failed err
  | faults he h h' => exact .faults (hsub he) h h'

/-- Two automata that one body describes have the same edges, the same start and the same accepting
states. -/
theorem Body.Describes.alike {b : Body} {a a' : Automaton} (h : b.Describes a)
    (h' : b.Describes a') : a.start = a'.start ∧ a.accepting = a'.accepting ∧
      ∀ s c, a.table.get? s c = a'.table.get? s c := by
  cases b with
  | pattern text =>
      rw [Describes, h'] at h
      cases h
      exact ⟨rfl, rfl, fun _ _ => rfl⟩
  | graph start accepting g =>
      obtain ⟨hstart, haccepting, -, hedges⟩ := h
      obtain ⟨hstart', haccepting', -, hedges'⟩ := h'
      refine ⟨hstart.trans hstart'.symm, haccepting.trans haccepting'.symm, fun s c => ?_⟩
      apply Option.ext
      intro t
      rw [hedges, hedges']

/-- What an entry gives is the same, but for the choice of a fault. -/
theorem Entry.Gives.alike {e : Entry} {o o' : Except LoadError Recognizer} (h : e.Gives o)
    (h' : e.Gives o') : OutcomesAlike Recognizer.Alike [e] o o' := by
  cases h with
  | recognizer ha hstart =>
      cases h' with
      | recognizer ha' _ =>
          obtain ⟨hs, hacc, hget⟩ := ha.alike ha'
          exact .built ⟨rfl, rfl, rfl, hs, hacc, hget⟩
      | nullable ha' hstart' =>
          obtain ⟨hs, hacc, -⟩ := ha.alike ha'
          rw [Automaton.isAccepting, ← hs, ← hacc] at hstart'
          exact absurd hstart' (Bool.eq_false_iff.mp hstart)
      | fault hfault => exact absurd hfault ha.not_hasFault
  | nullable ha hstart =>
      cases h' with
      | recognizer ha' hstart' =>
          obtain ⟨hs, hacc, -⟩ := ha.alike ha'
          rw [Automaton.isAccepting, ← hs, ← hacc] at hstart'
          exact absurd hstart (Bool.eq_false_iff.mp hstart')
      | nullable => exact .failed _
      | fault hfault => exact absurd hfault ha.not_hasFault
  | fault hfault _ =>
      cases h' with
      | recognizer ha' => exact absurd hfault ha'.not_hasFault
      | nullable ha' => exact absurd hfault ha'.not_hasFault
      | fault hfault' _ => exact .faults (List.mem_singleton.mpr rfl) hfault hfault'

namespace Registry

variable {r r' : Registry}

theorem Alike.names_eq (h : r.Alike r') : r.names = r'.names :=
  map_eq_of_forall₂ h fun _ _ hx => hx.name_eq

/-- Registries that are alike take recognizers that are alike, or refuse the same name. -/
theorem Alike.register (h : r.Alike r') {x x' : Recognizer} (hx : x.Alike x') (es : List Entry) :
    OutcomesAlike Alike es (r.register x) (r'.register x') := by
  have htaken : x.name ∈ r.names ↔ x'.name ∈ r'.names := by rw [h.names_eq, hx.name_eq]
  unfold Registry.register
  by_cases hname : x.name ∈ r.names
  · rw [if_pos hname, if_pos (htaken.mp hname), hx.name_eq]
    exact .failed _
  · rw [if_neg hname, if_neg (htaken.not.mp hname)]
    have hsize : r.size = r'.size := h.length_eq
    have hranked : Recognizer.Alike { x with priority := r.size } { x' with priority := r'.size } :=
      ⟨hx.name_eq, hx.kind_eq, hsize, hx.start_eq, hx.accepting_eq, hx.get?_eq⟩
    exact .built (List.rel_append h (.cons hranked .nil))

/-- **A step** in two orders of visits. -/
theorem Alike.add (h : r.Alike r') {e e' e'' : Entry} (he' : e.SameUpToOrder e')
    (he'' : e.SameUpToOrder e'') : OutcomesAlike Alike [e] (r.add e') (r'.add e'') := by
  have halike := (Entry.gives_build he').alike (Entry.gives_build he'')
  unfold Registry.add
  cases hbuild : e'.build with
  | error err =>
      cases hbuild' : e''.build with
      | error err' =>
          rw [hbuild, hbuild'] at halike
          cases halike with
          | failed => exact .failed err
          | faults hmem hfault hfault' => exact .faults hmem hfault hfault'
      | ok x' =>
          rw [hbuild, hbuild'] at halike
          cases halike
  | ok x =>
      cases hbuild' : e''.build with
      | error err' =>
          rw [hbuild, hbuild'] at halike
          cases halike
      | ok x' =>
          rw [hbuild, hbuild'] at halike
          cases halike with
          | built hx => exact h.register hx [e]

/-- **A run** in two orders of visits. -/
theorem Alike.foldlM_add (h : r.Alike r') {es es' es'' : List Entry}
    (hes' : List.Forall₂ Entry.SameUpToOrder es es')
    (hes'' : List.Forall₂ Entry.SameUpToOrder es es'') :
    OutcomesAlike Alike es (es'.foldlM Registry.add r) (es''.foldlM Registry.add r') := by
  induction hes' generalizing es'' r r' with
  | nil =>
      cases hes''
      exact .built h
  | @cons e e' es es' he' _ ih =>
      obtain ⟨e'', es'', he'', hrest, rfl⟩ := List.forall₂_cons_left_iff.mp hes''
      have hstep := h.add he' he''
      rw [List.foldlM_cons, List.foldlM_cons]
      cases hadd : r.add e' with
      | error err =>
          cases hadd' : r'.add e'' with
          | error err' =>
              rw [hadd, hadd'] at hstep
              exact hstep.mono (by simp)
          | ok s' =>
              rw [hadd, hadd'] at hstep
              cases hstep
      | ok s =>
          cases hadd' : r'.add e'' with
          | error err' =>
              rw [hadd, hadd'] at hstep
              cases hstep
          | ok s' =>
              rw [hadd, hadd'] at hstep
              cases hstep with
              | built hs => exact (ih hs hrest).mono (List.subset_cons_self e es)

theorem alike_of_buildsAs {es : List Entry} {o o' : Except LoadError Registry}
    (h : BuildsAs es o) (h' : BuildsAs es o') : OutcomesAlike Alike es o o' := by
  obtain ⟨es', hes', rfl⟩ := h
  obtain ⟨es'', hes'', rfl⟩ := h'
  have hempty : empty.Alike empty := List.Forall₂.nil
  exact hempty.foldlM_add hes' hes''

end Registry

end CircuitScan
