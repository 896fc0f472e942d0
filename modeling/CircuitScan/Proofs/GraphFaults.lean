import CircuitScan.Proofs.GraphEdges
import Mathlib.Data.List.Induction

/-!
# CircuitScan.Proofs.GraphFaults

Why a graph has no table. An arrow may have no label or a bad one, and two arrows of one state may
share a character and lead to different states, which is a fault of its own for either of the two
coming first. A graph with several faults reports one of them, and which one depends on the order of
its rows and labels; whether it has any does not:

* `hasFault_of_toTable` — what is reported is a fault of the graph;
* `not_hasFault_of_toTable` — a graph that has a table has no fault.
-/

namespace CircuitScan

namespace Table

variable {t : Table} {state target : Nat} {e : LoadError}

/-- An edge is refused where the state moves elsewhere. -/
theorem addEdge_eq_error {c : Char} (h : t.addEdge state c target = .error e) :
    ∃ existing, t.get? state c = some existing ∧ existing ≠ target ∧
      e = .conflict state c existing target := by
  obtain ⟨existing, hadd, rfl⟩ := mapError_eq_error.mp h
  obtain ⟨hget, hne⟩ := add_eq_error_iff.mp hadd
  exact ⟨existing, hget, hne, rfl⟩

theorem addEdges_eq_error {cs : List Char} (h : t.addEdges state cs target = .error e) :
    ∃ c ∈ cs, ∃ existing, t.get? state c = some existing ∧ existing ≠ target ∧
      e = .conflict state c existing target := by
  unfold addEdges at h
  induction cs generalizing t with
  | nil => cases h
  | cons c cs ih =>
      rw [List.foldlM_cons] at h
      obtain hfirst | ⟨u, hu, hrest⟩ := bind_eq_error.mp h
      · exact ⟨c, List.mem_cons_self, addEdge_eq_error hfirst⟩
      · obtain ⟨d, hd, existing, hget, hne, rfl⟩ := ih hrest
        -- an edge that was added leads to the target, so the other one was there before
        obtain hget | ⟨-, -, rfl⟩ := (get?_addEdge_eq_some hu).mp hget
        · exact ⟨d, List.mem_cons_of_mem c hd, existing, hget, hne, rfl⟩
        · exact absurd rfl hne

end Table

namespace Graph

/-- The faults of arrows: an empty label, a label that stands for nothing, and two arrows that
share a state and a character and not the target. Two such arrows are two faults, one for each
order in which they may be met; the target of the arrow that is met first is named first. -/
inductive HasFault (arrows : List Arrow) : LoadError → Prop where
  | emptyLabel {a : Arrow} (ha : a ∈ arrows) (h : a.label = "") :
    HasFault arrows (.emptyLabel a.source)
  | badLabel {a : Arrow} {e : LoadError} (ha : a ∈ arrows) (hne : a.label ≠ "")
    (h : Label.expand a.label = .error e) : HasFault arrows e
  | conflict {a b : Arrow} {c : Char} (ha : a ∈ arrows) (hb : b ∈ arrows)
    (hsource : b.source = a.source) (hac : Label.StandsFor a.label c)
    (hbc : Label.StandsFor b.label c) (hne : a.target ≠ b.target) :
    HasFault arrows (.conflict a.source c a.target b.target)

variable {arrows arrows' : List Arrow} {e : LoadError} {t : Table}

/-- More arrows have no fewer faults. -/
theorem HasFault.mono (h : HasFault arrows e) (hsub : arrows ⊆ arrows') : HasFault arrows' e := by
  cases h with
  | emptyLabel ha hlabel => exact .emptyLabel (hsub ha) hlabel
  | badLabel ha hne hlabel => exact .badLabel (hsub ha) hne hlabel
  | conflict ha hb hsource hac hbc hne =>
      exact .conflict (hsub ha) (hsub hb) hsource hac hbc hne

/-- An arrow that is refused has a fault, alone or together with one that is there. -/
theorem hasFault_of_addTo {a : Arrow} (ht : arrows.foldlM (fun t a => a.addTo t) Table.empty = .ok t)
    (h : a.addTo t = .error e) : HasFault (arrows ++ [a]) e := by
  have ha : a ∈ arrows ++ [a] := by simp
  unfold Arrow.addTo at h
  split at h
  · next hlabel =>
      cases h
      exact .emptyLabel ha hlabel
  · next hlabel =>
      obtain hexpand | ⟨cs, hexpand, hadd⟩ := bind_eq_error.mp h
      · exact .badLabel ha hlabel hexpand
      · obtain ⟨c, hc, existing, hget, hne, rfl⟩ := Table.addEdges_eq_error hadd
        rw [get?_foldlM_addTo ht, Table.get?_empty] at hget
        obtain ⟨b, hb, hsource, rfl, hbc⟩ := hget.resolve_left (by simp)
        have hb' : b ∈ arrows ++ [a] := List.mem_append_left [a] hb
        have hfault := HasFault.conflict hb' ha hsource.symm hbc ⟨cs, hexpand, hc⟩ hne
        rwa [hsource] at hfault

/-- What is reported of arrows is one of their faults. -/
theorem hasFault_of_foldlM (h : arrows.foldlM (fun t a => a.addTo t) Table.empty = .error e) :
    HasFault arrows e := by
  induction arrows using List.reverseRecOn with
  | nil => cases h
  | append_singleton arrows a ih =>
      obtain hfront | ⟨t, ht, hlast⟩ := foldlM_concat_eq_error.mp h
      · exact (ih hfront).mono (List.subset_append_left arrows [a])
      · exact hasFault_of_addTo ht hlast

/-- What is reported of a graph is one of its faults. -/
theorem hasFault_of_toTable {g : Graph} (h : g.toTable = .error e) : HasFault g.arrows e :=
  hasFault_of_foldlM h

/-- The labels of arrows that could be added can be read. -/
theorem exists_expand_of_foldlM {u : Table} (h : arrows.foldlM (fun t a => a.addTo t) t = .ok u) :
    ∀ a ∈ arrows, ∃ cs, Label.expand a.label = .ok cs := by
  induction arrows generalizing t with
  | nil => simp
  | cons a arrows ih =>
      obtain ⟨v, hv, hrest⟩ := foldlM_cons_eq_ok.mp h
      obtain ⟨-, cs, hcs, -⟩ := Arrow.addTo_eq_ok hv
      exact List.forall_mem_cons.mpr ⟨⟨cs, hcs⟩, ih hrest⟩

/-- Arrows whose labels can be read and that are the edges of one table have no fault. -/
theorem not_hasFault_of_get? (hlabels : ∀ a ∈ arrows, ∃ cs, Label.expand a.label = .ok cs)
    (hedges : ∀ s c q, t.get? s c = some q ↔
      ∃ a ∈ arrows, a.source = s ∧ a.target = q ∧ Label.StandsFor a.label c) :
    ¬HasFault arrows e := by
  intro hfault
  cases hfault with
  | @emptyLabel a ha hempty =>
      obtain ⟨cs, hcs⟩ := hlabels a ha
      rw [hempty] at hcs
      cases hcs
  | @badLabel a _ ha _ hbad =>
      obtain ⟨cs, hcs⟩ := hlabels a ha
      rw [hbad] at hcs
      cases hcs
  | @conflict a b c ha hb hsource hac hbc hne =>
      have hleft := (hedges a.source c a.target).mpr ⟨a, ha, rfl, rfl, hac⟩
      have hright := (hedges a.source c b.target).mpr ⟨b, hb, hsource, rfl, hbc⟩
      exact hne (Option.some.inj (hleft.symm.trans hright))

/-- A graph that has a table has no fault. -/
theorem not_hasFault_of_toTable {g : Graph} (h : g.toTable = .ok t) : ¬HasFault g.arrows e :=
  not_hasFault_of_get? (exists_expand_of_foldlM h) fun _ _ _ => get?_toTable h

end Graph

end CircuitScan
