import CircuitScan.Proofs.Building
import Mathlib.Data.Set.Card

/-!
# CircuitScan.Proofs.GraphOrder

The table of a graph does not depend on the order in which rows and labels are visited. Whether
there is one is a question about the arrows only (`IsExpandable`): each label must be readable, and
no state may have two targets for one character. The table then has an edge for each character of
each arrow, and as its edges are kept in ascending order, two visits list them alike.

* `exists_toTable_iff` — which graphs have a table;
* `toTable_of_reorders` — the table that every order of visits leads to.
-/

namespace CircuitScan

namespace Table

variable {t u : Table}

/-- The size of a table is the number of pairs of a state and a character that have a target. -/
theorem encard_isSome_get? (t : Table) :
    Set.encard {p : Nat × Char | (t.get? p.1 p.2).isSome} = t.size := by
  have hkeys : {p : Nat × Char | (t.get? p.1 p.2).isSome} = t.edges.keys.toFinset := by
    ext p
    simp [get?]
  rw [hkeys, Set.encard_coe_eq_coe_finsetCard,
    List.toFinset_card_of_nodup Std.TreeMap.nodup_keys, Std.TreeMap.length_keys]
  rfl

/-- Tables with the same view have the same listing. -/
theorem toList_eq_of_get? (h : ∀ s c q, t.get? s c = some q ↔ u.get? s c = some q) :
    t.edges.toList = u.edges.toList := by
  have hsame : t.edges.Equiv u.edges :=
    .of_forall_constGet?_eq fun (s, c) => Option.ext fun q => h s c q
  exact hsame.toList_eq

end Table

namespace Graph

variable {g g' : Graph} {t : Table}

/-- Each label is written and can be read, and where two arrows of one state share a character, they
share the target. -/
structure IsExpandable (g : Graph) : Prop where
  label_ne : ∀ a ∈ g.arrows, a.label ≠ ""
  readable : ∀ a ∈ g.arrows, ∃ cs, Label.expand a.label = .ok cs
  target_eq : ∀ a ∈ g.arrows, ∀ b ∈ g.arrows, a.source = b.source →
    ∀ c, Label.StandsFor a.label c → Label.StandsFor b.label c → a.target = b.target

/-- A graph is expandable if it has no fault. -/
theorem isExpandable_iff : g.IsExpandable ↔ ∀ e, ¬HasFault g.arrows e := by
  constructor
  · intro h e hfault
    cases hfault with
    | emptyLabel ha hempty => exact h.label_ne _ ha hempty
    | badLabel ha _ hbad =>
        obtain ⟨cs, hcs⟩ := h.readable _ ha
        rw [hbad] at hcs
        contradiction
    | conflict ha hb hsource hac hbc hne =>
        exact hne (h.target_eq _ ha _ hb hsource.symm _ hac hbc)
  · intro h
    have hne : ∀ a ∈ g.arrows, a.label ≠ "" := fun a ha hempty => h _ (.emptyLabel ha hempty)
    constructor
    case label_ne => exact hne
    case readable =>
      intro a ha
      cases hexpand : Label.expand a.label with
      | ok cs => exact ⟨cs, rfl⟩
      | error e => exact absurd (.badLabel ha (hne a ha) hexpand) (h e)
    case target_eq =>
      intro a ha b hb hsource c hac hbc
      by_contra htarget
      exact h _ (.conflict ha hb hsource.symm hac hbc htarget)

/-- A graph has a table if it is expandable. -/
theorem exists_toTable_iff : (∃ t, g.toTable = .ok t) ↔ g.IsExpandable := by
  rw [isExpandable_iff]
  constructor
  · rintro ⟨t, ht⟩ e
    exact not_hasFault_of_toTable ht
  · intro h
    cases htable : g.toTable with
    | ok t => exact ⟨t, rfl⟩
    | error e => exact absurd (hasFault_of_toTable htable) (h e)

/-- The order of visits does not decide whether a graph is expandable. -/
theorem Reorders.isExpandable_iff (h : g.Reorders g') : g'.IsExpandable ↔ g.IsExpandable := by
  rw [Graph.isExpandable_iff, Graph.isExpandable_iff]
  have hsub : g'.arrows ⊆ g.arrows := fun a ha => (h.mem_arrows_iff a).mp ha
  have hsub' : g.arrows ⊆ g'.arrows := fun a ha => (h.mem_arrows_iff a).mpr ha
  exact ⟨fun hnone e hfault => hnone e (hfault.mono hsub'),
    fun hnone e hfault => hnone e (hfault.mono hsub)⟩

/-- The table of a graph: one edge for each character of each arrow, and no other. -/
structure IsTable (g : Graph) (t : Table) : Prop where
  get?_eq_some : ∀ s c q, t.get? s c = some q ↔
    ∃ a ∈ g.arrows, a.source = s ∧ a.target = q ∧ Label.StandsFor a.label c
  size_eq : t.size =
    Set.encard {p : Nat × Char | ∃ a ∈ g.arrows, a.source = p.1 ∧ Label.StandsFor a.label p.2}

theorem isTable_of_toTable (h : g.Reorders g') (ht : g'.toTable = .ok t) : g.IsTable t := by
  have hget (s : Nat) (c : Char) (q : Nat) : t.get? s c = some q ↔
      ∃ a ∈ g.arrows, a.source = s ∧ a.target = q ∧ Label.StandsFor a.label c := by
    simp only [get?_toTable ht, h.mem_arrows_iff]
  constructor
  case get?_eq_some => exact hget
  case size_eq =>
    rw [← Table.encard_isSome_get?]
    congr 1
    ext p
    simp only [Set.mem_ofPred_eq, Option.isSome_iff_exists, hget]
    constructor
    · rintro ⟨q, a, ha, hsource, -, hc⟩
      exact ⟨a, ha, hsource, hc⟩
    · rintro ⟨a, ha, hsource, hc⟩
      exact ⟨a.target, a, ha, hsource, rfl, hc⟩

/-- **Order of visits**: whether a graph has a table, and which, is decided by its arrows. -/
theorem toTable_of_reorders (h : g.Reorders g') :
    ((∃ t, g'.toTable = .ok t) ↔ g.IsExpandable) ∧
      ∀ t, g'.toTable = .ok t → g.IsTable t ∧
        ∀ g'', g.Reorders g'' → ∃ t', g''.toTable = .ok t' ∧ t'.edges.toList = t.edges.toList := by
  have hiff : (∃ t, g'.toTable = .ok t) ↔ g.IsExpandable := by
    rw [exists_toTable_iff, h.isExpandable_iff]
  refine ⟨hiff, fun t ht => ?_⟩
  have htable := isTable_of_toTable h ht
  refine ⟨htable, fun g'' h' => ?_⟩
  obtain ⟨t', ht'⟩ := exists_toTable_iff.mpr (h'.isExpandable_iff.mpr (hiff.mp ⟨t, ht⟩))
  have htable' := isTable_of_toTable h' ht'
  refine ⟨t', ht', Table.toList_eq_of_get? fun s c q => ?_⟩
  rw [htable.get?_eq_some, htable'.get?_eq_some]

/-- A row with two labels that share a character and the target. -/
def overlapping : Graph := ⟨[(0, [("a-c", 1), ("b|x", 1)]), (1, [("d", 2)])]⟩

/-- The same rows and labels, visited from the back. -/
def overlappingBackwards : Graph := ⟨[(1, [("d", 2)]), (0, [("b|x", 1), ("a-c", 1)])]⟩

theorem toTable_of_reorders_overlapping : overlapping.Reorders overlappingBackwards ∧
    ∃ t, overlappingBackwards.toTable = .ok t ∧ overlapping.IsTable t := by
  have horder : overlapping.Reorders overlappingBackwards :=
    ⟨[(1, [("d", 2)]), (0, [("a-c", 1), ("b|x", 1)])], .swap _ _ _,
      .cons ⟨rfl, .refl _⟩ (.cons ⟨rfl, .swap _ _ _⟩ .nil)⟩
  have hok : overlappingBackwards.toTable.isOk := by decide +kernel
  cases ht : overlappingBackwards.toTable with
  | error e =>
      rw [ht] at hok
      contradiction
  | ok t => exact ⟨horder, t, rfl, ((toTable_of_reorders horder).2 t ht).1⟩

end Graph

end CircuitScan
