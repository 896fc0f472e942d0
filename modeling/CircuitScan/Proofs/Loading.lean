import CircuitScan.Proofs.Building
import CircuitScan.Proofs.DeclaredEdges
import CircuitScan.Proofs.WrittenEntries
import Mathlib.Data.List.Perm.Basic

/-!
# CircuitScan.Proofs.Loading

Loading a file of entries is building the entries. A written graph is visited in the order of some
graph with the same rows, and that graph is built; so a file has the outcomes of its entries, in
all orders of visits.

* `Registry.loads_written` — the file of a list of entries, and all other texts that are read as
  these entries.
-/

namespace CircuitScan

open Declaration (toEntry_toDeclaration)

variable {es es' : List Entry}

/-! ## Orders of written graphs -/

/-- Lists with the elements of a mapped list are mapped themselves. -/
theorem exists_perm_of_map_perm {f : α → β} {l : List α} {m : List β} (h : (l.map f).Perm m) :
    ∃ l', l.Perm l' ∧ m = l'.map f := by
  have hmap : List.Forall₂ (fun b a => b = f a) (l.map f) l := by
    rw [List.forall₂_map_left_iff, List.forall₂_same]
    exact fun _ _ => rfl
  obtain ⟨l', hl', hperm⟩ := List.perm_comp_forall₂ h.symm hmap
  refine ⟨l', hperm.symm, ?_⟩
  clear hperm h hmap
  induction hl' with
  | nil => rfl
  | cons hb _ ih => rw [List.map_cons, hb, ih]

namespace Graph

variable {g g' : Graph}

/-- A graph that can be written can be written in any order. -/
theorem Writable.of_reorders (hg : g.Writable) (h : g.Reorders g') : g'.Writable := by
  obtain ⟨mid, hperm, hmid⟩ := h
  have hrow {e' : Nat × Row} (he' : e' ∈ g'.rows) :
      ∃ e ∈ g.rows, e.1 = e'.1 ∧ e.2.Perm e'.2 := by
    obtain ⟨e, he, hsame⟩ := exists_related_right hmid e' he'
    exact ⟨e, hperm.mem_iff.mpr he, hsame⟩
  constructor
  case nodup_states =>
    have hstates : mid.map (·.1) = g'.rows.map (·.1) := map_eq_of_forall₂ hmid fun _ _ he => he.1
    rw [← hstates]
    exact (hperm.map _).nodup_iff.mp hg.nodup_states
  case nodup_labels =>
    intro e' he'
    obtain ⟨e, he, -, hsame⟩ := hrow he'
    exact (hsame.map _).nodup_iff.mp (hg.nodup_labels e he)
  case state_lt =>
    intro e' he'
    obtain ⟨e, he, hstate, -⟩ := hrow he'
    exact hstate ▸ hg.state_lt e he
  case target_lt =>
    intro e' he' a ha
    obtain ⟨e, he, -, hsame⟩ := hrow he'
    exact hg.target_lt e he a (hsame.mem_iff.mpr ha)

/-- The orders of a written graph are those of the graph. -/
theorem reorders_toWritten_iff {rows : WrittenGraph} :
    Declaration.Reorders g.toWritten rows ↔ ∃ g', g.Reorders g' ∧ rows = g'.toWritten := by
  constructor
  · rintro ⟨mid, hperm, hmid⟩
    obtain ⟨mid', hperm', rfl⟩ := exists_perm_of_map_perm hperm
    obtain ⟨rows', hrows', rfl⟩ : ∃ rows' : List (Nat × Row),
        List.Forall₂ (fun e f => e.1 = f.1 ∧ e.2.Perm f.2) mid' rows' ∧
          rows = rows'.map keyed := by
      rw [List.forall₂_map_left_iff] at hmid
      clear hperm hperm'
      induction hmid with
      | nil => exact ⟨[], .nil, rfl⟩
      | @cons e f mid rows hef _ ih =>
          obtain ⟨rows', hrows', rfl⟩ := ih
          obtain ⟨hkey, hsame⟩ := hef
          have hrow : f = keyed (e.1, f.2) := Prod.ext hkey.symm rfl
          exact ⟨(e.1, f.2) :: rows', .cons ⟨rfl, hsame⟩ hrows', congrArg (· :: _) hrow⟩
    exact ⟨⟨rows'⟩, ⟨mid', hperm', hrows'⟩, rfl⟩
  · rintro ⟨g', ⟨mid, hperm, hmid⟩, rfl⟩
    refine ⟨mid.map keyed, hperm.map keyed, ?_⟩
    rw [toWritten, List.forall₂_map_left_iff, List.forall₂_map_right_iff]
    exact hmid.imp fun _ _ hsame => ⟨congrArg Nat.repr hsame.1, hsame.2⟩

end Graph

namespace Entry

variable {e e' : Entry}

theorem Writable.of_sameUpToOrder (he : e.Writable) (h : e.SameUpToOrder e') : e'.Writable := by
  cases h with
  | pattern => exact he
  | graph name kind start accepting h =>
      obtain ⟨hstart, haccepting, hg⟩ := he
      exact ⟨hstart, haccepting, hg.of_reorders h⟩

/-- The orders of a written entry are those of the entry. -/
theorem sameUpToOrder_toDeclaration_iff {d : Declaration} :
    e.toDeclaration.SameUpToOrder d ↔ ∃ e', e.SameUpToOrder e' ∧ d = e'.toDeclaration := by
  obtain ⟨name, kind, body⟩ := e
  cases body with
  | pattern text =>
      constructor
      · intro h
        cases h
        exact ⟨_, .pattern name kind text, rfl⟩
      · rintro ⟨e', he', rfl⟩
        cases he'
        exact .pattern name kind text
  | graph start accepting g =>
      constructor
      · intro h
        cases h with
        | graph _ _ _ _ hrows =>
            obtain ⟨g', hg', rfl⟩ := Graph.reorders_toWritten_iff.mp hrows
            exact ⟨_, .graph name kind start accepting hg', rfl⟩
      · rintro ⟨e', he', rfl⟩
        cases he' with
        | graph _ _ _ _ hg' =>
            exact .graph name kind start accepting (Graph.reorders_toWritten_iff.mpr ⟨_, hg', rfl⟩)

/-- The orders of written entries are those of the entries. -/
theorem forall₂_toDeclaration_iff {ds : List Declaration} :
    List.Forall₂ Declaration.SameUpToOrder (es.map toDeclaration) ds ↔
      ∃ es', List.Forall₂ SameUpToOrder es es' ∧ ds = es'.map toDeclaration := by
  rw [List.forall₂_map_left_iff]
  constructor
  · intro h
    induction h with
    | nil => exact ⟨[], .nil, rfl⟩
    | cons he _ ih =>
        obtain ⟨e', he', rfl⟩ := sameUpToOrder_toDeclaration_iff.mp he
        obtain ⟨es', hes', rfl⟩ := ih
        exact ⟨e' :: es', .cons he' hes', rfl⟩
  · rintro ⟨es', hes', rfl⟩
    rw [List.forall₂_map_right_iff]
    exact hes'.imp fun e e' he => sameUpToOrder_toDeclaration_iff.mpr ⟨e', he, rfl⟩

theorem forall_writable_of_forall₂ (hes : ∀ e ∈ es, e.Writable)
    (h : List.Forall₂ SameUpToOrder es es') : ∀ e ∈ es', e.Writable := by
  intro e' he'
  obtain ⟨e, he, hsame⟩ := exists_related_right h e' he'
  exact (hes e he).of_sameUpToOrder hsame

end Entry

/-! ## Loading -/

namespace Registry

/-- A text that is read as these entries. -/
def Writes (text : String) (es : List Entry) : Prop :=
  Declaration.decode text = .ok (es.map Entry.toDeclaration)

/-- The outcomes of loading a text, in any order of visits. -/
def LoadsAs (text : String) (o : Except LoadError Registry) : Prop :=
  (∃ fault, Declaration.decode text = .error fault ∧ o = .error (.malformedFile fault)) ∨
    ∃ ds ds', Declaration.decode text = .ok ds ∧
      List.Forall₂ Declaration.SameUpToOrder ds ds' ∧ ds'.foldlM addDeclaration empty = o

/-- Written entries are built as the entries. -/
theorem foldlM_addDeclaration (hes : ∀ e ∈ es, e.Writable) (r : Registry) :
    (es.map Entry.toDeclaration).foldlM addDeclaration r = es.foldlM add r := by
  induction es generalizing r with
  | nil => rfl
  | cons e es ih =>
      have hone : r.addDeclaration e.toDeclaration = r.add e := by
        rw [addDeclaration, toEntry_toDeclaration (hes e List.mem_cons_self)]
        rfl
      have hrest := ih fun f hf => hes f (List.mem_cons_of_mem e hf)
      rw [List.map_cons, List.foldlM_cons, List.foldlM_cons, hone]
      exact bind_congr hrest

/-- A text that is read as entries is loaded as they are built. -/
theorem ofText_eq_ofEntries {text : String} (hes : ∀ e ∈ es, e.Writable)
    (h : Writes text es) : ofText text = ofEntries es := by
  rw [ofText, h]
  exact foldlM_addDeclaration hes empty

/-- It has the outcomes of building them. -/
theorem loadsAs_iff_buildsAs {text : String} (hes : ∀ e ∈ es, e.Writable) (h : Writes text es)
    {o : Except LoadError Registry} : LoadsAs text o ↔ BuildsAs es o := by
  constructor
  · rintro (⟨fault, hfault, -⟩ | ⟨ds, ds', hds, horder, hfold⟩)
    · rw [h] at hfault
      cases hfault
    · obtain rfl := Except.ok.inj (h.symm.trans hds)
      obtain ⟨es', hes', rfl⟩ := Entry.forall₂_toDeclaration_iff.mp horder
      rw [foldlM_addDeclaration (Entry.forall_writable_of_forall₂ hes hes')] at hfold
      exact ⟨es', hes', hfold⟩
  · rintro ⟨es', hes', hfold⟩
    have horder := Entry.forall₂_toDeclaration_iff.mpr ⟨es', hes', rfl⟩
    rw [ofEntries, ← foldlM_addDeclaration (Entry.forall_writable_of_forall₂ hes hes')] at hfold
    exact .inr ⟨_, _, h, horder, hfold⟩

/-- **Loading is building**: the file of a list of entries, as any other text that is read as these
entries, is loaded as they are built and registered one by one. In every order of visits it comes
to what the entries give: their recognizers, each ranked by its place in the list, or what the
first of them that fails gives. Two orders differ at most in which of the faults of one entry is
reported, and so in which of two targets that conflict is named first. -/
theorem loads_written (hes : ∀ e ∈ es, e.Writable) :
    Writes (Entry.writeAll es) es ∧
      ∀ text, Writes text es →
        ofText text = ofEntries es ∧
          (∀ o, LoadsAs text o ↔ BuildsAs es o) ∧
          ∀ o, LoadsAs text o →
            Gives es o ∧ ∀ o', BuildsAs es o' → OutcomesAlike Alike es o o' := by
  refine ⟨Declaration.decode_writeAll hes, fun text htext => ?_⟩
  have hsame (o : Except LoadError Registry) := loadsAs_iff_buildsAs hes htext (o := o)
  refine ⟨ofText_eq_ofEntries hes htext, hsame, fun o ho => ?_⟩
  have hbuilds := (hsame o).mp ho
  exact ⟨gives_of_buildsAs hbuilds, fun o' ho' => alike_of_buildsAs hbuilds ho'⟩

end Registry

/-- An entry that can be built, and one with two arrows that conflict and an empty label. -/
def faultyEntries : List Entry :=
  [ ⟨"in", .input, .pattern "in"⟩,
    ⟨"a", .and, .graph 0 [1] ⟨[(0, [("a", 1), ("a|b", 2)]), (1, [("", 2)])]⟩⟩ ]

/-- The file of `faultyEntries` may report the empty label or the conflict. The conflict of the
entries themselves may be met from its other side, with the other target first. -/
theorem loads_written_faultyEntries :
    (∀ e ∈ faultyEntries, e.Writable) ∧
      Registry.LoadsAs (Entry.writeAll faultyEntries)
        (.error (.inRecognizer "a" (.conflict 0 'a' 1 2))) ∧
      Registry.BuildsAs faultyEntries (.error (.inRecognizer "a" (.conflict 0 'a' 2 1))) ∧
      Registry.LoadsAs (Entry.writeAll faultyEntries)
        (.error (.inRecognizer "a" (.emptyLabel 1))) ∧
      Registry.Writes (Entry.writeAll faultyEntries) faultyEntries ∧
      ∀ text, Registry.Writes text faultyEntries →
        Registry.ofText text = Registry.ofEntries faultyEntries ∧
          (∀ o, Registry.LoadsAs text o ↔ Registry.BuildsAs faultyEntries o) ∧
          ∀ o, Registry.LoadsAs text o →
            Registry.Gives faultyEntries o ∧ ∀ o', Registry.BuildsAs faultyEntries o' →
              OutcomesAlike Registry.Alike faultyEntries o o' := by
  have hwritable : ∀ e ∈ faultyEntries, e.Writable := by decide
  obtain ⟨hwrites, hall⟩ := Registry.loads_written hwritable
  obtain ⟨-, hloads, -⟩ := hall _ hwrites
  have hconflict : Registry.BuildsAs faultyEntries
      (.error (.inRecognizer "a" (.conflict 0 'a' 1 2))) :=
    ⟨faultyEntries, List.forall₂_same.mpr fun e _ => e.sameUpToOrder_refl, rfl⟩
  -- the other label first
  have hlabels : Graph.Reorders ⟨[(0, [("a", 1), ("a|b", 2)]), (1, [("", 2)])]⟩
      ⟨[(0, [("a|b", 2), ("a", 1)]), (1, [("", 2)])]⟩ :=
    ⟨_, .refl _, .cons ⟨rfl, .swap _ _ _⟩ (.cons ⟨rfl, .refl _⟩ .nil)⟩
  have hswapped : Registry.BuildsAs faultyEntries
      (.error (.inRecognizer "a" (.conflict 0 'a' 2 1))) :=
    ⟨_, .cons (.pattern "in" .input "in") (.cons (.graph "a" .and 0 [1] hlabels) .nil), rfl⟩
  -- the other row first
  have hreorders : Graph.Reorders ⟨[(0, [("a", 1), ("a|b", 2)]), (1, [("", 2)])]⟩
      ⟨[(1, [("", 2)]), (0, [("a", 1), ("a|b", 2)])]⟩ :=
    ⟨_, .swap _ _ _, List.forall₂_same.mpr fun e _ => ⟨rfl, .refl e.2⟩⟩
  have hempty : Registry.BuildsAs faultyEntries (.error (.inRecognizer "a" (.emptyLabel 1))) :=
    ⟨_, .cons (.pattern "in" .input "in") (.cons (.graph "a" .and 0 [1] hreorders) .nil), rfl⟩
  exact ⟨hwritable, (hloads _).mpr hconflict, hswapped, (hloads _).mpr hempty, hwrites, hall⟩

end CircuitScan
