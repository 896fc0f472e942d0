import CircuitScan.Proofs.Success
import CircuitScan.Table

/-!
# CircuitScan.Proofs.TableEdges

The edges of a table that is built edge by edge. As a second target is refused, edges are only
ever added: a table that could be built has the edges it had before and the new ones, and nothing
tells in which order they came.
-/

namespace CircuitScan.Table

variable {t u : Table} {state target : Nat} {cs : List Char}

/-- A state that took an edge moved nowhere else on the character. -/
theorem get?_of_addEdge {c : Char} (h : t.addEdge state c target = .ok u) {existing : Nat}
    (hget : t.get? state c = some existing) : existing = target := by
  unfold addEdge add at h
  rw [hget] at h
  dsimp only at h
  by_cases heq : existing = target
  · exact heq
  · rw [if_neg heq] at h
    cases h

theorem get?_addEdge_eq_some {c : Char} (h : t.addEdge state c target = .ok u) {s q : Nat}
    {d : Char} :
    u.get? s d = some q ↔ t.get? s d = some q ∨ s = state ∧ d = c ∧ q = target := by
  rw [get?_addEdge h]
  by_cases hedge : state = s ∧ c = d
  · obtain ⟨rfl, rfl⟩ := hedge
    rw [if_pos ⟨rfl, rfl⟩]
    constructor
    · intro hq
      exact .inr ⟨rfl, rfl, (Option.some.inj hq).symm⟩
    · rintro (hget | ⟨-, -, rfl⟩)
      · rw [get?_of_addEdge h hget]
      · rfl
  · rw [if_neg hedge]
    constructor
    · exact .inl
    · rintro (hget | ⟨rfl, rfl, -⟩)
      · exact hget
      · exact absurd ⟨rfl, rfl⟩ hedge

/-- Edges for a list of characters are those that were there and one for each character. -/
theorem get?_addEdges_eq_some (h : t.addEdges state cs target = .ok u) {s q : Nat} {d : Char} :
    u.get? s d = some q ↔ t.get? s d = some q ∨ s = state ∧ d ∈ cs ∧ q = target := by
  unfold addEdges at h
  induction cs generalizing t with
  | nil =>
      cases h
      simp
  | cons c cs ih =>
      obtain ⟨v, hv, hrest⟩ := foldlM_cons_eq_ok.mp h
      rw [ih hrest, get?_addEdge_eq_some hv, List.mem_cons]
      grind

/-- Edges from each of a list of states. -/
theorem get?_foldlM_addEdges_eq_some {states : List Nat}
    (h : states.foldlM (fun t s => t.addEdges s cs target) t = .ok u) {s q : Nat} {d : Char} :
    u.get? s d = some q ↔ t.get? s d = some q ∨ s ∈ states ∧ d ∈ cs ∧ q = target := by
  induction states generalizing t with
  | nil =>
      cases h
      simp
  | cons state states ih =>
      obtain ⟨v, hv, hrest⟩ := foldlM_cons_eq_ok.mp h
      rw [ih hrest, get?_addEdges_eq_some hv, List.mem_cons]
      grind

/-- A word leads over its last character. -/
theorem run_concat_eq_some {w : List Char} {c : Char} {s q : Nat} :
    t.run s (w ++ [c]) = some q ↔ ∃ m, t.run s w = some m ∧ t.get? m c = some q := by
  rw [run_append, Option.bind_eq_some_iff]
  simp

/-- A state whose edges all lead back to it is never left. -/
theorem run_loop {rest : Char → Bool} {s : Nat}
    (h : ∀ c q, t.get? s c = some q ↔ q = s ∧ rest c) {w : List Char} {q : Nat} :
    t.run s w = some q ↔ q = s ∧ w.all rest := by
  induction w with
  | nil => simp [eq_comm]
  | cons c w ih =>
      rw [run_cons, Option.bind_eq_some_iff, List.all_cons, Bool.and_eq_true]
      constructor
      · rintro ⟨m, hm, hrun⟩
        obtain ⟨rfl, hc⟩ := (h c m).mp hm
        obtain ⟨hq, hw⟩ := ih.mp hrun
        exact ⟨hq, hc, hw⟩
      · rintro ⟨hq, hc, hw⟩
        exact ⟨s, (h c s).mpr ⟨rfl, hc⟩, ih.mpr ⟨hq, hw⟩⟩

end CircuitScan.Table
