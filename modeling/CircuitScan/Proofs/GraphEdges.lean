import CircuitScan.Graph
import CircuitScan.Proofs.TableEdges

/-!
# CircuitScan.Proofs.GraphEdges

The edges of the table of a graph. A graph that has a table loses no arrow and shortens none: the
table has one edge for each character of each arrow, and no other.
-/

namespace CircuitScan

namespace Label

/-- A label can be read, and holds the character. -/
def StandsFor (label : String) (c : Char) : Prop := ∃ cs, expand label = .ok cs ∧ c ∈ cs

variable {label : String} {c : Char}

theorem standsFor_singleton {d : Char} (h : label.toList = [d]) : StandsFor label c ↔ c = d := by
  have hexpand : expand label = .ok [d] := by
    unfold expand
    rw [h]
  simp [StandsFor, hexpand]

theorem standsFor_range {low high : Char} (h : label.toList = [low, '-', high])
    (hlow : low ≠ '\n') (hhigh : high ≠ '\n') :
    StandsFor label c ↔ low ≤ c ∧ c ≤ high := by
  have hexpand : expand label =
      if low ≤ high then .ok (range low high) else .error (.unresolvableClass label) := by
    unfold expand
    rw [h]
    simp [hlow, hhigh]
  unfold StandsFor
  rw [hexpand]
  split
  · simp [mem_range]
  · next hle =>
      have hempty : ¬(low ≤ c ∧ c ≤ high) := fun hc => hle (Char.le_trans hc.1 hc.2)
      simp [hempty]

end Label

namespace Graph

variable {t u : Table} {s q : Nat} {c : Char}

theorem Arrow.addTo_eq_ok {a : Arrow} (h : a.addTo t = .ok u) :
    a.label ≠ "" ∧ ∃ cs, Label.expand a.label = .ok cs ∧ t.addEdges a.source cs a.target = .ok u := by
  unfold addTo at h
  split at h
  · contradiction
  · next hne =>
      obtain ⟨cs, hcs, hadd⟩ := bind_eq_ok.mp h
      exact ⟨hne, cs, hcs, hadd⟩

theorem Arrow.get?_addTo {a : Arrow} (h : a.addTo t = .ok u) :
    u.get? s c = some q ↔
      t.get? s c = some q ∨ a.source = s ∧ a.target = q ∧ Label.StandsFor a.label c := by
  obtain ⟨-, cs, hcs, hadd⟩ := addTo_eq_ok h
  have hstands : Label.StandsFor a.label c ↔ c ∈ cs := by
    simp [Label.StandsFor, hcs]
  rw [Table.get?_addEdges_eq_some hadd, hstands]
  grind

theorem get?_foldlM_addTo {arrows : List Arrow}
    (h : arrows.foldlM (fun t a => a.addTo t) t = .ok u) :
    u.get? s c = some q ↔ t.get? s c = some q ∨
      ∃ a ∈ arrows, a.source = s ∧ a.target = q ∧ Label.StandsFor a.label c := by
  induction arrows generalizing t with
  | nil =>
      cases h
      simp
  | cons a arrows ih =>
      obtain ⟨v, hv, hrest⟩ := foldlM_cons_eq_ok.mp h
      rw [ih hrest, Arrow.get?_addTo hv, or_assoc]
      simp only [List.mem_cons, exists_eq_or_imp]

/-- The edges of the table of a graph are those of its arrows. -/
theorem get?_toTable {g : Graph} (h : g.toTable = .ok t) :
    t.get? s c = some q ↔
      ∃ a ∈ g.arrows, a.source = s ∧ a.target = q ∧ Label.StandsFor a.label c := by
  rw [get?_foldlM_addTo h, Table.get?_empty]
  simp

end Graph

end CircuitScan
