import CircuitScan.Position

/-!
# CircuitScan.Proofs.PositionOrder

Reading order on positions. Moving over characters never goes back, and moving over at least one
character goes ahead:

* `lt_of_advance?` — a character leads to a later position;
* `le_of_advanceAll?` and `lt_of_advanceAll?` — so do lists of them.
-/

namespace CircuitScan.Position

/-! ## The order in numbers -/

/-- Rows decide, and columns decide on one row. -/
theorem lt_iff {p q : Position} :
    p < q ↔ p.row.toNat < q.row.toNat ∨ p.row.toNat = q.row.toNat ∧ p.col.toNat < q.col.toNat := by
  change compare p q = .lt ↔ _
  have hcmp : compare p q = (compare p.row q.row).then (compare p.col q.col) := rfl
  rw [hcmp, Ordering.then_eq_lt, Std.compare_eq_lt, Std.compare_eq_lt, Std.compare_eq_iff_eq,
    UInt32.lt_iff_toNat_lt, UInt32.lt_iff_toNat_lt, UInt32.toNat_inj]

theorem compare_eq_eq_iff {p q : Position} : compare p q = .eq ↔ p = q := by
  have hcmp : compare p q = (compare p.row q.row).then (compare p.col q.col) := rfl
  rw [hcmp, Ordering.then_eq_eq, Std.compare_eq_iff_eq, Std.compare_eq_iff_eq]
  cases p
  cases q
  simp

theorem le_iff {p q : Position} : p ≤ q ↔ p < q ∨ p = q := by
  rw [← compare_eq_eq_iff]
  exact Ordering.isLE_iff_eq_lt_or_eq_eq

theorem lt_trans {p q r : Position} (h : p < q) (h' : q < r) : p < r := by
  rw [lt_iff] at *
  omega

theorem lt_of_lt_of_le {p q r : Position} (h : p < q) (h' : q ≤ r) : p < r := by
  rcases le_iff.mp h' with h' | rfl
  · exact lt_trans h h'
  · exact h

theorem le_refl (p : Position) : p ≤ p := le_iff.mpr (.inr rfl)

theorem le_trans {p q r : Position} (h : p ≤ q) (h' : q ≤ r) : p ≤ r := by
  rcases le_iff.mp h with h | rfl
  · exact le_iff.mpr (.inl (lt_of_lt_of_le h h'))
  · exact h'

/-! ## Moving ahead -/

/-- A character leads to a later position: a line feed to a later row, any other character to a
later column of the same row. -/
theorem lt_of_advance? {p q : Position} {c : Char} (h : p.advance? c = some q) : p < q := by
  rw [lt_iff]
  unfold advance? at h
  split at h
  · obtain ⟨row, hrow, rfl⟩ := Option.map_eq_some_iff.mp h
    have hsucc := succ?_eq_some hrow
    left
    dsimp only
    omega
  · obtain ⟨col, hcol, rfl⟩ := Option.map_eq_some_iff.mp h
    have hsucc := succ?_eq_some hcol
    right
    dsimp only
    omega

/-- Characters never lead back. -/
theorem le_of_advanceAll? {p q : Position} {cs : List Char} (h : p.advanceAll? cs = some q) :
    p ≤ q := by
  induction cs generalizing p with
  | nil =>
      obtain rfl : p = q := by simpa using h
      exact le_refl p
  | cons c cs ih =>
      rw [advanceAll?_cons] at h
      obtain ⟨m, hm, hq⟩ := Option.bind_eq_some_iff.mp h
      exact le_trans (le_iff.mpr (.inl (lt_of_advance? hm))) (ih hq)

/-- One character or more lead ahead. -/
theorem lt_of_advanceAll? {p q : Position} {cs : List Char} (h : p.advanceAll? cs = some q)
    (hne : cs ≠ []) : p < q := by
  cases cs with
  | nil => contradiction
  | cons c cs =>
      rw [advanceAll?_cons] at h
      obtain ⟨m, hm, hq⟩ := Option.bind_eq_some_iff.mp h
      exact lt_of_lt_of_le (lt_of_advance? hm) (le_of_advanceAll? hq)

end CircuitScan.Position
