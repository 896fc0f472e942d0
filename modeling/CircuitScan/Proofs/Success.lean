import CircuitScan.Fault

/-!
# CircuitScan.Proofs.Success

Taking computations apart that may fail: one that succeeds did so at each of its steps, and one that
fails did so at the first step that failed.
-/

namespace CircuitScan

theorem bind_eq_ok {e : Except ε α} {f : α → Except ε β} {b : β} :
    e >>= f = .ok b ↔ ∃ a, e = .ok a ∧ f a = .ok b := by
  cases e with
  | error err => simp [bind, Except.bind]
  | ok a => simp [bind, Except.bind]

theorem bind_eq_error {e : Except ε α} {f : α → Except ε β} {err : ε} :
    e >>= f = .error err ↔ e = .error err ∨ ∃ a, e = .ok a ∧ f a = .error err := by
  cases e with
  | error err' => simp [bind, Except.bind]
  | ok a => simp [bind, Except.bind]

theorem map_eq_error {e : Except ε α} {f : α → β} {err : ε} :
    e.map f = .error err ↔ e = .error err := by
  cases e with
  | error err' => simp [Except.map]
  | ok a => simp [Except.map]

theorem mapError_eq_ok {e : Except ε α} {f : ε → ε'} {a : α} :
    e.mapError f = .ok a ↔ e = .ok a := by
  cases e with
  | error err =>
      constructor
      · intro h
        cases h
      · intro h
        cases h
  | ok b =>
      constructor
      · intro h
        cases h
        rfl
      · intro h
        cases h
        rfl

theorem mapError_eq_error {e : Except ε α} {f : ε → ε'} {err : ε'} :
    e.mapError f = .error err ↔ ∃ cause, e = .error cause ∧ f cause = err := by
  cases e with
  | error cause =>
      constructor
      · intro h
        cases h
        exact ⟨cause, rfl, rfl⟩
      · rintro ⟨cause', hcause, rfl⟩
        cases hcause
        rfl
  | ok a =>
      constructor
      · intro h
        cases h
      · rintro ⟨cause, hcause, -⟩
        cases hcause

theorem toOption_eq_some {e : Except ε α} {a : α} : e.toOption = some a ↔ e = .ok a := by
  cases e with
  | error err => simp [Except.toOption]
  | ok b => simp [Except.toOption]

/-- A fold over a list succeeds through its first element. -/
theorem foldlM_cons_eq_ok {f : β → α → Except ε β} {a : α} {as : List α} {s t : β} :
    (a :: as).foldlM f s = .ok t ↔ ∃ m, f s a = .ok m ∧ as.foldlM f m = .ok t := by
  rw [List.foldlM_cons, bind_eq_ok]

/-- A fold over a list succeeds through its last element. -/
theorem foldlM_concat_eq_ok {f : β → α → Except ε β} {a : α} {as : List α} {s t : β} :
    (as ++ [a]).foldlM f s = .ok t ↔ ∃ m, as.foldlM f s = .ok m ∧ f m a = .ok t := by
  simp [List.foldlM_append, bind_eq_ok]

/-- A fold over a list fails before its last element, or at it. -/
theorem foldlM_concat_eq_error {f : β → α → Except ε β} {a : α} {as : List α} {s : β} {err : ε} :
    (as ++ [a]).foldlM f s = .error err ↔
      as.foldlM f s = .error err ∨ ∃ m, as.foldlM f s = .ok m ∧ f m a = .error err := by
  simp [List.foldlM_append, bind_eq_error]

/-- A fold that fails does so at one of its elements. -/
theorem exists_of_foldlM_eq_error {f : β → α → Except ε β} {as : List α} {s : β} {err : ε}
    (h : as.foldlM f s = .error err) : ∃ m, ∃ a ∈ as, f m a = .error err := by
  induction as generalizing s with
  | nil => cases h
  | cons a as ih =>
      rw [List.foldlM_cons] at h
      obtain hfirst | ⟨m, -, hrest⟩ := bind_eq_error.mp h
      · exact ⟨s, a, List.mem_cons_self, hfirst⟩
      · obtain ⟨m, b, hb, hfail⟩ := ih hrest
        exact ⟨m, b, List.mem_cons_of_mem a hb, hfail⟩

/-- So does a traversal. -/
theorem exists_of_mapM_eq_error {f : α → Except ε β} {as : List α} {err : ε}
    (h : as.mapM f = .error err) : ∃ a ∈ as, f a = .error err := by
  induction as with
  | nil => cases h
  | cons a as ih =>
      rw [List.mapM_cons] at h
      obtain hfirst | ⟨b, -, hrest⟩ := bind_eq_error.mp h
      · exact ⟨a, List.mem_cons_self, hfirst⟩
      · obtain hrest | ⟨bs, -, hpure⟩ := bind_eq_error.mp hrest
        · obtain ⟨a', ha', hfail⟩ := ih hrest
          exact ⟨a', List.mem_cons_of_mem a ha', hfail⟩
        · cases hpure

end CircuitScan
