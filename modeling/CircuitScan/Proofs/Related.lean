import CircuitScan.Proofs.Success
import Mathlib.Data.List.Forall2

/-!
# CircuitScan.Proofs.Related

Two lists whose elements are related one by one. Searches that agree on related elements agree on
the lists, and an element of either list has a partner in the other. A traversal that may fail
relates its elements to their results.
-/

namespace CircuitScan

variable {R : α → β → Prop} {as : List α} {bs : List β}

theorem any_eq_of_forall₂ {p : α → Bool} {q : β → Bool} (h : List.Forall₂ R as bs)
    (hpq : ∀ a b, R a b → p a = q b) : as.any p = bs.any q := by
  induction h with
  | nil => rfl
  | cons hab _ ih => rw [List.any_cons, List.any_cons, hpq _ _ hab, ih]

/-- Searches that agree on related elements find related elements. -/
theorem find?_of_forall₂ {p : α → Bool} {q : β → Bool} (h : List.Forall₂ R as bs)
    (hpq : ∀ a b, R a b → p a = q b) :
    (as.find? p = none ∧ bs.find? q = none) ∨
      ∃ a b, as.find? p = some a ∧ bs.find? q = some b ∧ R a b := by
  induction h with
  | nil => exact .inl ⟨rfl, rfl⟩
  | @cons a b as bs hab _ ih =>
      rw [List.find?_cons, List.find?_cons, hpq a b hab]
      cases q b with
      | true => exact .inr ⟨a, b, rfl, rfl, hab⟩
      | false => exact ih

/-- Maps that agree on related elements give one list. -/
theorem map_eq_of_forall₂ {f : α → γ} {g : β → γ} (h : List.Forall₂ R as bs)
    (hfg : ∀ a b, R a b → f a = g b) : as.map f = bs.map g := by
  induction h with
  | nil => rfl
  | cons hab _ ih => rw [List.map_cons, List.map_cons, hfg _ _ hab, ih]

/-- A list that is related to a second one is related to what the second is related to. -/
theorem forall₂_trans {S : β → γ → Prop} {T : α → γ → Prop} {cs : List γ}
    (hRS : ∀ a b c, R a b → S b c → T a c) (hR : List.Forall₂ R as bs)
    (hS : List.Forall₂ S bs cs) : List.Forall₂ T as cs := by
  induction hR generalizing cs with
  | nil =>
      cases hS
      exact .nil
  | cons hab _ ih =>
      obtain ⟨c, cs, hbc, hrest, rfl⟩ := List.forall₂_cons_left_iff.mp hS
      exact .cons (hRS _ _ _ hab hbc) (ih hrest)

theorem exists_related_left (h : List.Forall₂ R as bs) : ∀ a ∈ as, ∃ b ∈ bs, R a b := by
  induction h with
  | nil => simp
  | @cons a b as bs hab _ ih =>
      intro x hx
      rcases List.mem_cons.mp hx with rfl | hx
      · exact ⟨b, by simp, hab⟩
      · obtain ⟨y, hy, hxy⟩ := ih x hx
        exact ⟨y, by simp [hy], hxy⟩

theorem exists_related_right (h : List.Forall₂ R as bs) : ∀ b ∈ bs, ∃ a ∈ as, R a b :=
  exists_related_left h.flip

/-- A list of which each element has a partner has partners for all of them. -/
theorem exists_forall₂_iff : (∃ bs, List.Forall₂ R as bs) ↔ ∀ a ∈ as, ∃ b, R a b := by
  constructor
  · rintro ⟨bs, h⟩ a ha
    obtain ⟨b, -, hab⟩ := exists_related_left h a ha
    exact ⟨b, hab⟩
  · intro h
    induction as with
    | nil => exact ⟨[], .nil⟩
    | cons a as ih =>
        obtain ⟨ha, has⟩ := List.forall_mem_cons.mp h
        obtain ⟨b, hab⟩ := ha
        obtain ⟨bs, hbs⟩ := ih has
        exact ⟨b :: bs, .cons hab hbs⟩

/-- What is related to a list with a last element has a last element. -/
theorem exists_of_forall₂_concat {b : β} (h : List.Forall₂ R as (bs ++ [b])) :
    ∃ as' a, as = as' ++ [a] ∧ List.Forall₂ R as' bs ∧ R a b := by
  induction bs generalizing as with
  | nil =>
      obtain ⟨a, as', hab, hrest, rfl⟩ := List.forall₂_cons_right_iff.mp h
      obtain rfl := List.forall₂_nil_right_iff.mp hrest
      exact ⟨[], a, rfl, .nil, hab⟩
  | cons c bs ih =>
      obtain ⟨a, as', hac, hrest, rfl⟩ := List.forall₂_cons_right_iff.mp h
      obtain ⟨front, last, rfl, hfront, hlast⟩ := ih hrest
      exact ⟨a :: front, last, rfl, .cons hac hfront, hlast⟩

/-! ## Traversals -/

variable {f : α → Except ε β}

/-- A traversal succeeds with the results of its elements. -/
theorem mapM_eq_ok_iff : as.mapM f = .ok bs ↔ List.Forall₂ (fun a b => f a = .ok b) as bs := by
  induction as generalizing bs with
  | nil => simp [pure, Except.pure, eq_comm]
  | cons a as ih =>
      rw [List.mapM_cons, bind_eq_ok, List.forall₂_cons_left_iff]
      constructor
      · rintro ⟨b, hb, hrest⟩
        obtain ⟨bs, hbs, hpure⟩ := bind_eq_ok.mp hrest
        cases hpure
        exact ⟨b, bs, hb, ih.mp hbs, rfl⟩
      · rintro ⟨b, bs, hb, hbs, rfl⟩
        exact ⟨b, hb, bind_eq_ok.mpr ⟨bs, ih.mpr hbs, rfl⟩⟩

/-- A traversal fails at the first element that has no result. -/
theorem mapM_eq_error {front back : List α} {bad : α} {err : ε}
    (hfront : List.Forall₂ (fun a b => f a = .ok b) front bs) (hbad : f bad = .error err) :
    (front ++ bad :: back).mapM f = .error err := by
  have hrest : (bad :: back).mapM f = .error err := by
    rw [List.mapM_cons]
    exact bind_eq_error.mpr (.inl hbad)
  rw [List.mapM_append, mapM_eq_ok_iff.mpr hfront, hrest]
  rfl

end CircuitScan
