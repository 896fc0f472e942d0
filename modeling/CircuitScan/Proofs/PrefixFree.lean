import Mathlib.Logic.Function.Basic

/-!
# CircuitScan.Proofs.PrefixFree

Texts that tell where they end. A way to write values is prefix-free if a text that begins with a
written value tells which value it is and what stands behind it (`PrefixFree`). Then no written
value is the beginning of another one.

1. A separator ends the texts in which it does not occur.
2. Two values are written one behind the other.
3. A list of values is written one behind the other, in front of a text that begins with no written
   value.

So what is put together from parts that tell where they end can be taken apart again.
-/

namespace CircuitScan

/-- What stands in front of the first separator is told by the text. -/
theorem eq_of_append_cons {sep : Char} {x y v w : List Char} (hx : sep ∉ x) (hy : sep ∉ y)
    (h : x ++ sep :: v = y ++ sep :: w) : x = y ∧ v = w := by
  induction x generalizing y with
  | nil =>
      cases y with
      | nil => simpa using h
      | cons d y =>
          obtain ⟨rfl, -⟩ := List.cons.inj h
          simp at hy
  | cons c x ih =>
      cases y with
      | nil =>
          obtain ⟨rfl, -⟩ := List.cons.inj h
          simp at hx
      | cons d y =>
          obtain ⟨rfl, hrest⟩ := List.cons.inj h
          rw [List.mem_cons, not_or] at hx hy
          obtain ⟨rfl, rfl⟩ := ih hx.2 hy.2 hrest
          exact ⟨rfl, rfl⟩

/-- A text that begins with a written value tells the value and what stands behind it. -/
def PrefixFree (write : α → List Char) : Prop :=
  ∀ a b v w, write a ++ v = write b ++ w → a = b ∧ v = w

namespace PrefixFree

variable {write : α → List Char} {write' : β → List Char}

theorem injective (h : PrefixFree write) : Function.Injective write := fun a b hab =>
  (h a b [] [] (by rw [hab])).1

/-- A separator behind a value that is written without it. -/
theorem terminated {sep : Char} (hwrite : Function.Injective write) (hsep : ∀ a, sep ∉ write a) :
    PrefixFree fun a => write a ++ [sep] := by
  intro a b v w heq
  rw [List.append_assoc, List.append_assoc] at heq
  obtain ⟨hab, hvw⟩ := eq_of_append_cons (hsep a) (hsep b) heq
  exact ⟨hwrite hab, hvw⟩

/-- The same text behind every value. -/
theorem followed (h : PrefixFree write) (z : List Char) : PrefixFree fun a => write a ++ z := by
  intro a b v w heq
  rw [List.append_assoc, List.append_assoc] at heq
  obtain ⟨hab, hzvw⟩ := h a b _ _ heq
  exact ⟨hab, List.append_cancel_left hzvw⟩

/-- One value behind another. -/
theorem append (h : PrefixFree write) (h' : PrefixFree write') :
    PrefixFree fun x : α × β => write x.1 ++ write' x.2 := by
  intro x y v w heq
  rw [List.append_assoc, List.append_assoc] at heq
  obtain ⟨hfst, hrest⟩ := h _ _ _ _ heq
  obtain ⟨hsnd, hvw⟩ := h' _ _ _ _ hrest
  exact ⟨Prod.ext hfst hsnd, hvw⟩

/-- Values that are written as others are. -/
theorem comp (h : PrefixFree write) {f : γ → α} (hf : Function.Injective f) :
    PrefixFree fun c => write (f c) := by
  intro c d v w heq
  obtain ⟨hcd, hvw⟩ := h _ _ v w heq
  exact ⟨hf hcd, hvw⟩

/-- **Lists** of values, in front of texts that begin with no written value. -/
theorem eq_of_flatMap_append (h : PrefixFree write) {as bs : List α} {v w : List Char}
    (hv : ∀ a, ¬write a <+: v) (hw : ∀ a, ¬write a <+: w)
    (heq : as.flatMap write ++ v = bs.flatMap write ++ w) : as = bs ∧ v = w := by
  induction as generalizing bs with
  | nil =>
      cases bs with
      | nil => exact ⟨rfl, heq⟩
      | cons b bs =>
          rw [List.flatMap_cons, List.append_assoc] at heq
          exact absurd ⟨_, heq.symm⟩ (hv b)
  | cons a as ih =>
      cases bs with
      | nil =>
          rw [List.flatMap_cons, List.append_assoc] at heq
          exact absurd ⟨_, heq⟩ (hw a)
      | cons b bs =>
          rw [List.flatMap_cons, List.flatMap_cons, List.append_assoc, List.append_assoc] at heq
          obtain ⟨rfl, hrest⟩ := h a b _ _ heq
          obtain ⟨rfl, hvw⟩ := ih hrest
          exact ⟨rfl, hvw⟩

end PrefixFree

end CircuitScan
