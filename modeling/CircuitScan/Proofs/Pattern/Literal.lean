import CircuitScan.Proofs.Pattern.Language

/-!
# CircuitScan.Proofs.Pattern.Literal

Patterns without special characters. Such a pattern has one unit for each of its characters, and
itself as its only word.
-/

namespace CircuitScan.Pattern

/-- The unit of a character that stands for itself. -/
def plain (c : Char) : Unit := { characters := [c] }

/-- Whether a character stands for itself between two units. -/
def isPlain (c : Char) : Bool := c ≠ '*' && c ≠ '[' && c ≠ ']' && c ≠ '\\'

theorem isPlain_iff {c : Char} : isPlain c ↔ c ≠ '*' ∧ c ≠ '[' ∧ c ≠ ']' ∧ c ≠ '\\' := by
  simp [isPlain, and_assoc]

theorem read_plain {pattern : String} {us : List Unit} {c : Char} (hc : isPlain c) :
    Reader.read pattern ⟨us, .between⟩ c = .ok ⟨plain c :: us, .between⟩ := by
  obtain ⟨hstar, hopen, hclose, hback⟩ := isPlain_iff.mp hc
  unfold Reader.read
  dsimp only
  split <;> first | contradiction | rfl

theorem foldlM_read_plain {pattern : String} {cs : List Char} (h : ∀ c ∈ cs, isPlain c)
    (us : List Unit) :
    cs.foldlM (Reader.read pattern) ⟨us, .between⟩ =
      .ok ⟨(cs.map plain).reverse ++ us, .between⟩ := by
  induction cs generalizing us with
  | nil => rfl
  | cons c cs ih =>
      have hc : isPlain c := h c (by simp)
      have hcs : ∀ c ∈ cs, isPlain c := fun d hd => h d (by simp [hd])
      rw [List.foldlM_cons, read_plain hc]
      show cs.foldlM (Reader.read pattern) ⟨plain c :: us, .between⟩ = _
      rw [ih hcs]
      simp

/-- A pattern without special characters has one unit for each character. -/
theorem parse_plain {text : String} (hne : text.toList ≠ []) (h : ∀ c ∈ text.toList, isPlain c) :
    parse text = .ok (text.toList.map plain) := by
  unfold parse
  rw [foldlM_read_plain h]
  show Reader.finish text ⟨(text.toList.map plain).reverse ++ [], .between⟩ = _
  simp [Reader.finish, hne]

/-- Plain units have only one word. -/
theorem denotes_map_plain {cs w : List Char} : Denotes (cs.map plain) w ↔ w = cs := by
  induction cs generalizing w with
  | nil => exact denotes_nil
  | cons c cs ih =>
      rw [List.map_cons, denotes_cons]
      constructor
      · rintro ⟨p, v, rfl, ⟨d, hd, rfl⟩, hv⟩
        obtain rfl : d = c := by simpa [plain] using hd
        rw [ih.mp hv, List.singleton_append]
      · rintro rfl
        have hc : (plain c).Holds [c] := holds_singleton.mpr (by simp [plain])
        exact ⟨[c], cs, rfl, hc, ih.mpr rfl⟩

theorem characters_plain_ne_nil {cs : List Char} : ∀ u ∈ cs.map plain, u.characters ≠ [] := by
  intro u hu
  obtain ⟨c, -, rfl⟩ := List.mem_map.mp hu
  simp [plain]

end CircuitScan.Pattern
