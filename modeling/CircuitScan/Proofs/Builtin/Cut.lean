import CircuitScan.Proofs.Builtin.Lexicon
import CircuitScan.Proofs.LongestMatch

/-!
# CircuitScan.Proofs.Builtin.Cut

The pieces of a text in the circuit language. What a token may go on with is decided by its first
character (`rest`), and of each such run some entry of the lexicon has every part that is not
empty. So no token ends early and none is left unterminated: each is the longest run, and the
lexicon gives its kind.

* `cut_word`, `cut_zero`, `cut_digits`, `cut_mark`, `cut_blanks`, `cut_foreign` — the cut of a text,
  by its first character.
-/

namespace CircuitScan.Builtin

/-! ## Runs -/

/-- Whether a character begins a token. -/
def begins (c : Char) : Bool :=
  isWordStart c || c.isDigit || isBlank c || marks.any fun e => e.1 = c

/-- The characters that a token which begins with `c` goes on with. -/
def rest (c : Char) : Char → Bool :=
  if isWordStart c then isWordPart
  else if c = '0' then fun _ => false
  else if c.isDigit then Char.isDigit
  else if isBlank c then isBlank
  else fun _ => false

theorem isWordStart_eq_false_of_isDigit {c : Char} (h : c.isDigit) : isWordStart c = false := by
  unfold isWordStart Char.isAlpha Char.isUpper Char.isLower
  unfold Char.isDigit at h
  simp only [Bool.or_eq_false_iff, Bool.and_eq_true, decide_eq_true_eq, decide_eq_false_iff_not,
    Bool.and_eq_false_iff, ← Char.val_inj, UInt32.le_iff_toNat_le, ← UInt32.toNat_inj,
    ge_iff_le] at *
  simp at *
  omega

theorem rest_of_isWordStart {c : Char} (h : isWordStart c) : rest c = isWordPart := if_pos h

theorem rest_zero : rest '0' = fun _ => false := rfl

theorem rest_of_isDigit {c : Char} (h : c.isDigit) (hc : c ≠ '0') : rest c = Char.isDigit := by
  simp [rest, isWordStart_eq_false_of_isDigit h, hc, h]

/-- Blanks begin nothing else. -/
theorem first_of_isBlank {c : Char} (h : isBlank c) :
    isWordStart c = false ∧ c ≠ '0' ∧ c.isDigit = false := by
  simp only [isBlank, Bool.or_eq_true, decide_eq_true_eq] at h
  rcases h with ((rfl | rfl) | rfl) | rfl <;> decide

theorem rest_of_isBlank {c : Char} (h : isBlank c) : rest c = isBlank := by
  obtain ⟨hstart, hzero, hdigit⟩ := first_of_isBlank h
  simp [rest, hstart, hzero, hdigit, h]

theorem rest_of_mem_marks {e : Char × Kind} (h : e ∈ marks) : rest e.1 = fun _ => false := by
  have hmarks : ∀ e ∈ marks,
      isWordStart e.1 = false ∧ e.1.isDigit = false ∧ isBlank e.1 = false := by
    decide
  obtain ⟨hstart, hdigit, hblank⟩ := hmarks e h
  simp [rest, hstart, hdigit, hblank]

theorem ne_slash_of_begins {c : Char} (h : begins c) : c ≠ '/' := by
  rintro rfl
  contradiction

/-- No token goes on with a slash. -/
theorem rest_slash (c : Char) : rest c '/' = false := by
  unfold rest
  split_ifs <;> rfl

/-! ## Runs of the lexicon -/

theorem isWord_of_mem_reserved : ∀ e ∈ reserved, isWord e.1.toList := by
  decide

theorem rest_of_isWord {c : Char} {v : List Char} (h : isWord (c :: v)) :
    begins c ∧ v.all (rest c) := by
  rw [isWord, Bool.and_eq_true] at h
  rw [rest_of_isWordStart h.1]
  exact ⟨by simp [begins, h.1], h.2⟩

/-- Every word of the lexicon is a run. -/
theorem rest_of_mem_lexicon {l : Kind × (List Char → Bool)} (hl : l ∈ lexicon) {c : Char}
    {v : List Char} (hw : l.2 (c :: v)) : begins c ∧ v.all (rest c) := by
  simp only [lexicon, List.mem_append, List.mem_map, List.mem_cons, List.not_mem_nil,
    or_false] at hl
  rcases hl with (⟨e, he, rfl⟩ | ⟨e, he, rfl⟩) | rfl | rfl | rfl
  · have hword := isWord_of_mem_reserved e he
    rw [← of_decide_eq_true hw] at hword
    exact rest_of_isWord hword
  · obtain ⟨rfl, rfl⟩ := List.cons.inj (of_decide_eq_true hw)
    exact ⟨by simp [begins]; exact .inr ⟨_, he⟩, rfl⟩
  · exact rest_of_isWord hw
  · by_cases hc : c = '0'
    · simp_all [isNumber, begins]
    · simp only [isNumber, if_neg hc, Bool.and_eq_true] at hw
      rw [rest_of_isDigit hw.1 hc]
      exact ⟨by simp [begins, hw.1], hw.2⟩
  · simp only [isBlanks, Bool.and_eq_true] at hw
    rw [rest_of_isBlank hw.1]
    exact ⟨by simp [begins, hw.1], hw.2⟩

/-- Some entry of the lexicon has all runs that begin with a character. -/
theorem exists_mem_lexicon {c : Char} (hc : begins c) :
    ∃ l ∈ lexicon, ∀ v : List Char, v.all (rest c) → l.2 (c :: v) := by
  have hlast : ∀ l ∈ [(Kind.identifier, isWord), (.number, isNumber), (.ignored, isBlanks)],
      l ∈ lexicon := fun l hl => List.mem_append_right _ hl
  simp only [begins, Bool.or_eq_true] at hc
  rcases hc with ((hword | hdigit) | hblank) | hmark
  · have hall (v : List Char) (hv : v.all (rest c)) : isWord (c :: v) := by
      rw [rest_of_isWordStart hword] at hv
      simp [isWord, hword, hv]
    exact ⟨(.identifier, isWord), hlast _ (by simp), hall⟩
  · have hall (v : List Char) (hv : v.all (rest c)) : isNumber (c :: v) := by
      by_cases hzero : c = '0'
      · subst hzero
        rw [rest_zero] at hv
        simpa [isNumber, List.eq_nil_iff_forall_not_mem] using hv
      · rw [rest_of_isDigit hdigit hzero] at hv
        simp [isNumber, hzero, hdigit, hv]
    exact ⟨(.number, isNumber), hlast _ (by simp), hall⟩
  · have hall (v : List Char) (hv : v.all (rest c)) : isBlanks (c :: v) := by
      rw [rest_of_isBlank hblank] at hv
      simp [isBlanks, hblank, hv]
    exact ⟨(.ignored, isBlanks), hlast _ (by simp), hall⟩
  · obtain ⟨e, he, heq⟩ := List.any_eq_true.mp hmark
    obtain rfl := of_decide_eq_true heq
    have hmem : (e.2, fun w => decide (w = [e.1])) ∈ lexicon :=
      List.mem_append_left _ (List.mem_append_right _ (List.mem_map_of_mem he))
    have hall (v : List Char) (hv : v.all (rest e.1)) : decide (e.1 :: v = [e.1]) := by
      rw [rest_of_mem_marks he] at hv
      simpa [List.eq_nil_iff_forall_not_mem] using hv
    exact ⟨_, hmem, hall⟩

/-! ## Kinds -/

/-- The kind of the highest rank among those that have the word. -/
def kind? (w : List Char) : Option Kind := (lexicon.find? fun l => l.2 w).map (·.1)

theorem kind?_eq (w : List Char) :
    kind? w = ((reservedKind? w).or ((marks.find? fun e => w = [e.1]).map (·.2))).or
      (if isWord w then some .identifier else if isNumber w then some .number
        else if isBlanks w then some .ignored else none) := by
  unfold kind? lexicon
  rw [List.find?_append, List.find?_append, Option.map_or, Option.map_or, List.find?_map,
    List.find?_map, Option.map_map, Option.map_map]
  congr 1
  simp only [List.find?_cons, List.find?_nil]
  cases isWord w <;> cases isNumber w <;> cases isBlanks w <;> rfl

theorem isWord_of_reservedKind? {w : List Char} {k : Kind} (h : reservedKind? w = some k) :
    isWord w ∧ k ≠ .ignored := by
  have hkinds : ∀ e ∈ reserved, e.2 ≠ .ignored := by decide
  obtain ⟨e, he, rfl⟩ := Option.map_eq_some_iff.mp h
  have hmem := List.mem_of_find?_eq_some he
  have hw := List.find?_some he
  rw [of_decide_eq_true hw]
  exact ⟨isWord_of_mem_reserved e hmem, hkinds e hmem⟩

theorem reservedKind?_eq_none {w : List Char} (h : isWord w = false) : reservedKind? w = none := by
  cases hk : reservedKind? w with
  | none => rfl
  | some k =>
      rw [(isWord_of_reservedKind? hk).1] at h
      contradiction

/-- A word is no mark if it has a property that no mark has. -/
theorem find?_marks_eq_none {w : List Char} {p : List Char → Bool} (hw : p w)
    (hmarks : ∀ e ∈ marks, p [e.1] = false) : (marks.find? fun e => w = [e.1]) = none := by
  rw [List.find?_eq_none]
  intro e he heq
  have hmark := hmarks e he
  rw [← of_decide_eq_true heq, hw] at hmark
  contradiction

theorem kind?_of_isWord {w : List Char} (h : isWord w) : kind? w = some (wordKind w) := by
  rw [kind?_eq, find?_marks_eq_none h (by decide), if_pos h, wordKind]
  cases reservedKind? w <;> rfl

theorem kind?_of_isNumber {w : List Char} (h : isNumber w) : kind? w = some .number := by
  have hword : isWord w = false := by
    cases w with
    | nil => rfl
    | cons c v =>
        by_cases hc : c = '0'
        · subst hc
          rfl
        · simp only [isNumber, if_neg hc, Bool.and_eq_true] at h
          simp [isWord, isWordStart_eq_false_of_isDigit h.1]
  rw [kind?_eq, reservedKind?_eq_none hword, find?_marks_eq_none h (by decide), hword, h]
  rfl

theorem kind?_of_isBlanks {w : List Char} (h : isBlanks w) : kind? w = some .ignored := by
  have hother : isWord w = false ∧ isNumber w = false := by
    cases w with
    | nil => exact ⟨rfl, rfl⟩
    | cons c v =>
        simp only [isBlanks, Bool.and_eq_true] at h
        obtain ⟨hstart, hzero, hdigit⟩ := first_of_isBlank h.1
        simp [isWord, isNumber, hstart, hzero, hdigit]
  rw [kind?_eq, reservedKind?_eq_none hother.1, find?_marks_eq_none h (by decide), hother.1,
    hother.2, h]
  rfl

theorem kind?_of_mem_marks : ∀ e ∈ marks, kind? [e.1] = some e.2 := by
  decide

/-! ## The cut -/

section

variable {rs : List Recognizer} (hrs : Speaks rs)

include hrs

theorem accepting?_eq_kind? (w : List Char) : (accepting? rs w).map (·.kind) = kind? w := by
  have hfind := find?_of_forall₂ hrs (p := fun l => l.2 w) (q := fun x => x.accepts w)
    fun l x h => (h.accepts_eq w).symm
  unfold accepting? kind?
  rcases hfind with ⟨hnone, hnone'⟩ | ⟨l, x, hl, hx, h⟩
  · rw [hnone, hnone']
    rfl
  · rw [hl, hx, Option.map_some, Option.map_some, h.kind_eq]

theorem runsOn {c : Char} (hc : begins c) : RunsOn rs c (rest c) := by
  constructor
  case ne_slash => exact ne_slash_of_begins hc
  case rest_slash => exact rest_slash c
  case exists_accepts =>
    obtain ⟨l, hl, hall⟩ := exists_mem_lexicon hc
    obtain ⟨x, hx, hspells⟩ := exists_related_left hrs l hl
    exact ⟨x, hx, fun v hv => by rw [hspells.accepts_eq]; exact hall v hv⟩
  case rest_of_accepts =>
    intro x hx v hv
    obtain ⟨l, hl, hspells⟩ := exists_related_right hrs x hx
    rw [hspells.accepts_eq] at hv
    exact (rest_of_mem_lexicon hl hv).2

/-- Where a token begins, the cut takes a whole run of the kind that the lexicon gives. -/
theorem cut_of_begins {c : Char} {kind : Kind} (hc : begins c) (r : List Char)
    (hkind : kind? (c :: r.takeWhile (rest c)) = some kind) :
    cut rs (c :: r) =
      .token kind (c :: r.takeWhile (rest c)) :: cut rs (r.dropWhile (rest c)) := by
  obtain ⟨x, hx, hcut⟩ := cut_run (runsOn hrs hc) r
  rw [← accepting?_eq_kind? hrs, hx, Option.map_some] at hkind
  rw [hcut, Option.some.inj hkind]

theorem cut_word {c : Char} (hc : isWordStart c) (r : List Char) :
    cut rs (c :: r) =
      .token (wordKind (c :: r.takeWhile isWordPart)) (c :: r.takeWhile isWordPart) ::
        cut rs (r.dropWhile isWordPart) := by
  have hbegins : begins c := by simp [begins, hc]
  have hword : isWord (c :: r.takeWhile isWordPart) := by simp [isWord, hc]
  rw [← rest_of_isWordStart hc] at hword ⊢
  exact cut_of_begins hrs hbegins r (kind?_of_isWord hword)

/-- A token that goes on with nothing is a single character. -/
theorem cut_single {c : Char} {kind : Kind} (hc : begins c) (hrest : rest c = fun _ => false)
    (hkind : kind? [c] = some kind) (r : List Char) :
    cut rs (c :: r) = .token kind [c] :: cut rs r := by
  have htake : r.takeWhile (rest c) = [] := by
    rw [hrest]
    cases r <;> rfl
  have hdrop : r.dropWhile (rest c) = r := by
    rw [hrest]
    cases r <;> rfl
  rw [← htake] at hkind
  rw [cut_of_begins hrs hc r hkind, htake, hdrop]

theorem cut_zero (r : List Char) : cut rs ('0' :: r) = .token .number ['0'] :: cut rs r :=
  cut_single hrs (by decide) rest_zero (kind?_of_isNumber rfl) r

theorem cut_digits {c : Char} (hc : c.isDigit) (hzero : c ≠ '0') (r : List Char) :
    cut rs (c :: r) =
      .token .number (c :: r.takeWhile Char.isDigit) :: cut rs (r.dropWhile Char.isDigit) := by
  have hbegins : begins c := by simp [begins, hc]
  have hnumber : isNumber (c :: r.takeWhile Char.isDigit) := by simp [isNumber, hc, hzero]
  rw [← rest_of_isDigit hc hzero] at hnumber ⊢
  exact cut_of_begins hrs hbegins r (kind?_of_isNumber hnumber)

theorem cut_blanks {c : Char} (hc : isBlank c) (r : List Char) :
    cut rs (c :: r) =
      .token .ignored (c :: r.takeWhile isBlank) :: cut rs (r.dropWhile isBlank) := by
  have hbegins : begins c := by simp [begins, hc]
  have hblanks : isBlanks (c :: r.takeWhile isBlank) := by simp [isBlanks, hc]
  rw [← rest_of_isBlank hc] at hblanks ⊢
  exact cut_of_begins hrs hbegins r (kind?_of_isBlanks hblanks)

theorem cut_mark {c : Char} {kind : Kind} (hc : markKind? c = some kind) (r : List Char) :
    cut rs (c :: r) = .token kind [c] :: cut rs r := by
  obtain ⟨e, he, rfl⟩ := Option.map_eq_some_iff.mp hc
  have hmem := List.mem_of_find?_eq_some he
  have heq := List.find?_some he
  obtain rfl : e.1 = c := of_decide_eq_true heq
  have hbegins : begins e.1 := by
    simp only [begins, Bool.or_eq_true, List.any_eq_true, decide_eq_true_eq]
    exact .inr ⟨e, hmem, rfl⟩
  exact cut_single hrs hbegins (rest_of_mem_marks hmem) (kind?_of_mem_marks e hmem) r

/-- A character that begins nothing is not recognised. -/
theorem cut_foreign {c : Char} (hc : c ≠ '/') (hbegins : begins c = false) (r : List Char) :
    cut rs (c :: r) = .unrecognised c :: cut rs r := by
  apply cut_unrecognised hc
  rw [Bool.eq_false_iff]
  intro hpath
  obtain ⟨x, hx, hfollows⟩ := List.any_eq_true.mp hpath
  obtain ⟨l, hl, hspells⟩ := exists_related_right hrs x hx
  obtain ⟨v, hv⟩ := hspells.exists_word [c] hfollows
  rw [(rest_of_mem_lexicon hl hv).1] at hbegins
  contradiction

end

end CircuitScan.Builtin
