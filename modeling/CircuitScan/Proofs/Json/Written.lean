import CircuitScan.Json.Value
import Mathlib.Data.List.Forall2
import Mathlib.Data.List.Induction
import Mathlib.Data.List.TakeDrop

/-!
# CircuitScan.Proofs.Json.Written

Writing JSON, and reading it back. A written value has no white space between its parts:

1. a text stands between quotes, and a quote, a backslash and the control characters are escaped;
2. a natural number is written in decimal digits;
3. the items of a list and the members of an object are divided by commas.

A reader takes a spelling (`Spelled`) off the front of a text and gives the value, whatever stands
behind it, as long as no digit does. Spellings of items make a spelling of a list
(`spelled_list`), and those of members one of an object (`spelled_object`), so values of any depth
are read back part by part.
-/

namespace CircuitScan.Json

/-! ## Writing -/

/-- The characters that stand for a character between quotes. -/
def escapeChar (c : Char) : List Char :=
  if c = '"' || c = '\\' then ['\\', c]
  else if c.toNat < 0x20 then
    ['\\', 'u', '0', '0', Nat.digitChar (c.toNat / 16), Nat.digitChar (c.toNat % 16)]
  else [c]

/-- A text between quotes. -/
def writeText (s : String) : List Char := '"' :: (s.toList.flatMap escapeChar ++ ['"'])

/-- A natural number in decimal digits. -/
def writeNatural (n : Nat) : List Char := Nat.toDigits 10 n

/-- Parts divided by commas. -/
def divided : List (List Char) → List Char
  | [] => []
  | x :: xs => x ++ xs.flatMap (',' :: ·)

/-- A list of written items. -/
def writeList (items : List (List Char)) : List Char := '[' :: (divided items ++ [']'])

/-- A member of an object: its key, and its written value. -/
def writeMember (m : String × List Char) : List Char := writeText m.1 ++ ':' :: m.2

/-- An object of written members. -/
def writeObject (members : List (String × List Char)) : List Char :=
  '\x7b' :: (divided (members.map writeMember) ++ ['\x7d'])

/-! ### Lengths -/

theorem length_le_divided (items : List (List Char)) :
    items.length ≤ (divided items).length + 1 := by
  have hmore (xs : List (List Char)) : xs.length ≤ (xs.flatMap (',' :: ·)).length := by
    induction xs with
    | nil => exact Nat.le_refl _
    | cons x xs ih =>
        rw [List.flatMap_cons, List.length_append, List.length_cons, List.length_cons]
        omega
  cases items with
  | nil => exact Nat.zero_le _
  | cons x xs =>
      have hxs := hmore xs
      rw [divided, List.length_append, List.length_cons]
      omega

theorem length_le_of_mem {items : List (List Char)} {cs : List Char} (h : cs ∈ items) :
    cs.length ≤ (divided items).length := by
  cases items with
  | nil => contradiction
  | cons x xs =>
      rw [divided, List.length_append]
      rcases List.mem_cons.mp h with rfl | hmem
      · omega
      · have hsub := (List.sublist_flatten_of_mem (List.mem_map_of_mem (f := (',' :: ·)) hmem)).length_le
        rw [← List.flatMap_def, List.length_cons] at hsub
        omega

/-- A written list is longer than it has items. -/
theorem length_lt_writeList (items : List (List Char)) :
    items.length < (writeList items).length := by
  have hitems := length_le_divided items
  rw [writeList, List.length_cons, List.length_append, List.length_singleton]
  omega

theorem length_lt_writeList_of_mem {items : List (List Char)} {cs : List Char}
    (h : cs ∈ items) : cs.length < (writeList items).length := by
  have hitem := length_le_of_mem h
  rw [writeList, List.length_cons, List.length_append, List.length_singleton]
  omega

/-- A written object is longer than it has members. -/
theorem length_lt_writeObject (members : List (String × List Char)) :
    members.length < (writeObject members).length := by
  have hmembers := length_le_divided (members.map writeMember)
  rw [List.length_map] at hmembers
  rw [writeObject, List.length_cons, List.length_append, List.length_singleton]
  omega

theorem length_lt_writeObject_of_mem {members : List (String × List Char)} {key : String}
    {cs : List Char} (h : (key, cs) ∈ members) : cs.length < (writeObject members).length := by
  have hmember := length_le_of_mem (List.mem_map_of_mem (f := writeMember) h)
  rw [writeMember, List.length_append, List.length_cons] at hmember
  dsimp only at hmember
  rw [writeObject, List.length_cons, List.length_append, List.length_singleton]
  omega

/-! ## Readers -/

/-- A reader goes on behind what it has read. -/
theorem bind_apply {x : Reader α} {f : α → Reader β} {cs ds : List Char} {a : α}
    (h : x cs = .ok (a, ds)) : (x >>= f) cs = f a ds := by
  change Except.bind (x cs) _ = _
  rw [h]
  rfl

theorem next_cons {c : Char} (h : isSpace c = false) (cs : List Char) :
    next (c :: cs) = .ok (some c, c :: cs) := by
  have hdrop : (c :: cs).dropWhile isSpace = c :: cs := by simp [h]
  change Except.ok (((c :: cs).dropWhile isSpace).head?, (c :: cs).dropWhile isSpace) = _
  rw [hdrop]
  rfl

theorem skip_cons (c : Char) (cs : List Char) : skip (c :: cs) = .ok (⟨⟩, cs) := rfl

theorem colon_cons (cs : List Char) : colon (':' :: cs) = .ok (⟨⟩, cs) := rfl

/-! ## Texts -/

theorem hexDigit?_digitChar : ∀ d < 16, hexDigit? (Nat.digitChar d) = some d := by decide

/-- A code unit below the halves of pairs is a character. -/
theorem endUnit_of_lt {n : Nat} (rigor : Rigor) (h : n < 0xD800) :
    endUnit rigor n none = .ok (some (Char.ofNat n), .plain) := by
  cases rigor with
  | skim => rfl
  | full =>
      have hlow : isLowHalf n = false := by
        simp [isLowHalf]
        omega
      have hhigh : isHighHalf n = false := by
        simp [isHighHalf]
        omega
      simp [endUnit, hlow, hhigh]

/-- Four characters have four bytes or more. -/
theorem byteLength_take_four (a b c d : Char) (rest : List Char) :
    ¬byteLength ((a :: b :: c :: d :: rest).take 4) < 4 := by
  have ha := a.utf8Size_pos
  have hb := b.utf8Size_pos
  have hc := c.utf8Size_pos
  have hd := d.utf8Size_pos
  simp only [byteLength, List.take_succ_cons, List.take_zero, List.foldl_cons, List.foldl_nil]
  omega

/-- An escaped character is read as the character. -/
theorem textFrom_escapeChar (rigor : Rigor) (acc : String) (c : Char) (rest : List Char) :
    textFrom rigor .plain acc (escapeChar c ++ rest) = textFrom rigor .plain (acc.push c) rest := by
  unfold escapeChar
  split
  · next hc =>
      simp only [Bool.or_eq_true, decide_eq_true_eq] at hc
      rcases hc with rfl | rfl
      · rfl
      · rfl
  · next hc =>
      simp only [Bool.or_eq_true, decide_eq_true_eq, not_or] at hc
      obtain ⟨hquote, hback⟩ := hc
      split
      · next hlow =>
          have hfirst := hexDigit?_digitChar (c.toNat / 16) (by omega)
          have hsecond := hexDigit?_digitChar (c.toNat % 16) (by omega)
          have hzero : hexDigit? '0' = some 0 := rfl
          have hunit : c.toNat / 16 * 16 + c.toNat % 16 = c.toNat := Nat.div_add_mod' _ _
          have hend := endUnit_of_lt (n := c.toNat) rigor (by omega)
          have hbytes := byteLength_take_four '0' '0' (Nat.digitChar (c.toNat / 16))
            (Nat.digitChar (c.toNat % 16)) rest
          simp only [List.cons_append, List.nil_append, textFrom, Char.reduceEq, if_false, if_true,
            hbytes, hzero, hfirst, hsecond, Nat.reduceLeDiff, Nat.reduceSub, Nat.zero_mul,
            Nat.add_zero, Nat.zero_add, hunit, Nat.le_refl, hend, Char.ofNat_toNat]
      · next hlow => simp [textFrom, hquote, hback, hlow]

theorem text_written (rigor : Rigor) (s : String) (rest : List Char) :
    text rigor (s.toList.flatMap escapeChar ++ '"' :: rest) = .ok (s, rest) := by
  have hfrom (cs : List Char) (acc : String) :
      textFrom rigor .plain acc (cs.flatMap escapeChar ++ '"' :: rest) =
        .ok (acc ++ String.ofList cs, rest) := by
    induction cs generalizing acc with
    | nil => simp [textFrom]
    | cons c cs ih =>
        have hpush : acc.push c ++ String.ofList cs = acc ++ String.ofList (c :: cs) := by
          rw [← String.toList_inj]
          simp
        rw [List.flatMap_cons, List.append_assoc, textFrom_escapeChar, ih, hpush]
  rw [text, hfrom]
  simp

/-! ## Digits -/

/-- What stands behind a value inside a list or an object, or the end of the text. -/
def Closes (rest : List Char) : Prop := ∀ c, rest.head? = some c → c = ',' ∨ c = ']' ∨ c = '\x7d'

theorem digitValue_digitChar {d : Nat} (h : d < 10) : Text.digitValue (Nat.digitChar d) = d := by
  rw [Text.digitValue, Nat.toNat_digitChar_of_lt_ten h]
  exact Nat.add_sub_cancel_left 48 d

/-- The digits of a number stand for it. -/
theorem ofDigits_writeNatural (n : Nat) : Text.ofDigits (writeNatural n) = n := by
  unfold writeNatural
  induction n using Nat.strongRecOn with
  | ind n ih =>
      by_cases hn : n < 10
      · rw [Nat.toDigits_of_lt_base hn]
        exact (Nat.zero_add _).trans (digitValue_digitChar hn)
      · rw [Nat.toDigits_of_base_le (by decide) (by omega), Text.ofDigits_concat,
          ih (n / 10) (by omega), digitValue_digitChar (Nat.mod_lt n (by decide))]
        omega

theorem isDigit_of_mem_writeNatural {n : Nat} {c : Char} (h : c ∈ writeNatural n) :
    c.isDigit = true :=
  Nat.isDigit_of_mem_toDigits (by decide) (by decide) h

theorem exists_writeNatural_eq_cons (n : Nat) :
    ∃ d ds, writeNatural n = d :: ds ∧ d.isDigit = true := by
  have hne : writeNatural n ≠ [] := Nat.toDigits_ne_nil
  obtain ⟨d, ds, hds⟩ := List.exists_cons_of_ne_nil hne
  exact ⟨d, ds, hds, isDigit_of_mem_writeNatural (n := n) (by rw [hds]; exact List.mem_cons_self)⟩

/-- A number is written with no zero in front. -/
theorem head?_writeNatural {n : Nat} (h : n ≠ 0) : (writeNatural n).head? ≠ some '0' := by
  unfold writeNatural
  induction n using Nat.strongRecOn with
  | ind n ih =>
      by_cases hn : n < 10
      · have hdigit : ∀ d < 10, d ≠ 0 → Nat.digitChar d ≠ '0' := by decide
        rw [Nat.toDigits_of_lt_base hn]
        simpa using hdigit n hn h
      · have hfront := ih (n / 10) (by omega) (by omega)
        have hne : Nat.toDigits 10 (n / 10) ≠ [] := Nat.toDigits_ne_nil
        rw [Nat.toDigits_of_base_le (by decide) (by omega), List.head?_append_of_ne_nil _ hne]
        exact hfront

/-! ## Numbers -/

/-- Digits of a number that fits a word make a significand that takes them all. -/
theorem foldl_push {ds : List Char} (h : Text.ofDigits ds < Text.wordEnd) :
    ds.foldl Significand.push {} = { value := Text.ofDigits ds } := by
  induction ds using List.reverseRecOn with
  | nil => rfl
  | append_singleton ds c ih =>
      rw [Text.ofDigits_concat] at h ⊢
      rw [List.foldl_append, ih (by omega)]
      simp [Significand.push, h]

/-- A number that fits a word is rounded by less than the greatest word. -/
theorem roundDouble_le {n : Nat} (h : n < Text.wordEnd) : roundDouble n ≤ 2 * Text.wordEnd := by
  have hunit : Nat.pow 2 (Nat.log2 n + 1 - 53) ≤ Text.wordEnd := by
    apply Nat.pow_le_pow_right (by decide)
    by_cases hn : n = 0
    · subst hn
      decide
    · have hlog : Nat.log2 n < 64 := (Nat.log2_lt hn).mpr h
      omega
  have hlow := Nat.div_mul_le_self n (Nat.pow 2 (Nat.log2 n + 1 - 53))
  unfold roundDouble
  dsimp only
  split
  · omega
  · rw [Nat.add_mul, Nat.one_mul]
    omega

/-- Plain digits that fit a word are not too great. -/
theorem isTooGreat_plain {n : Nat} (h : n < Text.wordEnd) : isTooGreat n 0 = false := by
  have hone : roundDouble (Nat.pow 10 (Int.toNat 0)) = 1 := by decide
  have hbound : 2 * Text.wordEnd < infinityStart := by decide +kernel
  have hround := roundDouble_le h
  have hfinite : ¬infinityStart ≤ roundDouble n * 1 := by omega
  simp only [isTooGreat, hone, hfinite]
  simp

theorem digits_written {ds rest : List Char} (h : ∀ c ∈ ds, c.isDigit = true)
    (hrest : Closes rest) : digits (ds ++ rest) = .ok (ds, rest) := by
  have hstop : rest.takeWhile Char.isDigit = [] ∧ rest.dropWhile Char.isDigit = rest := by
    cases rest with
    | nil => exact ⟨rfl, rfl⟩
    | cons c rest =>
        have hc : c.isDigit = false := by
          rcases hrest c rfl with rfl | rfl | rfl <;> rfl
        simp [hc]
  rw [digits, List.span_eq_takeWhile_dropWhile, List.takeWhile_append_of_pos h,
    List.dropWhile_append_of_pos h, hstop.1, hstop.2, List.append_nil]

theorem integerPart_written (rigor : Rigor) (n : Nat) {rest : List Char} (hrest : Closes rest) :
    integerPart rigor (writeNatural n ++ rest) = .ok (writeNatural n, rest) := by
  have hdigits := digits_written (fun c => isDigit_of_mem_writeNatural (n := n)) hrest
  have hsome : someDigits rigor (writeNatural n ++ rest) = .ok (writeNatural n, rest) := by
    unfold someDigits
    rw [bind_apply hdigits]
    refine congrFun (?_ : _ = (pure (writeNatural n) : Reader (List Char))) rest
    split
    · next hnil => exact absurd hnil Nat.toDigits_ne_nil
    · rfl
  unfold integerPart
  rw [bind_apply hsome]
  refine congrFun (?_ : _ = (pure (writeNatural n) : Reader (List Char))) rest
  split
  · next d ds hzero =>
      by_cases hn : n = 0
      · subst hn
        have hsingle : writeNatural 0 = ['0'] := Nat.toDigits_of_lt_base (by decide)
        simp [hsingle] at hzero
      · have hhead := head?_writeNatural hn
        rw [hzero] at hhead
        exact absurd rfl hhead
  · rfl

theorem numeral_written (rigor : Rigor) (n : Nat) {rest : List Char} (hrest : Closes rest) :
    numeral rigor false (writeNatural n ++ rest) =
      .ok (⟨false, writeNatural n, none, none⟩, rest) := by
  have hfraction : fractionPart rigor rest = .ok (none, rest) := by
    cases rest with
    | nil => rfl
    | cons c rest => rcases hrest c rfl with rfl | rfl | rfl <;> rfl
  have hexponent : exponentPart rigor rest = .ok (none, rest) := by
    cases rest with
    | nil => rfl
    | cons c rest => rcases hrest c rfl with rfl | rfl | rfl <;> rfl
  unfold numeral
  rw [bind_apply (integerPart_written rigor n hrest), bind_apply hfraction, bind_apply hexponent]
  rfl

/-- A number that fits a word is read as itself. -/
theorem number_written (rigor : Rigor) {n : Nat} (h : n < Text.wordEnd) {rest : List Char}
    (hrest : Closes rest) : number rigor (writeNatural n ++ rest) = .ok (some n, rest) := by
  have hvalue := ofDigits_writeNatural n
  have hsignificand : (writeNatural n).foldl Significand.push {} = { value := n } := by
    rw [foldl_push (by rwa [hvalue]), hvalue]
  have hgreat : Numeral.isTooGreat ⟨false, writeNatural n, none, none⟩ = false := by
    simp [Numeral.isTooGreat, Numeral.integerSignificand, hsignificand, isTooGreat_plain h]
  have hnatural : Numeral.natural? ⟨false, writeNatural n, none, none⟩ = some n := by
    simp [Numeral.natural?, Numeral.integerSignificand, hsignificand]
  have hnumeral := numeral_written rigor n hrest
  obtain ⟨d, ds, hds, hdigit⟩ := exists_writeNatural_eq_cons n
  have hminus : (writeNatural n ++ rest).head? ≠ some '-' := by
    rw [hds]
    intro hd
    obtain rfl : d = '-' := by simpa using hd
    contradiction
  have hget : (get : Reader (List Char)) (writeNatural n ++ rest) =
      .ok (writeNatural n ++ rest, writeNatural n ++ rest) := rfl
  unfold number
  rw [bind_apply hget]
  simp only [hminus, decide_false, if_false]
  rw [bind_apply hnumeral]
  simp only [hgreat, Bool.and_false, Bool.false_eq_true, if_false, hnatural]
  rfl

/-! ## Lists and objects -/

/-- A spelling of a value, that a reader takes off in front of anything that closes it. -/
structure Spelled (item : Reader α) (x : α) (cs : List Char) : Prop where
  /-- it begins with a character that begins a value -/
  front : ∃ c ds, cs = c :: ds ∧ isSpace c = false ∧ c ≠ ']'
  read : ∀ rest, Closes rest → item (cs ++ rest) = .ok (x, rest)

theorem closes_cons {c : Char} {rest : List Char} (h : c = ',' ∨ c = ']' ∨ c = '\x7d') :
    Closes (c :: rest) := by
  intro d hd
  obtain rfl : c = d := by simpa using hd
  exact h

/-- Behind an item stands a comma or a closing bracket. -/
theorem closes_divided (items : List (List Char)) {c : Char} (hc : c = ']' ∨ c = '\x7d')
    (rest : List Char) : Closes (items.flatMap (',' :: ·) ++ c :: rest) := by
  cases items with
  | nil => exact closes_cons (.inr hc)
  | cons x xs => exact closes_cons (.inl rfl)

section

variable {item : Reader α} {xs : List α} {items : List (List Char)}

/-- An item and those behind it. -/
def readItems (limit : Nat) (item : Reader α) : Reader (List α) := do
  let x ← item
  let xs ← moreElements limit item
  return x :: xs

/-- A comma leads to the next item. -/
theorem moreElements_comma {c : Char} (hspace : isSpace c = false) (hclose : c ≠ ']')
    (limit : Nat) (cs : List Char) :
    moreElements (limit + 1) item (',' :: c :: cs) = readItems limit item (c :: cs) := by
  unfold moreElements
  rw [bind_apply (next_cons (by decide) _)]
  refine (bind_apply (skip_cons ',' _)).trans ?_
  rw [bind_apply (next_cons hspace _)]
  refine congrFun (?_ : _ = readItems limit item) (c :: cs)
  split
  · contradiction
  · next heq => exact absurd (Option.some.inj heq) hclose
  · rfl

theorem elements_front {c : Char} (hspace : isSpace c = false) (hclose : c ≠ ']')
    (limit : Nat) (cs : List Char) :
    elements limit item (c :: cs) = readItems limit item (c :: cs) := by
  unfold elements
  rw [bind_apply (next_cons hspace _)]
  refine congrFun (?_ : _ = readItems limit item) (c :: cs)
  split
  · contradiction
  · next heq => exact absurd (Option.some.inj heq) hclose
  · rfl

theorem readItems_eq {x : α} {limit : Nat} {cs ds rest : List Char} (hx : item cs = .ok (x, ds))
    (hxs : moreElements limit item ds = .ok (xs, rest)) :
    readItems limit item cs = .ok (x :: xs, rest) := by
  unfold readItems
  rw [bind_apply hx, bind_apply hxs]
  rfl

/-- Items behind the first are read one by one. -/
theorem moreElements_written (h : List.Forall₂ (Spelled item) xs items) {limit : Nat}
    (hlimit : xs.length < limit) (rest : List Char) :
    moreElements limit item (items.flatMap (',' :: ·) ++ ']' :: rest) = .ok (xs, rest) := by
  induction h generalizing limit with
  | nil =>
      obtain ⟨l, rfl⟩ : ∃ l, limit = l + 1 := Nat.exists_eq_succ_of_ne_zero (by omega)
      rfl
  | @cons x cs xs items hx _ ih =>
      rw [List.length_cons] at hlimit
      obtain ⟨l, rfl⟩ : ∃ l, limit = l + 1 := Nat.exists_eq_succ_of_ne_zero (by omega)
      obtain ⟨c, ds, rfl, hspace, hclose⟩ := hx.front
      have hitem := hx.read _ (closes_divided items (.inl rfl) rest)
      rw [List.flatMap_cons, List.cons_append, List.cons_append, List.append_assoc]
      exact (moreElements_comma hspace hclose l _).trans (readItems_eq hitem (ih (by omega)))

/-- A written list is read item by item. -/
theorem elements_written (h : List.Forall₂ (Spelled item) xs items) {limit : Nat}
    (hlimit : (writeList items).length < limit) (rest : List Char) :
    elements limit item (divided items ++ ']' :: rest) = .ok (xs, rest) := by
  have hcount := length_lt_writeList items
  rw [← h.length_eq] at hcount
  cases h with
  | nil => rfl
  | @cons x cs xs items hx hxs =>
      obtain ⟨c, ds, rfl, hspace, hclose⟩ := hx.front
      have hitem := hx.read _ (closes_divided items (.inl rfl) rest)
      rw [List.length_cons] at hcount
      rw [divided, List.append_assoc]
      exact (elements_front hspace hclose limit _).trans
        (readItems_eq hitem (moreElements_written hxs (by omega) rest))

end

/-- Members of an object that a reader of fields takes off one by one, from a state to a state. -/
inductive Filled (field : σ → String → Reader σ) : σ → List (String × List Char) → σ → Prop where
  | nil (s : σ) : Filled field s [] s
  | cons {s m s' : σ} {key : String} {cs : List Char} {members : List (String × List Char)}
    (h : ∀ rest, Closes rest → field s key (':' :: cs ++ rest) = .ok (m, rest))
    (hrest : Filled field m members s') : Filled field s ((key, cs) :: members) s'

section

variable {field : σ → String → Reader σ} {members : List (String × List Char)}

/-- A member and those behind it. -/
theorem readMember_eq {s m s' : σ} {key : String} {cs ds rest : List Char} {rigor : Rigor}
    {limit : Nat} (hfield : field s key (':' :: cs ++ ds) = .ok (m, ds))
    (hrest : moreFields (text rigor) field limit m ds = .ok (s', rest)) :
    (do
      skip
      let name ← text rigor
      let s ← field s name
      moreFields (text rigor) field limit s : Reader σ) (writeMember (key, cs) ++ ds) =
        .ok (s', rest) := by
  have hkey := text_written rigor key (':' :: cs ++ ds)
  unfold writeMember writeText
  rw [List.cons_append, List.cons_append, bind_apply (skip_cons _ _)]
  simp only [List.append_assoc, List.cons_append, List.nil_append] at hkey hfield ⊢
  rw [bind_apply hkey, bind_apply hfield, hrest]

/-- Members behind the first are read one by one. -/
theorem moreFields_written {s s' : σ} (h : Filled field s members s') (rigor : Rigor)
    {limit : Nat} (hlimit : members.length < limit) (rest : List Char) :
    moreFields (text rigor) field limit s
      ((members.map writeMember).flatMap (',' :: ·) ++ '\x7d' :: rest) = .ok (s', rest) := by
  induction h generalizing limit with
  | nil s =>
      obtain ⟨l, rfl⟩ : ∃ l, limit = l + 1 := Nat.exists_eq_succ_of_ne_zero (by omega)
      rfl
  | @cons s m s' key cs members hfield _ ih =>
      rw [List.length_cons] at hlimit
      obtain ⟨l, rfl⟩ : ∃ l, limit = l + 1 := Nat.exists_eq_succ_of_ne_zero (by omega)
      have hone := hfield _ (closes_divided (members.map writeMember) (.inr rfl) rest)
      have hmember := readMember_eq hone (ih (Nat.lt_of_succ_lt_succ hlimit))
      rw [List.map_cons, List.flatMap_cons, List.cons_append, List.cons_append, List.append_assoc]
      unfold moreFields
      rw [bind_apply (next_cons (by decide) _)]
      refine (bind_apply (skip_cons ',' _)).trans ?_
      have hquote := next_cons (c := '"') (by decide)
      exact (bind_apply (hquote _)).trans hmember

/-- A written object is read member by member. -/
theorem fields_written {s s' : σ} (h : Filled field s members s') (rigor : Rigor)
    {limit : Nat} (hlimit : (writeObject members).length < limit) (rest : List Char) :
    fields (text rigor) field limit s
      (divided (members.map writeMember) ++ '\x7d' :: rest) = .ok (s', rest) := by
  have hcount := length_lt_writeObject members
  cases h with
  | nil => rfl
  | @cons _ m _ key cs members hfield hrest =>
      rw [List.length_cons] at hcount
      have hone := hfield _ (closes_divided (members.map writeMember) (.inr rfl) rest)
      have hmore := moreFields_written hrest rigor (Nat.lt_trans (Nat.lt_of_succ_lt hcount) hlimit) rest
      have hmember := readMember_eq hone hmore
      have hquote := next_cons (c := '"') (by decide)
      rw [List.map_cons, divided, List.append_assoc]
      exact (bind_apply (hquote _)).trans hmember

end

/-! ## Values -/

variable {limit depth : Nat}

/-- Only a bracket begins a value that is no word, number or text. -/
theorem value_front {c : Char} (hspace : isSpace c = false) (hlist : c ≠ '[')
    (hobject : c ≠ '\x7b') (rigor : Rigor) (limit depth : Nat) (cs : List Char) :
    value rigor limit depth (c :: cs) = scalar rigor c (c :: cs) := by
  cases depth with
  | zero =>
      unfold value
      rw [bind_apply (next_cons hspace _)]
  | succ depth =>
      unfold value
      rw [bind_apply (next_cons hspace _)]
      refine congrFun (?_ : _ = scalar rigor c) (c :: cs)
      split
      · contradiction
      · next heq => exact absurd (Option.some.inj heq) hlist
      · next heq => exact absurd (Option.some.inj heq) hobject
      · next heq => rw [Option.some.inj heq]

/-- Texts are read back. -/
theorem spelled_text (s : String) :
    Spelled (value .full limit depth) (.text s) (writeText s) := by
  constructor
  case front => exact ⟨'"', _, rfl, by decide, by decide⟩
  case read =>
    intro rest _
    have htext := text_written .full s rest
    rw [writeText, List.cons_append, value_front (by decide) (by decide) (by decide)]
    refine (bind_apply (skip_cons '"' _)).trans ?_
    rw [List.append_assoc, List.singleton_append, bind_apply htext]
    rfl

theorem scalar_digit {d : Char} (hd : d.isDigit = true) (rigor : Rigor) :
    scalar rigor d = (do
      match ← number rigor with
      | some n => return .natural n
      | none => return .otherNumber) := by
  unfold scalar
  split
  · contradiction
  · contradiction
  · contradiction
  · contradiction
  · exact if_pos (by rw [hd, Bool.or_true])

/-- Natural numbers that fit a word are read back. -/
theorem spelled_natural {n : Nat} (h : n < Text.wordEnd) :
    Spelled (value .full limit depth) (.natural n) (writeNatural n) := by
  obtain ⟨d, ds, hds, hdigit⟩ := exists_writeNatural_eq_cons n
  have hother {c : Char} (hc : c.isDigit = false) : d ≠ c := by
    rintro rfl
    exact Bool.false_ne_true (hc.symm.trans hdigit)
  have hspace : isSpace d = false := by
    have hblank := hother (c := ' ') rfl
    have htab := hother (c := '\t') rfl
    have hfeed := hother (c := '\n') rfl
    have hreturn := hother (c := '\r') rfl
    simp [isSpace, hblank, htab, hfeed, hreturn]
  constructor
  case front => exact ⟨d, ds, hds, hspace, hother rfl⟩
  case read =>
    intro rest hrest
    have hnumber := number_written .full h hrest
    rw [hds, List.cons_append] at hnumber ⊢
    rw [value_front hspace (hother rfl) (hother rfl), scalar_digit hdigit, bind_apply hnumber]
    rfl

/-- Lists are read back if their items are. -/
theorem spelled_list {xs : List Value} {items : List (List Char)}
    (h : List.Forall₂ (Spelled (value .full limit depth)) xs items)
    (hlimit : (writeList items).length < limit) :
    Spelled (value .full limit (depth + 1)) (.list xs) (writeList items) := by
  constructor
  case front => exact ⟨'[', _, rfl, by decide, by decide⟩
  case read =>
    intro rest _
    have helements := elements_written h hlimit rest
    rw [writeList, List.cons_append, List.append_assoc, List.singleton_append, value,
      bind_apply (next_cons (by decide) _)]
    refine (bind_apply (skip_cons '[' _)).trans ?_
    rw [bind_apply helements]
    rfl

/-- The fields of an object value. -/
theorem filled_object {ms : List (String × Value)} {members : List (String × List Char)}
    (h : List.Forall₂ (fun m w => m.1 = w.1 ∧ Spelled (value .full limit depth) m.2 w.2)
      ms members) (acc : Array (String × Value)) :
    Filled (fun (acc : Array (String × Value)) (name : String) => do
      colon
      let v ← value .full limit depth
      return acc.push (name, v)) acc members (acc ++ ms) := by
  induction h generalizing acc with
  | nil => simpa using Filled.nil acc
  | @cons m w ms members hm _ ih =>
      obtain ⟨key, v⟩ := m
      obtain ⟨key', cs⟩ := w
      obtain ⟨rfl, hv⟩ := hm
      have hrest := ih (acc.push (key, v))
      have hpush : acc.push (key, v) ++ ms = acc ++ ((key, v) :: ms) := by simp
      rw [hpush] at hrest
      refine .cons ?_ hrest
      intro rest hclose
      rw [List.cons_append, bind_apply (colon_cons _), bind_apply (hv.read rest hclose)]
      rfl

/-- Objects are read back if the values of their members are. -/
theorem spelled_object {ms : List (String × Value)} {members : List (String × List Char)}
    (h : List.Forall₂ (fun m w => m.1 = w.1 ∧ Spelled (value .full limit depth) m.2 w.2)
      ms members) (hlimit : (writeObject members).length < limit) :
    Spelled (value .full limit (depth + 1)) (.object ms) (writeObject members) := by
  constructor
  case front => exact ⟨'\x7b', _, rfl, by decide, by decide⟩
  case read =>
    intro rest _
    have hfields := fields_written (filled_object h #[]) .full hlimit rest
    rw [writeObject, List.cons_append, List.append_assoc, List.singleton_append, value,
      bind_apply (next_cons (by decide) _)]
    refine (bind_apply (skip_cons '\x7b' _)).trans ?_
    rw [bind_apply hfields]
    simp
    rfl

end CircuitScan.Json
