import CircuitScan.Label
import CircuitScan.Proofs.Related
import Mathlib.Data.List.Induction

/-!
# CircuitScan.Proofs.LabelReading

What a label stands for. The three ways to read a label overlap in their characters: `|-|` is a
range and no list, `a|-` is a list and no range, and a backslash in a list is an escape or a
character of its own, depending on where the next bar stands. So each way is described by the
shape of the whole label (`IsRange`, `IsList`), and a list by the only way to divide it at its bars
(`Divides`):

* `mem_range`, `pairwise_range` — a range holds what lies between its ends, in ascending order;
* `expandList_eq_ok_iff`, `expandList_eq_error` — a list holds what its items stand for, and fails
  as its first bad item does;
* `reads_label` — what comes of every label.
-/

namespace CircuitScan

namespace Text

variable {sep : Char}

theorem splitOn_eq_splitOn (cs : List Char) : splitOn sep cs = cs.splitOn sep := by
  induction cs with
  | nil => rfl
  | cons c cs ih =>
      rw [List.splitOn_cons_eq_if_modifyHead, ← ih]
      obtain ⟨piece, pieces, hpieces⟩ := List.exists_cons_of_ne_nil (splitOn_ne_nil sep cs)
      simp [splitOn, hpieces]

theorem notMem_of_mem_splitOn {cs : List Char} : ∀ p ∈ splitOn sep cs, sep ∉ p := by
  induction cs with
  | nil => simp
  | cons c cs ih =>
      by_cases hc : c = sep
      · subst hc
        rw [splitOn_cons_self]
        exact List.forall_mem_cons.mpr ⟨by simp, ih⟩
      · obtain ⟨piece, pieces, hpieces⟩ := List.exists_cons_of_ne_nil (splitOn_ne_nil sep cs)
        rw [hpieces] at ih
        obtain ⟨hpiece, hrest⟩ := List.forall_mem_cons.mp ih
        have hsplit : splitOn sep (c :: cs) = (c :: piece) :: pieces := by
          simp [splitOn, hc, hpieces]
        rw [hsplit]
        exact List.forall_mem_cons.mpr ⟨by simp [Ne.symm hc, hpiece], hrest⟩

/-- The pieces of a text are the only pieces without a separator that make up the text. -/
theorem splitOn_eq_iff {cs : List Char} {pieces : List (List Char)} :
    splitOn sep cs = pieces ↔
      pieces ≠ [] ∧ (∀ p ∈ pieces, sep ∉ p) ∧ [sep].intercalate pieces = cs := by
  constructor
  · rintro rfl
    refine ⟨splitOn_ne_nil sep cs, notMem_of_mem_splitOn, ?_⟩
    rw [splitOn_eq_splitOn]
    exact List.intercalate_splitOn sep
  · rintro ⟨hne, hpieces, rfl⟩
    rw [splitOn_eq_splitOn]
    exact List.splitOn_intercalate sep hpieces hne

end Text

namespace Label

variable {label : String} {item : List Char} {c : Char}

/-! ## Ranges -/

theorem pairwise_range (low high : Char) : (range low high).Pairwise (· < ·) := by
  unfold range
  rw [List.pairwise_filterMap]
  apply List.Pairwise.imp _ (List.pairwise_lt_range' 1)
  intro n m hlt c hc d hd
  obtain rfl := scalar?_eq_some_iff.mp hc
  obtain rfl := scalar?_eq_some_iff.mp hd
  exact hlt

/-- A label of the form `x-y`, with neither end a line feed. -/
structure IsRange (label : String) (low high : Char) : Prop where
  toList_eq : label.toList = [low, '-', high]
  low_ne : low ≠ '\n'
  high_ne : high ≠ '\n'

theorem IsRange.expand_eq {low high : Char} (h : IsRange label low high) :
    expand label =
      if low ≤ high then .ok (range low high) else .error (.unresolvableClass label) := by
  unfold expand
  rw [h.toList_eq]
  simp [h.low_ne, h.high_ne]

/-! ## Items -/

/-- The ways to write a character in a list. -/
inductive Means : List Char → Char → Prop where
  | character (c : Char) : Means [c] c
  | tab : Means ['\\', 't'] '\t'
  | lineFeed : Means ['\\', 'n'] '\n'
  | carriageReturn : Means ['\\', 'r'] '\r'

theorem item?_eq_some_iff : item? item = some c ↔ Means item c := by
  constructor
  · intro h
    unfold item? at h
    split at h
    · cases h
      exact .character c
    · unfold escape? at h
      split at h
      · cases h
        exact .tab
      · cases h
        exact .lineFeed
      · cases h
        exact .carriageReturn
      · contradiction
    · contradiction
  · intro h
    cases h <;> rfl

theorem readItem_eq_ok_iff : readItem label item = .ok c ↔ Means item c := by
  rw [← item?_eq_some_iff]
  unfold readItem
  cases item? item <;> simp

theorem readItem_eq_error (h : ¬∃ c, Means item c) :
    readItem label item = .error (itemError label item) := by
  unfold readItem
  cases hc : item? item with
  | none => rfl
  | some c => exact absurd ⟨c, item?_eq_some_iff.mp hc⟩ h

theorem itemError_escape (hc : c ≠ '\n') :
    itemError label ['\\', c] = .illegalEscape (String.ofList ['\\', c]) := by
  simp [itemError, isEscape, hc]

theorem itemError_other (h : ∀ c, c ≠ '\n' → item ≠ ['\\', c]) :
    itemError label item = .unresolvableClass label := by
  have hescape : isEscape item = false := by
    unfold isEscape
    split
    · next c => simpa using fun hc : c ≠ '\n' => h c hc rfl
    · rfl
  rw [itemError, hescape]
  rfl

/-! ## Lists -/

/-- The members of a list, each once, in the order in which they come first. -/
structure Lists (cs ds : List Char) : Prop where
  mem_iff : ∀ c, c ∈ ds ↔ c ∈ cs
  ordered : ds.Pairwise fun c d => cs.idxOf c < cs.idxOf d

theorem eraseDups_concat (cs : List Char) (c : Char) :
    (cs ++ [c]).eraseDups = if c ∈ cs then cs.eraseDups else cs.eraseDups ++ [c] := by
  have hone : [c].eraseDups = [c] := rfl
  rw [List.eraseDups_append]
  by_cases hc : c ∈ cs <;> simp [List.removeAll, hc, hone]

theorem lists_eraseDups (cs : List Char) : Lists cs cs.eraseDups := by
  constructor
  case mem_iff => exact fun c => List.mem_eraseDups
  case ordered =>
    induction cs using List.reverseRecOn with
    | nil => exact .nil
    | append_singleton cs c ih =>
        have hold : cs.eraseDups.Pairwise fun d e =>
            (cs ++ [c]).idxOf d < (cs ++ [c]).idxOf e := by
          apply ih.imp_of_mem
          intro d e hd he hlt
          rwa [List.idxOf_append_of_mem (List.mem_eraseDups.mp hd),
            List.idxOf_append_of_mem (List.mem_eraseDups.mp he)]
        rw [eraseDups_concat]
        split
        · exact hold
        · next hc =>
            refine List.pairwise_append.mpr ⟨hold, List.pairwise_singleton _ _, ?_⟩
            intro d hd e he
            obtain rfl := List.mem_singleton.mp he
            rw [List.mem_eraseDups] at hd
            have hlt := List.idxOf_lt_length_iff.mpr hd
            rw [List.idxOf_append_of_mem hd, List.idxOf_append_of_notMem hc]
            omega

theorem Lists.nodup {cs ds : List Char} (h : Lists cs ds) : ds.Nodup := by
  apply h.ordered.imp
  rintro c _ hlt rfl
  exact Nat.lt_irrefl _ hlt

theorem eraseDups_eq_self {cs : List Char} (h : cs.Nodup) : cs.eraseDups = cs := by
  induction cs using List.reverseRecOn with
  | nil => rfl
  | append_singleton cs c ih =>
      obtain ⟨hcs, -, hdisjoint⟩ := List.nodup_append.mp h
      have hc : c ∉ cs := fun hmem => hdisjoint c hmem c (by simp) rfl
      rw [eraseDups_concat, if_neg hc, ih hcs]

/-- A text divided at its bars: items without a bar, one at least. -/
structure Divides (label : String) (items : List (List Char)) : Prop where
  ne_nil : items ≠ []
  notMem : ∀ i ∈ items, '|' ∉ i
  toList_eq : label.toList = ['|'].intercalate items

/-- There is one way to divide a text at its bars. -/
theorem divides_iff {items : List (List Char)} :
    Divides label items ↔ Text.splitOn '|' label.toList = items := by
  rw [Text.splitOn_eq_iff]
  constructor
  · rintro ⟨hne, hbar, htext⟩
    exact ⟨hne, hbar, htext.symm⟩
  · rintro ⟨hne, hbar, htext⟩
    exact ⟨hne, hbar, htext.symm⟩

/-- A label that is neither a single character nor a range, divided at its bars. -/
structure IsList (label : String) (items : List (List Char)) : Prop where
  not_single : ∀ c, label.toList ≠ [c]
  not_range : ∀ low high, ¬IsRange label low high
  divides : Divides label items

/-- A list succeeds with the members of what its items stand for. -/
theorem expandList_eq_ok_iff {ds : List Char} :
    expandList label = .ok ds ↔
      ∃ cs, List.Forall₂ Means (Text.splitOn '|' label.toList) cs ∧ ds = cs.eraseDups := by
  have hread : (fun item c => readItem label item = .ok c) = Means := by
    funext item c
    exact propext readItem_eq_ok_iff
  unfold expandList
  rw [bind_eq_ok]
  constructor
  · rintro ⟨cs, hcs, hpure⟩
    cases hpure
    rw [mapM_eq_ok_iff, hread] at hcs
    exact ⟨cs, hcs, rfl⟩
  · rintro ⟨cs, hcs, rfl⟩
    rw [← hread, ← mapM_eq_ok_iff] at hcs
    exact ⟨cs, hcs, rfl⟩

/-- A list fails as its first bad item does. -/
theorem expandList_eq_error {front back : List (List Char)} {bad : List Char}
    (hitems : Text.splitOn '|' label.toList = front ++ bad :: back)
    (hfront : ∀ i ∈ front, ∃ c, Means i c) (hbad : ¬∃ c, Means bad c) :
    expandList label = .error (itemError label bad) := by
  obtain ⟨cs, hcs⟩ := exists_forall₂_iff.mpr hfront
  have hread : List.Forall₂ (fun i c => readItem label i = .ok c) front cs :=
    hcs.imp fun _ _ h => readItem_eq_ok_iff.mpr h
  unfold expandList
  rw [hitems, mapM_eq_error hread (readItem_eq_error hbad)]
  rfl

/-- What is neither a single character nor a range is read as a list, be it empty. -/
theorem IsList.expand_eq {items : List (List Char)} (h : IsList label items) :
    expand label = expandList label := by
  unfold expand
  split
  · next hnil =>
      have hbad : ¬∃ c, Means [] c := by
        rintro ⟨c, hc⟩
        contradiction
      have hitems : Text.splitOn '|' label.toList = [] ++ [] :: [] := by
        rw [hnil, Text.splitOn_nil, List.nil_append]
      rw [expandList_eq_error hitems (by simp) hbad]
      rfl
  · next c hsingle => exact absurd hsingle (h.not_single c)
  · next low high hrange =>
      split
      · rfl
      · next hfeed =>
          rw [Bool.or_eq_true, decide_eq_true_eq, decide_eq_true_eq, not_or] at hfeed
          exact absurd ⟨hrange, hfeed.1, hfeed.2⟩ (h.not_range low high)
  · rfl

theorem IsList.exists_expand_iff {items : List (List Char)} (h : IsList label items) :
    (∃ ds, expand label = .ok ds) ↔ ∀ i ∈ items, ∃ c, Means i c := by
  rw [h.expand_eq, ← exists_forall₂_iff]
  simp only [expandList_eq_ok_iff, divides_iff.mp h.divides]
  constructor
  · rintro ⟨-, cs, hcs, -⟩
    exact ⟨cs, hcs⟩
  · rintro ⟨cs, hcs⟩
    exact ⟨_, cs, hcs, rfl⟩

theorem IsList.expand_of_means {items : List (List Char)} {cs : List Char} (h : IsList label items)
    (hcs : List.Forall₂ Means items cs) : expand label = .ok cs.eraseDups := by
  rw [h.expand_eq]
  exact expandList_eq_ok_iff.mpr ⟨cs, by rwa [divides_iff.mp h.divides], rfl⟩

/-! ## Labels -/

/-- A label is read in exactly one of three ways. -/
theorem shape (label : String) :
    (∃ c, label.toList = [c]) ∨ (∃ low high, IsRange label low high) ∨
      IsList label (Text.splitOn '|' label.toList) := by
  by_cases hsingle : ∃ c, label.toList = [c]
  · exact .inl hsingle
  · by_cases hrange : ∃ low high, IsRange label low high
    · exact .inr (.inl hrange)
    · exact .inr (.inr ⟨fun c hc => hsingle ⟨c, hc⟩,
        fun low high h => hrange ⟨low, high, h⟩, divides_iff.mpr rfl⟩)

theorem expand_single (h : label.toList = [c]) : expand label = .ok [c] := by
  unfold expand
  rw [h]

/-- A label that can be read stands for one character at least, and lists none twice. -/
theorem ne_nil_and_nodup_of_expand {ds : List Char} (h : expand label = .ok ds) :
    ds ≠ [] ∧ ds.Nodup := by
  obtain ⟨c, hsingle⟩ | ⟨low, high, hrange⟩ | hlist := shape label
  · rw [expand_single hsingle] at h
    cases h
    exact ⟨by simp, by simp⟩
  · rw [hrange.expand_eq] at h
    split at h
    · next hle =>
        cases h
        have hlow : low ∈ range low high := mem_range.mpr ⟨Char.le_refl low, hle⟩
        exact ⟨List.ne_nil_of_mem hlow, (pairwise_range low high).imp Char.ne_of_lt⟩
    · contradiction
  · rw [hlist.expand_eq] at h
    obtain ⟨cs, hcs, rfl⟩ := expandList_eq_ok_iff.mp h
    have hlists := lists_eraseDups cs
    obtain ⟨item, hitem⟩ := List.exists_mem_of_ne_nil _ hlist.divides.ne_nil
    obtain ⟨c, hc, -⟩ := exists_related_left hcs item hitem
    exact ⟨List.ne_nil_of_mem ((hlists.mem_iff c).mpr hc), hlists.nodup⟩

/-- The first item of a list that stands for no character. -/
structure FirstBad (label : String) (bad : List Char) : Prop where
  isList : ∃ front back, IsList label (front ++ bad :: back) ∧ ∀ i ∈ front, ∃ c, Means i c
  not_means : ¬∃ c, Means bad c

theorem FirstBad.expand_eq {bad : List Char} (h : FirstBad label bad) :
    expand label = .error (itemError label bad) := by
  obtain ⟨⟨front, back, hlist, hfront⟩, hbad⟩ := h
  rw [hlist.expand_eq]
  exact expandList_eq_error (divides_iff.mp hlist.divides) hfront hbad

/-- What comes of a label. -/
structure Reads (label : String) : Prop where
  /-- a single character stands for itself -/
  single : ∀ c, label.toList = [c] → expand label = .ok [c]
  /-- a range holds exactly the characters between its ends, in strictly ascending order -/
  range : ∀ low high, IsRange label low high → low ≤ high →
    ∃ cs, expand label = .ok cs ∧ cs.Pairwise (· < ·) ∧ ∀ c, c ∈ cs ↔ low ≤ c ∧ c ≤ high
  /-- unless it runs backwards -/
  backwards : ∀ low high, IsRange label low high → ¬low ≤ high →
    expand label = .error (.unresolvableClass label)
  /-- there is one way to divide a label at its bars -/
  divides : ∃! items, Divides label items
  /-- a list can be read if each of its items stands for a character -/
  list_iff : ∀ items, IsList label items →
    ((∃ ds, expand label = .ok ds) ↔ ∀ i ∈ items, ∃ c, Means i c)
  /-- and it then lists these characters, each where it comes first -/
  list : ∀ items cs, IsList label items → List.Forall₂ Means items cs →
    ∃ ds, expand label = .ok ds ∧ Lists cs ds
  /-- a backslash with a character that has no escape is reported with its item -/
  escape : ∀ c, c ≠ '\n' → FirstBad label ['\\', c] →
    expand label = .error (.illegalEscape (String.ofList ['\\', c]))
  /-- every other bad item is reported with the label -/
  unresolvable : ∀ bad, (∀ c, c ≠ '\n' → bad ≠ ['\\', c]) → FirstBad label bad →
    expand label = .error (.unresolvableClass label)
  /-- what a label stands for is not empty, and lists no character twice -/
  nonempty : ∀ ds, expand label = .ok ds → ds ≠ [] ∧ ds.Nodup

/-- Characters other than the bar, joined by bars, are divided into one item for each. -/
theorem isList_joined {c d : Char} {cs : List Char} (hbar : '|' ∉ c :: d :: cs) :
    IsList (String.ofList (['|'].intercalate ((c :: d :: cs).map fun c => [c])))
      ((c :: d :: cs).map fun c => [c]) := by
  have htext : (String.ofList (['|'].intercalate ((c :: d :: cs).map fun c => [c]))).toList =
      c :: '|' :: ['|'].intercalate ((d :: cs).map fun c => [c]) := by
    rw [String.toList_ofList, List.map_cons, List.map_cons, List.intercalate_cons_cons]
    rfl
  constructor
  case not_single =>
    intro e he
    rw [htext] at he
    simp at he
  case not_range =>
    intro low high hrange
    have heq := htext.symm.trans hrange.toList_eq
    simp at heq
  case divides =>
    constructor
    case ne_nil => simp
    case notMem =>
      intro i hi
      obtain ⟨e, he, rfl⟩ := List.mem_map.mp hi
      have hne : e ≠ '|' := fun heq => hbar (heq ▸ he)
      simpa using hne.symm
    case toList_eq => exact String.toList_ofList

/-- A label that joins characters by bars reads back as these characters. -/
theorem expand_joined {cs : List Char} (hne : cs ≠ []) (hnodup : cs.Nodup) (hbar : '|' ∉ cs) :
    expand (String.ofList (['|'].intercalate (cs.map fun c => [c]))) = .ok cs := by
  match cs, hne with
  | [c], _ => exact expand_single String.toList_ofList
  | c :: d :: cs, _ =>
      have hmeans : List.Forall₂ Means ((c :: d :: cs).map fun c => [c]) (c :: d :: cs) :=
        List.forall₂_map_left_iff.mpr (List.forall₂_same.mpr fun e _ => .character e)
      rw [(isList_joined hbar).expand_of_means hmeans, eraseDups_eq_self hnodup]

/-- **Labels**: each label is read in the way of its shape, and each list of characters without a
bar or a repetition has a label that reads back as the list. -/
theorem reads_label :
    (∀ label, Reads label) ∧
      ∀ cs : List Char, cs ≠ [] → cs.Nodup → '|' ∉ cs →
        expand (String.ofList (['|'].intercalate (cs.map fun c => [c]))) = .ok cs := by
  constructor
  · intro label
    constructor
    case single => exact fun c => expand_single
    case range =>
      intro low high hrange hle
      exact ⟨_, by rw [hrange.expand_eq, if_pos hle], pairwise_range low high,
        fun c => mem_range⟩
    case backwards =>
      intro low high hrange hle
      rw [hrange.expand_eq, if_neg hle]
    case divides =>
      exact ⟨_, divides_iff.mpr rfl, fun items h => (divides_iff.mp h).symm⟩
    case list_iff => exact fun items => IsList.exists_expand_iff
    case list =>
      intro items cs hlist hcs
      exact ⟨_, hlist.expand_of_means hcs, lists_eraseDups cs⟩
    case escape =>
      intro c hc hbad
      rw [hbad.expand_eq, itemError_escape hc]
    case unresolvable =>
      intro bad hother hbad
      rw [hbad.expand_eq, itemError_other hother]
    case nonempty => exact fun ds => ne_nil_and_nodup_of_expand
  · exact fun cs => expand_joined

example : expand "|-|" = .ok ['|'] ∧ expand "a|-" = .ok ['a', '-'] ∧
    expand "\\|n|\\n" = .ok ['\\', 'n', '\n'] := by
  decide +kernel

end Label

end CircuitScan
