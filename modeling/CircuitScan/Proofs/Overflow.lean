import CircuitScan.Proofs.Lines
import CircuitScan.Proofs.Reuse
import Mathlib.Algebra.Group.Nat.Defs

/-!
# CircuitScan.Proofs.Overflow

When a scan fails. Rows and columns are counted in 32 bits, and the point behind a character is
counted before anything else is done with it, be it in a comment or not. So it is the text alone
that decides, not the recognizers: it must not have too many lines, or a line that is too long
(`Overflows`).

Nothing else can fail. A scanner asks only the best lane for a token, and it finds that lane by its
place among the matchers; as there is one flag for each matcher, the place is that of a matcher
that accepts (`Scanner.IsIndexed`).

* `advanceAll?_eq_none_iff` — the texts behind which there is no position;
* `tokenize_fails_iff` — the texts on which a scan fails.
-/

namespace CircuitScan

/-! ## Texts without a position behind them -/

namespace Position

open Text (lineBefore)

variable {p q : Position} {text text' : List Char}

theorem succ?_eq_none_iff {n : UInt32} : succ? n = none ↔ n.toNat = 2 ^ 32 - 1 := by
  have hmax : n = 4294967295 ↔ n.toNat = 2 ^ 32 - 1 := by
    rw [← UInt32.toNat_inj]
    rfl
  unfold succ?
  split
  · next hn => simpa using hmax.mp hn
  · next hn => simpa using fun h => hn (hmax.mpr h)

/-- A line feed needs another row, and every other character another column. -/
theorem advance?_eq_none_iff {c : Char} :
    p.advance? c = none ↔
      c = '\n' ∧ p.row.toNat = 2 ^ 32 - 1 ∨ c ≠ '\n' ∧ p.col.toNat = 2 ^ 32 - 1 := by
  unfold advance?
  by_cases hc : c = '\n'
  · rw [if_pos hc, Option.map_eq_none_iff, succ?_eq_none_iff]
    simp [hc]
  · rw [if_neg hc, Option.map_eq_none_iff, succ?_eq_none_iff]
    simp [hc]

/-- A text with more lines than there are rows, or with a line that is longer than there are
columns. -/
def Overflows (text : List Char) : Prop :=
  2 ^ 32 - 1 ≤ text.count '\n' ∨
    ∃ line, line <:+: text ∧ '\n' ∉ line ∧ 2 ^ 32 - 1 ≤ line.length

theorem Overflows.append (h : Overflows text) (rest : List Char) : Overflows (text ++ rest) := by
  obtain hrows | ⟨line, hline, hfeed, hlength⟩ := h
  · left
    rw [List.count_append]
    omega
  · exact .inr ⟨line, hline.trans (List.prefix_append text rest).isInfix, hfeed, hlength⟩

/-- A line at the end of a text is a part of the line that the text ends in. -/
theorem length_le_lineBefore {line : List Char} (h : line <:+ text) (hfeed : '\n' ∉ line) :
    line.length ≤ (lineBefore text).length := by
  obtain ⟨front, rfl⟩ := h
  induction line using List.reverseRecOn with
  | nil => simp
  | append_singleton line c ih =>
      rw [List.mem_append, List.mem_singleton, not_or] at hfeed
      rw [← List.append_assoc, Text.lineBefore_concat, if_neg (Ne.symm hfeed.2)]
      simpa using ih hfeed.1

/-- There is a position behind a text without too many or too long lines. -/
theorem not_overflows_of_advanceAll? (h : origin.advanceAll? text = some q) : ¬Overflows text := by
  rintro (hrows | ⟨line, ⟨front, back, rfl⟩, hfeed, hlength⟩)
  · have hrow := row_of_advanceAll? h
    have hone : origin.row.toNat = 1 := rfl
    have hlt := q.row.toNat_lt
    omega
  · -- the column behind the line already is too great
    rw [advanceAll?_append] at h
    obtain ⟨m, hm, -⟩ := Option.bind_eq_some_iff.mp h
    have hcol := col_of_advanceAll? hm
    have hle := length_le_lineBefore (List.suffix_append front line) hfeed
    have hlt := m.col.toNat_lt
    omega

/-- **No position** is behind a text exactly if it has too many lines, or one that is too long. -/
theorem advanceAll?_eq_none_iff : origin.advanceAll? text = none ↔ Overflows text := by
  constructor
  · intro h
    induction text using List.reverseRecOn with
    | nil => simp at h
    | append_singleton text c ih =>
        cases hm : origin.advanceAll? text with
        | none => exact (ih hm).append [c]
        | some m =>
            -- the last character is the first one for which there is no row or no column left
            have hc : m.advance? c = none := by
              rw [advanceAll?_append, hm, Option.bind_some, advanceAll?_cons] at h
              cases hc : m.advance? c with
              | none => rfl
              | some q => simp [hc] at h
            obtain ⟨rfl, hrow⟩ | ⟨hfeed, hcol⟩ := advance?_eq_none_iff.mp hc
            · left
              rw [row_of_advanceAll? hm] at hrow
              have hone : origin.row.toNat = 1 := rfl
              rw [List.count_append, List.count_singleton_self]
              omega
            · right
              rw [col_of_advanceAll? hm] at hcol
              have hend : lineBefore (text ++ [c]) <:+ text ++ [c] := List.rtakeWhile_suffix _ _
              refine ⟨_, hend.isInfix, Text.notMem_lineBefore _, ?_⟩
              rw [Text.lineBefore_concat, if_neg hfeed, List.length_append,
                List.length_singleton]
              omega
  · intro h
    cases hq : origin.advanceAll? text with
    | none => rfl
    | some q => exact absurd h (not_overflows_of_advanceAll? hq)

/-- A line of one character overflows exactly if it is too long. -/
theorem overflows_replicate_iff {n : Nat} {c : Char} (hc : c ≠ '\n') :
    Overflows (List.replicate n c) ↔ 2 ^ 32 - 1 ≤ n := by
  have hfeed : '\n' ∉ List.replicate n c := fun h => hc (List.eq_of_mem_replicate h).symm
  constructor
  · rintro (hrows | ⟨line, hline, -, hlength⟩)
    · rw [List.count_eq_zero.mpr hfeed] at hrows
      omega
    · have hle := hline.length_le
      rw [List.length_replicate] at hle
      omega
  · intro h
    exact .inr ⟨_, List.infix_rfl, hfeed, by rwa [List.length_replicate]⟩

end Position

/-! ## The place of the best lane -/

namespace Scanner

variable {s : Scanner} {rs : List Recognizer}

/-- The matchers at work, in the order of rank. -/
def matchers (s : Scanner) : List Matcher := s.lanes.map (·.matcher)

/-- Which of the matchers are live. -/
def liveness (s : Scanner) : List Bool := s.lanes.map (·.live)

/-- The place of the first matcher that is live and accepts. -/
def bestIndex? (s : Scanner) : Option Nat :=
  (s.matchers.zip s.liveness).findIdx? fun (m, live) => live && m.isAccepting

theorem bestIndex?_eq (s : Scanner) : s.bestIndex? = s.lanes.findIdx? (·.isAccepting) := by
  unfold bestIndex? matchers liveness
  rw [List.zip_map', List.findIdx?_map]
  rfl

/-- There is one matcher and one flag for each recognizer, and the best lane can be found by its
place. -/
structure IsIndexed (rs : List Recognizer) (s : Scanner) : Prop where
  length_matchers : s.matchers.length = rs.length
  length_liveness : s.liveness.length = rs.length
  best?_eq : s.best? = s.bestIndex?.bind fun i => s.lanes[i]?
  /-- the place of the best lane is that of a matcher, and this matcher makes a token -/
  accept : ∀ i, s.bestIndex? = some i →
    ∃ m, s.matchers[i]? = some m ∧ ∀ start stop, ∃ o, m.accept start stop = .ok o

theorem isIndexed (h : s.recognizers = rs) : s.IsIndexed rs := by
  constructor
  case length_matchers => simp [← h, matchers, recognizers]
  case length_liveness => simp [← h, liveness, recognizers]
  case best?_eq =>
    rw [bestIndex?_eq, best?]
    exact List.find?_eq_bind_findIdx?_getElem?
  case accept =>
    intro i hi
    rw [bestIndex?_eq, List.findIdx?_eq_some_iff_getElem] at hi
    obtain ⟨hlt, hacc, -⟩ := hi
    rw [Lane.isAccepting, Bool.and_eq_true] at hacc
    have hmatcher : s.matchers[i]? = some s.lanes[i].matcher := by
      rw [matchers, List.getElem?_map, List.getElem?_eq_getElem hlt, Option.map_some]
    exact ⟨_, hmatcher, fun start stop => (Matcher.accept_eq_ok_iff _ start stop).mpr hacc.2⟩

end Scanner

/-! ## Scans -/

namespace Registry

variable {r : Registry} {source : String}

theorem tokenize_eq_error (h : Position.origin.advanceAll? source.toList = none) :
    r.tokenize source = .error .positionOverflow := by
  unfold tokenize
  rw [Scanner.tokenize_eq_error (Scanner.reads_ofRegistry r) h]
  rfl

/-- If there is a position behind a text, the pieces of the text are found, each in its place. -/
theorem exists_tokenize {last : Position} (r : Registry)
    (h : Position.origin.advanceAll? source.toList = some last) :
    ∃ ys, place? .origin (cut r.recognizers source.toList) = some ys ∧
      r.tokenize source = .ok (.ofPlaced ys) := by
  have hpos : (Position.origin.advanceAll? source.toList).isSome := by rw [h]; rfl
  obtain ⟨ys, hplace⟩ := exists_place?_cut r.recognizers hpos
  exact ⟨ys, hplace, tokenize_of_place? hplace⟩

/-- A scan that returns found the pieces of its text, each in its place. -/
theorem exists_place?_of_tokenize {scan : Scan} (h : r.tokenize source = .ok scan) :
    ∃ ys, place? .origin (cut r.recognizers source.toList) = some ys ∧ scan = .ofPlaced ys := by
  cases hlast : Position.origin.advanceAll? source.toList with
  | none =>
      rw [tokenize_eq_error hlast] at h
      contradiction
  | some last =>
      obtain ⟨ys, hplace, hscan⟩ := exists_tokenize r hlast
      rw [hscan] at h
      exact ⟨ys, hplace, (Except.ok.inj h).symm⟩

theorem tokenize_eq_error_iff {f : Fault} :
    r.tokenize source = .error f ↔
      Position.Overflows source.toList ∧ f = .positionOverflow := by
  rw [← Position.advanceAll?_eq_none_iff]
  constructor
  · intro h
    cases hlast : Position.origin.advanceAll? source.toList with
    | none =>
        rw [tokenize_eq_error hlast] at h
        exact ⟨rfl, (Except.error.inj h).symm⟩
    | some last =>
        obtain ⟨ys, -, hscan⟩ := exists_tokenize r hlast
        rw [hscan] at h
        contradiction
  · rintro ⟨hlast, rfl⟩
    exact tokenize_eq_error hlast

/-- **Failure**: a scan fails exactly on a text with too many lines or one that is too long, and
never because a token is asked of a matcher that does not accept. Wherever a scan asks for the best
lane, between two characters or behind one that the lanes took, it can be found by its place. -/
theorem tokenize_fails_iff (r : Registry) (source : String) :
    ((∃ f, r.tokenize source = .error f) ↔ Position.Overflows source.toList) ∧
      (∀ f, r.tokenize source = .error f → f = .positionOverflow) ∧
      ∀ u v s, source.toList = u ++ v →
        (Scanner.ofRegistry r).restart.takes u v.head? = .ok s →
        s.IsIndexed r.recognizers ∧
          ∀ c after, v.head? = some c → s.position.advance? c = some after →
            (Scanner.advance { s with position := after } c s.position).IsIndexed
              r.recognizers := by
  refine ⟨?_, ?_, ?_⟩
  · simp [tokenize_eq_error_iff]
  · exact fun f hf => (tokenize_eq_error_iff.mp hf).2
  · intro u v s _ hs
    have hkept : s.recognizers = r.recognizers :=
      ((Scanner.Reached.fresh.restart).takes hs).recognizers_eq
    refine ⟨Scanner.isIndexed hkept, fun c after _ _ => Scanner.isIndexed ?_⟩
    rw [Scanner.recognizers_advance]
    exact hkept

/-- The longest line that can be scanned, and a line of one more character. -/
theorem tokenize_fails_iff_longLine :
    (∃ scan, nestedWords.tokenize (String.ofList (List.replicate (2 ^ 32 - 2) ' ')) = .ok scan) ∧
      nestedWords.tokenize (String.ofList (List.replicate (2 ^ 32 - 1) ' ')) =
        .error .positionOverflow := by
  have hblank : ' ' ≠ '\n' := by decide
  constructor
  · obtain ⟨hfails, -⟩ := tokenize_fails_iff nestedWords
      (String.ofList (List.replicate (2 ^ 32 - 2) ' '))
    rw [String.toList_ofList, Position.overflows_replicate_iff hblank] at hfails
    cases hscan : nestedWords.tokenize (String.ofList (List.replicate (2 ^ 32 - 2) ' ')) with
    | ok scan => exact ⟨scan, rfl⟩
    | error f => exact absurd (hfails.mp ⟨f, hscan⟩) (by decide)
  · obtain ⟨hfails, hcause, -⟩ := tokenize_fails_iff nestedWords
      (String.ofList (List.replicate (2 ^ 32 - 1) ' '))
    rw [String.toList_ofList, Position.overflows_replicate_iff hblank] at hfails
    obtain ⟨f, hf⟩ := hfails.mpr (Nat.le_refl _)
    rw [hf, hcause f hf]

end Registry

end CircuitScan
