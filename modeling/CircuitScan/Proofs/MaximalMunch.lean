import CircuitScan.Proofs.Between
import CircuitScan.Proofs.Builtin.Lexer

/-!
# CircuitScan.Proofs.MaximalMunch

When one character of foresight is enough for the longest word. A scan ends a token as soon as no
accepting recognizer accepts one more character, so in general it does not come to a longer word
behind a text that is no word, or to one of another recognizer. It does if words grow step by step:

1. what a word begins with is a word;
2. two words of which one is the other with one more character are shared by some recognizer.

Then no token ends inside a word (`Stepwise.noEndWithin`), although recognizers may drop out at any
point of it, and the front token of a text is the longest word in front (`Stepwise.cut_eq_cons`).

* `Registry.takes_longest` — wherever a scan begins a token in front of a word, it hands out the
  longest one.
-/

namespace CircuitScan

variable {rs : List Recognizer}

/-! ## Words -/

/-- Some recognizer accepts the text. -/
def IsWord (rs : List Recognizer) (w : List Char) : Prop := ∃ x ∈ rs, x.accepts w

theorem isWord_iff {w : List Char} : IsWord rs w ↔ (accepting? rs w).isSome := by
  rw [accepting?, List.find?_isSome]
  rfl

instance (rs : List Recognizer) (w : List Char) : Decidable (IsWord rs w) :=
  decidable_of_iff _ isWord_iff.symm

theorem isWord_of_accepting? {w : List Char} {x : Recognizer} (h : accepting? rs w = some x) :
    IsWord rs w :=
  ⟨x, accepting?_eq_some h⟩

theorem IsWord.exists_accepting? {w : List Char} (h : IsWord rs w) :
    ∃ x, accepting? rs w = some x :=
  Option.isSome_iff_exists.mp (isWord_iff.mp h)

/-- The longest word in front of a block. -/
structure IsLongest (rs : List Recognizer) (b w : List Char) : Prop where
  ne_nil : w ≠ []
  front : w <+: b
  word : IsWord rs w
  longest : ∀ v, v <+: b → IsWord rs v → v.length ≤ w.length

/-- A block with some word in front, and not only the empty one, has a longest one. -/
theorem exists_isLongest {b v : List Char} (hne : v ≠ []) (hfront : v <+: b)
    (hword : IsWord rs v) : ∃ w, IsLongest rs b w := by
  have htake {u : List Char} (hu : u <+: b) (hw : IsWord rs u) : IsWord rs (b.take u.length) := by
    rwa [← List.prefix_iff_eq_take.mp hu]
  have hle := List.IsPrefix.length_le hfront
  have hmax := Nat.le_findGreatest (P := fun k => IsWord rs (b.take k)) hle (htake hfront hword)
  have hspec := Nat.findGreatest_spec (P := fun k => IsWord rs (b.take k)) hle
    (htake hfront hword)
  have hbound := Nat.findGreatest_le (P := fun k => IsWord rs (b.take k)) b.length
  refine ⟨_, ?ne_nil, List.take_prefix _ b, hspec, ?longest⟩
  case ne_nil =>
    have hpos := List.length_pos_iff.mpr hne
    apply List.ne_nil_of_length_pos
    rw [List.length_take]
    omega
  case longest =>
    intro u hu hw
    rw [List.length_take, Nat.min_eq_left hbound]
    exact Nat.le_findGreatest (List.IsPrefix.length_le hu) (htake hu hw)

/-! ## Words that grow step by step -/

/-- Words grow step by step. -/
structure Stepwise (rs : List Recognizer) : Prop where
  /-- what a word begins with is a word -/
  word_of_append : ∀ v w, v ≠ [] → IsWord rs (v ++ w) → IsWord rs v
  /-- a word and the word with one more character are shared -/
  shared : ∀ w c, IsWord rs w → IsWord rs (w ++ [c]) →
    ∃ x ∈ rs, x.accepts w ∧ x.accepts (w ++ [c])

namespace Stepwise

variable {w : List Char}

/-- No token ends inside a word, whichever recognizers drop out there. -/
theorem noEndWithin (h : Stepwise rs) (hw : IsWord rs w) : NoEndWithin rs w := by
  intro k hk hlt _
  have hpart {j : Nat} (hj : 0 < j) : IsWord rs (w.take j) := by
    have hne : w.take j ≠ [] := by
      apply List.ne_nil_of_length_pos
      rw [List.length_take]
      omega
    apply h.word_of_append (w.take j) (w.drop j) hne
    rwa [List.take_append_drop]
  have hstep : w.take (k + 1) = w.take k ++ [w[k]] := (List.take_append_getElem hlt).symm
  have hlonger := hpart (Nat.succ_pos k)
  rw [hstep] at hlonger ⊢
  obtain ⟨x, hx, hacc⟩ := h.shared _ _ (hpart hk) hlonger
  exact List.any_eq_true.mpr ⟨x, hx, Bool.and_eq_true_iff.mpr hacc⟩

/-- The front token of a text with a word in front is the longest one. -/
theorem cut_eq_cons (h : Stepwise rs) {r : List Char} (hw : IsLongest rs (block r) w) :
    ∃ x t, accepting? rs w = some x ∧ r = w ++ t ∧ cut rs r = .token x.kind w :: cut rs t := by
  obtain ⟨b, hb⟩ := hw.front
  have hslash : '/' ∉ w := by
    intro hmem
    have hblock : '/' ∈ block r := hb ▸ List.mem_append_left b hmem
    have hne := List.mem_takeWhile_imp hblock
    simp at hne
  obtain ⟨t, rfl⟩ : ∃ t, r = w ++ t :=
    ⟨b ++ r.dropWhile (· ≠ '/'), by
      rw [← List.append_assoc, hb, block, List.takeWhile_append_dropWhile]⟩
  obtain ⟨x, hx⟩ := hw.word.exists_accepting?
  have hend : ∀ d, (block t).head? = some d → someAcceptsBoth rs w (w ++ [d]) = false := by
    intro d hd
    rw [Bool.eq_false_iff]
    intro hboth
    obtain ⟨y, hy, hacc⟩ := List.any_eq_true.mp hboth
    rw [Bool.and_eq_true] at hacc
    -- a shared longer word would be a longer word in front
    have hfront : w ++ [d] <+: block (w ++ t) := by
      rw [block_append hslash]
      obtain ⟨b', hb'⟩ := List.head?_eq_some_iff.mp hd
      exact ⟨b', by rw [hb', List.append_assoc, List.singleton_append]⟩
    have hle := hw.longest _ hfront ⟨y, hy, hacc.2⟩
    rw [List.length_append, List.length_singleton] at hle
    omega
  exact ⟨x, t, hx, rfl, cut_append_token hw.ne_nil hslash (h.noEndWithin hw.word) hx hend⟩

end Stepwise

/-- Runs grow step by step: one recognizer has all parts of a run. -/
theorem stepwise_of_runsOn (hnil : ¬IsWord rs [])
    (hruns : ∀ c v, IsWord rs (c :: v) → ∃ rest, RunsOn rs c rest) : Stepwise rs := by
  constructor
  case word_of_append =>
    intro v w hne hw
    cases v with
    | nil => contradiction
    | cons c v =>
        obtain ⟨rest, hrest⟩ := hruns c (v ++ w) hw
        obtain ⟨x, hx, hacc⟩ := hw
        have hall := hrest.rest_of_accepts x hx (v ++ w) hacc
        rw [List.all_append, Bool.and_eq_true] at hall
        obtain ⟨y, hy⟩ := hrest.exists_accepting hall.1
        exact isWord_of_accepting? hy
  case shared =>
    intro w d hw hlonger
    cases w with
    | nil => contradiction
    | cons c v =>
        obtain ⟨rest, hrest⟩ := hruns c v hw
        obtain ⟨y, hy, hacc⟩ := hlonger
        have hall := hrest.rest_of_accepts y hy (v ++ [d]) hacc
        have hshort := hall
        rw [List.all_append, Bool.and_eq_true] at hshort
        obtain ⟨x, hx, hhas⟩ := hrest.exists_accepts
        exact ⟨x, hx, hhas v hshort.1, hhas (v ++ [d]) hall⟩

/-- The words of the circuit language grow step by step: keywords are shared with identifiers. -/
theorem Builtin.stepwise (hrs : Speaks rs) : Stepwise rs := by
  have hword {w : List Char} (hw : IsWord rs w) : ∃ l ∈ lexicon, l.2 w := by
    obtain ⟨x, hx, hacc⟩ := hw
    obtain ⟨l, hl, hspells⟩ := exists_related_right hrs x hx
    exact ⟨l, hl, by rwa [← hspells.accepts_eq]⟩
  apply stepwise_of_runsOn
  · intro hnil
    have hnone : ∀ l ∈ lexicon, l.2 [] = false := by decide
    obtain ⟨l, hl, hempty⟩ := hword hnil
    rw [hnone l hl] at hempty
    contradiction
  · intro c v hw
    obtain ⟨l, hl, hrun⟩ := hword hw
    exact ⟨_, runsOn hrs (rest_of_mem_lexicon hl hrun).1⟩

/-! ## Where a scan begins a token -/

namespace Scanner

variable {s : Scanner} {c : Char}

/-- A token begins with the next character `c`: no word is pending, or the pending one is given up
in front of `c` as no recognizer takes it on. -/
def Begins (s : Scanner) (c : Char) : Prop :=
  s.inComment = false ∧ (s.lexeme = "" ∨ (s.feed c).isLive = false)

instance (s : Scanner) (c : Char) : Decidable (s.Begins c) :=
  inferInstanceAs (Decidable (_ ∧ _))

/-- Where a token begins, what is due is the cut of the rest, behind a word that is given up. -/
theorem Begins.due_eq {q : Position} {cursor : Cursor} {r : List Char} (h : s.Begins c)
    (htracks : Tracks rs q cursor s) (hvalid : cursor.Valid rs (some c)) :
    cursor.due rs (c :: r) = cut rs (c :: r) ∧ q = s.position ∨
      ∃ w, cursor.due rs (c :: r) = .unterminated w :: cut rs (c :: r) ∧
        q.advanceAll? w = some s.position := by
  obtain ⟨hout, hbegins⟩ := h
  cases cursor with
  | comment t =>
      rw [htracks.2.1] at hout
      contradiction
  | word w =>
      obtain ⟨hholds, hpos⟩ := htracks
      by_cases hw : w = []
      · subst hw
        exact .inl ⟨rfl, by simpa using hpos⟩
      · right
        have hlexeme : s.lexeme ≠ "" := by
          rw [hholds.lexeme]
          simpa using hw
        have hstuck : someFollows rs (w ++ [c]) = false := by
          rw [← (hholds.reads.feed c).isLive_eq]
          exact hbegins.resolve_left hlexeme
        have hend : ∀ d, (block (c :: r)).head? = some d → someFollows rs (w ++ [d]) = false := by
          intro d hd
          obtain rfl : c = d := by simpa using head?_of_head?_block hd
          exact hstuck
        have hnone := Cursor.accepting?_eq_none_of_stuck hvalid hw hstuck
        exact ⟨w, cut_append_unterminated hw hvalid.slash hvalid.within hnone (hvalid.path hw) hend,
          hpos⟩

end Scanner

/-- **Maximal munch**: let words grow step by step, and let a scan begin a token in front of a text
whose block has a word in front. The next token that it hands out, unless a position overflows
first, is the longest such word, of the kind of the first recognizer that accepts it. -/
theorem Registry.takes_longest {r : Registry} (hstepwise : Stepwise r.recognizers)
    {u v w : List Char} {c : Char} {s : Scanner}
    (hs : (Scanner.ofRegistry r).restart.takes u (some c) = .ok s) (hbegins : s.Begins c)
    (hne : w ≠ []) (hfront : w <+: block (c :: v)) (hword : IsWord r.recognizers w) :
    ∃ long x, IsLongest r.recognizers (block (c :: v)) long ∧
      accepting? r.recognizers long = some x ∧
      (Position.origin.advanceAll? (u ++ c :: v) = none ∧
          (Scanner.ofRegistry r).tokenize (String.ofList (u ++ c :: v)) =
            .error .positionOverflow ∨
        ∃ stop t later, s.position.advanceAll? long = some stop ∧
          Position.origin.advanceAll? u = some s.position ∧
          (Scanner.ofRegistry r).tokenize (String.ofList (u ++ c :: v)) = .ok (t.result, t) ∧
          t.tokens.toList =
            s.tokens.toList ++ ⟨x.kind, String.ofList long, s.position, stop⟩ :: later) := by
  obtain ⟨long, hlong⟩ := exists_isLongest hne hfront hword
  obtain ⟨x, rest, hx, hsplit, hcut⟩ := hstepwise.cut_eq_cons hlong
  obtain ⟨q, cursor, htracks, hvalid, hpos, hscan⟩ :=
    Scanner.tokenize_of_takes (r := c :: v) (Scanner.reads_ofRegistry r) hs
  refine ⟨long, x, hlong, hx, ?_⟩
  obtain ⟨hnone, herror⟩ | ⟨ys, t, hplace, hok, htokens, -⟩ := hscan
  · left
    rw [Position.advanceAll?_append, hpos]
    exact ⟨hnone, herror⟩
  · right
    -- the pieces due there, without a word that is given up
    have htail : ∃ zs, place? s.position (cut r.recognizers (c :: v)) = some zs ∧
        ys.filterMap Placed.token? = zs.filterMap Placed.token? := by
      obtain ⟨hdue, rfl⟩ | ⟨given, hdue, hgiven⟩ := hbegins.due_eq htracks hvalid (r := v)
      · exact ⟨ys, by rwa [hdue] at hplace, rfl⟩
      · rw [hdue] at hplace
        obtain ⟨q', zs, hq', hzs, rfl⟩ := place?_cons_eq_some.mp hplace
        obtain rfl := Option.some.inj (hgiven.symm.trans hq')
        exact ⟨zs, hzs, rfl⟩
    obtain ⟨zs, hzs, hsame⟩ := htail
    rw [hcut] at hzs
    obtain ⟨stop, later, hstop, -, rfl⟩ := place?_cons_eq_some.mp hzs
    exact ⟨stop, t, _, hstop, hpos, hok, by rw [htokens, hsame]; rfl⟩

/-- Where a scan has come to, and whether it begins a token there. -/
theorem exists_of_takes {e : Except LoadError Registry} {u : List Char} {c : Char}
    (h : (e.toOption.bind fun r =>
      ((Scanner.ofRegistry r).restart.takes u (some c)).toOption).any
        (fun s => decide (s.Begins c)) = true) :
    ∃ r s, e = .ok r ∧ (Scanner.ofRegistry r).restart.takes u (some c) = .ok s ∧ s.Begins c := by
  obtain ⟨s, hs, hbegins⟩ := (Option.any_eq_true _ _).mp h
  obtain ⟨r, hr, hs⟩ := Option.bind_eq_some_iff.mp hs
  exact ⟨r, s, toOption_eq_some.mp hr, toOption_eq_some.mp hs, of_decide_eq_true hbegins⟩

/-- In `registers` the keyword `register` is accepted and drops out, and an identifier goes on. -/
theorem takes_longest_registers :
    ∃ r s, Registry.builtin = .ok r ∧ Stepwise r.recognizers ∧
      (Scanner.ofRegistry r).restart.takes "in ".toList (some 'r') = .ok s ∧ s.Begins 'r' ∧
      ['r'] <+: block "registers/1".toList ∧ IsWord r.recognizers ['r'] ∧
      ∃ long x, IsLongest r.recognizers (block "registers/1".toList) long ∧
        accepting? r.recognizers long = some x ∧
        (Position.origin.advanceAll? "in registers/1".toList = none ∧
            (Scanner.ofRegistry r).tokenize (String.ofList "in registers/1".toList) =
              .error .positionOverflow ∨
          ∃ stop t later, s.position.advanceAll? long = some stop ∧
            Position.origin.advanceAll? "in ".toList = some s.position ∧
            (Scanner.ofRegistry r).tokenize (String.ofList "in registers/1".toList) =
              .ok (t.result, t) ∧
            t.tokens.toList =
              s.tokens.toList ++ ⟨x.kind, String.ofList long, s.position, stop⟩ :: later) := by
  obtain ⟨r, s, hr, hs, hbegins⟩ :=
    exists_of_takes (e := Registry.builtin) (u := "in ".toList) (c := 'r') (by decide +kernel)
  have hspeaks := Registry.speaks_builtin hr
  have hfront : ['r'] <+: block "registers/1".toList := by decide
  obtain ⟨y, hy⟩ := (Builtin.runsOn hspeaks (c := 'r') (by decide)).exists_accepting (v := []) rfl
  have hword : IsWord r.recognizers ['r'] := isWord_of_accepting? hy
  exact ⟨r, s, hr, Builtin.stepwise hspeaks, hs, hbegins, hfront, hword,
    Registry.takes_longest (Builtin.stepwise hspeaks) (v := "egisters/1".toList) hs hbegins
      (by decide) hfront hword⟩

end CircuitScan
