import CircuitScan.Proofs.Refinement
import CircuitScan.Proofs.Success
import Mathlib.Data.List.Induction

/-!
# CircuitScan.Proofs.Ranking

What the rank of recognizers decides: the kind of a token that several of them accept, and nothing
else. Whether a word has a path, is accepted, and can go on are questions to all recognizers
together (`Agree`), so two cursors with the same recognizers in different orders take the same
steps (`step_alike`, `run_alike`). The pieces they hand out differ at most in their kinds
(`Piece.Alike`), and so do the tokens of two scans:

* `Registry.tokenize_perm` — the scans of a text with the recognizers in two orders.
-/

namespace CircuitScan

/-! ## Other orders -/

/-- Ranks recognizers in the order of a list, the first at `n`. -/
def rankFrom (n : Nat) : List Recognizer → List Recognizer
  | [] => []
  | x :: xs => { x with priority := n } :: rankFrom (n + 1) xs

theorem rankFrom_concat (n : Nat) (xs : List Recognizer) (x : Recognizer) :
    rankFrom n (xs ++ [x]) = rankFrom n xs ++ [{ x with priority := n + xs.length }] := by
  induction xs generalizing n with
  | nil => simp [rankFrom]
  | cons y xs ih => simp [rankFrom, ih, Nat.add_assoc, Nat.add_comm 1]

theorem length_rankFrom (n : Nat) (xs : List Recognizer) :
    (rankFrom n xs).length = xs.length := by
  induction xs generalizing n with
  | nil => simp [rankFrom]
  | cons x xs ih => simp [rankFrom, ih]

theorem names_rankFrom (n : Nat) (xs : List Recognizer) :
    (rankFrom n xs).map (·.name) = xs.map (·.name) := by
  induction xs generalizing n with
  | nil => simp [rankFrom]
  | cons x xs ih => simp [rankFrom, ih]

/-- Ranking changes nothing but the rank. -/
theorem forall₂_rankFrom (n : Nat) (xs : List Recognizer) :
    List.Forall₂ (fun x y => ∃ m, y = { x with priority := m }) xs (rankFrom n xs) := by
  induction xs generalizing n with
  | nil => exact .nil
  | cons x xs ih => exact .cons ⟨n, rfl⟩ (ih (n + 1))

theorem any_rankFrom (p : Recognizer → Bool) (hp : ∀ x m, p x = p { x with priority := m })
    (n : Nat) (xs : List Recognizer) : xs.any p = (rankFrom n xs).any p := by
  apply any_eq_of_forall₂ (forall₂_rankFrom n xs)
  intro x y hxy
  obtain ⟨m, rfl⟩ := hxy
  exact hp x m

/-- The registry of recognizers in the order of a list. -/
def Registry.ofRanked (xs : List Recognizer) : Registry := ⟨rankFrom 0 xs⟩

/-- It takes one more recognizer behind the others, or refuses its name. -/
theorem Registry.register_ofRanked {xs : List Recognizer} {x : Recognizer} :
    (ofRanked xs).register x =
      if x.name ∈ (ofRanked xs).names then .error (.duplicate x.name)
      else .ok (ofRanked (xs ++ [x])) := by
  unfold register
  split
  · rfl
  · rw [ofRanked, ofRanked, rankFrom_concat, size, length_rankFrom, Nat.zero_add]

/-- It is what registering them in this order gives. -/
theorem Registry.foldlM_register_eq_ofRanked {xs : List Recognizer}
    (h : (xs.map (·.name)).Nodup) : xs.foldlM register empty = .ok (ofRanked xs) := by
  induction xs using List.reverseRecOn with
  | nil => rfl
  | append_singleton xs x ih =>
      rw [List.map_append, List.nodup_append] at h
      have hfree : x.name ∉ (ofRanked xs).names := by
        rw [names, ofRanked, names_rankFrom]
        intro hmem
        exact h.2.2 x.name hmem x.name (by simp) rfl
      have hregister : (ofRanked xs).register x = .ok (ofRanked (xs ++ [x])) := by
        rw [register_ofRanked, if_neg hfree]
      exact foldlM_concat_eq_ok.mpr ⟨_, ih h.1, hregister⟩

/-! ## Agreement -/

/-- Recognizers that answer the questions of a cursor alike, but for the kinds of its tokens. -/
structure Agree (rs rs' : List Recognizer) : Prop where
  follows_eq : ∀ w, someFollows rs w = someFollows rs' w
  acceptsBoth_eq : ∀ v w, someAcceptsBoth rs v w = someAcceptsBoth rs' v w

theorem agree_of_perm {rs rs' : List Recognizer} (h : rs.Perm rs') : Agree rs rs' :=
  ⟨fun _ => h.any_eq, fun _ _ => h.any_eq⟩

/-- Ranks answer no question. -/
theorem agree_rankFrom (n : Nat) (xs : List Recognizer) : Agree xs (rankFrom n xs) :=
  ⟨fun w => any_rankFrom (·.follows w) (fun _ _ => rfl) n xs,
    fun v w => any_rankFrom (fun x => x.accepts v && x.accepts w) (fun _ _ => rfl) n xs⟩

theorem isSome_accepting?_eq (rs : List Recognizer) (w : List Char) :
    (accepting? rs w).isSome = someAcceptsBoth rs w w := by
  rw [Bool.eq_iff_iff, accepting?, List.find?_isSome, someAcceptsBoth, List.any_eq_true]
  simp

namespace Agree

variable {rs rs' rs'' : List Recognizer}

theorem trans (h : Agree rs rs') (h' : Agree rs' rs'') : Agree rs rs'' :=
  ⟨fun w => (h.follows_eq w).trans (h'.follows_eq w),
    fun v w => (h.acceptsBoth_eq v w).trans (h'.acceptsBoth_eq v w)⟩

/-- A word is accepted on both sides, by recognizers of any kinds, or on neither. -/
theorem accepting?_cases (h : Agree rs rs') (w : List Char) :
    accepting? rs w = none ∧ accepting? rs' w = none ∨
      ∃ x y, accepting? rs w = some x ∧ accepting? rs' w = some y := by
  have hsome : (accepting? rs w).isSome = (accepting? rs' w).isSome := by
    rw [isSome_accepting?_eq, isSome_accepting?_eq, h.acceptsBoth_eq]
  cases hx : accepting? rs w with
  | none =>
      rw [hx] at hsome
      exact .inl ⟨rfl, Option.not_isSome_iff_eq_none.mp (by simp [← hsome])⟩
  | some x =>
      rw [hx] at hsome
      obtain ⟨y, hy⟩ := Option.isSome_iff_exists.mp hsome.symm
      exact .inr ⟨x, y, rfl, hy⟩

theorem canExtend_eq (h : Agree rs rs') (w : List Char) (next : Option Char) :
    Cursor.canExtend rs w next = Cursor.canExtend rs' w next := by
  unfold Cursor.canExtend
  cases next with
  | none => rfl
  | some d => exact h.acceptsBoth_eq w (w ++ [d])

end Agree

/-! ## Pieces -/

/-- The same piece, but that the kind of a token is that of the first recognizer on each side that
accepts its text. -/
inductive Piece.Alike (rs rs' : List Recognizer) : Piece → Piece → Prop where
  | token {w x y} (hx : accepting? rs w = some x) (hy : accepting? rs' w = some y) :
    Alike rs rs' (.token x.kind w) (.token y.kind w)
  | unterminated (w) : Alike rs rs' (.unterminated w) (.unterminated w)
  | unrecognised (c) : Alike rs rs' (.unrecognised c) (.unrecognised c)
  | slash : Alike rs rs' .slash .slash
  | comment (t) : Alike rs rs' (.comment t) (.comment t)

theorem Piece.Alike.text_eq {rs rs' : List Recognizer} {x y : Piece} (h : x.Alike rs rs' y) :
    x.text = y.text := by
  cases h <;> rfl

namespace Cursor

variable {rs rs' : List Recognizer}

/-- Pieces that are alike are handed out, and the same cursor is left. -/
def SameOutcome (rs rs' : List Recognizer) (o o' : List Piece × Cursor) : Prop :=
  List.Forall₂ (Piece.Alike rs rs') o.1 o'.1 ∧ o.2 = o'.2

theorem settle_alike (h : Agree rs rs') (w : List Char) :
    List.Forall₂ (Piece.Alike rs rs') (settle rs w) (settle rs' w) := by
  unfold settle
  split
  · exact .nil
  · obtain ⟨hx, hy⟩ | ⟨x, y, hx, hy⟩ := h.accepting?_cases w
    · rw [hx, hy]
      exact .cons (.unterminated w) .nil
    · rw [hx, hy]
      exact .cons (.token hx hy) .nil

theorem grow_alike (h : Agree rs rs') (w : List Char) (next : Option Char) :
    SameOutcome rs rs' (grow rs w next) (grow rs' w next) := by
  unfold grow
  obtain ⟨hx, hy⟩ | ⟨x, y, hx, hy⟩ := h.accepting?_cases w
  · rw [hx, hy]
    exact ⟨.nil, rfl⟩
  · rw [hx, hy, h.canExtend_eq]
    dsimp only
    split
    · exact ⟨.nil, rfl⟩
    · exact ⟨.cons (.token hx hy) .nil, rfl⟩

theorem begin_alike (h : Agree rs rs') (c : Char) (next : Option Char) :
    SameOutcome rs rs' (begin rs c next) (begin rs' c next) := by
  unfold begin
  rw [h.follows_eq]
  split
  · exact grow_alike h [c] next
  · exact ⟨.cons (.unrecognised c) .nil, rfl⟩

/-- **A step** of a cursor does not depend on the order of the recognizers. -/
theorem step_alike (h : Agree rs rs') (u : Cursor) (c : Char) (next : Option Char) :
    SameOutcome rs rs' (step rs u c next) (step rs' u c next) := by
  unfold step
  cases u with
  | comment t =>
      dsimp only
      split
      · exact ⟨.cons (.comment _) .nil, rfl⟩
      · exact ⟨.nil, rfl⟩
  | word w =>
      dsimp only
      rw [h.follows_eq]
      split
      · -- a slash
        split
        · exact ⟨settle_alike h w, rfl⟩
        · exact ⟨List.rel_append (settle_alike h w) (.cons .slash .nil), rfl⟩
      · split
        · exact grow_alike h (w ++ [c]) next
        · split
          · exact ⟨.cons (.unrecognised c) .nil, rfl⟩
          · obtain ⟨hpieces, hleft⟩ := begin_alike h c next
            exact ⟨.cons (.unterminated w) hpieces, hleft⟩

/-- **A run** of a cursor does not depend on the order of the recognizers. -/
theorem run_alike (h : Agree rs rs') (u : Cursor) (r : List Char) :
    SameOutcome rs rs' (run rs u r) (run rs' u r) := by
  induction r generalizing u with
  | nil => exact ⟨.nil, rfl⟩
  | cons c r ih =>
      obtain ⟨hstep, hleft⟩ := step_alike h u c r.head?
      -- both sides go on with one cursor, as no kind is kept in it
      obtain ⟨hrun, hend⟩ := ih (step rs u c r.head?).2
      rw [run_cons, run_cons, ← hleft]
      exact ⟨List.rel_append hstep hrun, hend⟩

theorem finish_alike (h : Agree rs rs') (u : Cursor) :
    List.Forall₂ (Piece.Alike rs rs') (finish rs u) (finish rs' u) := by
  cases u with
  | word w => exact settle_alike h w
  | comment t => exact .cons (.comment t) .nil

theorem pieces_alike (h : Agree rs rs') (u : Cursor) (r : List Char) :
    List.Forall₂ (Piece.Alike rs rs') (pieces rs u r) (pieces rs' u r) := by
  obtain ⟨hrun, hend⟩ := run_alike h u r
  unfold pieces
  rw [← hend]
  exact List.rel_append hrun (finish_alike h _)

end Cursor

/-! ## Results -/

/-- Tokens of the same text in the same place, each of the kind of the first recognizer on its
side that accepts the text. -/
structure Token.Alike (rs rs' : List Recognizer) (t t' : Token) : Prop where
  text_eq : t.text = t'.text
  start_eq : t.start = t'.start
  stop_eq : t.stop = t'.stop
  kind_left : (accepting? rs t.text.toList).map (·.kind) = some t.kind
  kind_right : (accepting? rs' t'.text.toList).map (·.kind) = some t'.kind

section

variable {rs rs' : List Recognizer} {p : Position} {xs xs' : List Piece} {ys ys' : List Placed}

/-- Pieces that are alike stand in the same places. Their reports are the same, and their tokens
are alike. -/
theorem results_alike (h : List.Forall₂ (Piece.Alike rs rs') xs xs')
    (hplace : place? p xs = some ys) (hplace' : place? p xs' = some ys') :
    List.Forall₂ (Token.Alike rs rs') (ys.filterMap Placed.token?)
        (ys'.filterMap Placed.token?) ∧
      ys.filterMap Placed.diagnostic? = ys'.filterMap Placed.diagnostic? := by
  induction h generalizing p ys ys' with
  | nil =>
      cases hplace
      cases hplace'
      exact ⟨.nil, rfl⟩
  | cons hxy _ ih =>
      obtain ⟨q, zs, hq, hzs, rfl⟩ := place?_cons_eq_some.mp hplace
      obtain ⟨q', zs', hq', hzs', rfl⟩ := place?_cons_eq_some.mp hplace'
      -- both pieces have one text, so they end at one place
      rw [← hxy.text_eq, hq] at hq'
      cases hq'
      obtain ⟨htokens, hreports⟩ := ih hzs hzs'
      cases hxy with
      | @token w x y hx hy =>
          have htoken : Token.Alike rs rs' ⟨x.kind, String.ofList w, p, q⟩
              ⟨y.kind, String.ofList w, p, q⟩ := by
            constructor
            case text_eq => rfl
            case start_eq => rfl
            case stop_eq => rfl
            case kind_left => simp [hx]
            case kind_right => simp [hy]
          exact ⟨.cons htoken htokens, hreports⟩
      | unterminated w => exact ⟨htokens, congrArg (_ :: ·) hreports⟩
      | unrecognised c => exact ⟨htokens, congrArg (_ :: ·) hreports⟩
      | slash => exact ⟨htokens, congrArg (_ :: ·) hreports⟩
      | comment t => exact ⟨htokens, hreports⟩

end

/-- A word makes tokens of one kind only, whichever recognizer accepts it. -/
def OneKindEach (rs : List Recognizer) : Prop :=
  ∀ w, ∀ x ∈ rs, ∀ y ∈ rs, x.accepts w → y.accepts w → x.kind = y.kind

/-- Where no word can make tokens of two kinds, tokens that are alike are the same. -/
theorem Token.Alike.eq_of_oneKindEach {rs xs : List Recognizer} {t t' : Token} {n : Nat}
    (h : t.Alike rs (rankFrom n xs) t') (hperm : xs.Perm rs) (hkinds : OneKindEach rs) :
    t = t' := by
  obtain ⟨x, hx, hkind⟩ := Option.map_eq_some_iff.mp h.kind_left
  obtain ⟨y, hy, hkind'⟩ := Option.map_eq_some_iff.mp h.kind_right
  obtain ⟨hxmem, hxacc⟩ := accepting?_eq_some hx
  obtain ⟨hymem, hyacc⟩ := accepting?_eq_some hy
  -- the second recognizer is one of the first order, at another rank
  obtain ⟨z, hz, m, rfl⟩ := exists_related_right (forall₂_rankFrom n xs) y hymem
  rw [← h.text_eq] at hyacc
  have hsame : x.kind = z.kind :=
    hkinds t.text.toList x hxmem z (hperm.mem_iff.mp hz) hxacc hyacc
  obtain ⟨kind, text, start, stop⟩ := t
  obtain ⟨kind', text', start', stop'⟩ := t'
  obtain rfl : text = text' := h.text_eq
  obtain rfl : start = start' := h.start_eq
  obtain rfl : stop = stop' := h.stop_eq
  obtain rfl : kind = kind' := hkind.symm.trans (hsame.trans hkind')
  rfl

/-- Scans with recognizers that agree make the same reports, and tokens that are alike. -/
theorem Scanner.tokenize_alike {rs rs' : List Recognizer} {s s' : Scanner} {w w' : List Char}
    {source : String} {last : Position} (h : Agree rs rs') (hs : Reads rs w s)
    (hs' : Reads rs' w' s') (hlast : Position.origin.advanceAll? source.toList = some last) :
    ∃ u u', s.tokenize source = .ok (u.result, u) ∧ s'.tokenize source = .ok (u'.result, u') ∧
      u.result.errors = u'.result.errors ∧
      List.Forall₂ (Token.Alike rs rs') u.tokens.toList u'.tokens.toList := by
  obtain ⟨ys, u, hplace, hscan, htokens, herrors⟩ := tokenize_spec hs hlast
  obtain ⟨ys', u', hplace', hscan', htokens', herrors'⟩ := tokenize_spec hs' hlast
  obtain ⟨halike, hreports⟩ := results_alike (Cursor.pieces_alike h _ _) hplace hplace'
  have hsame : u.result.errors = u'.result.errors := by
    rw [result, result, herrors, herrors', hreports]
  rw [← htokens, ← htokens'] at halike
  exact ⟨u, u', hscan, hscan', hsame, halike⟩

/-- **Rank breaks ties only**: with the recognizers of a registry in another order, a scan fails on
the same texts, and else it makes the same reports, and the same tokens but for their kinds. Each
kind is that of the first recognizer in its order that accepts the text. So where no word makes
tokens of two kinds, the results are the same. -/
theorem Registry.tokenize_perm {r : Registry} {xs : List Recognizer}
    (h : xs.Perm r.recognizers) (source : String) :
    (Position.origin.advanceAll? source.toList = none ∧
        (Scanner.ofRegistry r).tokenize source = .error .positionOverflow ∧
        (Scanner.ofRegistry (ofRanked xs)).tokenize source = .error .positionOverflow) ∨
      ∃ s s', (Scanner.ofRegistry r).tokenize source = .ok (s.result, s) ∧
        (Scanner.ofRegistry (ofRanked xs)).tokenize source = .ok (s'.result, s') ∧
        s.result.errors = s'.result.errors ∧
        List.Forall₂ (Token.Alike r.recognizers (ofRanked xs).recognizers)
          s.tokens.toList s'.tokens.toList ∧
        (OneKindEach r.recognizers → s.tokens = s'.tokens ∧ s.result = s'.result) := by
  have hreads := Scanner.reads_ofRegistry r
  have hreads' := Scanner.reads_ofRegistry (ofRanked xs)
  cases hlast : Position.origin.advanceAll? source.toList with
  | none =>
      left
      exact ⟨rfl, Scanner.tokenize_eq_error hreads hlast, Scanner.tokenize_eq_error hreads' hlast⟩
  | some last =>
      right
      have hagree : Agree r.recognizers (ofRanked xs).recognizers :=
        (agree_of_perm h.symm).trans (agree_rankFrom 0 xs)
      obtain ⟨s, s', hscan, hscan', herrors, htokens⟩ :=
        Scanner.tokenize_alike hagree hreads hreads' hlast
      refine ⟨s, s', hscan, hscan', herrors, htokens, fun hkinds => ?_⟩
      have hlist : s.tokens.toList = s'.tokens.toList :=
        List.forall₂_eq_eq_eq ▸ htokens.imp fun _ _ ht => ht.eq_of_oneKindEach h hkinds
      have hresult : s.result = s'.result := by
        unfold Scanner.result at herrors ⊢
        rw [hlist]
        exact congrArg (Scan.mk _) herrors
      exact ⟨Array.toList_inj.mp hlist, hresult⟩

theorem eq_of_accepts_single {w : List Char}
    (h : Automaton.accepts ⟨Table.empty.set 0 'a' 1, 0, [1]⟩ w) : w = ['a'] := by
  unfold Automaton.accepts Automaton.run at h
  cases w with
  | nil => simp at h
  | cons c w =>
      by_cases hc : 'a' = c
      · subst hc
        cases w with
        | nil => rfl
        | cons d w => simp [Table.get?_set] at h
      · simp [Table.get?_set, hc] at h

/-- The recognizers of `nestedWords` have no word in common. -/
theorem oneKindEach_nestedWords : OneKindEach nestedWords.recognizers := by
  intro w x hx y hy hxw hyw
  have hother : Automaton.accepts
      ⟨((Table.empty.set 0 'a' 1).set 1 'b' 2).set 2 'c' 3, 0, [3]⟩ ['a'] = false := by
    decide +kernel
  simp only [nestedWords, List.mem_cons, List.not_mem_nil, or_false] at hx hy
  rcases hx with rfl | rfl
  · obtain rfl := eq_of_accepts_single hxw
    rcases hy with rfl | rfl
    · rfl
    · exact absurd (hother.symm.trans hyw) (by decide)
  · rcases hy with rfl | rfl
    · obtain rfl := eq_of_accepts_single hyw
      exact absurd (hother.symm.trans hxw) (by decide)
    · rfl

theorem tokenize_perm_nestedWords :
    nestedWords.recognizers.reverse.Perm nestedWords.recognizers ∧
      OneKindEach nestedWords.recognizers ∧
      ∃ s s', (Scanner.ofRegistry nestedWords).tokenize "abc/a" = .ok (s.result, s) ∧
        (Scanner.ofRegistry (Registry.ofRanked nestedWords.recognizers.reverse)).tokenize "abc/a" =
          .ok (s'.result, s') ∧
        List.Forall₂ (Token.Alike nestedWords.recognizers
          (Registry.ofRanked nestedWords.recognizers.reverse).recognizers)
          s.tokens.toList s'.tokens.toList ∧
        s.result = s'.result := by
  have hperm := List.reverse_perm nestedWords.recognizers
  have hkinds := oneKindEach_nestedWords
  obtain ⟨hnone, -, -⟩ | ⟨s, s', hscan, hscan', -, htokens, hsame⟩ :=
    Registry.tokenize_perm hperm "abc/a"
  · exact absurd hnone (by decide)
  · exact ⟨hperm, hkinds, s, s', hscan, hscan', htokens, (hsame hkinds).2⟩

/-- A recognizer of `a`, and one of `a` and `b`. -/
def sharedWord : Registry where
  recognizers :=
    [ { name := "a", kind := .and, automaton := ⟨Table.empty.set 0 'a' 1, 0, [1]⟩ },
      { name := "letter", kind := .identifier, priority := 1,
        automaton := ⟨(Table.empty.set 0 'a' 1).set 0 'b' 1, 0, [1]⟩ } ]

example :
    (sharedWord.tokenize "ab").map (·.tokens.map (·.kind)) = .ok [.and, .identifier] ∧
      ((Registry.ofRanked sharedWord.recognizers.reverse).tokenize "ab").map
        (·.tokens.map (·.kind)) = .ok [.identifier, .identifier] := by
  decide +kernel

end CircuitScan
