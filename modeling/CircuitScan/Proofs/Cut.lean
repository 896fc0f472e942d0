import CircuitScan.Proofs.Piece
import Mathlib.Data.List.TakeWhile
import Mathlib.Data.Nat.Find

/-!
# CircuitScan.Proofs.Cut

Cutting a source text into pieces by looking at the whole of the remaining text, without a state:

1. two slashes open a comment, which goes through the first line feed;
2. a slash without a second one is a piece of its own;
3. else the block is what stands before the first slash. A character on which no recognizer has a
   path is a piece of its own;
4. a token ends behind the least number of characters that some recognizer accepts, and that no
   single recognizer accepts both as they are and with one more character of the block. The
   recognizer of the highest rank gives the kind;
5. if there is no such number, the longest part of the block with a path is unterminated.

* `cut_eq_cons` — a text is its front piece, and the cut of what stands behind it;
* `cut_append_token`, `cut_append_unterminated` — the front piece of a text that begins with a word.
-/

namespace CircuitScan

open Piece (texts)

variable (rs : List Recognizer)

/-! ## Questions about a word -/

/-- Whether some recognizer has a path over a word. -/
def someFollows (w : List Char) : Bool := rs.any (·.follows w)

/-- The recognizer of the highest rank that accepts a word. -/
def accepting? (w : List Char) : Option Recognizer := rs.find? (·.accepts w)

/-- Whether a single recognizer accepts two words. -/
def someAcceptsBoth (v w : List Char) : Bool := rs.any fun x => x.accepts v && x.accepts w

/-! ## The cut -/

/-- The characters in front of the first slash. -/
def block (r : List Char) : List Char := r.takeWhile (· ≠ '/')

/-- The characters through the first line feed. -/
def throughLine : List Char → List Char
  | [] => []
  | c :: cs => if c = '\n' then [c] else c :: throughLine cs

/-- The characters behind the first line feed. -/
def afterLine : List Char → List Char
  | [] => []
  | c :: cs => if c = '\n' then cs else afterLine cs

/-- The token that may end behind `k` characters of a block. -/
def tokenAt? (b : List Char) (k : Nat) : Option Piece :=
  match accepting? rs (b.take k) with
  | some x =>
    if k = b.length || !someAcceptsBoth rs (b.take k) (b.take (k + 1)) then
      some (.token x.kind (b.take k))
    else none
  | none => none

/-- The token in front of a block: the shortest that may end. -/
def firstToken? (b : List Char) : Option Piece :=
  (List.range' 1 b.length).findSome? (tokenAt? rs b)

/-- The longest part of a block with a path. -/
def longestPath (b : List Char) : List Char :=
  b.take (Nat.findGreatest (fun k => someFollows rs (b.take k) = true) b.length)

/-- The piece in front of a block that begins with a path. -/
def blockFront (b : List Char) : Piece :=
  (firstToken? rs b).getD (.unterminated (longestPath rs b))

/-- The piece in front of the text `c :: r`. -/
def front (c : Char) (r : List Char) : Piece :=
  if c = '/' then
    if r.head? = some '/' then .comment (throughLine (c :: r)) else .slash
  else if someFollows rs [c] then blockFront rs (block (c :: r))
  else .unrecognised c

/-! ### Fronts are not empty -/

theorem someFollows_of_accepts {w : List Char} {x : Recognizer} (hx : x ∈ rs)
    (h : x.accepts w) : someFollows rs w :=
  List.any_eq_true.mpr ⟨x, hx, Automaton.follows_of_accepts h⟩

variable {rs}

theorem accepting?_eq_some {w : List Char} {x : Recognizer} (h : accepting? rs w = some x) :
    x ∈ rs ∧ x.accepts w := by
  have hw := List.find?_some h
  exact ⟨List.mem_of_find?_eq_some h, hw⟩

theorem someFollows_of_accepting? {w : List Char} {x : Recognizer}
    (h : accepting? rs w = some x) : someFollows rs w := by
  obtain ⟨hx, hw⟩ := accepting?_eq_some h
  exact someFollows_of_accepts rs hx hw

/-- A path over a word is a path over what the word starts with. -/
theorem someFollows_of_append {v w : List Char} (h : someFollows rs (v ++ w)) :
    someFollows rs v := by
  obtain ⟨x, hx, hw⟩ := List.any_eq_true.mp h
  exact List.any_eq_true.mpr ⟨x, hx, Automaton.follows_of_follows_append hw⟩

theorem tokenAt?_eq_some {b : List Char} {k : Nat} {x : Piece} (h : tokenAt? rs b k = some x) :
    ∃ y, accepting? rs (b.take k) = some y ∧ x = .token y.kind (b.take k) := by
  unfold tokenAt? at h
  split at h
  · next y hy =>
      split at h
      · exact ⟨y, hy, (Option.some.inj h).symm⟩
      · contradiction
  · contradiction

theorem firstToken?_eq_some {b : List Char} {x : Piece} (h : firstToken? rs b = some x) :
    ∃ k y, 0 < k ∧ k ≤ b.length ∧ accepting? rs (b.take k) = some y ∧
      x = .token y.kind (b.take k) := by
  obtain ⟨k, hk, hx⟩ := List.exists_of_findSome?_eq_some h
  rw [List.mem_range'_1] at hk
  obtain ⟨y, hy, rfl⟩ := tokenAt?_eq_some hx
  exact ⟨k, y, by omega, by omega, hy, rfl⟩

/-- With a path over its first character, a block has a path over a part that is not empty. -/
theorem longestPath_spec {c : Char} {b : List Char} (h : someFollows rs [c]) :
    ∃ k, 0 < k ∧ k ≤ (c :: b).length ∧ longestPath rs (c :: b) = (c :: b).take k ∧
      someFollows rs ((c :: b).take k) ∧
      ∀ j, k < j → j ≤ (c :: b).length → someFollows rs ((c :: b).take j) = false := by
  have hone : 1 ≤ (c :: b).length := by simp
  have hpath : someFollows rs ((c :: b).take 1) := by simpa using h
  refine ⟨_, Nat.le_findGreatest hone hpath, Nat.findGreatest_le _, rfl, ?_, ?_⟩
  · exact Nat.findGreatest_spec (P := fun k => someFollows rs ((c :: b).take k) = true) hone hpath
  · intro j hlt hle
    exact Bool.eq_false_iff.mpr (Nat.findGreatest_is_greatest hlt hle)

theorem throughLine_append_afterLine (r : List Char) : throughLine r ++ afterLine r = r := by
  induction r with
  | nil => rfl
  | cons c r ih =>
      unfold throughLine afterLine
      split
      · rfl
      · rw [List.cons_append, ih]

/-- The front piece of a block is a part of it that is not empty. -/
theorem text_blockFront {c : Char} {b : List Char} (h : someFollows rs [c]) :
    ∃ k, 0 < k ∧ k ≤ (c :: b).length ∧ (blockFront rs (c :: b)).text = (c :: b).take k := by
  unfold blockFront
  cases hx : firstToken? rs (c :: b) with
  | some x =>
      obtain ⟨k, y, hk, hkb, -, rfl⟩ := firstToken?_eq_some hx
      exact ⟨k, hk, hkb, rfl⟩
  | none =>
      obtain ⟨k, hk, hkb, hpath, -, -⟩ := longestPath_spec (b := b) h
      exact ⟨k, hk, hkb, hpath⟩

theorem block_cons {c : Char} (hc : c ≠ '/') (r : List Char) : block (c :: r) = c :: block r := by
  simp [block, hc]

/-- A front piece is what its text begins with, and it is not empty. -/
theorem text_front (rs : List Recognizer) (c : Char) (r : List Char) :
    (front rs c r).text ≠ [] ∧ ∃ t, c :: r = (front rs c r).text ++ t := by
  unfold front
  split
  · next hc =>
      subst hc
      split
      · exact ⟨by simp [Piece.text, throughLine], _, (throughLine_append_afterLine _).symm⟩
      · exact ⟨by simp [Piece.text], r, rfl⟩
  · next hc =>
      split
      · next hf =>
          obtain ⟨k, hk, -, htext⟩ := text_blockFront (b := block r) hf
          have hblock : c :: r = block (c :: r) ++ r.dropWhile (· ≠ '/') := by
            rw [block_cons hc, List.cons_append, block, List.takeWhile_append_dropWhile]
          rw [block_cons hc] at hblock ⊢
          have hne : (c :: block r).take k ≠ [] := by
            simp
            omega
          rw [htext]
          constructor
          · exact hne
          · rw [hblock]
            exact ⟨_, by rw [← List.append_assoc, List.take_append_drop]⟩
      · exact ⟨by simp [Piece.text], r, rfl⟩

/-- The pieces of a text: its front piece, and the pieces of what stands behind it. -/
def cut (rs : List Recognizer) : List Char → List Piece
  | [] => []
  | c :: r => front rs c r :: cut rs ((c :: r).drop (front rs c r).text.length)
termination_by r => r.length
decreasing_by
  have hne := List.length_pos_iff.mpr (text_front rs c r).1
  simp only [List.length_drop, List.length_cons]
  omega

/-! ## Unfolding -/

@[simp] theorem cut_nil : cut rs [] = [] := by
  rw [cut]

/-- A text is its front piece, and the cut of what stands behind it. -/
theorem cut_eq_cons {c : Char} {r t : List Char} {x : Piece} (hx : front rs c r = x)
    (ht : c :: r = x.text ++ t) : cut rs (c :: r) = x :: cut rs t := by
  rw [cut, hx, ht, List.drop_left]

/-- A second slash opens a comment, through the first line feed. -/
theorem cut_comment (r : List Char) :
    cut rs ('/' :: '/' :: r) =
      .comment ('/' :: '/' :: throughLine r) :: cut rs (afterLine r) := by
  have hthrough : throughLine ('/' :: '/' :: r) = '/' :: '/' :: throughLine r := by
    simp [throughLine]
  apply cut_eq_cons
  · simp [front, hthrough]
  · simp only [Piece.text, List.cons_append, throughLine_append_afterLine]

/-- A slash without a second one is a piece of its own. -/
theorem cut_slash {r : List Char} (h : r.head? ≠ some '/') :
    cut rs ('/' :: r) = .slash :: cut rs r := by
  apply cut_eq_cons
  · simp [front, h]
  · rfl

/-- A character without a path is a piece of its own. -/
theorem cut_unrecognised {c : Char} {r : List Char} (hc : c ≠ '/')
    (h : someFollows rs [c] = false) : cut rs (c :: r) = .unrecognised c :: cut rs r := by
  apply cut_eq_cons
  · simp [front, hc, h]
  · rfl

/-! ## Texts that begin with a word -/

/-- Every accepted part of a word, the whole word apart, is accepted with one more character by
the same recognizer, so that no token ends inside the word. -/
def NoEndWithin (rs : List Recognizer) (w : List Char) : Prop :=
  ∀ k, 0 < k → k < w.length → (accepting? rs (w.take k)).isSome →
    someAcceptsBoth rs (w.take k) (w.take (k + 1))

theorem noEndWithin_nil : NoEndWithin rs [] := fun k hk hlt => by
  simp at hlt

theorem noEndWithin_singleton (c : Char) : NoEndWithin rs [c] := fun k hk hlt => by
  rw [List.length_singleton] at hlt
  omega

/-- A word in which no token ends can be continued where it is not accepted, or where it is
accepted with the next character as well. -/
theorem NoEndWithin.concat {w : List Char} (h : NoEndWithin rs w) {c : Char}
    (hc : w ≠ [] → (accepting? rs w).isSome → someAcceptsBoth rs w (w ++ [c])) :
    NoEndWithin rs (w ++ [c]) := by
  intro k hk hlt hacc
  rw [List.length_append, List.length_singleton] at hlt
  by_cases hkw : k < w.length
  · rw [List.take_append_of_le_length (by omega)] at hacc ⊢
    rw [List.take_append_of_le_length (by omega)]
    exact h k hk hkw hacc
  · obtain rfl : k = w.length := by omega
    rw [List.take_left] at hacc ⊢
    rw [List.take_of_length_le (by simp)]
    exact hc (List.length_pos_iff.mp hk) hacc

/-- A block begins with what its text begins with. -/
theorem head?_of_head?_block {u : List Char} {d : Char} (h : (block u).head? = some d) :
    u.head? = some d := by
  cases u with
  | nil => contradiction
  | cons c u =>
      by_cases hc : c = '/'
      · simp [block, hc] at h
      · rw [block_cons hc] at h
        exact h

theorem block_append {w : List Char} (h : '/' ∉ w) (u : List Char) :
    block (w ++ u) = w ++ block u := by
  unfold block
  rw [List.takeWhile_append_of_pos]
  intro c hc
  have hne : c ≠ '/' := fun heq => h (heq ▸ hc)
  simpa using hne

/-- No token ends inside a word in which none can. -/
theorem tokenAt?_eq_none {w u : List Char} {k : Nat} (h : NoEndWithin rs w) (hk : 0 < k)
    (hlt : k < w.length) : tokenAt? rs (w ++ u) k = none := by
  unfold tokenAt?
  have htake : (w ++ u).take k = w.take k := List.take_append_of_le_length (by omega)
  have htake' : (w ++ u).take (k + 1) = w.take (k + 1) :=
    List.take_append_of_le_length (by omega)
  rw [htake, htake']
  split
  · next x hx =>
      have hboth := h k hk hlt (by rw [hx]; rfl)
      rw [hboth, if_neg]
      rw [List.length_append]
      simp only [Bool.not_true, Bool.or_false, decide_eq_true_eq]
      omega
  · rfl

/-- Behind an accepted word a token ends unless the same recognizer accepts one more character. -/
theorem tokenAt?_length {w u : List Char} {x : Recognizer} (hx : accepting? rs w = some x)
    (hend : ∀ d, u.head? = some d → someAcceptsBoth rs w (w ++ [d]) = false) :
    tokenAt? rs (w ++ u) w.length = some (.token x.kind w) := by
  unfold tokenAt?
  rw [List.take_left, hx]
  dsimp only
  rw [if_pos]
  cases u with
  | nil => simp
  | cons d u =>
      have htake : (w ++ d :: u).take (w.length + 1) = w ++ [d] := by
        rw [List.take_append, List.take_of_length_le (by omega)]
        simp
      rw [htake, hend d rfl]
      simp

theorem range'_eq_append_cons {k n : Nat} (hk : 0 < k) (hkn : k ≤ n) :
    List.range' 1 n = List.range' 1 (k - 1) ++ k :: List.range' (k + 1) (n - k) := by
  have hcons : k :: List.range' (k + 1) (n - k) = List.range' (1 + (k - 1)) (n - k + 1) := by
    rw [List.range'_succ, Nat.add_sub_cancel' hk]
  rw [hcons, List.range'_append_1]
  congr 1
  omega

/-- A word is the front token if no token ends inside it, and it is accepted and cannot go on. -/
theorem firstToken?_append {w u : List Char} {x : Recognizer} (hne : w ≠ [])
    (hin : NoEndWithin rs w) (hx : accepting? rs w = some x)
    (hend : ∀ d, u.head? = some d → someAcceptsBoth rs w (w ++ [d]) = false) :
    firstToken? rs (w ++ u) = some (.token x.kind w) := by
  have hpos := List.length_pos_iff.mpr hne
  have hle : w.length ≤ (w ++ u).length := by simp
  have hbefore : ∀ k ∈ List.range' 1 (w.length - 1), tokenAt? rs (w ++ u) k = none := by
    intro k hk
    rw [List.mem_range'_1] at hk
    exact tokenAt?_eq_none hin (by omega) (by omega)
  unfold firstToken?
  rw [List.findSome?_eq_some_iff]
  exact ⟨_, _, _, range'_eq_append_cons hpos hle, tokenAt?_length hx hend, hbefore⟩

/-- No path goes over more than a word that has none with the next character. -/
theorem someFollows_take_eq_false {w u : List Char} {k : Nat}
    (hend : ∀ d, u.head? = some d → someFollows rs (w ++ [d]) = false) (hlt : w.length < k)
    (hle : k ≤ (w ++ u).length) : someFollows rs ((w ++ u).take k) = false := by
  cases u with
  | nil =>
      rw [List.append_nil] at hle
      omega
  | cons d u =>
      have htake : (w ++ d :: u).take k = w ++ [d] ++ u.take (k - w.length - 1) := by
        obtain ⟨j, rfl⟩ : ∃ j, k = w.length + (j + 1) := ⟨k - w.length - 1, by omega⟩
        rw [List.take_length_add_append]
        simp
      rw [htake, Bool.eq_false_iff]
      intro hpath
      have hshort := someFollows_of_append hpath
      rw [hend d rfl] at hshort
      contradiction

/-- There is no front token if no token ends inside a word that is not accepted, and no path goes
on behind it. -/
theorem firstToken?_eq_none {w u : List Char} (hin : NoEndWithin rs w)
    (hnone : accepting? rs w = none)
    (hend : ∀ d, u.head? = some d → someFollows rs (w ++ [d]) = false) :
    firstToken? rs (w ++ u) = none := by
  unfold firstToken?
  rw [List.findSome?_eq_none_iff]
  intro k hk
  rw [List.mem_range'_1] at hk
  rcases Nat.lt_trichotomy k w.length with hlt | rfl | hgt
  · exact tokenAt?_eq_none hin (by omega) hlt
  · rw [tokenAt?, List.take_left, hnone]
  · unfold tokenAt?
    split
    · next x hx =>
        have hpath := someFollows_of_accepting? hx
        rw [someFollows_take_eq_false hend hgt (by omega)] at hpath
        contradiction
    · rfl

/-- The longest path is the word behind which no path goes on. -/
theorem longestPath_append {w u : List Char} (hpath : someFollows rs w)
    (hend : ∀ d, u.head? = some d → someFollows rs (w ++ [d]) = false) :
    longestPath rs (w ++ u) = w := by
  have hgreatest : Nat.findGreatest (fun k => someFollows rs ((w ++ u).take k) = true)
      (w ++ u).length = w.length := by
    have hat : someFollows rs ((w ++ u).take w.length) := by rwa [List.take_left]
    have hafter : ∀ k, w.length < k → k ≤ (w ++ u).length →
        ¬someFollows rs ((w ++ u).take k) = true := by
      intro k hgt hle
      rw [someFollows_take_eq_false hend hgt hle]
      exact Bool.false_ne_true
    rw [Nat.findGreatest_eq_iff]
    exact ⟨by simp, fun _ => hat, hafter⟩
  rw [longestPath, hgreatest, List.take_left]

/-- The cut of a text that begins with the front piece of its block. -/
theorem cut_append_of_blockFront {w u : List Char} {x : Piece} (hne : w ≠ []) (hslash : '/' ∉ w)
    (hpath : someFollows rs w) (hx : blockFront rs (w ++ block u) = x) (htext : x.text = w) :
    cut rs (w ++ u) = x :: cut rs u := by
  have hblock := block_append hslash u
  cases w with
  | nil => contradiction
  | cons c w =>
      have hc : c ≠ '/' := fun h => hslash (by simp [h])
      have hone : someFollows rs [c] := someFollows_of_append (w := w) hpath
      rw [List.cons_append] at hblock ⊢
      apply cut_eq_cons
      · rw [front, if_neg hc, if_pos hone, hblock, hx]
      · rw [htext, List.cons_append]

/-- The cut of a text that begins with an accepted word: the word is a token if no token ends
inside it and it cannot go on. -/
theorem cut_append_token {w u : List Char} {x : Recognizer} (hne : w ≠ []) (hslash : '/' ∉ w)
    (hin : NoEndWithin rs w) (hx : accepting? rs w = some x)
    (hend : ∀ d, (block u).head? = some d → someAcceptsBoth rs w (w ++ [d]) = false) :
    cut rs (w ++ u) = .token x.kind w :: cut rs u := by
  apply cut_append_of_blockFront hne hslash (someFollows_of_accepting? hx) _ rfl
  rw [blockFront, firstToken?_append hne hin hx hend, Option.getD_some]

/-- The cut of a text that begins with a path: the word is unterminated if no token ends inside
it, it is not accepted, and no path goes on behind it. -/
theorem cut_append_unterminated {w u : List Char} (hne : w ≠ []) (hslash : '/' ∉ w)
    (hin : NoEndWithin rs w) (hnone : accepting? rs w = none) (hpath : someFollows rs w)
    (hend : ∀ d, (block u).head? = some d → someFollows rs (w ++ [d]) = false) :
    cut rs (w ++ u) = .unterminated w :: cut rs u := by
  apply cut_append_of_blockFront hne hslash hpath _ rfl
  rw [blockFront, firstToken?_eq_none hin hnone hend, longestPath_append hpath hend,
    Option.getD_none]

/-! ## Whole texts -/

/-- The pieces of a text are the text. -/
@[simp] theorem texts_cut (rs : List Recognizer) (r : List Char) : texts (cut rs r) = r := by
  fun_induction cut rs r with
  | case1 => rfl
  | case2 c r ih =>
      obtain ⟨-, t, ht⟩ := text_front rs c r
      have hdrop : (c :: r).drop (front rs c r).text.length = t := by
        rw [ht, List.drop_left]
      rw [hdrop] at ih
      rw [hdrop, Piece.texts_cons, ih, ht]

/-- The cut of a text can be placed where no position in the text overflows. -/
theorem exists_place?_cut (rs : List Recognizer) {p : Position} {r : List Char}
    (h : (p.advanceAll? r).isSome) : ∃ ys, place? p (cut rs r) = some ys := by
  obtain ⟨q, hq⟩ := Option.isSome_iff_exists.mp h
  rw [← texts_cut rs r] at hq
  exact exists_place? hq

end CircuitScan
