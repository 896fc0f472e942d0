import CircuitScan.Proofs.Cover

/-!
# CircuitScan.Proofs.Uncommented

The characters of a source text that stand outside comments. The text is read from left to right,
one character at a time:

1. two slashes outside a comment open one, and both belong to it;
2. a comment ends behind its line feed, or with the text.

`locate?` tells where each character stands and knows nothing of comments, and `uncommented` leaves
comments out and knows nothing of positions. Neither knows recognizers or pieces.

* `uncommented_piece` — of the pieces of a text the comments are left out, and nothing else.
-/

namespace CircuitScan

variable {rs : List Recognizer}

/-- A character and the position at which it stands. -/
structure Located where
  char : Char
  position : Position
deriving DecidableEq

/-- The characters of a text that begins at `p`, unless a position overflows. -/
def locate? (p : Position) : List Char → Option (List Located)
  | [] => some []
  | c :: r => do
    let q ← p.advance? c
    let xs ← locate? q r
    return ⟨c, p⟩ :: xs

/-- Leaves out comments; `inComment` says whether the text begins inside one. -/
def uncommented (inComment : Bool) : List Located → List Located
  | [] => []
  | x :: xs =>
    if inComment then uncommented (x.char ≠ '\n') xs
    else if x.char = '/' ∧ (xs.head?.map (·.char)) = some '/' then uncommented true xs
    else x :: uncommented false xs

/-! ## Locating -/

theorem locate?_cons_eq_some {p : Position} {c : Char} {r : List Char} {zs : List Located} :
    locate? p (c :: r) = some zs ↔
      ∃ q xs, p.advance? c = some q ∧ locate? q r = some xs ∧ zs = ⟨c, p⟩ :: xs := by
  simp only [locate?, Option.bind_eq_bind, Option.bind_eq_some_iff, Option.pure_def,
    Option.some.injEq]
  grind

/-- Locating keeps the characters. -/
theorem map_char_of_locate? {p : Position} {cs : List Char} {xs : List Located}
    (h : locate? p cs = some xs) : xs.map (·.char) = cs := by
  induction cs generalizing p xs with
  | nil =>
      obtain rfl : xs = [] := by simpa [locate?] using h.symm
      rfl
  | cons c cs ih =>
      obtain ⟨q, ys, -, hys, rfl⟩ := locate?_cons_eq_some.mp h
      rw [List.map_cons, ih hys]

theorem exists_locate? {p q : Position} {cs : List Char} (h : p.advanceAll? cs = some q) :
    ∃ xs, locate? p cs = some xs := by
  induction cs generalizing p with
  | nil => exact ⟨[], rfl⟩
  | cons c cs ih =>
      rw [Position.advanceAll?_cons] at h
      obtain ⟨m, hm, hq⟩ := Option.bind_eq_some_iff.mp h
      obtain ⟨xs, hxs⟩ := ih hq
      exact ⟨_, locate?_cons_eq_some.mpr ⟨m, xs, hm, hxs, rfl⟩⟩

/-- The second part of a text stands behind the first. -/
theorem exists_of_locate?_append {p q : Position} {cs ds : List Char} {zs : List Located}
    (hq : p.advanceAll? cs = some q) (h : locate? p (cs ++ ds) = some zs) :
    ∃ xs ys, locate? p cs = some xs ∧ locate? q ds = some ys ∧ zs = xs ++ ys := by
  induction cs generalizing p zs with
  | nil =>
      obtain rfl : p = q := by simpa using hq
      exact ⟨[], zs, rfl, h, rfl⟩
  | cons c cs ih =>
      obtain ⟨m, us, hm, hus, rfl⟩ := locate?_cons_eq_some.mp h
      rw [Position.advanceAll?_cons, hm, Option.bind_some] at hq
      obtain ⟨xs, ys, hxs, hys, rfl⟩ := ih hq hus
      have hcons : locate? p (c :: cs) = some (⟨c, p⟩ :: xs) :=
        locate?_cons_eq_some.mpr ⟨m, xs, hm, hxs, rfl⟩
      exact ⟨_, ys, hcons, hys, rfl⟩

theorem locate?_singleton {p : Position} {c : Char} {xs : List Located}
    (h : locate? p [c] = some xs) : xs = [⟨c, p⟩] := by
  obtain ⟨q, ys, -, hys, rfl⟩ := locate?_cons_eq_some.mp h
  have hnil : ys = [] := by simpa [locate?] using hys.symm
  rw [hnil]

/-! ## Leaving out comments -/

/-- Characters without a slash stand outside comments. -/
theorem uncommented_append {xs : List Located} (h : '/' ∉ xs.map (·.char)) (ts : List Located) :
    uncommented false (xs ++ ts) = xs ++ uncommented false ts := by
  induction xs with
  | nil => rfl
  | cons x xs ih =>
      have hx : x.char ≠ '/' ∧ '/' ∉ xs.map (·.char) := by
        simpa [eq_comm] using h
      have hcons : uncommented false (x :: (xs ++ ts)) = x :: uncommented false (xs ++ ts) := by
        simp [uncommented, hx.1]
      rw [List.cons_append, hcons, ih hx.2, List.cons_append]

/-- A comment goes over characters that are no line feed. -/
theorem uncommented_body {xs : List Located} (h : '\n' ∉ xs.map (·.char)) (ts : List Located) :
    uncommented true (xs ++ ts) = uncommented true ts := by
  induction xs with
  | nil => rfl
  | cons x xs ih =>
      have hx : x.char ≠ '\n' ∧ '\n' ∉ xs.map (·.char) := by
        simpa [eq_comm] using h
      have hcons : uncommented true (x :: (xs ++ ts)) = uncommented true (xs ++ ts) := by
        simp [uncommented, hx.1]
      rw [List.cons_append, hcons, ih hx.2]

/-- Two slashes outside comments open one. -/
theorem uncommented_open {x y : Located} (hx : x.char = '/') (hy : y.char = '/')
    (xs : List Located) : uncommented false (x :: y :: xs) = uncommented true xs := by
  simp [uncommented, hx, hy]

/-- A comment is left out as a whole. -/
theorem uncommented_comment {body : List Char} {xs ts : List Located} (hbody : '\n' ∉ body)
    (hxs : xs.map (·.char) = '/' :: '/' :: body ++ ['\n'] ∨
      xs.map (·.char) = '/' :: '/' :: body ∧ ts = []) :
    uncommented false (xs ++ ts) = uncommented false ts := by
  rcases hxs with hxs | ⟨hxs, rfl⟩
  · have hsplit : ∃ x y us z, xs = x :: y :: us ++ [z] ∧ x.char = '/' ∧ y.char = '/' ∧
        us.map (·.char) = body ∧ z.char = '\n' := by
      obtain ⟨us', zs, rfl, hus', hzs⟩ := List.map_eq_append_iff.mp hxs
      obtain ⟨x, us'', rfl, hx, hus''⟩ := List.map_eq_cons_iff.mp hus'
      obtain ⟨y, us, rfl, hy, hus⟩ := List.map_eq_cons_iff.mp hus''
      obtain ⟨z, zs', rfl, hz, hzs'⟩ := List.map_eq_cons_iff.mp hzs
      obtain rfl := List.map_eq_nil_iff.mp hzs'
      exact ⟨x, y, us, z, rfl, hx, hy, hus, hz⟩
    obtain ⟨x, y, us, z, rfl, hx, hy, hus, hz⟩ := hsplit
    have hline : uncommented true (z :: ts) = uncommented false ts := by
      simp [uncommented, hz]
    calc uncommented false (x :: y :: us ++ [z] ++ ts)
        = uncommented false (x :: y :: (us ++ z :: ts)) := by simp
      _ = uncommented true (us ++ z :: ts) := uncommented_open hx hy _
      _ = uncommented true (z :: ts) := uncommented_body (by rwa [hus]) _
      _ = uncommented false ts := hline
  · obtain ⟨x, us', rfl, hx, hus'⟩ := List.map_eq_cons_iff.mp hxs
    obtain ⟨y, us, rfl, hy, hus⟩ := List.map_eq_cons_iff.mp hus'
    rw [List.append_nil, uncommented_open hx hy, ← List.append_nil us,
      uncommented_body (by rwa [hus])]
    rfl

/-- Whether a piece is a comment. -/
def Piece.isComment : Piece → Bool
  | comment _ => true
  | _ => false

/-- Of the pieces of a text the comments are left out, and nothing else. -/
theorem uncommented_piece {x : Piece} {rest : List Char} {xs ts : List Located}
    (h : x.Fits rs rest) (hxs : xs.map (·.char) = x.text) (hts : ts.map (·.char) = rest) :
    uncommented false (xs ++ ts) =
      (if x.isComment then [] else xs) ++ uncommented false ts := by
  cases x with
  | token kind text => exact uncommented_append (hxs ▸ h.2.1) ts
  | unterminated text => exact uncommented_append (hxs ▸ h.2.1) ts
  | unrecognised c =>
      have hc : '/' ∉ xs.map (·.char) := by
        rw [hxs]
        simpa [Piece.text] using h.1.symm
      exact uncommented_append hc ts
  | slash =>
      obtain ⟨y, ys, rfl, hy, hys⟩ := List.map_eq_cons_iff.mp hxs
      obtain rfl := List.map_eq_nil_iff.mp hys
      have hnext : ts.head?.map (·.char) ≠ some '/' := by
        rw [← List.head?_map, hts]
        exact h
      simp [uncommented, Piece.isComment, hnext]
  | comment text =>
      obtain ⟨body, hbody, htext⟩ := h
      have hrest : rest = [] → ts = [] := by
        rintro rfl
        exact List.map_eq_nil_iff.mp hts
      have hform : xs.map (·.char) = '/' :: '/' :: body ++ ['\n'] ∨
          xs.map (·.char) = '/' :: '/' :: body ∧ ts = [] := by
        rw [hxs]
        exact htext.imp id fun hend => ⟨hend.1, hrest hend.2⟩
      exact uncommented_comment hbody hform

example : (locate? .origin "a/b//c\n/".toList).map (uncommented false) =
    some [⟨'a', ⟨1, 1⟩⟩, ⟨'/', ⟨1, 2⟩⟩, ⟨'b', ⟨1, 3⟩⟩, ⟨'/', ⟨2, 1⟩⟩] := by
  decide

end CircuitScan
