import CircuitScan.Proofs.Cut

/-!
# CircuitScan.Proofs.LongestMatch

When a cut takes the longest word. A token ends early if no single recognizer accepts both it and
one more character, so some registries never find their longer words. That cannot happen where one
recognizer accepts every word that begins with `c` and goes on with characters of some set, and no
recognizer accepts a word that begins with `c` and leaves the set: the token then is the longest
run of the set (`cut_run`).
-/

namespace CircuitScan

variable {rs : List Recognizer} {c : Char} {rest : Char → Bool}

/-- The words of the recognizers that begin with `c` are those whose other characters are in
`rest`, and one recognizer has them all. -/
structure RunsOn (rs : List Recognizer) (c : Char) (rest : Char → Bool) : Prop where
  ne_slash : c ≠ '/'
  rest_slash : rest '/' = false
  exists_accepts : ∃ x ∈ rs, ∀ v, v.all rest → x.accepts (c :: v)
  rest_of_accepts : ∀ x ∈ rs, ∀ v, x.accepts (c :: v) → v.all rest

namespace RunsOn

theorem exists_accepting (h : RunsOn rs c rest) {v : List Char} (hv : v.all rest) :
    ∃ x, accepting? rs (c :: v) = some x := by
  obtain ⟨x, hx, hacc⟩ := h.exists_accepts
  have hsome : (accepting? rs (c :: v)).isSome := by
    unfold accepting?
    rw [List.find?_isSome]
    exact ⟨x, hx, hacc v hv⟩
  exact Option.isSome_iff_exists.mp hsome

theorem someAcceptsBoth (h : RunsOn rs c rest) {v u : List Char} (hv : v.all rest)
    (hu : u.all rest) : someAcceptsBoth rs (c :: v) (c :: u) := by
  obtain ⟨x, hx, hacc⟩ := h.exists_accepts
  unfold CircuitScan.someAcceptsBoth
  rw [List.any_eq_true]
  exact ⟨x, hx, by rw [hacc v hv, hacc u hu]; rfl⟩

/-- No token ends inside a run. -/
theorem noEndWithin (h : RunsOn rs c rest) {v : List Char} (hv : v.all rest) :
    NoEndWithin rs (c :: v) := by
  have htake (j : Nat) : (v.take j).all rest := by
    rw [List.all_eq_true] at hv ⊢
    exact fun d hd => hv d (List.mem_of_mem_take hd)
  intro k hk _ _
  obtain ⟨j, rfl⟩ : ∃ j, k = j + 1 := ⟨k - 1, by omega⟩
  rw [List.take_succ_cons, List.take_succ_cons]
  exact h.someAcceptsBoth (htake j) (htake (j + 1))

/-- No recognizer accepts a run with a character that is not in the set. -/
theorem someAcceptsBoth_concat (h : RunsOn rs c rest) {v : List Char} {d : Char}
    (hd : rest d = false) : CircuitScan.someAcceptsBoth rs (c :: v) (c :: v ++ [d]) = false := by
  rw [Bool.eq_false_iff]
  intro hboth
  obtain ⟨x, hx, hacc⟩ := List.any_eq_true.mp hboth
  rw [Bool.and_eq_true] at hacc
  have hall := h.rest_of_accepts x hx (v ++ [d]) hacc.2
  rw [List.all_append] at hall
  simp [hd] at hall

end RunsOn

/-- The front token of a text that begins with a run is the whole run. -/
theorem cut_run (h : RunsOn rs c rest) (r : List Char) :
    ∃ x, accepting? rs (c :: r.takeWhile rest) = some x ∧
      cut rs (c :: r) =
        .token x.kind (c :: r.takeWhile rest) :: cut rs (r.dropWhile rest) := by
  have hrun : (r.takeWhile rest).all rest := List.all_takeWhile
  have hslash : '/' ∉ c :: r.takeWhile rest := by
    intro hmem
    rcases List.mem_cons.mp hmem with heq | hmem
    · exact h.ne_slash heq.symm
    · have hrest := List.mem_takeWhile_imp hmem
      rw [h.rest_slash] at hrest
      contradiction
  have hend : ∀ d, (block (r.dropWhile rest)).head? = some d →
      someAcceptsBoth rs (c :: r.takeWhile rest) (c :: r.takeWhile rest ++ [d]) = false := by
    intro d hd
    have hfalse := List.head?_dropWhile_not rest r
    rw [head?_of_head?_block hd] at hfalse
    exact h.someAcceptsBoth_concat (by simpa using hfalse)
  have hsplit : c :: r.takeWhile rest ++ r.dropWhile rest = c :: r := by
    rw [List.cons_append, List.takeWhile_append_dropWhile]
  obtain ⟨x, hx⟩ := h.exists_accepting hrun
  have hcut := cut_append_token (by simp) hslash (h.noEndWithin hrun) hx hend
  rw [hsplit] at hcut
  exact ⟨x, hx, hcut⟩

end CircuitScan
