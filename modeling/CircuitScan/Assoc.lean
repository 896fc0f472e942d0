/-!
# CircuitScan.Assoc

Association lists with one value for each key. Keys stay in the order in which they are first
written, and writing a key again replaces its value.
-/

namespace CircuitScan.Assoc

/-- Writes the value of a key. -/
def put [DecidableEq α] (key : α) (value : β) : List (α × β) → List (α × β)
  | [] => [(key, value)]
  | (k, v) :: rest => if k = key then (k, value) :: rest else (k, v) :: put key value rest

/-- The value of a key. -/
def get? [DecidableEq α] (key : α) : List (α × β) → Option β
  | [] => none
  | (k, v) :: rest => if k = key then some v else get? key rest

@[simp] theorem get?_nil [DecidableEq α] (key : α) : get? key ([] : List (α × β)) = none := rfl

/-- Writing a key changes the value of that key only. -/
theorem get?_put [DecidableEq α] (key key' : α) (value : β) (l : List (α × β)) :
    get? key' (put key value l) = if key = key' then some value else get? key' l := by
  induction l with
  | nil => simp [put, get?]
  | cons kv rest ih =>
    obtain ⟨k, v⟩ := kv
    by_cases hk : k = key
    · subst hk
      by_cases hk' : k = key' <;> simp [put, get?, hk']
    · by_cases hk' : k = key'
      · subst hk'
        simp [put, get?, hk, Ne.symm hk]
      · simp [put, get?, hk, hk', ih]

/-- Writing a key that is there adds no key. -/
theorem keys_put [DecidableEq α] (key : α) (value : β) (l : List (α × β)) :
    (put key value l).map (·.1) =
      if key ∈ l.map (·.1) then l.map (·.1) else l.map (·.1) ++ [key] := by
  induction l with
  | nil => simp [put]
  | cons kv rest ih =>
    obtain ⟨k, v⟩ := kv
    by_cases hk : k = key
    · simp [put, hk]
    · rw [put, if_neg hk, List.map_cons, ih]
      by_cases hr : key ∈ rest.map (·.1)
      · simp [hr]
      · simp only [List.map_cons, List.mem_cons, hr, or_false, if_neg (Ne.symm hk), if_false,
          List.cons_append]

end CircuitScan.Assoc
