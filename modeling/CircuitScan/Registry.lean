import CircuitScan.Recognizer

/-!
# CircuitScan.Registry

Ranked sets of recognizers. Registration gives a recognizer the lowest rank so far, and a name
that is taken is refused: what is registered never moves or changes.
-/

namespace CircuitScan

/-- Recognizers with distinct names, from the highest rank to the lowest. -/
structure Registry where
  recognizers : List Recognizer := []

namespace Registry

/-- The registry without recognizers. -/
def empty : Registry := {}

/-- The number of recognizers. -/
def size (r : Registry) : Nat := r.recognizers.length

/-- Whether there is no recognizer. -/
def isEmpty (r : Registry) : Bool := r.recognizers.isEmpty

/-- The recognizer of a name. -/
def get? (r : Registry) (name : String) : Option Recognizer :=
  r.recognizers.find? fun x => x.name = name

/-- The names in the order of rank. -/
def names (r : Registry) : List String := r.recognizers.map (·.name)

/-- Registers a recognizer below all others. -/
def register (r : Registry) (x : Recognizer) : Except LoadError Registry :=
  if x.name ∈ r.names then .error (.duplicate x.name)
  else .ok ⟨r.recognizers ++ [{ x with priority := r.size }]⟩

/-- A name is registered if and only if it is listed. -/
theorem isSome_get? (r : Registry) (name : String) : (r.get? name).isSome ↔ name ∈ r.names := by
  simp [get?, names]

/-- Registration fails exactly on a name that is taken. -/
theorem register_eq_error_iff (r : Registry) (x : Recognizer) (e : LoadError) :
    r.register x = .error e ↔ x.name ∈ r.names ∧ e = .duplicate x.name := by
  unfold register
  split <;> simp_all [eq_comm]

/-- Registration appends. -/
theorem recognizers_register {r s : Registry} {x : Recognizer} (h : r.register x = .ok s) :
    s.recognizers = r.recognizers ++ [{ x with priority := r.size }] := by
  unfold register at h
  split at h
  · contradiction
  · cases h
    rfl

end Registry

end CircuitScan
