import CircuitScan.LoadError
import Std.Data.TreeMap

/-!
# CircuitScan.Table

Transition tables: partial functions from a state and a character to a state. States are natural
numbers. A pair without an entry has no transition.

`get?` is the view of a table, and `get?_add` says what adding an edge does to it. Edges are kept
in ascending order of state and character, so a listing needs no sorting.
-/

namespace CircuitScan

/-- Edges are ordered by their state, then by their character. -/
abbrev Table.order (a b : Nat × Char) : Ordering := (@lexOrd Nat Char _ _).compare a b

instance : Std.TransCmp Table.order :=
  letI := @lexOrd Nat Char _ _
  inferInstanceAs (Std.TransOrd (Nat × Char))

instance : Std.LawfulEqCmp Table.order :=
  letI := @lexOrd Nat Char _ _
  inferInstanceAs (Std.LawfulEqOrd (Nat × Char))

/-- A transition table. -/
structure Table where
  edges : Std.TreeMap (Nat × Char) Nat Table.order := ∅

namespace Table

/-- The table without edges. -/
def empty : Table := {}

/-- The target of a state on a character. -/
def get? (t : Table) (state : Nat) (c : Char) : Option Nat := t.edges[(state, c)]?

/-- The number of edges. -/
def size (t : Table) : Nat := t.edges.size

/-- Whether there is no edge. -/
def isEmpty (t : Table) : Bool := t.size = 0

/-- The table with `edge` led to `target`, whatever was there. -/
def set (t : Table) (state : Nat) (c : Char) (target : Nat) : Table :=
  ⟨t.edges.insert (state, c) target⟩

/-- Adds an edge. A state that already moves elsewhere on the character keeps its target, and the
call fails with that target. -/
def add (t : Table) (state : Nat) (c : Char) (target : Nat) : Except Nat Table :=
  match t.get? state c with
  | some existing => if existing = target then .ok (t.set state c target) else .error existing
  | none => .ok (t.set state c target)

/-- Adds an edge; a second target is a conflict. The report names the target that was there, then
the one that was asked for. -/
def addEdge (t : Table) (state : Nat) (c : Char) (target : Nat) : Except LoadError Table :=
  (t.add state c target).mapError fun existing => .conflict state c existing target

/-- Adds an edge for every character of a list, in order. -/
def addEdges (t : Table) (state : Nat) (cs : List Char) (target : Nat) : Except LoadError Table :=
  cs.foldlM (fun t c => t.addEdge state c target) t

/-- The state reached from `state` over a word, if every step has an edge. -/
def run (t : Table) (state : Nat) : List Char → Option Nat
  | [] => some state
  | c :: cs => (t.get? state c).bind fun next => t.run next cs

/-! ## The view -/

@[simp] theorem get?_empty (state : Nat) (c : Char) : empty.get? state c = none := by
  simp [get?, empty]

theorem get?_set (t : Table) (state state' : Nat) (c c' : Char) (target : Nat) :
    (t.set state c target).get? state' c' =
      if state = state' ∧ c = c' then some target else t.get? state' c' := by
  simp [get?, set, Std.TreeMap.getElem?_insert]

/-- Adding an edge changes the table at that edge only. -/
theorem get?_add {t u : Table} {state target : Nat} {c : Char} (h : t.add state c target = .ok u)
    (state' : Nat) (c' : Char) :
    u.get? state' c' = if state = state' ∧ c = c' then some target else t.get? state' c' := by
  have hu : u = t.set state c target := by
    unfold add at h
    split at h
    · split at h
      · exact (Except.ok.inj h).symm
      · contradiction
    · exact (Except.ok.inj h).symm
  rw [hu, get?_set]

/-- A table that an edge can be added to has the edge afterwards, and else the edges it had. -/
theorem get?_addEdge {t u : Table} {state target : Nat} {c : Char}
    (h : t.addEdge state c target = .ok u) (state' : Nat) (c' : Char) :
    u.get? state' c' = if state = state' ∧ c = c' then some target else t.get? state' c' := by
  unfold addEdge at h
  cases ht : t.add state c target with
  | error e =>
    rw [ht] at h
    cases h
  | ok v =>
    rw [ht] at h
    cases h
    exact get?_add ht state' c'

/-- An edge can be added unless the state moves elsewhere on the character. -/
theorem add_eq_error_iff {t : Table} {state target existing : Nat} {c : Char} :
    t.add state c target = .error existing ↔
      t.get? state c = some existing ∧ existing ≠ target := by
  grind [add]

@[simp] theorem run_nil (t : Table) (state : Nat) : t.run state [] = some state := rfl

@[simp] theorem run_cons (t : Table) (state : Nat) (c : Char) (cs : List Char) :
    t.run state (c :: cs) = (t.get? state c).bind fun next => t.run next cs := rfl

theorem run_append (t : Table) (state : Nat) (v w : List Char) :
    t.run state (v ++ w) = (t.run state v).bind fun next => t.run next w := by
  induction v generalizing state with
  | nil => rfl
  | cons c v ih =>
    cases h : t.get? state c with
    | none => simp [h]
    | some next => simp [h, ih]

/-! ## Listings -/

/-- All edges from one state to another. -/
structure Bundle where
  source : Nat
  /-- ascending, without repetition -/
  characters : List Char
  target : Nat

/-- Inserts an edge into a listing, in front of the edges that are there already. -/
def Bundle.insert (source : Nat) (c : Char) (target : Nat) : List Bundle → List Bundle
  | [] => [⟨source, [c], target⟩]
  | b :: bs =>
    if b.source = source ∧ b.target = target then { b with characters := c :: b.characters } :: bs
    else if source < b.source ∨ source = b.source ∧ target < b.target then
      ⟨source, [c], target⟩ :: b :: bs
    else b :: Bundle.insert source c target bs

/-- The edges of a table, in bundles ordered by source and then by target. -/
def bundles (t : Table) : List Bundle :=
  t.edges.toList.foldr (fun ((source, c), target) => Bundle.insert source c target) []

end Table

end CircuitScan
