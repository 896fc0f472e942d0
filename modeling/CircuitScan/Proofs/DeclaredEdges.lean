import CircuitScan.Proofs.Entries
import CircuitScan.Proofs.GraphEdges
import CircuitScan.Proofs.Related
import CircuitScan.Registry.Source
import Mathlib.Data.List.Nodup

/-!
# CircuitScan.Proofs.DeclaredEdges

The edges that a recognizer file declares, and those that are loaded. Rows are written under keys,
and several keys may name one state:

1. of the rows that name a state the one that is visited last is its row, and the others are lost;
2. the arrows of a row are all loaded, and every label is as wide as it says.

So nothing is lost of a graph whose keys name different states, whatever the order in which rows
and labels are visited.

* `Registry.forall₂_keeps` — every such graph of a file that can be loaded keeps its edges;
* `loses_meetingKeys` — a file that is loaded although it declares two targets for one edge.
-/

namespace CircuitScan

namespace Assoc

variable {α β : Type} [DecidableEq α]

/-- A list with one value for each key holds what it gives. -/
theorem mem_iff_get? {l : List (α × β)} (h : (l.map (·.1)).Nodup) {key : α} {value : β} :
    (key, value) ∈ l ↔ get? key l = some value := by
  induction l with
  | nil => simp
  | cons kv l ih =>
      obtain ⟨k, v⟩ := kv
      obtain ⟨hk, hl⟩ := List.nodup_cons.mp h
      by_cases heq : k = key
      · subst heq
        have hnot : (k, value) ∉ l := fun hmem => hk (List.mem_map_of_mem (f := (·.1)) hmem)
        simp [get?, hnot, eq_comm]
      · simp [get?, heq, Ne.symm heq, ih hl]

/-- Writing a key keeps one value for each key. -/
theorem nodup_keys_put {l : List (α × β)} (h : (l.map (·.1)).Nodup) (key : α) (value : β) :
    ((put key value l).map (·.1)).Nodup := by
  rw [keys_put]
  split
  · exact h
  · next hkey => exact List.nodup_append.mpr ⟨h, by simp, by grind⟩

end Assoc

/-! ## The arrows of a row -/

namespace Graph

/-- The arrows of a graph with one row for each state are those of its rows. -/
theorem mem_arrows_iff {g : Graph} (h : (g.rows.map (·.1)).Nodup) {s t : Nat} {label : String} :
    (⟨s, label, t⟩ : Arrow) ∈ g.arrows ↔
      ∃ row, Assoc.get? s g.rows = some row ∧ (label, t) ∈ row := by
  simp [arrows, rowArrows, ← Assoc.mem_iff_get? h]

/-- The edges of the table of such a graph are those of the rows. -/
theorem get?_toTable_iff_row {g : Graph} {table : Table} (h : (g.rows.map (·.1)).Nodup)
    (htable : g.toTable = .ok table) {s t : Nat} {c : Char} :
    table.get? s c = some t ↔
      ∃ row label, Assoc.get? s g.rows = some row ∧ (label, t) ∈ row ∧
        Label.StandsFor label c := by
  rw [get?_toTable htable]
  constructor
  · rintro ⟨⟨s', label, t'⟩, hmem, rfl, rfl, hlabel⟩
    obtain ⟨row, hrow, harrow⟩ := (mem_arrows_iff h).mp hmem
    exact ⟨row, label, hrow, harrow, hlabel⟩
  · rintro ⟨row, label, hrow, harrow, hlabel⟩
    exact ⟨⟨s, label, t⟩, (mem_arrows_iff h).mpr ⟨row, hrow, harrow⟩, rfl, rfl, hlabel⟩

end Graph

namespace Declaration

variable {rows rows' : WrittenGraph} {s t : Nat} {c : Char}

/-! ## Rows and keys -/

/-- The row that is loaded for a state: the last one that names it. -/
def lastRow? (s : Nat) (rows : WrittenGraph) : Option Row :=
  (rows.reverse.find? fun e => state? e.1 = some s).map (·.2)

/-- No two keys name one state. -/
def DistinctStates (rows : WrittenGraph) : Prop := ((rows.map (·.1)).map state?).Nodup

instance (rows : WrittenGraph) : Decidable (DistinctStates rows) :=
  inferInstanceAs (Decidable (List.Nodup _))

/-- A written graph declares the edge from `s` to `t` on `c`. -/
def Declares (rows : WrittenGraph) (s : Nat) (c : Char) (t : Nat) : Prop :=
  ∃ key row label, (key, row) ∈ rows ∧ state? key = some s ∧ (label, t) ∈ row ∧
    Label.StandsFor label c

theorem state_eq_ok {key : String} : state key = .ok s ↔ state? key = some s := by
  unfold state
  cases state? key <;> simp

theorem lastRow?_concat {key : String} {s' : Nat} {row : Row} (h : state? key = some s') :
    lastRow? s (rows ++ [(key, row)]) = if s' = s then some row else lastRow? s rows := by
  unfold lastRow?
  rw [List.reverse_concat, List.find?_cons]
  by_cases hs : s' = s
  · simp [h, hs]
  · simp [h, hs]

/-- The rows of two keys that name one state are one row, if no two keys do. -/
theorem DistinctStates.eq_of_state?_eq (h : DistinctStates rows) {e f : String × Row}
    (he : e ∈ rows) (hf : f ∈ rows) (hstate : state? e.1 = state? f.1) : e = f := by
  unfold DistinctStates at h
  rw [List.map_map] at h
  exact List.inj_on_of_nodup_map h he hf hstate

/-- Where no two keys name one state, each row is that of its state. -/
theorem lastRow?_eq_some_iff (h : DistinctStates rows) {row : Row} :
    lastRow? s rows = some row ↔ ∃ key, (key, row) ∈ rows ∧ state? key = some s := by
  unfold lastRow?
  rw [Option.map_eq_some_iff]
  constructor
  · rintro ⟨⟨key, _⟩, hfind, rfl⟩
    have hmem := List.mem_of_find?_eq_some hfind
    have hstate := List.find?_some hfind
    exact ⟨key, by simpa using hmem, by simpa using hstate⟩
  · rintro ⟨key, hmem, hstate⟩
    have hsome : (rows.reverse.find? fun e => state? e.1 = some s).isSome := by
      rw [List.find?_isSome]
      exact ⟨(key, row), by simpa using hmem, by simpa using hstate⟩
    -- some row of the state is found, and there is only one
    obtain ⟨e, hfind⟩ := Option.isSome_iff_exists.mp hsome
    have he : e ∈ rows := by simpa using List.mem_of_find?_eq_some hfind
    have hname : state? e.1 = some s := by simpa using List.find?_some hfind
    obtain rfl := h.eq_of_state?_eq he hmem (hname.trans hstate.symm)
    exact ⟨_, hfind, rfl⟩

/-! ## The graph of written rows -/

/-- The graph of written rows has one row for each state that a key names, the last one. -/
theorem rows_toGraph {g : Graph} (h : toGraph rows = .ok g) :
    (g.rows.map (·.1)).Nodup ∧ ∀ s, Assoc.get? s g.rows = lastRow? s rows := by
  unfold toGraph at h
  -- from the back, as the row that is written last is the one that stays
  induction rows using List.reverseRecOn generalizing g with
  | nil =>
      cases h
      exact ⟨List.nodup_nil, fun s => rfl⟩
  | append_singleton rows e ih =>
      obtain ⟨key, row⟩ := e
      obtain ⟨m, hm, hput⟩ := foldlM_concat_eq_ok.mp h
      obtain ⟨s', hstate, hg⟩ := bind_eq_ok.mp hput
      cases hg
      obtain ⟨hnodup, hrows⟩ := ih hm
      refine ⟨Assoc.nodup_keys_put hnodup s' row, fun s => ?_⟩
      rw [lastRow?_concat (state_eq_ok.mp hstate), ← hrows]
      exact Assoc.get?_put s' s row m.rows

/-- A recognizer with exactly the edges that the rows declare. -/
def Keeps (rows : WrittenGraph) (x : Recognizer) : Prop :=
  ∀ s c t, x.automaton.table.get? s c = some t ↔ Declares rows s c t

/-- A recognizer of written rows has the edges of the last row of each state. -/
theorem get?_iff_lastRow? {d : Declaration} {e : Entry} {x : Recognizer} {start : Nat}
    {accepting : List Nat} (hd : d.body = .graph start accepting rows) (he : d.toEntry = .ok e)
    (hx : e.Builds x) :
    x.automaton.table.get? s c = some t ↔
      ∃ row label, lastRow? s rows = some row ∧ (label, t) ∈ row ∧ Label.StandsFor label c := by
  unfold toEntry at he
  rw [hd] at he
  obtain ⟨g, hg, he⟩ := bind_eq_ok.mp he
  cases he
  obtain ⟨y, n, hy, rfl⟩ := hx
  obtain ⟨table, htable, rfl⟩ := Recognizer.ofGraph_eq_ok hy
  obtain ⟨hnodup, hrows⟩ := rows_toGraph (mapError_eq_ok.mp hg)
  rw [← hrows]
  exact Graph.get?_toTable_iff_row hnodup htable

theorem keeps_of_builds {d : Declaration} {e : Entry} {x : Recognizer} {start : Nat}
    {accepting : List Nat} (hd : d.body = .graph start accepting rows)
    (hrows : DistinctStates rows) (he : d.toEntry = .ok e) (hx : e.Builds x) :
    Keeps rows x := by
  intro s c t
  rw [get?_iff_lastRow? hd he hx]
  simp only [lastRow?_eq_some_iff hrows, Declares]
  grind

/-! ## The order of visits -/

/-- The same rows with the same arrows, in some order. -/
def Reorders (rows rows' : WrittenGraph) : Prop :=
  ∃ mid, rows.Perm mid ∧ List.Forall₂ (fun e f => e.1 = f.1 ∧ e.2.Perm f.2) mid rows'

theorem reorders_refl (rows : WrittenGraph) : Reorders rows rows :=
  ⟨rows, .refl rows, List.forall₂_same.mpr fun e _ => ⟨rfl, .refl e.2⟩⟩

/-- The order of visits decides nothing about what is declared. -/
theorem Reorders.declares_iff (h : Reorders rows rows') :
    Declares rows s c t ↔ Declares rows' s c t := by
  obtain ⟨mid, hperm, hmid⟩ := h
  constructor
  · rintro ⟨key, row, label, hrow, hkey, harrow, hlabel⟩
    obtain ⟨⟨key', row'⟩, hrow', rfl, hsame⟩ :=
      exists_related_left hmid (key, row) (hperm.mem_iff.mp hrow)
    exact ⟨key, row', label, hrow', hkey, hsame.mem_iff.mp harrow, hlabel⟩
  · rintro ⟨key, row', label, hrow', hkey, harrow, hlabel⟩
    obtain ⟨⟨key', row⟩, hrow, hname, hsame⟩ := exists_related_right hmid (key, row') hrow'
    obtain rfl : key' = key := hname
    exact ⟨key', row, label, hperm.mem_iff.mpr hrow, hkey, hsame.mem_iff.mpr harrow, hlabel⟩

theorem Reorders.distinctStates_iff (h : Reorders rows rows') :
    DistinctStates rows ↔ DistinctStates rows' := by
  obtain ⟨mid, hperm, hmid⟩ := h
  have hkeys : mid.map (·.1) = rows'.map (·.1) := by
    clear hperm
    induction hmid with
    | nil => rfl
    | cons he _ ih => rw [List.map_cons, List.map_cons, he.1, ih]
  unfold DistinctStates
  rw [← hkeys]
  exact ((hperm.map _).map _).nodup_iff

/-- The same declaration, but for the order of rows and arrows. -/
inductive SameUpToOrder : Declaration → Declaration → Prop where
  | pattern (name kind text) :
    SameUpToOrder ⟨name, kind, .pattern text⟩ ⟨name, kind, .pattern text⟩
  | graph (name kind start accepting) {rows rows'} (h : Reorders rows rows') :
    SameUpToOrder ⟨name, kind, .graph start accepting rows⟩
      ⟨name, kind, .graph start accepting rows'⟩

theorem sameUpToOrder_refl (d : Declaration) : SameUpToOrder d d := by
  obtain ⟨name, kind, body⟩ := d
  cases body with
  | pattern text => exact .pattern name kind text
  | graph start accepting rows => exact .graph name kind start accepting (reorders_refl rows)

end Declaration

namespace Registry

open Declaration

/-- A registry that may be loaded from a text: rows and arrows are visited in any order. -/
def Loads (text : String) (r : Registry) : Prop :=
  ∃ ds ds', decode text = .ok ds ∧ List.Forall₂ SameUpToOrder ds ds' ∧
    ds'.foldlM addDeclaration empty = .ok r

/-- What is loaded in the order of the text may be loaded. -/
theorem loads_of_ofText {text : String} {r : Registry} (h : ofText text = .ok r) :
    Loads text r := by
  obtain ⟨ds, hds, hfold⟩ := bind_eq_ok.mp h
  exact ⟨ds, ds, mapError_eq_ok.mp hds, List.forall₂_same.mpr fun d _ => sameUpToOrder_refl d,
    hfold⟩

theorem exists_loads_of_map {text : String} {f : Registry → α} {a : α}
    (h : (ofText text).map f = .ok a) : ∃ r, Loads text r ∧ f r = a := by
  cases hload : ofText text with
  | error e =>
      rw [hload] at h
      cases h
  | ok r =>
      rw [hload] at h
      cases h
      exact ⟨r, loads_of_ofText hload, rfl⟩

/-- Declarations are registered through their entries. -/
theorem forall₂_toEntry {ds : List Declaration} {r : Registry}
    (h : ds.foldlM addDeclaration empty = .ok r) :
    ∃ es, List.Forall₂ (fun d e => d.toEntry = .ok e) ds es ∧ ofEntries es = .ok r := by
  induction ds using List.reverseRecOn generalizing r with
  | nil => exact ⟨[], .nil, h⟩
  | append_singleton ds d ih =>
      obtain ⟨m, hm, hadd⟩ := foldlM_concat_eq_ok.mp h
      obtain ⟨e, he, hr⟩ := bind_eq_ok.mp hadd
      obtain ⟨es, hes, hm⟩ := ih hm
      exact ⟨es ++ [e], List.rel_append hes (.cons he .nil), foldlM_concat_eq_ok.mpr ⟨m, hm, hr⟩⟩

/-- A registry that may be loaded has, in order, one recognizer for each declaration, and a graph
whose keys name different states keeps its edges. -/
theorem forall₂_keeps {text : String} {r : Registry} (h : Loads text r) :
    ∃ ds, decode text = .ok ds ∧
      List.Forall₂ (fun d x => ∀ start accepting rows, d.body = .graph start accepting rows →
        DistinctStates rows → Keeps rows x) ds r.recognizers := by
  obtain ⟨ds, ds', hds, horder, hfold⟩ := h
  obtain ⟨es, hes, hr⟩ := forall₂_toEntry hfold
  have hbuilt : List.Forall₂ (fun d x => ∃ e, d.toEntry = .ok e ∧ e.Builds x) ds' r.recognizers :=
    forall₂_trans (fun d e x he hx => ⟨e, he, hx⟩) hes (forall₂_builds hr)
  refine ⟨ds, hds, forall₂_trans ?_ horder hbuilt⟩
  rintro d d' x hsame ⟨e, he, hx⟩ start accepting rows hbody hdistinct
  cases hsame with
  | pattern => cases hbody
  | graph name kind start' accepting' hreorders =>
      cases hbody
      intro s c t
      rw [hreorders.declares_iff]
      exact keeps_of_builds rfl (hreorders.distinctStates_iff.mp hdistinct) he hx s c t

end Registry

deriving instance DecidableEq for WrittenBody, Declaration

/-- Keys in unusual spellings, each of a state of its own. -/
def paddedKeys : String :=
  "[[\x7b\"name\": \"x\", \"kind\": \"AND\", \"start\": 0, \"accept\": [1], " ++
    "\"graph\": \x7b\"00\": \x7b\"a\": 1\x7d, \" +1 \": \x7b\"b-d\": 1\x7d\x7d\x7d]]"

/-- The rows of `paddedKeys`. -/
def paddedRows : WrittenGraph := [("00", [("a", 1)]), (" +1 ", [("b-d", 1)])]

theorem forall₂_keeps_paddedKeys :
    ∃ r x, Registry.Loads paddedKeys r ∧ r.recognizers = [x] ∧
      Declaration.DistinctStates paddedRows ∧ Declaration.Keeps paddedRows x := by
  have hdecode : Declaration.decode paddedKeys = .ok [⟨"x", .and, .graph 0 [1] paddedRows⟩] := by
    decide +kernel
  have hnames : (Registry.ofText paddedKeys).map (·.names) = .ok ["x"] := by decide +kernel
  have hdistinct : Declaration.DistinctStates paddedRows := by decide +kernel
  obtain ⟨r, hloads, -⟩ := Registry.exists_loads_of_map hnames
  obtain ⟨ds, hds, hkeeps⟩ := Registry.forall₂_keeps hloads
  obtain rfl := Except.ok.inj (hdecode.symm.trans hds)
  obtain ⟨x, xs, hx, hrest, hr⟩ := List.forall₂_cons_left_iff.mp hkeeps
  obtain rfl := List.forall₂_nil_left_iff.mp hrest
  exact ⟨r, x, hloads, hr, hdistinct, hx 0 [1] paddedRows rfl hdistinct⟩

/-- Two keys that meet on one state, each with a target of its own for `a`. -/
def meetingKeys : String :=
  "[[\x7b\"name\": \"x\", \"kind\": \"AND\", \"start\": 0, \"accept\": [1, 2], " ++
    "\"graph\": \x7b\"0\": \x7b\"a\": 1\x7d, \"00\": \x7b\"a\": 2\x7d\x7d\x7d]]"

/-- The rows of `meetingKeys`. -/
def meetingRows : WrittenGraph := [("0", [("a", 1)]), ("00", [("a", 2)])]

/-- The file is loaded, and of two edges that it declares one is lost. -/
theorem loses_meetingKeys :
    Declaration.decode meetingKeys = .ok [⟨"x", .and, .graph 0 [1, 2] meetingRows⟩] ∧
      Declaration.Declares meetingRows 0 'a' 1 ∧ Declaration.Declares meetingRows 0 'a' 2 ∧
      ∃ r x, Registry.Loads meetingKeys r ∧ r.recognizers = [x] ∧
        x.automaton.table.get? 0 'a' = some 2 := by
  have hdecode : Declaration.decode meetingKeys =
      .ok [⟨"x", .and, .graph 0 [1, 2] meetingRows⟩] := by
    decide +kernel
  have hlabel : Label.StandsFor "a" 'a' := (Label.standsFor_singleton rfl).mpr rfl
  have hzero : Declaration.state? "0" = some 0 := by decide
  have hzeros : Declaration.state? "00" = some 0 := by decide
  have hone : Declaration.Declares meetingRows 0 'a' 1 :=
    ⟨"0", [("a", 1)], "a", by decide, hzero, by decide, hlabel⟩
  have htwo : Declaration.Declares meetingRows 0 'a' 2 :=
    ⟨"00", [("a", 2)], "a", by decide, hzeros, by decide, hlabel⟩
  have hedges : (Registry.ofText meetingKeys).map
      (fun r => r.recognizers.map fun x => x.automaton.table.get? 0 'a') = .ok [some 2] := by
    decide +kernel
  obtain ⟨r, hloads, hmap⟩ := Registry.exists_loads_of_map hedges
  obtain ⟨x, hr, hedge⟩ := List.map_eq_singleton_iff.mp hmap
  exact ⟨hdecode, hone, htwo, r, x, hloads, hr, hedge⟩

end CircuitScan
