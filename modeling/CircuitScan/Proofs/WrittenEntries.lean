import CircuitScan.Proofs.Json.Written
import CircuitScan.Proofs.Success
import CircuitScan.Registry.Source
import Mathlib.Data.List.Nodup

/-!
# CircuitScan.Proofs.WrittenEntries

Entries as a recognizer file writes them, and the reading of such a file. An entry is an object with
its name, the tag of its kind, and either a pattern or a graph; the states of a graph are keys in
decimal digits. A graph can be written if it has one row for each state and one target for each
label in a row, and if its states fit a word.

* `Declaration.decode_write` — what is read from a written list of entries are these entries.
-/

namespace CircuitScan

open Json (Reader Value Spelled Filled Closes bind_apply next_cons skip_cons colon_cons writeText
  writeNatural writeList writeObject)

/-! ## Entries that can be written -/

/-- A graph with one row for each state and one target for each label, of states that fit a word. -/
structure Graph.Writable (g : Graph) : Prop where
  nodup_states : (g.rows.map (·.1)).Nodup
  nodup_labels : ∀ e ∈ g.rows, (e.2.map (·.1)).Nodup
  state_lt : ∀ e ∈ g.rows, e.1 < Text.wordEnd
  target_lt : ∀ e ∈ g.rows, ∀ a ∈ e.2, a.2 < Text.wordEnd

instance (g : Graph) : Decidable g.Writable :=
  decidable_of_iff (_ ∧ _ ∧ _ ∧ _)
    ⟨fun ⟨hstates, hlabels, hstate, htarget⟩ => ⟨hstates, hlabels, hstate, htarget⟩,
      fun h => ⟨h.nodup_states, h.nodup_labels, h.state_lt, h.target_lt⟩⟩

/-- A pattern can always be written, and a graph if its states fit a word. -/
def Body.Writable : Body → Prop
  | .pattern _ => True
  | .graph start accepting g =>
    start < Text.wordEnd ∧ (∀ s ∈ accepting, s < Text.wordEnd) ∧ g.Writable

instance : (b : Body) → Decidable b.Writable
  | .pattern _ => inferInstanceAs (Decidable True)
  | .graph _ _ _ => inferInstanceAs (Decidable (_ ∧ _ ∧ _))

/-- An entry that can be written into a file. -/
def Entry.Writable (e : Entry) : Prop := e.body.Writable

instance (e : Entry) : Decidable e.Writable := inferInstanceAs (Decidable e.body.Writable)

/-! ## Entries as they are written -/

/-- A row under the digits of its state. -/
def Graph.keyed (e : Nat × Row) : String × Row := (e.1.repr, e.2)

/-- The rows of a graph as they are written. -/
def Graph.toWritten (g : Graph) : WrittenGraph := g.rows.map keyed

/-- The body of an entry as it is written. -/
def Body.toWritten : Body → WrittenBody
  | .pattern text => .pattern text
  | .graph start accepting g => .graph start accepting g.toWritten

/-- An entry as it is written. -/
def Entry.toDeclaration (e : Entry) : Declaration where
  name := e.name
  kind := e.kind
  body := e.body.toWritten

/-! ## Writing -/

/-- The object of a row. -/
def writeRow (row : Row) : List Char :=
  writeObject (row.map fun (label, t) => (label, writeNatural t))

/-- The object of a graph. -/
def Graph.write (g : Graph) : List Char :=
  writeObject (g.rows.map fun (s, row) => (s.repr, writeRow row))

/-- The members of an entry that describe its automaton. -/
def Body.write : Body → List (String × List Char)
  | .pattern text => [("pattern", writeText text)]
  | .graph start accepting g =>
    [("start", writeNatural start), ("accept", writeList (accepting.map writeNatural)),
      ("graph", g.write)]

/-- The object of an entry. -/
def Entry.write (e : Entry) : List Char :=
  writeObject (("name", writeText e.name) :: ("kind", writeText e.kind.tag) :: e.body.write)

/-- The characters of the file of a list of entries. -/
def Entry.file (es : List Entry) : List Char :=
  writeObject [("recognizers", writeList (es.map Entry.write))]

/-- The file of a list of entries. -/
def Entry.writeAll (es : List Entry) : String := String.ofList (file es)

/-! ## Values of bodies -/

/-- A row as a JSON value. -/
def rowValue (row : Row) : Value := .object (row.map fun (label, t) => (label, .natural t))

/-- A graph as a JSON value. -/
def Graph.toValue (g : Graph) : Value :=
  .object (g.rows.map fun (s, row) => (s.repr, rowValue row))

/-- The values of the members that describe an automaton. -/
def Body.values : Body → List (String × Value)
  | .pattern text => [("pattern", .text text)]
  | .graph start accepting g =>
    [("start", .natural start), ("accept", .list (accepting.map .natural)), ("graph", g.toValue)]

section

variable {limit depth : Nat}

theorem spelled_row {row : Row} (h : ∀ a ∈ row, a.2 < Text.wordEnd)
    (hlimit : (writeRow row).length < limit) :
    Spelled (Json.value .full limit (depth + 1)) (rowValue row) (writeRow row) := by
  apply Json.spelled_object _ hlimit
  rw [List.forall₂_map_left_iff, List.forall₂_map_right_iff, List.forall₂_same]
  exact fun a ha => ⟨rfl, Json.spelled_natural (h a ha)⟩

theorem Graph.spelled {g : Graph} (h : g.Writable) (hlimit : g.write.length < limit) :
    Spelled (Json.value .full limit (depth + 2)) g.toValue g.write := by
  apply Json.spelled_object _ hlimit
  rw [List.forall₂_map_left_iff, List.forall₂_map_right_iff, List.forall₂_same]
  intro (s, row) hmem
  have hrow : (s.repr, writeRow row) ∈ g.rows.map fun (s, row) => (s.repr, writeRow row) :=
    List.mem_map_of_mem hmem
  have hlength := Json.length_lt_writeObject_of_mem hrow
  exact ⟨rfl, spelled_row (h.target_lt (s, row) hmem) (Nat.lt_trans hlength hlimit)⟩

theorem spelled_naturals {ns : List Nat} (h : ∀ n ∈ ns, n < Text.wordEnd)
    (hlimit : (writeList (ns.map writeNatural)).length < limit) :
    Spelled (Json.value .full limit (depth + 1)) (.list (ns.map .natural))
      (writeList (ns.map writeNatural)) := by
  apply Json.spelled_list _ hlimit
  rw [List.forall₂_map_left_iff, List.forall₂_map_right_iff, List.forall₂_same]
  exact fun n hn => Json.spelled_natural (h n hn)

/-- The members that describe an automaton are spellings of their values. -/
theorem Body.spelled {b : Body} (h : b.Writable)
    (hlimit : ∀ m ∈ b.write, m.2.length < limit) :
    List.Forall₂ (fun v m => v.1 = m.1 ∧ Spelled (Json.value .full limit (depth + 2)) v.2 m.2)
      b.values b.write := by
  cases b with
  | pattern text => exact .cons ⟨rfl, Json.spelled_text text⟩ .nil
  | graph start accepting g =>
      obtain ⟨hstart, haccepting, hg⟩ := h
      have haccept := hlimit ("accept", writeList (accepting.map writeNatural)) (by simp [write])
      have hgraph := hlimit ("graph", g.write) (by simp [write])
      exact .cons ⟨rfl, Json.spelled_natural hstart⟩ <|
        .cons ⟨rfl, spelled_naturals haccepting haccept⟩ <| .cons ⟨rfl, Graph.spelled hg hgraph⟩ .nil

end

/-! ## Bodies of values -/

namespace Declaration

theorem put_of_notMem [DecidableEq α] {key : α} {value : β} {l : List (α × β)}
    (h : key ∉ l.map (·.1)) : Assoc.put key value l = l ++ [(key, value)] := by
  induction l with
  | nil => rfl
  | cons kv l ih =>
      obtain ⟨k, v⟩ := kv
      rw [List.map_cons, List.mem_cons, not_or] at h
      obtain ⟨hk, hl⟩ := h
      rw [Assoc.put, if_neg (Ne.symm hk), ih hl, List.cons_append]

/-- An object without repeated keys is read as it is. -/
theorem assignAll?_object {read : Value → Option β} {fields : List (String × Value)}
    {entries : List (String × β)}
    (h : List.Forall₂ (fun f e => f.1 = e.1 ∧ read f.2 = some e.2) fields entries)
    (hnodup : (entries.map (·.1)).Nodup) : assignAll? read (.object fields) = some entries := by
  have hfold (acc : List (String × β)) (hacc : ((acc ++ entries).map (·.1)).Nodup) :
      fields.foldlM (fun acc f => do return Assoc.put f.1 (← read f.2) acc) acc =
        some (acc ++ entries) := by
    clear hnodup
    induction h generalizing acc with
    | nil => simp
    | @cons f e fields entries hf _ ih =>
        obtain ⟨key, v⟩ := f
        obtain ⟨key', b⟩ := e
        obtain ⟨rfl, hread⟩ := hf
        -- the key is new, so it is written behind all others
        have hnew : key ∉ acc.map (·.1) := by
          intro hmem
          rw [List.map_append, List.nodup_append] at hacc
          exact hacc.2.2 key hmem key (by simp) rfl
        have hrest := ih (acc ++ [(key, b)]) (by simpa using hacc)
        simp only [List.foldlM_cons, hread, Option.bind_eq_bind, Option.bind_some,
          put_of_notMem hnew, Option.pure_def] at hrest ⊢
        rw [hrest, List.append_assoc, List.singleton_append]
  exact hfold [] hnodup

theorem assignAll?_rowValue {row : Row} (h : (row.map (·.1)).Nodup) :
    assignAll? natural? (rowValue row) = some row := by
  apply assignAll?_object _ h
  rw [List.forall₂_map_left_iff, List.forall₂_same]
  exact fun _ _ => ⟨rfl, rfl⟩

theorem nodup_keys_toWritten {g : Graph} (h : (g.rows.map (·.1)).Nodup) :
    (g.toWritten.map (·.1)).Nodup := by
  have hkeys : g.toWritten.map (·.1) = (g.rows.map (·.1)).map Nat.repr := by
    simp [Graph.toWritten, Graph.keyed]
  rw [hkeys]
  exact List.Nodup.map Text.repr_injective h

/-- The value of a graph is read as its rows. -/
theorem assignAll?_toValue {g : Graph} (h : g.Writable) :
    assignAll? (assignAll? natural?) g.toValue = some g.toWritten := by
  apply assignAll?_object _ (nodup_keys_toWritten h.nodup_states)
  rw [Graph.toWritten, List.forall₂_map_left_iff, List.forall₂_map_right_iff, List.forall₂_same]
  exact fun (s, row) hmem => ⟨rfl, assignAll?_rowValue (h.nodup_labels (s, row) hmem)⟩

theorem naturals?_list (ns : List Nat) : naturals? (.list (ns.map .natural)) = some ns := by
  unfold naturals?
  induction ns with
  | nil => rfl
  | cons n ns ih => simp [natural?, ih]

/-- The members of a written body describe the body. -/
theorem body?_values {b : Body} (h : b.Writable) : body? b.values = some b.toWritten := by
  cases b with
  | pattern text => simp [body?, patternBody?, unique?, text?, Body.values, Body.toWritten]
  | graph start accepting g =>
      obtain ⟨-, -, hg⟩ := h
      have hpattern : patternBody? (Body.values (.graph start accepting g)) = none := by
        simp [patternBody?, unique?, Body.values]
      have hgraph : graphBody? (Body.values (.graph start accepting g)) =
          some (.graph start accepting g.toWritten) := by
        simp [graphBody?, unique?, Body.values, natural?, naturals?_list, assignAll?_toValue hg]
      rw [body?, hpattern, hgraph]
      rfl

/-! ## Reading -/

section

variable {limit : Nat} {p : Parts} {rest : List Char}

/-- The name is read where it has not been given before. -/
theorem readField_name (h : p.name = none) (s : String) (rest : List Char) :
    readField limit p "name" (':' :: writeText s ++ rest) = .ok ({ p with name := some s }, rest) := by
  have hname : readName (writeText s ++ rest) = .ok (s, rest) := by
    unfold readName writeText
    rw [List.cons_append, bind_apply (next_cons (by decide) _)]
    refine (bind_apply (skip_cons '"' _)).trans ?_
    rw [List.append_assoc, List.singleton_append]
    exact Json.text_written .full s rest
  unfold readField
  simp only [h, Option.isSome_none, if_true, Bool.false_eq_true, if_false]
  rw [List.cons_append, bind_apply (colon_cons _), bind_apply hname]
  rfl

/-- So is the kind. -/
theorem readField_kind (h : p.kind = none) (k : Kind) (rest : List Char) :
    readField limit p "kind" (':' :: writeText k.tag ++ rest) =
      .ok ({ p with kind := some k }, rest) := by
  have hkind : readKind (writeText k.tag ++ rest) = .ok (k, rest) := by
    unfold readKind writeText
    rw [List.cons_append, bind_apply (next_cons (by decide) _)]
    refine (bind_apply (skip_cons '"' _)).trans ?_
    rw [List.append_assoc, List.singleton_append, bind_apply (Json.text_written .full k.tag rest),
      kindOf, Kind.ofTag?_tag]
    rfl
  unfold readField
  have hother : ("kind" = "name") = False := by simp
  simp only [hother, h, Option.isSome_none, if_true, Bool.false_eq_true, if_false]
  rw [List.cons_append, bind_apply (colon_cons _), bind_apply hkind]
  rfl

/-- The members that describe an automaton are kept as they are. -/
theorem filled_others {ms : List (String × Value)} {members : List (String × List Char)}
    (h : List.Forall₂ (fun v m => v.1 = m.1 ∧
      Spelled (Json.value .full limit (depthLimit - 3)) v.2 m.2) ms members)
    (hkeys : ∀ m ∈ ms, m.1 ≠ "name" ∧ m.1 ≠ "kind") (p : Parts) :
    Filled (readField limit) p members { p with others := p.others ++ ms } := by
  induction h generalizing p with
  | nil => simpa using Filled.nil p
  | @cons v m ms members hm _ ih =>
      obtain ⟨key, v⟩ := v
      obtain ⟨key', cs⟩ := m
      obtain ⟨rfl, hv⟩ := hm
      obtain ⟨hname, hkind⟩ := hkeys (key, v) List.mem_cons_self
      have hrest := ih (fun m hmem => hkeys m (List.mem_cons_of_mem _ hmem))
        { p with others := p.others.push (key, v) }
      have hpush : p.others.push (key, v) ++ ms = p.others ++ ((key, v) :: ms) := by simp
      dsimp only at hrest
      rw [hpush] at hrest
      refine .cons ?_ hrest
      intro rest hclose
      unfold readField
      rw [if_neg hname, if_neg hkind, List.cons_append, bind_apply (colon_cons _),
        bind_apply (hv.read rest hclose)]
      rfl

/-- A written entry is read as the entry. -/
theorem spelled_entry {e : Entry} (h : e.Writable) (hlimit : e.write.length < limit) :
    Spelled (readOne limit) e.toDeclaration e.write := by
  have hvalues : List.Forall₂ (fun v m => v.1 = m.1 ∧
      Spelled (Json.value .full limit (depthLimit - 3)) v.2 m.2) e.body.values e.body.write := by
    apply Body.spelled h
    intro (key, cs) hmem
    have hmember : (key, cs) ∈ ("name", writeText e.name) :: ("kind", writeText e.kind.tag) ::
        e.body.write := List.mem_cons_of_mem _ (List.mem_cons_of_mem _ hmem)
    exact Nat.lt_trans (Json.length_lt_writeObject_of_mem hmember) hlimit
  have hkeys : ∀ m ∈ e.body.values, m.1 ≠ "name" ∧ m.1 ≠ "kind" := by
    cases e.body with
    | pattern text => simp [Body.values]
    | graph start accepting g => simp [Body.values]
  have hfilled := Filled.cons (fun rest _ => readField_name (p := {}) rfl e.name rest) <|
    Filled.cons (fun rest _ => readField_kind rfl e.kind rest) (filled_others hvalues hkeys _)
  constructor
  case front => exact ⟨'\x7b', _, rfl, by decide, by decide⟩
  case read =>
    intro rest _
    have hfields := Json.fields_written hfilled .full hlimit rest
    have hparts : ofParts? ⟨some e.name, some e.kind,
        (#[] : Array (String × Value)) ++ e.body.values⟩ = some e.toDeclaration := by
      simp only [ofParts?, Option.bind_eq_bind, Option.bind_some, Array.toList_appendList,
        List.nil_append, body?_values h]
      rfl
    unfold readOne
    rw [Entry.write, writeObject, List.cons_append, List.append_assoc, List.singleton_append,
      bind_apply (next_cons (by decide) _)]
    refine (bind_apply (skip_cons '\x7b' _)).trans ?_
    rw [bind_apply hfields]
    simp only [hparts]
    rfl

/-- A written list of entries is read as the entries. -/
theorem readList_written {es : List Entry} (h : ∀ e ∈ es, e.Writable)
    (hlimit : (writeList (es.map Entry.write)).length < limit) (rest : List Char) :
    readList limit (writeList (es.map Entry.write) ++ rest) =
      .ok (es.map Entry.toDeclaration, rest) := by
  have hitems : List.Forall₂ (Spelled (readOne limit)) (es.map Entry.toDeclaration)
      (es.map Entry.write) := by
    rw [List.forall₂_map_left_iff, List.forall₂_map_right_iff, List.forall₂_same]
    intro e he
    have hlength := Json.length_lt_writeList_of_mem (List.mem_map_of_mem (f := Entry.write) he)
    exact spelled_entry (h e he) (Nat.lt_trans hlength hlimit)
  unfold readList
  rw [writeList, List.cons_append, List.append_assoc, List.singleton_append,
    bind_apply (next_cons (by decide) _)]
  refine (bind_apply (skip_cons '[' _)).trans ?_
  exact Json.elements_written hitems hlimit rest

/-- A written file is read as its entries. -/
theorem readFile_written {es : List Entry} (h : ∀ e ∈ es, e.Writable)
    (hlimit : (Entry.file es).length < limit) :
    readFile limit (Entry.file es) = .ok (es.map Entry.toDeclaration, []) := by
  have hmember : ("recognizers", writeList (es.map Entry.write)) ∈
      [("recognizers", writeList (es.map Entry.write))] := List.mem_singleton.mpr rfl
  have hlength := Nat.lt_trans (Json.length_lt_writeObject_of_mem hmember) hlimit
  have hfield (rest : List Char) :
      readTopField limit none "recognizers" (':' :: writeList (es.map Entry.write) ++ rest) =
        .ok (some (es.map Entry.toDeclaration), rest) := by
    unfold readTopField
    simp only [if_true, Option.isSome_none, Bool.false_eq_true, if_false]
    rw [List.cons_append, bind_apply (colon_cons _), bind_apply (readList_written h hlength rest)]
    rfl
  have hfields := Json.fields_written (.cons (fun rest _ => hfield rest) (.nil _)) .full hlimit []
  unfold readFile
  rw [Entry.file, writeObject, bind_apply (next_cons (by decide) _)]
  refine (bind_apply (skip_cons '\x7b' _)).trans ?_
  rw [bind_apply hfields]
  rfl

end

/-- **Writing and reading**: what is read from the file of a list of entries are the entries. -/
theorem decode_writeAll {es : List Entry} (h : ∀ e ∈ es, e.Writable) :
    decode (Entry.writeAll es) = .ok (es.map Entry.toDeclaration) := by
  have hread := readFile_written h (Nat.lt_succ_self _)
  have hrun : (do
      let ds ← readFile ((Entry.file es).length + 1)
      Json.finish
      return ds : Reader (List Declaration)).run (Entry.file es) =
        .ok (es.map Entry.toDeclaration, []) :=
    (bind_apply hread).trans rfl
  unfold decode Entry.writeAll
  rw [String.toList_ofList]
  dsimp only
  rw [hrun]
  rfl

example : Entry.writeAll [⟨"\"x\"\n", .and, .graph 0 [1] ⟨[(0, [("a", 10)])]⟩⟩] =
    "\x7b\"recognizers\":[\x7b\"name\":\"\\\"x\\\"\\u000a\",\"kind\":\"AND\"," ++
      "\"start\":0,\"accept\":[1],\"graph\":\x7b\"0\":\x7b\"a\":10\x7d\x7d\x7d]\x7d" := by
  decide

/-! ## States in keys -/

theorem isBlank_of_isDigit {c : Char} (h : c.isDigit = true) : Text.isBlank c = false := by
  simp only [Char.isDigit, ge_iff_le, Bool.and_eq_true, decide_eq_true_eq, UInt32.le_iff_toNat_le]
    at h
  have hlow : '0'.val.toNat = 48 := rfl
  have hhigh : '9'.val.toNat = 57 := rfl
  rw [hlow, hhigh] at h
  simp only [Text.isBlank, Text.inRanges, Text.blankRanges, Char.toNat, List.any_cons, List.any_nil,
    Bool.or_false, Bool.or_eq_false_iff, Bool.and_eq_false_iff, decide_eq_false_iff_not]
  omega

theorem trim_of_noBlank {cs : List Char} (h : ∀ c ∈ cs, Text.isBlank c = false) :
    Text.trim cs = cs := by
  have hstart {ds : List Char} (hds : ∀ c ∈ ds, Text.isBlank c = false) :
      Text.trimStart ds = ds := by
    cases ds with
    | nil => rfl
    | cons d ds => simp [Text.trimStart, hds d List.mem_cons_self]
  rw [Text.trim, hstart h, Text.trimEnd, hstart (by simpa using h), List.reverse_reverse]

/-- The digits of a state name the state. -/
theorem state?_repr {s : Nat} (h : s < Text.wordEnd) : state? s.repr = some s := by
  have hdigits : ∀ c ∈ writeNatural s, c.isDigit = true :=
    fun c => Json.isDigit_of_mem_writeNatural
  have htrim : Text.trim s.repr.toList = writeNatural s := by
    rw [Nat.toList_repr]
    exact trim_of_noBlank fun c hc => isBlank_of_isDigit (hdigits c hc)
  have hdecimal : Text.decimal? (writeNatural s) = some s := by
    have hne : writeNatural s ≠ [] := Nat.toDigits_ne_nil
    rw [Text.decimal?, if_pos ⟨hne, List.all_eq_true.mpr hdigits⟩, Json.ofDigits_writeNatural]
  unfold state?
  rw [htrim]
  split
  · next cs hplus =>
      have hdigit := hdigits '+' (by rw [hplus]; exact List.mem_cons_self)
      contradiction
  · simp only [hdecimal]
    rw [Option.filter_some, if_pos (by simpa using h)]

/-- Written rows make the graph again. -/
theorem toGraph_toWritten {g : Graph} (h : g.Writable) : toGraph g.toWritten = .ok g := by
  have hfold (acc : List (Nat × Row)) (rows : List (Nat × Row))
      (hlt : ∀ e ∈ rows, e.1 < Text.wordEnd)
      (hnodup : ((acc ++ rows).map (·.1)).Nodup) :
      (rows.map Graph.keyed).foldlM
        (fun (g : Graph) e => do return g.putRow (← state e.1) e.2) ⟨acc⟩ =
          (.ok ⟨acc ++ rows⟩ : Except LoadError Graph) := by
    induction rows generalizing acc with
    | nil =>
        rw [List.append_nil]
        rfl
    | cons e rows ih =>
        obtain ⟨s, row⟩ := e
        have hstate : state s.repr = .ok s := by
          rw [state, state?_repr (hlt (s, row) List.mem_cons_self)]
        have hnew : s ∉ acc.map (·.1) := by
          intro hmem
          rw [List.map_append, List.nodup_append] at hnodup
          exact hnodup.2.2 s hmem s (by simp) rfl
        have hstep : (do return Graph.putRow ⟨acc⟩ (← state s.repr) row : Except LoadError Graph) =
            .ok ⟨acc ++ [(s, row)]⟩ := by
          rw [hstate, ← put_of_notMem hnew]
          rfl
        have hrest := ih (acc ++ [(s, row)])
          (fun e he => hlt e (List.mem_cons_of_mem _ he)) (by simpa using hnodup)
        rw [List.append_assoc] at hrest
        exact foldlM_cons_eq_ok.mpr ⟨_, hstep, hrest⟩
  exact hfold [] g.rows h.state_lt h.nodup_states

/-- A written entry is declared as the entry. -/
theorem toEntry_toDeclaration {e : Entry} (h : e.Writable) : e.toDeclaration.toEntry = .ok e := by
  obtain ⟨name, kind, body⟩ := e
  cases body with
  | pattern text => rfl
  | graph start accepting g =>
      obtain ⟨-, -, hg⟩ := h
      unfold toEntry Entry.toDeclaration
      simp only [Body.toWritten, toGraph_toWritten hg]
      rfl

end Declaration

end CircuitScan
