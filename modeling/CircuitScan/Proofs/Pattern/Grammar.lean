import CircuitScan.Proofs.Pattern.Clash
import CircuitScan.Proofs.PrefixFree
import CircuitScan.Proofs.Related

/-!
# CircuitScan.Proofs.Pattern.Grammar

The grammar of patterns, and the reader that follows it. A unit is written as a character for
itself, as a character behind a backslash or as a label in brackets (`Form`), and a star may stand
behind it (`Written`). Between two characters a reader has read some written units and the beginning
of one more (`Reader.Holds`), so what it accepts is written by the grammar; and it reads every unit
that is written so back, whatever it has read before.

No unit begins with a star, and its first character tells its form. So a text is written in one way
only:

* `holds_read`, `foldlM_read_text` — one character of a unit, and all of them;
* `eq_of_text_append` — what is written first is told by the text;
* `follows_grammar` — which patterns are accepted, and as what.
-/

namespace CircuitScan.Pattern

/-! ## Writing -/

/-- A unit as it is written, its star apart. -/
inductive Form where
  /-- a character for itself -/
  | plain (c : Char)
  /-- a character behind a backslash -/
  | escaped (c : Char)
  /-- a label in brackets -/
  | bracketed (label : String)

namespace Form

/-- The characters of a form. -/
def text : Form → List Char
  | plain c => [c]
  | escaped c => ['\\', c]
  | bracketed label => '[' :: (label.toList ++ [']'])

/-- The forms of the grammar. -/
def Lawful : Form → Prop
  | plain c => isPlain c
  | escaped _ => True
  | bracketed label =>
    label ≠ "" ∧ '[' ∉ label.toList ∧ ']' ∉ label.toList ∧ ∃ cs, Label.expand label = .ok cs

/-- The characters that a form stands for. -/
inductive Means : Form → List Char → Prop where
  | plain (c : Char) : Means (.plain c) [c]
  | tab : Means (.escaped 't') ['\t']
  | lineFeed : Means (.escaped 'n') ['\n']
  | carriageReturn : Means (.escaped 'r') ['\r']
  | escaped {c : Char} (h : c ≠ 't' ∧ c ≠ 'n' ∧ c ≠ 'r') : Means (.escaped c) [c]
  | bracketed {label : String} {cs : List Char} (h : Label.expand label = .ok cs) :
    Means (.bracketed label) cs

end Form

/-- A unit as it is written. -/
structure Written where
  form : Form
  starred : Bool

namespace Written

/-- The characters of a written unit. -/
def text (w : Written) : List Char := w.form.text ++ if w.starred then ['*'] else []

/-- A written unit stands for a unit. -/
structure Means (w : Written) (u : Unit) : Prop where
  form : w.form.Means u.characters
  starred_eq : w.starred = u.starred

end Written

/-- A pattern is written as a sequence of units of the grammar, one at least. -/
structure IsWritten (ws : List Written) (pattern : String) : Prop where
  ne_nil : ws ≠ []
  lawful : ∀ w ∈ ws, w.form.Lawful
  toList_eq : pattern.toList = ws.flatMap Written.text

/-! ## What is written can be read -/

section

variable {pattern : String} {us : List Unit} {cs : List Char}

theorem unescape_of_ne {c : Char} (h : c ≠ 't' ∧ c ≠ 'n' ∧ c ≠ 'r') : unescape c = c := by
  unfold unescape
  split
  · exact absurd rfl h.1
  · exact absurd rfl h.2.1
  · exact absurd rfl h.2.2
  · rfl

theorem means_escaped (c : Char) : (Form.escaped c).Means [unescape c] := by
  by_cases h : c ≠ 't' ∧ c ≠ 'n' ∧ c ≠ 'r'
  · rw [unescape_of_ne h]
    exact .escaped h
  · have hspecial : c = 't' ∨ c = 'n' ∨ c = 'r' := by
      by_contra hne
      exact h ⟨fun h => hne (.inl h), fun h => hne (.inr (.inl h)), fun h => hne (.inr (.inr h))⟩
    rcases hspecial with rfl | rfl | rfl
    · exact .tab
    · exact .lineFeed
    · exact .carriageReturn

theorem Form.Lawful.exists_means {f : Form} (h : f.Lawful) : ∃ cs, f.Means cs := by
  cases f with
  | plain c => exact ⟨_, .plain c⟩
  | escaped c => exact ⟨_, means_escaped c⟩
  | bracketed label =>
      obtain ⟨-, -, -, cs, hcs⟩ := h
      exact ⟨cs, .bracketed hcs⟩

/-- Inside brackets everything but a bracket is part of the label, a backslash and a star too. -/
theorem foldlM_read_label (pattern : String) (us : List Unit) (hopen : '[' ∉ cs)
    (hclose : ']' ∉ cs) (label : String) :
    cs.foldlM (Reader.read pattern) ⟨us, .inClass label⟩ =
      .ok ⟨us, .inClass (label ++ String.ofList cs)⟩ := by
  induction cs generalizing label with
  | nil => simp [pure, Except.pure]
  | cons c cs ih =>
      rw [List.mem_cons, not_or] at hopen hclose
      have hread : Reader.read pattern ⟨us, .inClass label⟩ c =
          .ok ⟨us, .inClass (label.push c)⟩ := by
        unfold Reader.read
        dsimp only
        split
        · exact absurd rfl hopen.1
        · exact absurd rfl hclose.1
        · rfl
      have hpush : label.push c ++ String.ofList cs = label ++ String.ofList (c :: cs) := by
        simp [← String.toList_inj]
      rw [foldlM_cons_eq_ok]
      exact ⟨_, hread, by rw [ih hopen.2 hclose.2, hpush]⟩

/-- A form is read as a plain unit. -/
theorem foldlM_read_form (pattern : String) {f : Form} (h : f.Lawful) (hmeans : f.Means cs)
    (us : List Unit) :
    f.text.foldlM (Reader.read pattern) ⟨us, .between⟩ =
      .ok ⟨{ characters := cs } :: us, .between⟩ := by
  cases hmeans with
  | plain c => exact foldlM_cons_eq_ok.mpr ⟨_, read_plain h, rfl⟩
  | tab => rfl
  | lineFeed => rfl
  | carriageReturn => rfl
  | @escaped c hc =>
      have hread : Reader.read pattern ⟨us, .escape⟩ c =
          .ok ⟨{ characters := [c] } :: us, .between⟩ := by
        unfold Reader.read
        dsimp only
        rw [unescape_of_ne hc]
      exact foldlM_cons_eq_ok.mpr ⟨_, rfl, foldlM_cons_eq_ok.mpr ⟨_, hread, rfl⟩⟩
  | @bracketed label _ hexpand =>
      obtain ⟨hne, hopen, hclose, -⟩ := h
      have hlabel := foldlM_read_label pattern us hopen hclose ""
      have hend : Reader.read pattern ⟨us, .inClass label⟩ ']' =
          .ok ⟨{ characters := cs } :: us, .between⟩ := by
        simp [Reader.read, hne, hexpand, Except.map]
      rw [String.ofList_toList, String.empty_append] at hlabel
      exact foldlM_cons_eq_ok.mpr ⟨_, rfl, foldlM_concat_eq_ok.mpr ⟨_, hlabel, hend⟩⟩

/-- A written unit is read as the unit that it stands for. -/
theorem foldlM_read_text (pattern : String) {w : Written} {u : Unit} (h : w.form.Lawful)
    (hmeans : w.Means u) (us : List Unit) :
    w.text.foldlM (Reader.read pattern) ⟨us, .between⟩ = .ok ⟨u :: us, .between⟩ := by
  obtain ⟨hform, hstarred⟩ := hmeans
  have hread := foldlM_read_form pattern h hform us
  unfold Written.text
  obtain ⟨cs, starred⟩ := u
  obtain rfl : w.starred = starred := hstarred
  cases w.starred with
  | false => simpa using hread
  | true => exact foldlM_concat_eq_ok.mpr ⟨_, hread, rfl⟩

theorem foldlM_read_texts (pattern : String) {ws : List Written} {vs : List Unit}
    (h : ∀ w ∈ ws, w.form.Lawful) (hmeans : List.Forall₂ Written.Means ws vs) (us : List Unit) :
    (ws.flatMap Written.text).foldlM (Reader.read pattern) ⟨us, .between⟩ =
      .ok ⟨vs.reverse ++ us, .between⟩ := by
  induction hmeans generalizing us with
  | nil => rfl
  | @cons w v ws vs hw _ ih =>
      obtain ⟨hlawful, hrest⟩ := List.forall_mem_cons.mp h
      have hlast : vs.reverse ++ v :: us = (v :: vs).reverse ++ us := by simp
      rw [List.flatMap_cons, List.foldlM_append]
      exact bind_eq_ok.mpr ⟨_, foldlM_read_text pattern hlawful hw us, hlast ▸ ih hrest (v :: us)⟩

/-- What is written by the grammar is accepted. -/
theorem parse_of_isWritten {ws : List Written} (h : IsWritten ws pattern)
    (hmeans : List.Forall₂ Written.Means ws us) : parse pattern = .ok us := by
  have hne : us ≠ [] := by
    rintro rfl
    exact h.ne_nil (List.forall₂_nil_right_iff.mp hmeans)
  unfold parse
  rw [h.toList_eq]
  have hread := foldlM_read_texts pattern h.lawful hmeans []
  exact bind_eq_ok.mpr ⟨_, hread, by simp [Reader.finish, hne]⟩

end

/-! ## What is read was written -/

/-- The characters of a unit that a reader is in the middle of. -/
def Mode.text : Mode → List Char
  | between => []
  | escape => ['\\']
  | inClass label => '[' :: label.toList

/-- The label so far holds no bracket. -/
def Mode.Lawful : Mode → Prop
  | inClass label => '[' ∉ label.toList ∧ ']' ∉ label.toList
  | _ => True

/-- A reader has read the characters `t`: units of the grammar, the last one first, and the
beginning of one more. -/
structure Reader.Holds (r : Reader) (ws : List Written) (t : List Char) : Prop where
  lawful : ∀ w ∈ ws, w.form.Lawful
  means : List.Forall₂ Written.Means ws r.units
  mode : r.mode.Lawful
  text_eq : t = ws.reverse.flatMap Written.text ++ r.mode.text

namespace Reader.Holds

variable {pattern : String} {r r' : Reader} {ws : List Written} {t : List Char} {c : Char}

/-- The unit that the reader is in the middle of ends, without a star. -/
theorem push (h : r.Holds ws t) {f : Form} {cs : List Char} (hf : f.Lawful) (hcs : f.Means cs)
    (htext : f.text = r.mode.text ++ [c]) :
    Reader.Holds ⟨{ characters := cs } :: r.units, .between⟩ (⟨f, false⟩ :: ws) (t ++ [c]) := by
  constructor
  case lawful => exact List.forall_mem_cons.mpr ⟨hf, h.lawful⟩
  case means => exact .cons ⟨hcs, rfl⟩ h.means
  case mode => trivial
  case text_eq => simp [h.text_eq, Written.text, htext, Mode.text]

/-- The unit that the reader is in the middle of goes on. -/
theorem goOn (h : r.Holds ws t) (mode : Mode) (hmode : mode.Lawful)
    (htext : mode.text = r.mode.text ++ [c]) : Reader.Holds ⟨r.units, mode⟩ ws (t ++ [c]) := by
  constructor
  case lawful => exact h.lawful
  case means => exact h.means
  case mode => exact hmode
  case text_eq => simp [h.text_eq, htext]

/-- A star is put behind the last unit, if there is one and it has none. -/
theorem star {units us : List Unit} (h : Reader.Holds ⟨units, .between⟩ ws t)
    (hus : Pattern.star units = .ok us) : ∃ ws', Reader.Holds ⟨us, .between⟩ ws' (t ++ ['*']) := by
  cases units with
  | nil => contradiction
  | cons u units =>
      rw [Pattern.star] at hus
      split at hus
      · contradiction
      · next hstarred =>
          cases hus
          obtain ⟨⟨form, starred⟩, ws, hw, hws, rfl⟩ := List.forall₂_cons_right_iff.mp h.means
          obtain ⟨hform, hrest⟩ := List.forall_mem_cons.mp h.lawful
          have hnone : starred = false := by
            rw [show starred = u.starred from hw.starred_eq]
            simpa using hstarred
          have htext := h.text_eq
          refine ⟨⟨form, true⟩ :: ws, List.forall_mem_cons.mpr ⟨hform, hrest⟩,
            .cons ⟨hw.form, rfl⟩ hws, trivial, ?_⟩
          simp [htext, hnone, Written.text, Mode.text]

/-- **A character** that is read goes on with a unit, or ends one. -/
theorem read (h : r.Holds ws t) (hr : r.read pattern c = .ok r') :
    ∃ ws', r'.Holds ws' (t ++ [c]) := by
  obtain ⟨units, mode⟩ := r
  unfold Reader.read at hr
  dsimp only at hr
  cases mode with
  | between =>
      dsimp only at hr
      split at hr
      · split at hr
        · next hstar =>
            cases hr
            exact h.star hstar
        · contradiction
      · cases hr
        exact ⟨ws, h.goOn (.inClass "") (by simp [Mode.Lawful]) rfl⟩
      · contradiction
      · cases hr
        exact ⟨ws, h.goOn .escape trivial rfl⟩
      · next hstar hopen hclose hback =>
          cases hr
          have hplain : isPlain c := isPlain_iff.mpr ⟨hstar, hopen, hclose, hback⟩
          exact ⟨_, h.push (f := .plain c) hplain (.plain c) rfl⟩
  | escape =>
      cases hr
      exact ⟨_, h.push (f := .escaped c) trivial (means_escaped c) rfl⟩
  | inClass label =>
      dsimp only at hr
      obtain ⟨hopen, hclose⟩ := h.mode
      split at hr
      · contradiction
      · split at hr
        · contradiction
        · next hne =>
            cases hcs : Label.expand label with
            | error e =>
                rw [hcs] at hr
                contradiction
            | ok cs =>
                rw [hcs] at hr
                cases hr
                exact ⟨_, h.push (f := .bracketed label) ⟨hne, hopen, hclose, cs, hcs⟩
                  (.bracketed hcs) rfl⟩
      · next hopen' hclose' =>
          cases hr
          have hmode : (Mode.inClass (label.push c)).Lawful := by
            simp [Mode.Lawful, hopen, hclose, Ne.symm hopen', Ne.symm hclose']
          exact ⟨ws, h.goOn (.inClass (label.push c)) hmode (by simp [Mode.text])⟩

end Reader.Holds

section

variable {pattern : String} {us : List Unit}

/-- **A run** of the reader holds what it has read. -/
theorem holds_foldlM {cs : List Char} {r : Reader}
    (h : cs.foldlM (Reader.read pattern) {} = .ok r) : ∃ ws, r.Holds ws cs := by
  induction cs using List.reverseRecOn generalizing r with
  | nil =>
      cases h
      exact ⟨[], by simp, .nil, trivial, rfl⟩
  | append_singleton cs c ih =>
      obtain ⟨m, hm, hc⟩ := foldlM_concat_eq_ok.mp h
      obtain ⟨ws, hholds⟩ := ih hm
      exact hholds.read hc

/-- What is accepted is written by the grammar. -/
theorem exists_isWritten_of_parse (h : parse pattern = .ok us) :
    ∃ ws, IsWritten ws pattern ∧ List.Forall₂ Written.Means ws us := by
  obtain ⟨⟨units, mode⟩, hr, hfinish⟩ := bind_eq_ok.mp h
  obtain ⟨ws, hlawful, hmeans, -, htext⟩ := holds_foldlM hr
  unfold Reader.finish at hfinish
  split at hfinish
  · contradiction
  · contradiction
  · next hmode =>
      split at hfinish
      · contradiction
      · next hne =>
          cases hfinish
          dsimp only at hmode hmeans hne
          subst hmode
          refine ⟨ws.reverse, ⟨?_, ?_, ?_⟩, List.rel_reverse hmeans⟩
          · intro hnil
            rw [List.reverse_eq_nil_iff] at hnil
            subst hnil
            exact hne (List.forall₂_nil_left_iff.mp hmeans)
          · simpa using hlawful
          · rw [htext, Mode.text, List.append_nil]

end

/-! ## One way to write a text -/

/-- The first character of a form tells which form it is. -/
theorem Form.eq_of_text_append {f g : Form} {v w : List Char} (hf : f.Lawful) (hg : g.Lawful)
    (h : f.text ++ v = g.text ++ w) : f = g ∧ v = w := by
  cases f with
  | plain c =>
      cases g with
      | plain d => simpa [text] using h
      | escaped d =>
          obtain ⟨rfl, -⟩ := List.cons.inj h
          simp [Lawful, isPlain] at hf
      | bracketed label =>
          obtain ⟨rfl, -⟩ := List.cons.inj h
          simp [Lawful, isPlain] at hf
  | escaped c =>
      cases g with
      | plain d =>
          obtain ⟨rfl, -⟩ := List.cons.inj h
          simp [Lawful, isPlain] at hg
      | escaped d => simpa [text] using h
      | bracketed label => simp [text] at h
  | bracketed label =>
      cases g with
      | plain d =>
          obtain ⟨rfl, -⟩ := List.cons.inj h
          simp [Lawful, isPlain] at hg
      | escaped d => simp [text] at h
      | bracketed label' =>
          obtain ⟨-, -, hclose, -⟩ := hf
          obtain ⟨-, -, hclose', -⟩ := hg
          have hrest : label.toList ++ ']' :: v = label'.toList ++ ']' :: w := by
            simpa [text] using h
          obtain ⟨hlabel, rfl⟩ := eq_of_append_cons hclose hclose' hrest
          exact ⟨congrArg bracketed (String.toList_inj.mp hlabel), rfl⟩

namespace Written

variable {w w' : Written} {ws ws' : List Written} {v v' : List Char}

/-- No unit begins with a star, and none is empty. -/
theorem exists_text_eq_cons (h : w.form.Lawful) : ∃ c cs, w.text = c :: cs ∧ c ≠ '*' := by
  obtain ⟨form, starred⟩ := w
  cases form with
  | plain c =>
      have hc : c ≠ '*' := by
        rintro rfl
        simp [Form.Lawful, isPlain] at h
      exact ⟨c, _, rfl, hc⟩
  | escaped c => exact ⟨'\\', _, rfl, by decide⟩
  | bracketed label => exact ⟨'[', _, rfl, by decide⟩

theorem head?_texts_ne_star (h : ∀ w ∈ ws, w.form.Lawful) :
    (ws.flatMap text).head? ≠ some '*' := by
  cases ws with
  | nil => simp
  | cons w ws =>
      obtain ⟨c, cs, hcs, hc⟩ := exists_text_eq_cons (h w List.mem_cons_self)
      simpa [hcs] using hc

/-- What is written first is told by the text, its star too, as no star begins what is behind. -/
theorem eq_of_text_append (h : w.form.Lawful) (h' : w'.form.Lawful) (hv : v.head? ≠ some '*')
    (hv' : v'.head? ≠ some '*') (heq : w.text ++ v = w'.text ++ v') : w = w' ∧ v = v' := by
  obtain ⟨form, starred⟩ := w
  obtain ⟨form', starred'⟩ := w'
  unfold text at heq
  rw [List.append_assoc, List.append_assoc] at heq
  obtain ⟨rfl, hrest⟩ := Form.eq_of_text_append h h' heq
  cases starred with
  | false =>
      cases starred' with
      | false => exact ⟨rfl, hrest⟩
      | true => exact absurd (by rw [show v = '*' :: v' from hrest]; rfl) hv
  | true =>
      cases starred' with
      | false => exact absurd (by rw [show v' = '*' :: v from hrest.symm]; rfl) hv'
      | true => exact ⟨rfl, (List.cons.inj hrest).2⟩

theorem eq_of_texts_eq (h : ∀ w ∈ ws, w.form.Lawful) (h' : ∀ w ∈ ws', w.form.Lawful)
    (heq : ws.flatMap text = ws'.flatMap text) : ws = ws' := by
  induction ws generalizing ws' with
  | nil =>
      cases ws' with
      | nil => rfl
      | cons w' ws' =>
          obtain ⟨c, cs, hcs, -⟩ := exists_text_eq_cons (h' w' List.mem_cons_self)
          simp [hcs] at heq
  | cons w ws ih =>
      obtain ⟨hw, hws⟩ := List.forall_mem_cons.mp h
      cases ws' with
      | nil =>
          obtain ⟨c, cs, hcs, -⟩ := exists_text_eq_cons hw
          simp [hcs] at heq
      | cons w' ws' =>
          obtain ⟨hw', hws'⟩ := List.forall_mem_cons.mp h'
          rw [List.flatMap_cons, List.flatMap_cons] at heq
          obtain ⟨rfl, hrest⟩ := eq_of_text_append hw hw' (head?_texts_ne_star hws)
            (head?_texts_ne_star hws') heq
          rw [ih hws hws' hrest]

end Written

/-! ## Patterns of one word -/

/-- The pattern of a text: a backslash in front of each character with a meaning of its own. -/
def literal (text : String) : String :=
  String.ofList (text.toList.flatMap fun c => if isPlain c then [c] else ['\\', c])

/-- A character as it is written in the pattern of a text. -/
def Written.ofChar (c : Char) : Written := ⟨if isPlain c then .plain c else .escaped c, false⟩

theorem lawful_ofChar (c : Char) : (Written.ofChar c).form.Lawful := by
  unfold Written.ofChar
  split
  · assumption
  · trivial

/-- Only characters that are no escapes are written behind a backslash. -/
theorem means_ofChar (c : Char) : (Written.ofChar c).Means (plain c) := by
  constructor
  case starred_eq => rfl
  case form =>
    unfold Written.ofChar
    split
    · exact .plain c
    · next hc =>
        apply Form.Means.escaped
        refine ⟨?_, ?_, ?_⟩ <;> (rintro rfl; exact hc rfl)

theorem text_ofChar (c : Char) :
    (Written.ofChar c).text = if isPlain c then [c] else ['\\', c] := by
  unfold Written.ofChar
  split <;> rfl

theorem parse_literal {text : String} (hne : text ≠ "") :
    parse (literal text) = .ok (text.toList.map plain) := by
  have hwritten : IsWritten (text.toList.map Written.ofChar) (literal text) := by
    constructor
    case ne_nil => simpa using hne
    case lawful =>
      intro w hw
      obtain ⟨c, -, rfl⟩ := List.mem_map.mp hw
      exact lawful_ofChar c
    case toList_eq => simp [literal, List.flatMap_map, text_ofChar]
  apply parse_of_isWritten hwritten
  rw [List.forall₂_map_left_iff, List.forall₂_map_right_iff, List.forall₂_same]
  exact fun c _ => means_ofChar c

theorem not_clashes_map_plain (cs : List Char) : ¬Clashes (cs.map plain) := by
  rintro ⟨front, u, mid, v, back, hus, hu, -⟩
  have hmem : u ∈ cs.map plain := by simp [hus]
  obtain ⟨c, -, rfl⟩ := List.mem_map.mp hmem
  contradiction

/-- The pattern of a text has an automaton that accepts the text and nothing else. -/
theorem compile_literal {text : String} (hne : text ≠ "") :
    ∃ a, compile (literal text) = .ok a ∧ ∀ w, a.accepts w ↔ w = text.toList := by
  obtain ⟨a, ha⟩ := exists_compileUnits_iff.mpr (not_clashes_map_plain text.toList)
  refine ⟨a, bind_eq_ok.mpr ⟨_, parse_literal hne, ha⟩, fun w => ?_⟩
  rw [accepts_compileUnits_iff ha, denotes_map_plain]

/-- As the text is not empty, the automaton makes a recognizer. -/
theorem ofPattern_eq_ok_of_accepts {a : Automaton} {text pattern : String} (hne : text ≠ "")
    (ha : compile pattern = .ok a) (haccepts : ∀ w, a.accepts w ↔ w = text.toList)
    (name : String) (kind : Kind) :
    Recognizer.ofPattern name kind pattern = .ok { name, kind, automaton := a } := by
  have hstart : a.isAccepting a.start = false := by
    have hnil : text.toList ≠ [] := by simpa using hne
    rw [← Automaton.accepts_nil, Bool.eq_false_iff, ne_eq, haccepts]
    exact fun h => hnil h.symm
  have hof : Recognizer.ofAutomaton name kind a = .ok { name, kind, automaton := a } := by
    rw [Recognizer.ofAutomaton, hstart]
    rfl
  exact bind_eq_ok.mpr ⟨a, mapError_eq_ok.mpr ha, hof⟩

/-! ## All patterns -/

section

variable {pattern : String} {ws ws' : List Written}

theorem eq_of_isWritten (h : IsWritten ws pattern) (h' : IsWritten ws' pattern) : ws = ws' :=
  Written.eq_of_texts_eq h.lawful h'.lawful (h.toList_eq.symm.trans h'.toList_eq)

theorem exists_parse_iff : (∃ us, parse pattern = .ok us) ↔ ∃ ws, IsWritten ws pattern := by
  constructor
  · rintro ⟨us, hus⟩
    obtain ⟨ws, hws, -⟩ := exists_isWritten_of_parse hus
    exact ⟨ws, hws⟩
  · rintro ⟨ws, hws⟩
    have heach : ∀ w ∈ ws, ∃ u, Written.Means w u := by
      intro w hw
      obtain ⟨cs, hcs⟩ := (hws.lawful w hw).exists_means
      exact ⟨⟨cs, w.starred⟩, hcs, rfl⟩
    obtain ⟨us, hus⟩ := exists_forall₂_iff.mpr heach
    exact ⟨us, parse_of_isWritten hws hus⟩

/-- What is written is read as what it means, and as nothing else. -/
theorem IsWritten.parse_eq_ok_iff (h : IsWritten ws pattern) (us : List Unit) :
    parse pattern = .ok us ↔ List.Forall₂ Written.Means ws us := by
  constructor
  · intro hus
    obtain ⟨ws', hws', hmeans⟩ := exists_isWritten_of_parse hus
    rwa [eq_of_isWritten h hws']
  · exact parse_of_isWritten h

end

/-- What comes of reading a pattern. -/
structure FollowsGrammar (pattern : String) : Prop where
  /-- a pattern is accepted exactly if it is written by the grammar -/
  accepts_iff : (∃ us, parse pattern = .ok us) ↔ ∃ ws, IsWritten ws pattern
  /-- it is written so in one way only -/
  unique : ∀ ws ws', IsWritten ws pattern → IsWritten ws' pattern → ws = ws'
  /-- and it is read as the units that it is written as -/
  parse_iff : ∀ ws, IsWritten ws pattern →
    ∀ us, parse pattern = .ok us ↔ List.Forall₂ Written.Means ws us

/-- **Grammar**: patterns are read by the grammar, and each text that is not empty has a pattern
whose recognizer accepts exactly this text. -/
theorem follows_grammar :
    (∀ pattern, FollowsGrammar pattern) ∧
      ∀ text, text ≠ "" → ∃ a, compile (literal text) = .ok a ∧
        (∀ w, a.accepts w ↔ w = text.toList) ∧
        ∀ name kind, Recognizer.ofPattern name kind (literal text) =
          .ok { name, kind, automaton := a } := by
  constructor
  · intro pattern
    constructor
    case accepts_iff => exact exists_parse_iff
    case unique => exact fun ws ws' => eq_of_isWritten
    case parse_iff => exact fun ws => IsWritten.parse_eq_ok_iff
  · intro text hne
    obtain ⟨a, ha, haccepts⟩ := compile_literal hne
    exact ⟨a, ha, haccepts, ofPattern_eq_ok_of_accepts hne ha haccepts⟩

example : literal "a*\\" = "a\\*\\\\" := by decide +kernel

end CircuitScan.Pattern
