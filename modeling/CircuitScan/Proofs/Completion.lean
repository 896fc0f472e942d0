import CircuitScan.Proofs.Cover
import CircuitScan.Proofs.LabelReading
import CircuitScan.Proofs.Overflow
import CircuitScan.Proofs.Pattern.Grammar
import CircuitScan.Registry.Builtin

/-!
# CircuitScan.Proofs.Completion

Patterns have no dead ends: where the automaton of a pattern has a path, the path goes on to a word.
Every unit of a pattern has a character, be it a plain one, an escape or a class, so the units that
are still to come can always be taken (`Pattern.follows_iff`).

For a scan with such recognizers this says what a text is that is neither a token nor given up yet.
Each lane that is live can still be completed, and what is reported as unterminated is the beginning
of a word, with something missing.

* `characters_ne_nil_of_parse` — no unit is without characters;
* `completable_of_takes` — between two characters of a scan;
* `follows_completes` — patterns, scans and reports.
-/

namespace CircuitScan

/-! ## Patterns -/

namespace Pattern

variable {pattern : String}

theorem Form.Means.ne_nil {f : Form} {cs : List Char} (h : f.Means cs) : cs ≠ [] := by
  cases h with
  | plain => simp
  | tab => simp
  | lineFeed => simp
  | carriageReturn => simp
  | escaped => simp
  | bracketed hexpand => exact (Label.ne_nil_and_nodup_of_expand hexpand).1

/-- No unit of a pattern is without characters. -/
theorem characters_ne_nil_of_parse {us : List Unit} (h : parse pattern = .ok us) :
    ∀ u ∈ us, u.characters ≠ [] := by
  obtain ⟨ws, -, hmeans⟩ := exists_isWritten_of_parse h
  intro u hu
  obtain ⟨w, -, hw⟩ := exists_related_right hmeans u hu
  exact hw.form.ne_nil

/-- Where the automaton of a pattern has a path, the path goes on to a word. -/
theorem follows_iff {a : Automaton} (h : compile pattern = .ok a) (w : List Char) :
    a.follows w ↔ ∃ v, a.accepts (w ++ v) := by
  constructor
  · intro hw
    obtain ⟨us, hparse, hunits⟩ := bind_eq_ok.mp h
    obtain ⟨v, hv⟩ := exists_denotes_of_follows hunits (characters_ne_nil_of_parse hparse) hw
    exact ⟨v, (accepts_compileUnits_iff hunits _).mpr hv⟩
  · rintro ⟨v, hv⟩
    exact Automaton.follows_of_follows_append (Automaton.follows_of_accepts hv)

end Pattern

/-! ## Recognizers of patterns -/

namespace Recognizer

/-- The automaton of the recognizer is that of a pattern. -/
def IsPattern (x : Recognizer) : Prop := ∃ pattern, Pattern.compile pattern = .ok x.automaton

variable {x : Recognizer} {w : List Char}

theorem isPattern_of_ofPattern {name : String} {kind : Kind} {pattern : String}
    (h : ofPattern name kind pattern = .ok x) : x.IsPattern := by
  obtain ⟨a, ha, rfl⟩ := ofPattern_eq_ok h
  exact ⟨pattern, ha⟩

/-- A path of a recognizer of a pattern can be completed. -/
theorem IsPattern.exists_accepts (h : x.IsPattern) (hw : x.follows w) :
    ∃ v, x.accepts (w ++ v) := by
  obtain ⟨pattern, hpattern⟩ := h
  exact (Pattern.follows_iff hpattern w).mp hw

/-- If the path is not accepted as it is, there is something missing. -/
theorem IsPattern.exists_accepts_of_not (h : x.IsPattern) (hw : x.follows w)
    (hnot : x.accepts w = false) : ∃ v, v ≠ [] ∧ x.accepts (w ++ v) := by
  obtain ⟨v, hv⟩ := h.exists_accepts hw
  refine ⟨v, ?_, hv⟩
  rintro rfl
  rw [List.append_nil, hnot] at hv
  contradiction

end Recognizer

/-- A registry that is built from entries with patterns has recognizers of patterns. -/
theorem Registry.isPattern_of_ofEntries {es : List Entry} {r : Registry} (h : ofEntries es = .ok r)
    (hes : ∀ e ∈ es, ∃ text, e.body = .pattern text) : ∀ x ∈ r.recognizers, x.IsPattern := by
  intro x hx
  obtain ⟨e, he, y, n, hbuild, rfl⟩ := exists_related_right (forall₂_builds h) x hx
  obtain ⟨text, htext⟩ := hes e he
  unfold Entry.build at hbuild
  rw [htext] at hbuild
  have hpattern : y.IsPattern := Recognizer.isPattern_of_ofPattern hbuild
  exact hpattern

/-! ## Scans -/

/-- Some lane is live, and each lane that is has read the word so far and can be completed. -/
structure Scanner.Completable (s : Scanner) : Prop where
  exists_live : ∃ l ∈ s.lanes, l.live
  completes : ∀ l ∈ s.lanes, l.live →
    l.matcher.text = s.lexeme ∧ ∃ v, l.matcher.recognizer.accepts (s.lexeme.toList ++ v)

section

variable {r : Registry}

/-- Between two characters of a scan, a word that is pending can be completed. -/
theorem Scanner.completable_of_takes {u v : List Char} {s : Scanner}
    (hr : ∀ x ∈ r.recognizers, x.IsPattern)
    (hs : (ofRegistry r).restart.takes u v.head? = .ok s) (hpending : s.lexeme ≠ "") :
    s.Completable := by
  obtain ⟨-, q, cursor, -, htracks, hvalid, -, -⟩ :=
    takes_reaches (reads_ofRegistry r).tracks_restart (Cursor.pending_nil _) hs
  cases cursor with
  | comment t => exact absurd htracks.1.lexeme hpending
  | word w =>
      obtain ⟨hholds, -⟩ := htracks
      have hw : w ≠ [] := by
        rintro rfl
        exact hpending hholds.lexeme
      have hlexeme : s.lexeme.toList = w := by rw [hholds.lexeme, String.toList_ofList]
      constructor
      case exists_live =>
        have hlive := hholds.reads.isLive_eq
        rw [hvalid.path hw] at hlive
        exact List.any_eq_true.mp hlive
      case completes =>
        intro l hl hlive
        obtain ⟨x, hx, hreads⟩ := exists_related_left hholds.reads l hl
        have hfollows : x.follows w := by rw [← hreads.live, hlive]
        refine ⟨by rw [hreads.text, if_pos hfollows, hholds.lexeme], ?_⟩
        rw [hreads.recognizer, hlexeme]
        exact (hr x hx).exists_accepts hfollows

/-- Only a text that was given up in the middle of a word is reported as unterminated. -/
theorem Placed.piece_eq_of_unterminated {y : Placed} {d : Diagnostic} {text : String}
    (h : y.diagnostic? = some d) (hcause : d.cause = .unterminated text) :
    y.piece = .unterminated text.toList := by
  obtain ⟨piece, start, stop⟩ := y
  cases piece with
  | unterminated w =>
      cases h
      cases hcause
      rw [String.toList_ofList]
  | unrecognised c =>
      cases h
      contradiction
  | slash =>
      cases h
      contradiction
  | token kind text => contradiction
  | comment text => contradiction

/-- What is reported as unterminated is the beginning of a word. -/
theorem Registry.exists_accepts_of_unterminated {source text : String} {scan : Scan}
    (hr : ∀ x ∈ r.recognizers, x.IsPattern) (hscan : r.tokenize source = .ok scan)
    {d : Diagnostic} (hd : d ∈ scan.errors) (hcause : d.cause = .unterminated text) :
    ∃ x ∈ r.recognizers, ∃ v, v ≠ [] ∧ x.accepts (text.toList ++ v) := by
  obtain ⟨ys, hplace, rfl⟩ := exists_place?_of_tokenize hscan
  obtain ⟨y, hy, hyd⟩ := List.mem_filterMap.mp hd
  have hpiece := Placed.piece_eq_of_unterminated hyd hcause
  obtain ⟨before, after, hcut⟩ : ∃ before after,
      cut r.recognizers source.toList = before ++ .unterminated text.toList :: after := by
    rw [← map_piece_of_place? hplace]
    exact List.append_of_mem (hpiece ▸ List.mem_map_of_mem hy)
  obtain ⟨-, -, hpath, hnone⟩ := fits_cut hcut
  obtain ⟨x, hx, hfollows⟩ := List.any_eq_true.mp hpath
  exact ⟨x, hx, (hr x hx).exists_accepts_of_not hfollows (hnone x hx)⟩

end

/-- **No dead ends**: where the automaton of a pattern has a path, the path is the beginning of a
word that it accepts. So with recognizers of patterns a pending word can be completed, and a text
that is reported as unterminated is the beginning of a word and no word itself. -/
theorem follows_completes :
    (∀ pattern a, Pattern.compile pattern = .ok a →
      ∀ w, a.follows w ↔ ∃ v, a.accepts (w ++ v)) ∧
      ∀ r : Registry, (∀ x ∈ r.recognizers, x.IsPattern) →
        (∀ u v s, (Scanner.ofRegistry r).restart.takes u (List.head? v) = .ok s →
          s.lexeme ≠ "" → s.Completable) ∧
        ∀ source scan, r.tokenize source = .ok scan → ∀ d ∈ scan.errors,
          ∀ text, d.cause = .unterminated text →
            ∃ x ∈ r.recognizers, ∃ v, v ≠ [] ∧ x.accepts (text.toList ++ v) := by
  refine ⟨fun pattern a => Pattern.follows_iff, fun r hr => ⟨?_, ?_⟩⟩
  · exact fun u v s hs => Scanner.completable_of_takes hr hs
  · intro source scan hscan d hd text hcause
    exact Registry.exists_accepts_of_unterminated hr hscan hd hcause

/-- With the reserved words alone, `circ` is the beginning of one of them, pending in the middle of
a text and unterminated at its end. -/
theorem follows_completes_reservedWords :
    ∃ r s scan, Registry.ofEntries Registry.wordEntries = .ok r ∧
      (∀ x ∈ r.recognizers, x.IsPattern) ∧
      (Scanner.ofRegistry r).restart.takes "circ".toList none = .ok s ∧ s.lexeme = "circ" ∧
      s.Completable ∧ r.tokenize "circ" = .ok scan ∧
      scan.errors = [⟨.unterminated "circ", .origin⟩] ∧
      ∃ x ∈ r.recognizers, ∃ v, v ≠ [] ∧ x.accepts ("circ".toList ++ v) := by
  have hpatterns : ∀ e ∈ Registry.wordEntries, ∃ text, e.body = .pattern text := by
    simp [Registry.wordEntries, Registry.patternEntry]
  have hstop : ((Registry.ofEntries Registry.wordEntries).toOption.bind fun r =>
      ((Scanner.ofRegistry r).restart.takes "circ".toList none).toOption).map (·.lexeme) =
        some "circ" := by
    decide +kernel
  have hend : ((Registry.ofEntries Registry.wordEntries).toOption.bind fun r =>
      (r.tokenize "circ").toOption) = some ⟨[], [⟨.unterminated "circ", .origin⟩]⟩ := by
    decide +kernel
  obtain ⟨s, hs, hlexeme⟩ := Option.map_eq_some_iff.mp hstop
  obtain ⟨r, hr, hs⟩ := Option.bind_eq_some_iff.mp hs
  rw [hr, Option.bind_some, toOption_eq_some] at hend
  rw [toOption_eq_some] at hr hs
  have hr' := Registry.isPattern_of_ofEntries hr hpatterns
  obtain ⟨hscans, hreports⟩ := follows_completes.2 r hr'
  have hpending : s.lexeme ≠ "" := by
    rw [hlexeme]
    decide
  exact ⟨r, s, _, hr, hr', hs, hlexeme, hscans _ [] s hs hpending, hend, rfl,
    hreports "circ" _ hend ⟨.unterminated "circ", .origin⟩ (List.mem_singleton.mpr rfl) "circ" rfl⟩

end CircuitScan
