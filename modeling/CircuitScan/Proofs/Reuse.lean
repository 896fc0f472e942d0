import CircuitScan.Proofs.Between

/-!
# CircuitScan.Proofs.Reuse

One scanner for many texts. Whatever is done to a scanner, it keeps its recognizers
(`Reached.recognizers_eq`), and a restart brings all else back but one thing: each matcher still
remembers the state before its last step. No answer of a lane depends on that state, as a lane
answers for the word it has read since the restart (`Scanner.Reads`). So the next scan is that of a
new scanner:

* `Registry.tokenize_reached` — a scan of any text by a scanner with any past, and the scans of a
  list of texts by one scanner.
-/

namespace CircuitScan

namespace Scanner

/-! ## What a scanner keeps -/

/-- The recognizers at work, in the order of rank. -/
def recognizers (s : Scanner) : List Recognizer := s.lanes.map (·.matcher.recognizer)

theorem recognizers_ofRegistry (r : Registry) : (ofRegistry r).recognizers = r.recognizers := by
  unfold recognizers ofRegistry
  rw [List.map_map]
  exact List.map_id' r.recognizers

theorem recognizer_feed (l : Lane) (c : Char) :
    (l.feed c).matcher.recognizer = l.matcher.recognizer := by
  unfold Lane.feed
  split
  · exact Matcher.recognizer_consume l.matcher c
  · rfl

@[simp] theorem recognizers_feed (s : Scanner) (c : Char) :
    (s.feed c).recognizers = s.recognizers := by
  simp [recognizers, feed, recognizer_feed]

@[simp] theorem recognizers_resetAll (s : Scanner) : s.resetAll.recognizers = s.recognizers := by
  simp [recognizers, resetAll, Lane.reset]

@[simp] theorem recognizers_report (s : Scanner) (cause : Cause) (p : Position) :
    (s.report cause p).recognizers = s.recognizers := rfl

@[simp] theorem recognizers_abandon (s : Scanner) : s.abandon.recognizers = s.recognizers :=
  recognizers_resetAll _

@[simp] theorem recognizers_restart (s : Scanner) : s.restart.recognizers = s.recognizers :=
  recognizers_resetAll s

theorem recognizers_take {s s' : Scanner} {l : Lane} {stop : Position}
    (h : s.take l stop = .ok s') : s'.recognizers = s.recognizers := by
  obtain ⟨⟨token, m⟩, -, hs⟩ := bind_eq_ok.mp h
  cases hs
  exact recognizers_resetAll _

theorem recognizers_settle {s s' : Scanner} {stop : Position} (h : s.settle stop = .ok s') :
    s'.recognizers = s.recognizers := by
  unfold settle at h
  split at h
  · cases h
    rfl
  · split at h
    · exact recognizers_take h
    · cases h
      exact recognizers_abandon s

theorem recognizers_grow {s s' : Scanner} {c : Char} {next : Option Char}
    (h : s.grow c next = .ok s') : s'.recognizers = s.recognizers := by
  unfold grow at h
  dsimp only at h
  split at h
  · cases h
    rfl
  · split at h
    · cases h
      rfl
    · obtain ⟨s'', htake, hs⟩ := bind_eq_ok.mp h
      cases hs
      have hkept := recognizers_take htake
      exact hkept

theorem recognizers_advance (s : Scanner) (c : Char) (here : Position) :
    (s.advance c here).recognizers = s.recognizers := by
  unfold advance
  dsimp only
  split
  · exact recognizers_feed s c
  · rw [recognizers_feed]
    exact (recognizers_abandon _).trans (recognizers_feed s c)

theorem recognizers_growOrReject {s s' : Scanner} {c : Char} {next : Option Char}
    {here : Position} (h : s.growOrReject c next here = .ok s') :
    s'.recognizers = s.recognizers := by
  unfold growOrReject at h
  split at h
  · exact recognizers_grow h
  · cases h
    exact recognizers_resetAll _

/-- A step takes the recognizers on to other states, but not to other recognizers. -/
theorem recognizers_step {s s' : Scanner} {c : Char} {next : Option Char}
    (h : s.step c next = .ok s') : s'.recognizers = s.recognizers := by
  cases hafter : s.position.advance? c with
  | none =>
      simp only [step, hafter] at h
      contradiction
  | some after =>
      cases hin : s.inComment with
      | true =>
          rw [step_of_comment next hin hafter] at h
          split at h
          · cases h
            rfl
          · cases h
            rfl
      | false =>
          by_cases hc : c = '/'
          · subst hc
            rw [step_of_slash next hin hafter] at h
            obtain ⟨s'', hsettle, hs⟩ := bind_eq_ok.mp h
            have hkept := recognizers_settle hsettle
            split at hs
            · cases hs
              exact hkept
            · cases hs
              exact hkept
          · rw [step_of_word next hin hc hafter] at h
            rw [recognizers_growOrReject h, recognizers_advance]
            rfl

theorem recognizers_finish {s s' : Scanner} (h : s.finish = .ok s') :
    s'.recognizers = s.recognizers := by
  unfold finish at h
  split at h
  · cases h
    exact recognizers_resetAll s
  · obtain ⟨s'', hsettle, hs⟩ := bind_eq_ok.mp h
    cases hs
    rw [recognizers_resetAll, recognizers_settle hsettle]

theorem recognizers_run {s s' : Scanner} {cs : List Char} (h : s.run cs = .ok s') :
    s'.recognizers = s.recognizers := by
  induction cs generalizing s with
  | nil =>
      cases h
      rfl
  | cons c cs ih =>
      obtain ⟨m, hstep, hrun⟩ := bind_eq_ok.mp h
      rw [ih hrun, recognizers_step hstep]

theorem recognizers_tokenize {s s' : Scanner} {source : String} {scan : Scan}
    (h : s.tokenize source = .ok (scan, s')) : s'.recognizers = s.recognizers := by
  obtain ⟨m, hrun, hrest⟩ := bind_eq_ok.mp h
  obtain ⟨t, hfinish, hresult⟩ := bind_eq_ok.mp hrest
  cases hresult
  rw [recognizers_finish hfinish, recognizers_run hrun, recognizers_restart]

/-! ## A restart -/

/-- After a restart every lane stands at its start, whatever it did before. -/
theorem reads_restart (s : Scanner) : Reads s.recognizers [] s.restart := by
  unfold Reads restart resetAll recognizers
  rw [List.forall₂_map_left_iff, List.forall₂_map_right_iff, List.forall₂_same]
  exact fun l _ => ⟨rfl, rfl, rfl, rfl⟩

/-- A scan begins with a restart, so one more in front of it changes nothing. -/
theorem tokenize_restart (s : Scanner) (source : String) :
    s.restart.tokenize source = s.tokenize source := by
  have hlanes : s.restart.restart = s.restart := by
    simp [restart, resetAll, Lane.reset, Matcher.reset]
  unfold tokenize
  rw [hlanes]

/-- The results of a scan depend on the recognizers only. -/
theorem tokenize_eq_of_reads {rs : List Recognizer} {v w : List Char} {s s' : Scanner}
    (h : Reads rs v s) (h' : Reads rs w s') (source : String) :
    (s.tokenize source).map (·.1) = (s'.tokenize source).map (·.1) := by
  cases hlast : Position.origin.advanceAll? source.toList with
  | none => rw [tokenize_eq_error h hlast, tokenize_eq_error h' hlast]
  | some last =>
      obtain ⟨ys, t, hplace, htokenize⟩ := tokenize_eq_pieces h hlast
      obtain ⟨ys', t', hplace', htokenize'⟩ := tokenize_eq_pieces h' hlast
      rw [hplace] at hplace'
      rw [htokenize, htokenize', Option.some.inj hplace']
      rfl

theorem tokenize_eq_of_recognizers {s : Scanner} {r : Registry}
    (h : s.recognizers = r.recognizers) (source : String) :
    (s.tokenize source).map (·.1) = r.tokenize source := by
  have hreads := reads_restart s
  rw [h] at hreads
  rw [← tokenize_restart, tokenize_eq_of_reads hreads (reads_ofRegistry r)]
  unfold Registry.tokenize
  cases (ofRegistry r).tokenize source <;> rfl

/-! ## The past of a scanner -/

/-- The scanners that a scanner for a registry may become, in the middle of a text or behind any
number of texts. A step need not tell the truth about the character behind it. -/
inductive Reached (r : Registry) : Scanner → Prop where
  | fresh : Reached r (ofRegistry r)
  | step {s s' c next} (h : Reached r s) (hstep : s.step c next = .ok s') : Reached r s'
  | finish {s s'} (h : Reached r s) (hfinish : s.finish = .ok s') : Reached r s'
  | restart {s} (h : Reached r s) : Reached r s.restart
  | tokenize {s s' scan source} (h : Reached r s)
    (hscan : s.tokenize source = .ok (scan, s')) : Reached r s'

/-- A scanner may be left between any two characters of a text. -/
theorem Reached.takes {r : Registry} {s s' : Scanner} {cs : List Char} {next : Option Char}
    (h : Reached r s) (hs : s.takes cs next = .ok s') : Reached r s' := by
  induction cs generalizing s with
  | nil =>
      cases hs
      exact h
  | cons c cs ih =>
      obtain ⟨m, hstep, hrest⟩ := takes_cons_eq_ok.mp hs
      exact ih (h.step hstep) hrest

/-- No past takes a recognizer away, or brings another one. -/
theorem Reached.recognizers_eq {r : Registry} {s : Scanner} (h : Reached r s) :
    s.recognizers = r.recognizers := by
  induction h with
  | fresh => exact recognizers_ofRegistry r
  | step _ hstep ih => rw [recognizers_step hstep, ih]
  | finish _ hfinish ih => rw [recognizers_finish hfinish, ih]
  | restart _ ih => rw [recognizers_restart, ih]
  | tokenize _ hscan ih => rw [recognizers_tokenize hscan, ih]

/-- Scans texts one after another with one scanner. -/
def tokenizeAll (s : Scanner) : List String → Except Fault (List Scan × Scanner)
  | [] => .ok ([], s)
  | source :: sources => do
    let (scan, s) ← s.tokenize source
    let (scans, s) ← s.tokenizeAll sources
    return (scan :: scans, s)

/-- One scanner for many texts scans each of them as a new scanner does. -/
theorem tokenizeAll_eq_mapM {r : Registry} {s : Scanner} (h : s.recognizers = r.recognizers)
    (sources : List String) : (s.tokenizeAll sources).map (·.1) = sources.mapM r.tokenize := by
  induction sources generalizing s with
  | nil => rfl
  | cons source sources ih =>
      have hfirst := tokenize_eq_of_recognizers h source
      rw [tokenizeAll, List.mapM_cons, ← hfirst]
      cases hscan : s.tokenize source with
      | error e => rfl
      | ok o =>
          obtain ⟨scan, s'⟩ := o
          have hrest := ih ((recognizers_tokenize hscan).trans h)
          change _ = Except.bind (sources.mapM r.tokenize) _
          rw [← hrest]
          cases hscans : s'.tokenizeAll sources with
          | error e => simp [hscans, bind, Except.bind, Except.map]
          | ok o => simp [hscans, bind, Except.bind, Except.map, pure, Except.pure]

end Scanner

/-- **Reuse**: a scanner with any past returns what a new one returns, be it the results of a scan
or the overflow of a position. So a list of texts is scanned by one scanner as each text is alone. -/
theorem Registry.tokenize_reached {r : Registry} {s : Scanner} (h : Scanner.Reached r s) :
    (∀ source, (s.tokenize source).map (·.1) = r.tokenize source) ∧
      ∀ sources, (s.tokenizeAll sources).map (·.1) = sources.mapM r.tokenize :=
  ⟨Scanner.tokenize_eq_of_recognizers h.recognizers_eq,
    Scanner.tokenizeAll_eq_mapM h.recognizers_eq⟩

/-- A scanner left inside a comment, with a token and a report that nobody has collected. -/
theorem tokenize_reached_nestedWords :
    ∃ s, Scanner.Reached nestedWords s ∧ s.inComment = true ∧
      s.tokens.toList.map (·.text) = ["a"] ∧ s.errors.toList = [⟨.unrecognised '$', ⟨1, 2⟩⟩] ∧
      (s.tokenize "a").map (·.1) = nestedWords.tokenize "a" ∧
      (s.tokenizeAll ["ab", "", "a/"]).map (·.1) = ["ab", "", "a/"].mapM nestedWords.tokenize := by
  obtain ⟨s, hs, hin, htokens, herrors⟩ :
      ∃ s, (Scanner.ofRegistry nestedWords).takes "a$//".toList (some 'b') = .ok s ∧
        s.inComment = true ∧ s.tokens.toList.map (·.text) = ["a"] ∧
        s.errors.toList = [⟨.unrecognised '$', ⟨1, 2⟩⟩] :=
    ⟨_, rfl, by decide +kernel, by decide +kernel, by decide +kernel⟩
  have hreached : Scanner.Reached nestedWords s := Scanner.Reached.fresh.takes hs
  obtain ⟨hone, hall⟩ := Registry.tokenize_reached hreached
  exact ⟨s, hreached, hin, htokens, herrors, hone "a", hall ["ab", "", "a/"]⟩

end CircuitScan
