import CircuitScan.Command
import CircuitScan.Proofs.PrefixFree
import Mathlib.Data.List.Basic

/-!
# CircuitScan.Proofs.Listing

Token listings can be read back. A line of a listing is put together from positions, a name and a
quoted text, and each of these parts tells where it ends (`PrefixFree`):

1. the digits of a position end in front of `:`, `-` and the space, and a name in front of the
   space;
2. an escape begins with a backslash, and what stands behind the backslash tells which character it
   is (`Text.Spells`), whatever characters are shown as they are;
3. so the first quote that no backslash stands in front of ends a quoted text.

So a line tells its token. As no line end stands inside a line, and no report begins as a line does,
what a run prints tells all tokens of the scan.

* `Token.prefixFree_renderWith` — one line;
* `Command.listing_injective` — lines, listings and whole runs.
-/

namespace CircuitScan

namespace Text

/-! ## Hexadecimal digits -/

theorem exists_digitChar_of_mem {n : Nat} {c : Char} (h : c ∈ Nat.toDigits 16 n) :
    ∃ d < 16, Nat.digitChar d = c := by
  induction n using Nat.strongRecOn with
  | ind n ih =>
      by_cases hn : n < 16
      · rw [Nat.toDigits_of_lt_base hn, List.mem_singleton] at h
        exact ⟨n, hn, h.symm⟩
      · rw [Nat.toDigits_of_base_le (by decide) (Nat.not_lt.mp hn), List.mem_append,
          List.mem_singleton] at h
        rcases h with h | h
        · exact ih (n / 16) (by omega) h
        · exact ⟨n % 16, Nat.mod_lt n (by decide), h.symm⟩

theorem notMem_toDigits {n : Nat} {c : Char} (hc : ∀ d < 16, Nat.digitChar d ≠ c) :
    c ∉ Nat.toDigits 16 n := fun hmem => by
  obtain ⟨d, hd, hchar⟩ := exists_digitChar_of_mem hmem
  exact hc d hd hchar

theorem toDigits_ne_of_lt {m n : Nat} (hm : m < 16) (hn : 16 ≤ n) :
    Nat.toDigits 16 m ≠ Nat.toDigits 16 n := by
  rw [Nat.toDigits_of_lt_base hm, Nat.toDigits_of_base_le (by decide) hn]
  intro h
  obtain ⟨hfront, -⟩ := List.append_inj' ((List.nil_append _).trans h) rfl
  exact Nat.toDigits_ne_nil hfront.symm

/-- A number is told by its digits. -/
theorem toDigits_injective : Function.Injective (Nat.toDigits 16) := by
  have hdigit : ∀ d < 16, ∀ e < 16, Nat.digitChar d = Nat.digitChar e → d = e := by decide
  intro m n h
  induction m using Nat.strongRecOn generalizing n with
  | ind m ih =>
      rcases Nat.lt_or_ge m 16 with hm | hm <;> rcases Nat.lt_or_ge n 16 with hn | hn
      · rw [Nat.toDigits_of_lt_base hm, Nat.toDigits_of_lt_base hn] at h
        exact hdigit m hm n hn (List.singleton_inj.mp h)
      · exact absurd h (toDigits_ne_of_lt hm hn)
      · exact absurd h.symm (toDigits_ne_of_lt hn hm)
      · rw [Nat.toDigits_of_base_le (by decide) hm, Nat.toDigits_of_base_le (by decide) hn] at h
        obtain ⟨hfront, hlast⟩ := List.append_inj' h rfl
        have hdiv : m / 16 = n / 16 := ih (m / 16) (by omega) hfront
        have hmod : m % 16 = n % 16 := hdigit _ (Nat.mod_lt m (by decide)) _
          (Nat.mod_lt n (by decide)) (List.singleton_inj.mp hlast)
        omega

/-! ## Quoted texts -/

/-- The character that a backslash and one more character stand for. -/
def named? : Char → Option Char
  | '0' => some '\x00'
  | 't' => some '\t'
  | 'r' => some '\r'
  | 'n' => some '\n'
  | '\\' => some '\\'
  | '"' => some '"'
  | _ => none

/-- The ways to write a character between double quotes. -/
inductive Spells : Char → List Char → Prop
  | plain {c} (h : c ∉ ['\\', '"', '\n', '\r']) : Spells c [c]
  | named {c x} (h : named? x = some c) : Spells c ['\\', x]
  | code (c) : Spells c (escapeCode c)

variable {c d : Char} {s t v w : List Char}

theorem spells_escape (printable : Char → Bool) (c : Char) :
    Spells c (escape printable '"' c) := by
  unfold escape
  split
  · next hc => exact .named (by rw [hc]; rfl)
  split
  · next hc => exact .named (by rw [hc]; rfl)
  split
  · next hc => exact .named (by rw [hc]; rfl)
  split
  · next hc => exact .named (by rw [hc]; rfl)
  split
  · next hc =>
      rw [Bool.or_eq_true, decide_eq_true_eq, decide_eq_true_eq] at hc
      rcases hc with rfl | rfl <;> exact .named rfl
  split
  · exact .plain (by simp_all)
  · exact .code c

theorem escapeCode_append (c : Char) (v : List Char) :
    escapeCode c ++ v = '\\' :: 'u' :: '\x7b' :: (Nat.toDigits 16 c.toNat ++ '\x7d' :: v) := by
  simp [escapeCode]

/-- What stands behind a backslash tells the character, and where its escape ends. -/
theorem Spells.eq_of_append (h : Spells c s) (h' : Spells d t) (heq : s ++ v = t ++ w) :
    c = d ∧ v = w := by
  cases h with
  | plain hc =>
      cases h' with
      | plain hd => simpa using heq
      | named hy =>
          obtain ⟨rfl, -⟩ := List.cons.inj heq
          simp at hc
      | code =>
          obtain ⟨rfl, -⟩ := List.cons.inj heq
          simp at hc
  | @named x hx =>
      cases h' with
      | plain hd =>
          obtain ⟨rfl, -⟩ := List.cons.inj heq
          simp at hd
      | @named y hy =>
          obtain ⟨rfl, hvw⟩ : x = y ∧ v = w := by simpa using heq
          exact ⟨Option.some.inj (hx.symm.trans hy), hvw⟩
      | code =>
          obtain ⟨rfl, -⟩ := List.cons.inj (List.cons.inj heq).2
          contradiction
  | code =>
      cases h' with
      | plain hd =>
          obtain ⟨rfl, -⟩ := List.cons.inj heq
          simp at hd
      | @named y hy =>
          obtain ⟨rfl, -⟩ := List.cons.inj (List.cons.inj heq).2
          contradiction
      | code =>
          rw [escapeCode_append, escapeCode_append] at heq
          simp only [List.cons.injEq, true_and] at heq
          obtain ⟨hdigits, hvw⟩ :=
            eq_of_append_cons (notMem_toDigits (by decide)) (notMem_toDigits (by decide)) heq
          exact ⟨Char.toNat_inj.mp (toDigits_injective hdigits), hvw⟩

/-- No character is written with a line end. -/
theorem Spells.notMem (h : Spells c s) : '\n' ∉ s ∧ '\r' ∉ s := by
  cases h with
  | plain hc => simp_all [eq_comm]
  | @named x hx =>
      have hfeed : x ≠ '\n' := by
        rintro rfl
        contradiction
      have hreturn : x ≠ '\r' := by
        rintro rfl
        contradiction
      simp [hfeed.symm, hreturn.symm]
  | code =>
      have hdigits (c : Char) (hc : ∀ d < 16, Nat.digitChar d ≠ c) (n : Nat) :
          c ∉ Nat.toDigits 16 n := notMem_toDigits hc
      simp [escapeCode, hdigits '\n' (by decide), hdigits '\r' (by decide)]

theorem Spells.head?_ne (h : Spells c s) : s ≠ [] ∧ s.head? ≠ some '"' := by
  cases h with
  | plain hc => simp_all
  | named => simp
  | code => simp [escapeCode]

theorem prefixFree_escape (printable : Char → Bool) : PrefixFree (escape printable '"') :=
  fun c d _ _ => (spells_escape printable c).eq_of_append (spells_escape printable d)

theorem toList_quoteWith (printable : Char → Bool) (text : String) :
    (quoteWith printable text).toList =
      '"' :: (text.toList.flatMap (escape printable '"') ++ ['"']) := by
  simp [quoteWith, escapeAll]

/-- **A quoted text** ends at the first quote that does not belong to an escape. -/
theorem prefixFree_quoteWith (printable : Char → Bool) :
    PrefixFree fun text => (quoteWith printable text).toList := by
  have hquote (v : List Char) (c : Char) : ¬escape printable '"' c <+: '"' :: v := by
    rintro ⟨t, ht⟩
    obtain ⟨hne, hhead⟩ := (spells_escape printable c).head?_ne
    have hfront := congrArg List.head? ht
    rw [List.head?_append_of_ne_nil _ hne, List.head?_cons] at hfront
    exact hhead hfront
  intro text text' v w heq
  simp only [toList_quoteWith, List.cons_append, List.append_assoc, List.nil_append,
    List.cons.injEq, true_and] at heq
  obtain ⟨htext, hrest⟩ :=
    (prefixFree_escape printable).eq_of_flatMap_append (hquote v) (hquote w) heq
  exact ⟨String.toList_inj.mp htext, (List.cons.inj hrest).2⟩

theorem notMem_quoteWith (printable : Char → Bool) (text : String) :
    '\n' ∉ (quoteWith printable text).toList ∧ '\r' ∉ (quoteWith printable text).toList := by
  simp [toList_quoteWith, fun c => (spells_escape printable c).notMem]

end Text

/-! ## Positions and names -/

namespace Position

theorem isDigit_of_mem {n : UInt32} {c : Char} (h : c ∈ n.toNat.repr.toList) :
    c.isDigit = true := by
  rw [Nat.toList_repr] at h
  exact Nat.isDigit_of_mem_toDigits (by decide) (by decide) h

/-- A row or a column ends in front of a character that is no digit. -/
theorem prefixFree_number {sep : Char} (hsep : sep.isDigit = false) :
    PrefixFree fun n : UInt32 => n.toNat.repr.toList ++ [sep] :=
  .terminated
    (fun _ _ h => UInt32.toNat_inj.mp (Text.repr_injective (String.toList_inj.mp h)))
    fun _ hmem => Bool.eq_false_iff.mp hsep (isDigit_of_mem hmem)

theorem prefixFree_render {sep : Char} (hsep : sep.isDigit = false) :
    PrefixFree fun p : Position => p.render.toList ++ [sep] := by
  have hcolon : ':'.isDigit = false := rfl
  have hparts : Function.Injective fun p : Position => (p.row, p.col) := fun p q h => by
    cases p
    cases q
    simpa using h
  have hcode := ((prefixFree_number hcolon).append (prefixFree_number hsep)).comp hparts
  simpa [render] using hcode

theorem notMem_render {c : Char} (hdigit : c.isDigit = false) (hc : c ≠ ':') (p : Position) :
    c ∉ p.render.toList := by
  have hnumber (n : UInt32) : c ∉ n.toNat.repr.toList := fun hmem =>
    Bool.eq_false_iff.mp hdigit (isDigit_of_mem hmem)
  simp only [render, String.toList_append, List.mem_append, hnumber, false_or, or_false]
  simpa using hc

/-- A position begins with a digit. -/
theorem exists_render_eq_cons (p : Position) :
    ∃ d ds, p.render.toList = d :: ds ∧ d.isDigit = true := by
  have hne : p.row.toNat.repr.toList ≠ [] := by
    rw [Nat.toList_repr]
    exact Nat.toDigits_ne_nil
  obtain ⟨d, ds, hds⟩ := List.exists_cons_of_ne_nil hne
  refine ⟨d, ds ++ (":" ++ p.col.toNat.repr).toList, ?_, ?_⟩
  · simp only [render, String.toList_append, hds, List.cons_append, List.append_assoc]
  · exact isDigit_of_mem (n := p.row) (by rw [hds]; exact List.mem_cons_self)

end Position

namespace Kind

/-- A name tells its kind. -/
theorem name_injective : Function.Injective name := by
  have hfind (k : Kind) : all.find? (fun l => l.name = k.name) = some k := by
    cases k <;> decide
  intro k l h
  have hk := hfind k
  rw [h, hfind l] at hk
  exact (Option.some.inj hk).symm

/-- A name is made of letters. -/
theorem isAlpha_of_mem_name {k : Kind} {c : Char} (h : c ∈ k.name.toList) : c.isAlpha = true := by
  have hall : k.name.toList.all Char.isAlpha = true := by
    cases k <;> decide
  exact List.all_eq_true.mp hall c h

theorem prefixFree_name {sep : Char} (hsep : sep.isAlpha = false) :
    PrefixFree fun k : Kind => k.name.toList ++ [sep] :=
  .terminated (fun _ _ h => name_injective (String.toList_inj.mp h)) fun _ hmem =>
    Bool.eq_false_iff.mp hsep (isAlpha_of_mem_name hmem)

end Kind

/-! ## Lines -/

namespace Token

variable (printable : Char → Bool)

theorem toList_renderWith (t : Token) :
    (t.renderWith printable).toList =
      (t.start.render.toList ++ ['-'] ++ (t.stop.render.toList ++ [' '])) ++
        (t.kind.name.toList ++ [' '] ++ (Text.quoteWith printable t.text).toList) := by
  simp [renderWith]

/-- **A line** tells its token, and where it ends. -/
theorem prefixFree_renderWith : PrefixFree fun t : Token => (t.renderWith printable).toList := by
  have hdash : '-'.isDigit = false := rfl
  have hspace : ' '.isDigit = false := rfl
  have hname : ' '.isAlpha = false := rfl
  have hparts : Function.Injective
      fun t : Token => ((t.start, t.stop), (t.kind, t.text)) := fun t t' h => by
    cases t
    cases t'
    simp only [Prod.mk.injEq] at h
    obtain ⟨⟨rfl, rfl⟩, rfl, rfl⟩ := h
    rfl
  have hspan := (Position.prefixFree_render hdash).append (Position.prefixFree_render hspace)
  have hrest := (Kind.prefixFree_name hname).append (Text.prefixFree_quoteWith printable)
  simpa only [toList_renderWith] using (hspan.append hrest).comp hparts

/-- No line has a line end inside it. -/
theorem notMem_renderWith (t : Token) :
    '\n' ∉ (t.renderWith printable).toList ∧ '\r' ∉ (t.renderWith printable).toList := by
  have hline (c : Char) (hdigit : c.isDigit = false) (halpha : c.isAlpha = false)
      (hc : c ∉ [':', '-', ' ']) (htext : c ∉ (Text.quoteWith printable t.text).toList) :
      c ∉ (t.renderWith printable).toList := by
    have hcolon : c ≠ ':' := fun heq => hc (by simp [heq])
    have hname : c ∉ t.kind.name.toList := fun hmem =>
      Bool.eq_false_iff.mp halpha (Kind.isAlpha_of_mem_name hmem)
    simp_all [toList_renderWith, Position.notMem_render hdigit hcolon]
  obtain ⟨hfeed, hreturn⟩ := Text.notMem_quoteWith printable t.text
  exact ⟨hline '\n' rfl rfl (by decide) hfeed, hline '\r' rfl rfl (by decide) hreturn⟩

theorem exists_renderWith_eq_cons (t : Token) :
    ∃ d ds, (t.renderWith printable).toList = d :: ds ∧ d.isDigit = true := by
  obtain ⟨d, ds, hds, hdigit⟩ := t.start.exists_render_eq_cons
  rw [toList_renderWith, hds]
  exact ⟨d, _, rfl, hdigit⟩

end Token

/-! ## Runs -/

/-- An excerpt begins with a letter. -/
theorem Diagnostic.exists_excerpt_eq_cons (d : Diagnostic) (file source : String) :
    ∃ cs, (d.excerpt file source).toList = 'E' :: cs := by
  have hheading : ∃ cs, d.heading.toList = 'E' :: cs := by
    unfold heading
    split <;> simp
  obtain ⟨cs, hcs⟩ := hheading
  delta excerpt
  simp [hcs]

namespace Command

variable (printable : Char → Bool)

/-- What may stand behind the lines of a listing. -/
def EndsListing (v : List Char) : Prop := ∀ d, v.head? = some d → d.isDigit = false

theorem endsListing_nil : EndsListing [] := nofun

theorem endsListing_excerpts (ds : List Diagnostic) (file source : String) :
    EndsListing (String.join (ds.map fun d => d.excerpt file source)).toList := by
  intro c hc
  cases ds with
  | nil => contradiction
  | cons d ds =>
      obtain ⟨cs, hcs⟩ := d.exists_excerpt_eq_cons file source
      obtain rfl : 'E' = c := by simpa [hcs] using hc
      rfl

theorem toList_lines (ls : List String) :
    (lines ls).toList = ls.flatMap fun l => l.toList ++ ['\n'] := by
  simp [lines, List.flatMap_map]

/-- **A listing** tells its tokens, and where it ends. -/
theorem eq_of_lines_append {ts ts' : List Token} {v w : List Char} (hv : EndsListing v)
    (hw : EndsListing w)
    (h : (lines (ts.map (Token.renderWith printable))).toList ++ v =
      (lines (ts'.map (Token.renderWith printable))).toList ++ w) : ts = ts' ∧ v = w := by
  have hfront {v : List Char} (hv : EndsListing v) (t : Token) :
      ¬(t.renderWith printable).toList ++ ['\n'] <+: v := by
    rintro ⟨u, rfl⟩
    obtain ⟨d, ds, hds, hdigit⟩ := t.exists_renderWith_eq_cons printable
    have hnot : d.isDigit = false := hv d (by rw [hds]; rfl)
    exact Bool.false_ne_true (hnot.symm.trans hdigit)
  simp only [toList_lines, List.flatMap_map] at h
  exact ((Token.prefixFree_renderWith printable).followed ['\n']).eq_of_flatMap_append
    (hfront hv) (hfront hw) h

theorem tokens_eq_of_renderWith_eq {file file' source source' : String} {scan scan' : Scan}
    (h : renderWith printable file source scan = renderWith printable file' source' scan') :
    scan.tokens = scan'.tokens := by
  have hparts := congrArg String.toList h
  rw [renderWith, renderWith, String.toList_append, String.toList_append] at hparts
  exact (eq_of_lines_append printable (endsListing_excerpts _ file source)
    (endsListing_excerpts _ file' source') hparts).1

/-- **Listings are unambiguous**: whichever characters are shown as they are, the line of a token
tells the token and has no line end inside it, and so the lines of tokens tell the tokens. What a
run prints tells the tokens of its scan, whatever reports stand behind them. -/
theorem listing_injective :
    Function.Injective (Token.renderWith printable) ∧
      (∀ t : Token, '\n' ∉ (t.renderWith printable).toList ∧
        '\r' ∉ (t.renderWith printable).toList) ∧
      (Function.Injective fun ts : List Token => lines (ts.map (Token.renderWith printable))) ∧
      ∀ file source scan file' source' scan',
        renderWith printable file source scan = renderWith printable file' source' scan' →
          scan.tokens = scan'.tokens := by
  refine ⟨?_, Token.notMem_renderWith printable, ?_,
    fun _ _ _ _ _ _ => tokens_eq_of_renderWith_eq printable⟩
  · intro t t' h
    exact (Token.prefixFree_renderWith printable).injective (congrArg String.toList h)
  · intro ts ts' h
    have hlines := congrArg (fun s : String => s.toList ++ []) h
    exact (eq_of_lines_append printable endsListing_nil endsListing_nil hlines).1

/-- A character that is shown by its code point, and a text that looks like that. -/
theorem listing_injective_lookalikes :
    Token.render ⟨.identifier, "\x7f", .origin, ⟨1, 2⟩⟩ =
        "1:1-1:2 Identifier \"\\u\x7b7f\x7d\"" ∧
      Token.render ⟨.identifier, "\\u\x7b7f\x7d", .origin, ⟨1, 2⟩⟩ =
        "1:1-1:2 Identifier \"\\\\u\x7b7f\x7d\"" ∧
      Token.render ⟨.identifier, "\x7f", .origin, ⟨1, 2⟩⟩ ≠
        Token.render ⟨.identifier, "\\u\x7b7f\x7d", .origin, ⟨1, 2⟩⟩ := by
  refine ⟨by decide +kernel, by decide +kernel, fun h => ?_⟩
  have htokens := (listing_injective Text.isPrintable).1 h
  exact absurd (congrArg Token.text htokens) (by decide)

end Command

end CircuitScan
