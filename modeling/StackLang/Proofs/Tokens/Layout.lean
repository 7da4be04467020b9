import StackLang.Proofs.Tokens.Scanning

/-!
# A program is divided into tokens in one way or in none

A layout writes a program down as gaps and tokens in turn. The tokens that the scanner finds are
those of a layout, and where there is none the program breaks off in a quote or a brace
(`layout_or_unclosed`). Every layout is found (`lexemes_text`), so that two layouts of one program
are the same (`Layout.Proper.eq_of_text`).
-/

namespace StackLang.Token

open StackLang.Text (isGap)

/-! ## 1. Layouts -/

/-- Gaps and tokens in turn, with a gap at either end. -/
inductive Layout where
  | finish (gap : List Char)
  | token (gap lexeme : List Char) (rest : Layout)

namespace Layout

/-- The program that a layout writes. -/
def text : Layout → List Char
  | finish gap => gap
  | token gap lexeme rest => gap ++ (lexeme ++ rest.text)

/-- The tokens of a layout. -/
def tokens : Layout → List (List Char)
  | finish _ => []
  | token _ lexeme rest => lexeme :: rest.tokens

/-- The first gap of a layout. -/
def gap : Layout → List Char
  | finish gap => gap
  | token gap _ _ => gap

/-- Gaps are gaps and tokens are tokens, and a word is kept apart from a token behind it. -/
inductive Proper : Layout → Prop
  | finish {gap : List Char} : Gap gap → Proper (.finish gap)
  | token {gap lexeme : List Char} {rest : Layout} : Gap gap → Lexeme lexeme → Proper rest →
      (Word lexeme → rest.tokens ≠ [] → rest.gap ≠ []) → Proper (.token gap lexeme rest)

/-! ## 2. The scanner goes through a layout -/

variable {l l' rest : Layout} {gap lexeme : List Char}

/-- A gap that is not empty keeps a word apart. -/
theorem Proper.ends (h : l.Proper) (hapart : Word lexeme → l.tokens ≠ [] → l.gap ≠ []) :
    Ends lexeme l.text := by
  intro hword c hc
  cases h with
  | finish hgap => exact hgap c (List.mem_of_head? hc)
  | token hgap _ _ _ =>
    have hne := hapart hword (List.cons_ne_nil _ _)
    obtain ⟨d, gap, rfl⟩ := List.exists_cons_of_ne_nil hne
    cases hc
    exact hgap c List.mem_cons_self

/-- Where a word ends, a token behind it is kept apart. -/
theorem Proper.apart (h : l.Proper) (hends : Ends lexeme l.text) :
    Word lexeme → l.tokens ≠ [] → l.gap ≠ [] := by
  intro hword htokens hgap
  cases h with
  | finish _ => exact htokens rfl
  | token _ hlexeme _ _ =>
    obtain ⟨c, cs, rfl⟩ := List.exists_cons_of_ne_nil hlexeme.ne_nil
    subst hgap
    have hgapped : isGap c = true := hends hword c rfl
    rw [hlexeme.head_solid c rfl] at hgapped
    cases hgapped

theorem scan_text (h : (Layout.token gap lexeme rest).Proper) :
    scan (Layout.token gap lexeme rest).text = .token lexeme rest.text := by
  cases h with
  | token hgap hlexeme hrest hapart => exact scan_append hgap hlexeme (hrest.ends hapart)

/-- **A program has one layout at most**: the scanner finds the same in both. -/
theorem Proper.eq_of_text (h : l.Proper) (h' : l'.Proper) (htext : l.text = l'.text) : l = l' := by
  induction l generalizing l' with
  | finish gap =>
    cases l' with
    | finish gap' => exact congrArg Layout.finish htext
    | token gap' lexeme' rest' =>
      cases h with
      | finish hgap =>
        have hscan := scan_text h'
        rw [← htext, text, scan_done hgap] at hscan
        cases hscan
  | token gap lexeme rest ih =>
    have hscan := scan_text h
    rw [htext] at hscan
    cases l' with
    | finish gap' =>
      cases h' with
      | finish hgap =>
        rw [text, scan_done hgap] at hscan
        cases hscan
    | token gap' lexeme' rest' =>
      rw [scan_text h', Scan.token.injEq] at hscan
      obtain ⟨rfl, hrest⟩ := hscan
      rw [text, text, hrest, List.append_cancel_right_eq] at htext
      cases h with
      | token _ _ hproper _ =>
        cases h' with
        | token _ _ hproper' _ => rw [htext, ih hproper hproper' hrest.symm]

end Layout

/-! ## 3. Programs and layouts -/

/-- **Every layout is found.** -/
theorem lexemes_text {l : Layout} (h : l.Proper) : lexemes l.text = .ok l.tokens := by
  induction l with
  | finish gap =>
    cases h with
    | finish hgap => exact lexemes_done (scan_done hgap)
  | token gap lexeme rest ih =>
    rw [lexemes_token (Layout.scan_text h)]
    cases h with
    | token _ _ hrest _ =>
      rw [ih hrest]
      rfl

/-- **A program has a layout, or it breaks off** at a quote or a brace without its end. -/
theorem layout_or_unclosed (source : List Char) :
    (∃ l : Layout, l.Proper ∧ l.text = source) ∨
    ∃ tail, lexemes source = .error tail ∧ tail <:+ source ∧
      (tail.head? = some '"' ∨ tail.head? = some '\x7b') := by
  induction hn : source.length using Nat.strongRecOn generalizing source with
  | ind n ih =>
    have hfinds := finds_scan source
    generalize hscan : scan source = found at hfinds
    cases hfinds with
    | done hgap => exact .inl ⟨.finish source, .finish hgap, rfl⟩
    | unclosed hsuffix hhead => exact .inr ⟨_, lexemes_unclosed hscan, hsuffix, hhead⟩
    | @token gap lexeme rest hgap hsource hlexeme hends =>
      rcases ih rest.length (hn ▸ length_scan hscan) rest rfl with ⟨l, hl, htext⟩ | hunclosed
      · subst htext
        exact .inl ⟨.token gap lexeme l, .token hgap hlexeme hl (hl.apart hends), hsource.symm⟩
      · obtain ⟨tail, herror, hsuffix, hhead⟩ := hunclosed
        refine .inr ⟨tail, ?_, hsuffix.trans ?_, hhead⟩
        · rw [lexemes_token hscan, herror]
          rfl
        · rw [hsource, ← List.append_assoc]
          exact List.suffix_append _ rest

/-- What has been divided into tokens has a layout with these tokens. -/
theorem exists_layout {source : List Char} {found : List (List Char)}
    (h : lexemes source = .ok found) :
    ∃ l : Layout, l.Proper ∧ l.text = source ∧ l.tokens = found := by
  rcases layout_or_unclosed source with ⟨l, hl, rfl⟩ | ⟨tail, herror, _⟩
  · rw [lexemes_text hl, Except.ok.injEq] at h
    exact ⟨l, hl, rfl, h⟩
  · rw [herror] at h
    cases h

theorem ofSource_of_ok {source : String} {found : List (List Char)}
    (h : lexemes source.toList = .ok found) :
    ofSource source = .ok (found.map String.ofList) := by
  rw [ofSource, h]

theorem ofSource_of_error {source : String} {tail : List Char}
    (h : lexemes source.toList = .error tail) :
    ofSource source = .error (.unreadable (String.ofList tail)) := by
  rw [ofSource, h]

theorem exists_lexemes {source : String} {tokens : List String}
    (h : ofSource source = .ok tokens) :
    ∃ found, lexemes source.toList = .ok found ∧ found.map String.ofList = tokens := by
  unfold ofSource at h
  split at h
  next found hfound =>
    cases h
    exact ⟨found, hfound, rfl⟩
  next => cases h

theorem ofSource_of_layout {source : String} {l : Layout} (h : l.Proper)
    (htext : l.text = source.toList) : ofSource source = .ok (l.tokens.map String.ofList) :=
  ofSource_of_ok (htext ▸ lexemes_text h)

theorem exists_layout_of_ofSource {source : String} {tokens : List String}
    (h : ofSource source = .ok tokens) :
    ∃ l : Layout, l.Proper ∧ l.text = source.toList ∧ l.tokens.map String.ofList = tokens := by
  obtain ⟨found, hfound, hmap⟩ := exists_lexemes h
  obtain ⟨l, hl, htext, htokens⟩ := exists_layout hfound
  exact ⟨l, hl, htext, htokens ▸ hmap⟩

/-- **A program is divided into tokens exactly as its layout says**: it has one layout at most; its
tokens are those of its layout; and without a layout it cannot be read, from a quote or a brace
on. -/
theorem ofSource_eq_ok_iff_layout (source : String) :
    (∀ tokens, ofSource source = .ok tokens ↔
      ∃ l : Layout, l.Proper ∧ l.text = source.toList ∧ l.tokens.map String.ofList = tokens) ∧
    (∀ l l' : Layout, l.Proper → l'.Proper → l.text = source.toList → l'.text = source.toList →
      l = l') ∧
    ((¬∃ l : Layout, l.Proper ∧ l.text = source.toList) →
      ∃ tail, ofSource source = .error (.unreadable tail) ∧ tail.toList <:+ source.toList ∧
        (tail.toList.head? = some '"' ∨ tail.toList.head? = some '\x7b')) := by
  refine ⟨fun tokens => ⟨exists_layout_of_ofSource, ?_⟩, fun l l' hl hl' htext htext' => ?_,
    fun hnone => ?_⟩
  · rintro ⟨l, hl, htext, rfl⟩
    exact ofSource_of_layout hl htext
  · exact hl.eq_of_text hl' (htext.trans htext'.symm)
  · rcases layout_or_unclosed source.toList with hlayout | ⟨tail, herror, hsuffix, hhead⟩
    · exact absurd hlayout hnone
    · refine ⟨String.ofList tail, ofSource_of_error herror, ?_, ?_⟩
      · rwa [String.toList_ofList]
      · rwa [String.toList_ofList]

end StackLang.Token
