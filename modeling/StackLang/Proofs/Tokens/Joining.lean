import StackLang.Proofs.Tokens.Layout

/-!
# Programs one behind the other

With a gap between them, the tokens of two programs are those of the first and then those of the
second (`lexemes_append`): the gap ends a word in which the first program may end, and a quoted text
or a block ends by itself. If the second program cannot be read, it cannot be read from the same
place on.

The same is said of texts (`ofSource_append`), and of any number of programs with single spaces
between them (`ofSource_intercalate`).
-/

namespace StackLang.Token

open StackLang.Text (isGap)

/-! ## 1. Gaps in front and behind -/

theorem lexemes_eq_of_scan {source source' : List Char} (h : scan source = scan source') :
    lexemes source = lexemes source' := by
  cases hscan : scan source' with
  | done => rw [lexemes_done hscan, lexemes_done (h.trans hscan)]
  | unclosed tail => rw [lexemes_unclosed hscan, lexemes_unclosed (h.trans hscan)]
  | token lexeme rest => rw [lexemes_token hscan, lexemes_token (h.trans hscan)]

/-- A gap in front changes no token. -/
theorem lexemes_gap_append {gap : List Char} (hgap : Gap gap) (source : List Char) :
    lexemes (gap ++ source) = lexemes source :=
  lexemes_eq_of_scan (scan_gap hgap source)

/-- Nothing behind a gap goes on with a token in front of it. -/
theorem Ends.append_gap {lexeme cs gap : List Char} (h : Ends lexeme cs) (hgap : Gap gap)
    (hne : gap ≠ []) (rest : List Char) : Ends lexeme (cs ++ (gap ++ rest)) := by
  intro hword c hc
  cases cs with
  | nil =>
    obtain ⟨d, gap, rfl⟩ := List.exists_cons_of_ne_nil hne
    cases hc
    exact hgap c List.mem_cons_self
  | cons d cs =>
    cases hc
    exact h hword c rfl

/-- **The tokens of a program do not depend on what stands behind a gap.** The induction is over the
layout of the program. -/
theorem lexemes_append {source gap : List Char} {found : List (List Char)}
    (h : lexemes source = .ok found) (hgap : Gap gap) (hne : gap ≠ []) (rest : List Char) :
    lexemes (source ++ (gap ++ rest)) = (lexemes rest).map (found ++ ·) := by
  obtain ⟨l, hl, rfl, rfl⟩ := exists_layout h
  clear h
  induction hl with
  | @finish front hfront =>
    have hgaps : Gap (front ++ gap) := hfront.append hgap
    rw [Layout.text, ← List.append_assoc, lexemes_gap_append hgaps]
    cases lexemes rest <;> rfl
  | @token front lexeme l hfront hlexeme hl hapart ih =>
    have hends : Ends lexeme (l.text ++ (gap ++ rest)) :=
      (hl.ends hapart).append_gap hgap hne rest
    have hscan := scan_append hfront hlexeme hends
    rw [Layout.text, List.append_assoc, List.append_assoc, lexemes_token hscan, ih]
    cases lexemes rest <;> rfl

/-! ## 2. Texts -/

theorem gap_space : Gap " ".toList := by
  intro c hc
  rw [List.mem_singleton.mp hc]
  rfl

theorem ofSource_empty : ofSource "" = .ok [] := by
  have hdone : lexemes "".toList = .ok [] := lexemes_done (scan_done .nil)
  exact ofSource_of_ok hdone

/-- A token alone is a program of this one token. -/
theorem ofSource_lexeme {token : String} (h : Lexeme token.toList) :
    ofSource token = .ok [token] := by
  have hl : (Layout.token [] token.toList (.finish [])).Proper :=
    .token .nil h (.finish .nil) fun _ hne => absurd rfl hne
  have htext : (Layout.token [] token.toList (.finish [])).text = token.toList := by
    simp [Layout.text]
  rw [ofSource_of_layout hl htext]
  simp only [Layout.tokens, List.map_singleton, String.ofList_toList]

/-- **Programs one behind the other have the tokens of both**, or they break off where the second
one does. -/
theorem ofSource_append {source gap : String} {tokens : List String}
    (h : ofSource source = .ok tokens) (hgap : Gap gap.toList) (hne : gap ≠ "") (rest : String) :
    ofSource (source ++ gap ++ rest) = (ofSource rest).map (tokens ++ ·) := by
  obtain ⟨found, hfound, rfl⟩ := exists_lexemes h
  have hne' : gap.toList ≠ [] := fun hnil => hne (String.toList_eq_nil_iff.mp hnil)
  have happend := lexemes_append hfound hgap hne' rest.toList
  rw [← String.toList_append, ← String.toList_append, ← String.append_assoc] at happend
  cases hrest : lexemes rest.toList with
  | ok found' =>
    rw [hrest] at happend
    rw [ofSource_of_ok happend, ofSource_of_ok hrest, List.map_append]
    rfl
  | error tail =>
    rw [hrest] at happend
    rw [ofSource_of_error happend, ofSource_of_error hrest]
    rfl

/-! ## 3. Many programs -/

/-- A program that can be divided into tokens. -/
def Readable (source : String) : Prop :=
  ∃ tokens, ofSource source = .ok tokens

theorem readable_lexeme {token : String} (h : Lexeme token.toList) : Readable token :=
  ⟨[token], ofSource_lexeme h⟩

theorem Readable.append {source gap rest : String} (h : Readable source) (hgap : Gap gap.toList)
    (hne : gap ≠ "") (hrest : Readable rest) : Readable (source ++ gap ++ rest) := by
  obtain ⟨tokens, htokens⟩ := h
  obtain ⟨tokens', htokens'⟩ := hrest
  have happend := ofSource_append htokens hgap hne rest
  rw [htokens'] at happend
  exact ⟨tokens ++ tokens', happend⟩

/-- Any number of programs with single spaces between them. -/
theorem ofSource_intercalate {sources : List String} {tokens : String → List String}
    (h : ∀ source ∈ sources, ofSource source = .ok (tokens source)) :
    ofSource (" ".intercalate sources) = .ok (sources.flatMap tokens) := by
  induction sources with
  | nil => exact ofSource_empty
  | cons source sources ih =>
    have hfirst := h source List.mem_cons_self
    cases sources with
    | nil => rw [String.intercalate_singleton, List.flatMap_singleton, hfirst]
    | cons next sources =>
      have hrest := ih fun other hother => h other (List.mem_cons_of_mem source hother)
      rw [String.intercalate_cons_cons, ofSource_append hfirst gap_space (by decide), hrest]
      rfl

theorem Readable.intercalate {sources : List String} (h : ∀ source ∈ sources, Readable source) :
    Readable (" ".intercalate sources) := by
  have htokens : ∀ source ∈ sources,
      ofSource source = .ok ((ofSource source).toOption.getD []) := by
    intro source hsource
    obtain ⟨tokens, htokens⟩ := h source hsource
    rw [htokens]
    rfl
  exact ⟨_, ofSource_intercalate htokens⟩

end StackLang.Token
