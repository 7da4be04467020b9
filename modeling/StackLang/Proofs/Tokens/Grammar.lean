import StackLang.Token

/-!
# The grammar of tokens

What a token is, said without a scanner: a quoted text (`Quoted`), a block (`Braced`) whose inside
may hold quoted texts and blocks again (`Body`), or a word (`Word`). A token has no gap at either
end (`Lexeme.head_solid`, `Lexeme.last_solid`), so gaps and tokens cannot be confused.
-/

namespace StackLang.Token

open StackLang.Text (isGap)

/-! ## 1. What a token is -/

/-- Only characters that separate tokens. -/
def Gap (cs : List Char) : Prop :=
  ∀ c ∈ cs, isGap c = true

theorem Gap.nil : Gap [] := nofun

theorem Gap.append {gap cs : List Char} (hgap : Gap gap) (hcs : Gap cs) : Gap (gap ++ cs) :=
  List.forall_mem_append.mpr ⟨hgap, hcs⟩

/-- A quote, characters that are no quotes, a quote. -/
inductive Quoted : List Char → Prop
  | enclose {text : List Char} : '"' ∉ text → Quoted ('"' :: (text ++ ['"']))

/-- What stands between the braces of a block: characters that are neither quotes nor braces, quoted
texts, blocks. -/
inductive Body : List Char → Prop
  | nil : Body []
  | plain {c : Char} {cs : List Char} : c ≠ '"' → c ≠ '\x7b' → c ≠ '\x7d' → Body cs → Body (c :: cs)
  | quoted {text cs : List Char} : Quoted text → Body cs → Body (text ++ cs)
  | block {inner cs : List Char} : Body inner → Body cs → Body ('\x7b' :: (inner ++ '\x7d' :: cs))

/-- A block: a brace, a body, a brace. -/
inductive Braced : List Char → Prop
  | enclose {inner : List Char} : Body inner → Braced ('\x7b' :: (inner ++ ['\x7d']))

/-- A word: no gap in it, and neither a quote nor an opening brace in front. -/
structure Word (cs : List Char) : Prop where
  nonempty : cs ≠ []
  solid : ∀ c ∈ cs, isGap c = false
  no_quote : cs.head? ≠ some '"'
  no_brace : cs.head? ≠ some '\x7b'

/-- A token of one of the three kinds. -/
inductive Lexeme (cs : List Char) : Prop
  | quoted : Quoted cs → Lexeme cs
  | braced : Braced cs → Lexeme cs
  | word : Word cs → Lexeme cs

/-- What follows a token does not go on with it: behind a word there is a gap or the end. -/
def Ends (lexeme rest : List Char) : Prop :=
  Word lexeme → ∀ c ∈ rest.head?, isGap c = true

/-! ## 2. Ends of tokens -/

/-- Only the character behind a token matters. -/
theorem Ends.of_append {lexeme cs ds : List Char} (h : Ends lexeme (cs ++ ds)) :
    Ends lexeme cs := by
  intro hword c hc
  cases cs with
  | nil => cases hc
  | cons d cs => exact h hword c hc

/-- Characters that mean nothing to the scanner of blocks. -/
theorem Body.of_plain {cs : List Char} (h : ∀ c ∈ cs, c ≠ '"' ∧ c ≠ '\x7b' ∧ c ≠ '\x7d') :
    Body cs := by
  induction cs with
  | nil => exact .nil
  | cons c cs ih =>
    obtain ⟨hquote, hopen, hclose⟩ := h c List.mem_cons_self
    exact .plain hquote hopen hclose (ih fun d hd => h d (List.mem_cons_of_mem c hd))

theorem Body.append {cs ds : List Char} (hcs : Body cs) (hds : Body ds) : Body (cs ++ ds) := by
  induction hcs with
  | nil => exact hds
  | plain hquote hopen hclose _ ih => exact .plain hquote hopen hclose ih
  | quoted htext _ ih =>
    rw [List.append_assoc]
    exact .quoted htext ih
  | block hinner _ _ ih =>
    rw [List.cons_append, List.append_assoc, List.cons_append]
    exact .block hinner ih

/-- A token begins with no gap. -/
theorem Lexeme.head_solid {cs : List Char} (h : Lexeme cs) : ∀ c ∈ cs.head?, isGap c = false := by
  cases h with
  | quoted h =>
    cases h
    simp [isGap]
  | braced h =>
    cases h
    simp [isGap]
  | word h => exact fun c hc => h.solid c (List.mem_of_head? hc)

/-- A token ends with no gap. -/
theorem Lexeme.last_solid {cs : List Char} (h : Lexeme cs) :
    ∀ c ∈ cs.getLast?, isGap c = false := by
  cases h with
  | quoted h =>
    cases h
    simp [List.getLast?_cons, isGap]
  | braced h =>
    cases h
    simp [List.getLast?_cons, isGap]
  | word h => exact fun c hc => h.solid c (List.mem_of_getLast? hc)

theorem Lexeme.ne_nil {cs : List Char} (h : Lexeme cs) : cs ≠ [] := by
  cases h with
  | quoted h =>
    cases h
    exact List.cons_ne_nil _ _
  | braced h =>
    cases h
    exact List.cons_ne_nil _ _
  | word h => exact h.nonempty

/-- A quoted text may touch what follows. -/
theorem Quoted.ends {cs : List Char} (h : Quoted cs) (rest : List Char) : Ends cs rest := by
  intro hword
  cases h
  exact absurd rfl hword.no_quote

/-- So may a block. -/
theorem Braced.ends {cs : List Char} (h : Braced cs) (rest : List Char) : Ends cs rest := by
  intro hword
  cases h
  exact absurd rfl hword.no_brace

/-- Between braces a token can only be a block. -/
theorem Lexeme.body_of_braces {inner : List Char} (h : Lexeme ('\x7b' :: (inner ++ ['\x7d']))) :
    Body inner := by
  cases h with
  | quoted h => cases h
  | word h => exact absurd rfl h.no_brace
  | braced h =>
    generalize hcs : '\x7b' :: (inner ++ ['\x7d']) = cs at h
    cases h with
    | enclose hbody =>
      rw [List.cons.injEq] at hcs
      exact List.append_cancel_right hcs.2 ▸ hbody

end StackLang.Token
