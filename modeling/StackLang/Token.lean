import StackLang.Fault
import StackLang.Text.Blank

/-!
# Tokens: the division of a program

A program is a sequence of tokens with gaps between them. A token is one of three things:

* a quoted text, from a quote to the next quote;
* a block, from a brace to the brace that closes it; braces inside nest, and a quoted text inside
  is passed over whole;
* a word, everything up to the next gap. A quote or brace inside a word means nothing.

A quoted text or a block may touch what follows it; only a word needs a gap behind it. A quote or
brace without its end makes the whole program unreadable, from that quote or brace on. So does a
quote without its end inside a block.
-/

namespace StackLang.Token

open StackLang.Text (isGap)

/-! ## 1. One token -/

/-- What stands first in a program. -/
inductive Scan where
  /-- Nothing but gaps. -/
  | done
  /-- A token, and the program behind it. -/
  | token (lexeme rest : List Char)
  /-- A quote or brace without its end, with all that follows. -/
  | unclosed (tail : List Char)
  deriving DecidableEq, Repr

/-- From behind an opening quote: the characters up to and with the closing one, and the rest. -/
def quotedTail? (cs : List Char) : Option (List Char × List Char) :=
  match cs.dropWhile (· ≠ '"') with
  | [] => none
  | quote :: rest => some (cs.takeWhile (· ≠ '"') ++ [quote], rest)

/-- From behind an opening brace: the characters up to and with the closing one, and the rest.

`depth` counts the braces that were opened inside and are still open. `quote` is the text from an
opening quote on, while that quote is open; if it never closes, that text is what cannot be read.
`seen` holds the characters read so far, last first. -/
def blockTail (depth : Nat) (quote : Option (List Char)) (seen : List Char) :
    List Char → Except (Option (List Char)) (List Char × List Char)
  | [] => .error quote
  | c :: cs =>
    match quote with
    | some tail => blockTail depth (if c = '"' then none else some tail) (c :: seen) cs
    | none =>
      if c = '"' then blockTail depth (some (c :: cs)) (c :: seen) cs
      else if c = '\x7b' then blockTail (depth + 1) none (c :: seen) cs
      else if c = '\x7d' then
        match depth with
        | 0 => .ok ((c :: seen).reverse, cs)
        | depth + 1 => blockTail depth none (c :: seen) cs
      else blockTail depth none (c :: seen) cs

/-- The first token of a program. -/
def scan (source : List Char) : Scan :=
  match source.dropWhile isGap with
  | [] => .done
  | c :: cs =>
    if c = '"' then
      match quotedTail? cs with
      | some (tail, rest) => .token (c :: tail) rest
      | none => .unclosed (c :: cs)
    else if c = '\x7b' then
      match blockTail 0 none [] cs with
      | .ok (tail, rest) => .token (c :: tail) rest
      | .error (some tail) => .unclosed tail
      | .error none => .unclosed (c :: cs)
    else
      .token ((c :: cs).takeWhile (!isGap ·)) ((c :: cs).dropWhile (!isGap ·))

/-! ## 2. What is left is shorter -/

theorem length_dropWhile_le {α : Type} (p : α → Bool) (l : List α) :
    (l.dropWhile p).length ≤ l.length :=
  (List.dropWhile_suffix p).length_le

theorem length_quotedTail? {cs tail rest : List Char} (h : quotedTail? cs = some (tail, rest)) :
    rest.length < cs.length := by
  have hle := length_dropWhile_le (· ≠ '"') cs
  unfold quotedTail? at h
  split at h
  next => simp at h
  next quote after heq =>
    rw [heq, List.length_cons] at hle
    simp only [Option.some.injEq, Prod.mk.injEq] at h
    rw [← h.2]
    omega

theorem length_blockTail {cs tail rest : List Char} {depth : Nat} {quote : Option (List Char)}
    {seen : List Char} (h : blockTail depth quote seen cs = .ok (tail, rest)) :
    rest.length < cs.length := by
  induction cs generalizing depth quote seen with
  | nil => simp [blockTail] at h
  | cons c cs ih =>
    have step : ∀ {d q s}, blockTail d q s cs = .ok (tail, rest) →
        rest.length < (c :: cs).length := fun hs => by
      have := ih hs
      rw [List.length_cons]
      omega
    unfold blockTail at h
    split at h
    next => exact step h
    next =>
      split at h
      next => exact step h
      next =>
        split at h
        next => exact step h
        next =>
          split at h
          next =>
            split at h
            next =>
              simp only [Except.ok.injEq, Prod.mk.injEq] at h
              rw [← h.2, List.length_cons]
              omega
            next => exact step h
          next => exact step h

/-- Behind a token the program is shorter. -/
theorem length_scan {source lexeme rest : List Char} (h : scan source = .token lexeme rest) :
    rest.length < source.length := by
  have hgap := length_dropWhile_le isGap source
  unfold scan at h
  split at h
  next => simp at h
  next c cs heq =>
    rw [heq, List.length_cons] at hgap
    split at h
    next =>
      split at h
      next hq =>
        simp only [Scan.token.injEq] at h
        have := length_quotedTail? hq
        rw [← h.2]
        omega
      next => simp at h
    next =>
      split at h
      next =>
        split at h
        next hb =>
          simp only [Scan.token.injEq] at h
          have := length_blockTail hb
          rw [← h.2]
          omega
        next => simp at h
        next => simp at h
      next =>
        have hc : isGap c = false := by
          have := List.head_dropWhile_not isGap (l := source) (by simp [heq])
          simpa [heq] using this
        simp only [Scan.token.injEq, List.dropWhile_cons, hc] at h
        have := length_dropWhile_le (fun d => !isGap d) cs
        rw [← h.2]
        simp only [Bool.not_false, if_true]
        omega

/-! ## 3. All tokens -/

/-- The tokens of a program behind those already found, which stand last first; or the part that
cannot be read. -/
def lexemesFrom (found : List (List Char)) (source : List Char) :
    Except (List Char) (List (List Char)) :=
  match _h : scan source with
  | .done => .ok found.reverse
  | .unclosed tail => .error tail
  | .token lexeme rest => lexemesFrom (lexeme :: found) rest
termination_by source.length
decreasing_by exact length_scan _h

/-- The tokens of a program, or the part of it that cannot be read. -/
def lexemes (source : List Char) : Except (List Char) (List (List Char)) :=
  lexemesFrom [] source

/-- The tokens of a program, all of them before the first is used. -/
def ofSource (source : String) : Except Fault (List String) :=
  match lexemes source.toList with
  | .ok found => .ok (found.map String.ofList)
  | .error tail => .error (.unreadable (String.ofList tail))

/-! ## 4. One equation for each thing that can stand first -/

theorem lexemesFrom_done {found : List (List Char)} {source : List Char}
    (h : scan source = .done) : lexemesFrom found source = .ok found.reverse := by
  rw [lexemesFrom]
  split <;> simp_all

theorem lexemesFrom_unclosed {found : List (List Char)} {source tail : List Char}
    (h : scan source = .unclosed tail) : lexemesFrom found source = .error tail := by
  rw [lexemesFrom]
  split <;> simp_all

theorem lexemesFrom_token {found : List (List Char)} {source lexeme rest : List Char}
    (h : scan source = .token lexeme rest) :
    lexemesFrom found source = lexemesFrom (lexeme :: found) rest := by
  rw [lexemesFrom]
  split <;> simp_all

/-- What was found before only stands in front. -/
theorem lexemesFrom_eq (found : List (List Char)) (source : List Char) :
    lexemesFrom found source = (lexemes source).map (found.reverse ++ ·) := by
  induction hn : source.length using Nat.strongRecOn generalizing found source with
  | ind n ih =>
    cases h : scan source with
    | done => simp [lexemes, lexemesFrom_done h, Except.map]
    | unclosed tail => simp [lexemes, lexemesFrom_unclosed h, Except.map]
    | token lexeme rest =>
      have hlt : rest.length < n := hn ▸ length_scan h
      rw [lexemesFrom_token h, lexemes, lexemesFrom_token h, ih _ hlt _ _ rfl,
        ih _ hlt [lexeme] _ rfl]
      cases lexemes rest <;> simp [Except.map]

theorem lexemes_done {source : List Char} (h : scan source = .done) : lexemes source = .ok [] :=
  lexemesFrom_done h

theorem lexemes_unclosed {source tail : List Char} (h : scan source = .unclosed tail) :
    lexemes source = .error tail :=
  lexemesFrom_unclosed h

theorem lexemes_token {source lexeme rest : List Char} (h : scan source = .token lexeme rest) :
    lexemes source = (lexemes rest).map (lexeme :: ·) := by
  rw [lexemes, lexemesFrom_token h, lexemesFrom_eq]
  rfl

end StackLang.Token
