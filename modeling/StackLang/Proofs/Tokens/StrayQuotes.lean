import Mathlib.Algebra.Ring.Parity
import StackLang.Proofs.Tokens.Unclosed

/-!
# Quotes inside words

A quote in a word means nothing to the scanner of tokens, but to the scanner of blocks it begins or
ends a quoted text. So what stands between the braces of a block need not be a program. It is one
exactly if its words hold an even number of quotes (`Body.readable_iff`); otherwise it breaks off in
a quoted text, and never at a brace (`Body.of_error`).

Both scanners are followed at once (`BodyRest`): behind an even number of quotes the scanner of
blocks is outside of quoted texts, as the scanner of tokens is between two tokens.
-/

namespace StackLang.Token

open StackLang.Text (isGap)

/-! ## 1. Quotes in words -/

/-- The quotes in a token that is a word; those of other tokens are their ends or inside of them. -/
def strayIn (lexeme : List Char) : Nat :=
  if lexeme.head? = some '"' ∨ lexeme.head? = some '\x7b' then 0 else lexeme.count '"'

/-- The number of quotes in the words of a program, as far as it can be read. -/
def strayQuotes (source : List Char) : Nat :=
  match _h : scan source with
  | .done => 0
  | .unclosed _ => 0
  | .token lexeme rest => strayIn lexeme + strayQuotes rest
termination_by source.length
decreasing_by exact length_scan _h

variable {n : Nat} {source cs lexeme rest tail gap : List Char} {c : Char}

theorem strayQuotes_done (h : scan source = .done) : strayQuotes source = 0 := by
  rw [strayQuotes]
  split <;> simp_all

theorem strayQuotes_unclosed (h : scan source = .unclosed tail) : strayQuotes source = 0 := by
  rw [strayQuotes]
  split <;> simp_all

theorem strayQuotes_token (h : scan source = .token lexeme rest) :
    strayQuotes source = strayIn lexeme + strayQuotes rest := by
  rw [strayQuotes]
  split <;> simp_all

theorem Gap.count_quote (h : Gap gap) : gap.count '"' = 0 :=
  List.count_eq_zero.mpr fun hmem => ne_of_isGap (h _ hmem) rfl rfl

/-! ## 2. The scanner of blocks, character by character -/

theorem Closes.exists_concat {depth : Nat} (h : Closes depth tail) :
    ∃ front, tail = front ++ ['\x7d'] := by
  induction h with
  | last _ => exact ⟨_, rfl⟩
  | @more _ inner _ _ _ ih =>
    obtain ⟨front, rfl⟩ := ih
    exact ⟨inner ++ '\x7d' :: front, by simp⟩

/-- **One step of the scanner of blocks**: it is at the end, or it goes on. It is in a quoted text
exactly behind an odd number of quotes. -/
theorem blockTail_step (depth : Nat) {quote : Option (List Char)} (seen : List Char) (c : Char)
    (cs : List Char) (hquote : quote.isSome = true ↔ Odd n) :
    (∃ read, blockTail depth quote seen (c :: cs) = .ok (read, cs)) ∨
      ∃ depth' quote', (quote'.isSome = true ↔ Odd (n + [c].count '"')) ∧
        blockTail depth quote seen (c :: cs) = blockTail depth' quote' (c :: seen) cs := by
  have hother : c ≠ '"' → n + [c].count '"' = n := fun hc => by simp [hc]
  cases quote with
  | some unread =>
    right
    by_cases hc : c = '"'
    · subst hc
      have hodd : Odd n := hquote.mp rfl
      exact ⟨depth, none, by simp [hodd, Nat.odd_add_one], blockTail_text_end⟩
    · exact ⟨depth, _, by rwa [hother hc], blockTail_text hc⟩
  | none =>
    have heven : ¬Odd n := fun hodd => absurd (hquote.mpr hodd) nofun
    cases kind c with
    | quote => exact .inr ⟨depth, _, by simp [heven, Nat.odd_add_one], blockTail_quote⟩
    | opening => exact .inr ⟨depth + 1, none, hquote, blockTail_open⟩
    | closing =>
      cases depth with
      | zero => exact .inl ⟨_, blockTail_close_zero⟩
      | succ depth => exact .inr ⟨depth, none, hquote, blockTail_close⟩
    | plain hc hopen hclose =>
      exact .inr ⟨depth, none, by rwa [hother hc], blockTail_plain hc hopen hclose⟩

/-- A block that is not closed ends in a quoted text if the number of its quotes is odd. -/
theorem isSome_iff_of_blockTail {depth : Nat} {quote unread : Option (List Char)}
    {seen : List Char} (h : blockTail depth quote seen cs = .error unread)
    (hquote : quote.isSome = true ↔ Odd n) : unread.isSome = true ↔ Odd (n + cs.count '"') := by
  induction cs generalizing n depth quote seen with
  | nil =>
    cases h
    exact hquote
  | cons c cs ih =>
    rcases blockTail_step depth seen c cs hquote with ⟨read, hread⟩ | ⟨_, _, hquote', hstep⟩
    · rw [hread] at h
      cases h
    · rw [← List.singleton_append, List.count_append, ← Nat.add_assoc]
      exact ih (hstep ▸ h) hquote'

/-! ## 3. What is left of a body -/

/-- What is left of a body behind a number of quotes: the scanner of blocks comes to its end, and it
is in a quoted text if the number is odd. -/
def BodyRest (n : Nat) (cs : List Char) : Prop :=
  ∃ depth quote seen read, (quote.isSome = true ↔ Odd n) ∧
    blockTail depth quote seen (cs ++ ['\x7d']) = .ok (read, [])

theorem Body.bodyRest (h : Body cs) : BodyRest 0 cs :=
  ⟨0, none, [], _, by simp, (blockTail_append _ h).trans blockTail_close_zero⟩

namespace BodyRest

/-- One character further. -/
theorem of_cons (h : BodyRest n (c :: cs)) : BodyRest (n + [c].count '"') cs := by
  obtain ⟨depth, quote, seen, read, hquote, hread⟩ := h
  rw [List.cons_append] at hread
  rcases blockTail_step depth seen c (cs ++ ['\x7d']) hquote with ⟨_, hend⟩ | ⟨_, _, hquote', hstep⟩
  · rw [hend] at hread
    simp at hread
  · exact ⟨_, _, _, read, hquote', hstep ▸ hread⟩

theorem of_append {front : List Char} (h : BodyRest n (front ++ cs)) :
    BodyRest (n + front.count '"') cs := by
  induction front generalizing n with
  | nil => exact h
  | cons c front ih =>
    rw [← List.singleton_append, List.count_append, ← Nat.add_assoc]
    exact ih h.of_cons

/-- At its end a body is in no quoted text. -/
theorem even_of_nil (h : BodyRest n []) : Even n := by
  obtain ⟨depth, quote, seen, read, hquote, hread⟩ := h
  cases quote with
  | some unread =>
    rw [List.nil_append, blockTail_text (by decide)] at hread
    cases hread
  | none =>
    rw [← Nat.not_odd_iff_even]
    exact fun hodd => absurd (hquote.mpr hodd) nofun

/-- So there are as many quotes left as make the number even. -/
theorem even (h : BodyRest n cs) : Even (n + cs.count '"') := by
  rw [← List.append_nil cs] at h
  exact h.of_append.even_of_nil

/-- **Outside of quoted texts an opening brace is closed before the body ends.** -/
theorem exists_closed (h : BodyRest n ('\x7b' :: cs)) (hn : Even n) :
    ∃ read rest, blockTail 0 none [] cs = .ok (read, rest) := by
  obtain ⟨depth, quote, seen, read, hquote, hread⟩ := h
  cases quote with
  | some unread => exact absurd hn (Nat.not_even_iff_odd.mpr (hquote.mp rfl))
  | none =>
    rw [List.cons_append, blockTail_open] at hread
    obtain ⟨all, hcloses, -, hall⟩ := of_blockTail hread
    rw [List.append_nil] at hall
    cases hcloses with
    | outside hcloses =>
      cases hcloses with
      | more hinner htail =>
        obtain ⟨behind, rfl⟩ := htail.exists_concat
        rw [← List.cons_append, ← List.append_assoc] at hall
        rw [List.append_cancel_right hall, blockTail_append _ hinner, blockTail_close_zero]
        exact ⟨_, _, rfl⟩

end BodyRest

/-! ## 4. Bodies that are programs -/

theorem Body.even_count_quote (h : Body cs) : Even (cs.count '"') := by
  simpa using h.bodyRest.even

/-- Only in a word can the number of quotes be odd. -/
theorem Lexeme.even_strayIn_iff (h : Lexeme lexeme) :
    Even (strayIn lexeme) ↔ Even (lexeme.count '"') := by
  cases h with
  | quoted h =>
    cases h with
    | enclose htext => simp [strayIn, List.count_eq_zero.mpr htext]
  | braced h =>
    cases h with
    | enclose hbody => simp [strayIn, hbody.even_count_quote]
  | word h => rw [strayIn, if_neg (not_or.mpr ⟨h.no_quote, h.no_brace⟩)]

/-- A quote without its end is the last one, so the number of those in front of it is odd. -/
theorem BodyRest.of_unclosed_quote (h : BodyRest n ('"' :: cs))
    (hscan : scan ('"' :: cs) = .unclosed tail) : Odd n ∧ tail.head? = some '"' := by
  rw [scan_quote] at hscan
  cases htail : quotedTail? cs with
  | some read =>
    rw [htail] at hscan
    cases hscan
  | none =>
    rw [htail] at hscan
    cases hscan
    have hnone := List.count_eq_zero.mpr (quotedTail?_eq_none_iff.mp htail)
    have heven := h.even
    rw [List.count_cons_self, hnone, Nat.even_add_one, Nat.not_even_iff_odd] at heven
    exact ⟨heven, rfl⟩

/-- A brace that is not closed stands in what is a quoted text for the scanner of blocks. So behind it
there is an odd number of quotes, and one of them has no end. -/
theorem BodyRest.of_unclosed_brace (h : BodyRest n ('\x7b' :: cs))
    (hscan : scan ('\x7b' :: cs) = .unclosed tail) : Odd n ∧ tail.head? = some '"' := by
  rw [scan_brace] at hscan
  have hodd : Odd n := by
    rw [← Nat.not_even_iff_odd]
    intro hn
    obtain ⟨read, rest, hclosed⟩ := h.exists_closed hn
    rw [hclosed] at hscan
    cases hscan
  cases htail : blockTail 0 none [] cs with
  | ok read =>
    rw [htail] at hscan
    cases hscan
  | error unread =>
    have hcount : Odd (cs.count '"') := by
      have heven := h.even
      rw [List.count_cons_of_ne (by decide)] at heven
      exact (Nat.even_add'.mp heven).mp hodd
    have hsome := (isSome_iff_of_blockTail (n := 0) htail (by simp)).mpr (by simpa)
    obtain ⟨quote, rfl⟩ := Option.isSome_iff_exists.mp hsome
    rw [htail] at hscan
    cases hscan
    exact ⟨hodd, ((suffix_of_blockTail htail).resolve_left nofun).2⟩

/-- **What is left of a body can break off in a quoted text only**, behind an odd number of quotes. -/
theorem BodyRest.of_unclosed (h : BodyRest n source) (hscan : scan source = .unclosed tail) :
    Odd n ∧ tail.head? = some '"' := by
  obtain ⟨gap, cs, hgap, rfl, hhead⟩ := exists_gap source
  rw [scan_gap hgap] at hscan
  have hrest : BodyRest n cs := by simpa [hgap.count_quote] using h.of_append
  cases cs with
  | nil =>
    rw [scan_done .nil] at hscan
    cases hscan
  | cons c cs =>
    by_cases hquote : c = '"'
    · subst hquote
      exact hrest.of_unclosed_quote hscan
    · by_cases hopen : c = '\x7b'
      · subst hopen
        exact hrest.of_unclosed_brace hscan
      · rw [scan_word (hhead c rfl) hquote hopen] at hscan
        cases hscan

/-- **What is left of a body is a program exactly if the words in it make the number of quotes even**;
otherwise it breaks off in a quoted text. The induction is over the length of what is left behind
each token. -/
theorem BodyRest.lexemes_cases (h : BodyRest n source) :
    match lexemes source with
    | .ok _ => Even (n + strayQuotes source)
    | .error tail => Odd (n + strayQuotes source) ∧ tail.head? = some '"' := by
  induction hlength : source.length using Nat.strongRecOn generalizing source n with
  | ind length ih =>
    have hfinds := finds_scan source
    generalize hscan : scan source = found at hfinds
    cases hfinds with
    | done hgap =>
      rw [lexemes_done hscan, strayQuotes_done hscan]
      simpa [hgap.count_quote] using h.even
    | unclosed _ _ =>
      rw [lexemes_unclosed hscan, strayQuotes_unclosed hscan]
      exact h.of_unclosed hscan
    | @token gap lexeme rest hgap hsource hlexeme _ =>
      have hlt : rest.length < length := hlength ▸ length_scan hscan
      have hrest : BodyRest (n + lexeme.count '"') rest := by
        rw [hsource, ← List.append_assoc] at h
        simpa [hgap.count_quote] using h.of_append
      have hturn : Even (n + strayQuotes source) ↔
          Even (n + lexeme.count '"' + strayQuotes rest) := by
        rw [strayQuotes_token hscan, ← Nat.add_assoc, Nat.even_add, Nat.even_add, Nat.even_add,
          Nat.even_add, hlexeme.even_strayIn_iff]
      have hleft := ih rest.length hlt hrest rfl
      rw [lexemes_token hscan, ← Nat.not_even_iff_odd, hturn]
      cases hfound : lexemes rest with
      | ok found =>
        rw [hfound] at hleft
        exact hleft
      | error tail =>
        rw [hfound, ← Nat.not_even_iff_odd] at hleft
        exact hleft

/-- **The body of a block is a program exactly if its words hold an even number of quotes.** -/
theorem Body.readable_iff {source : String} (h : Body source.toList) :
    Readable source ↔ Even (strayQuotes source.toList) := by
  have hcases := h.bodyRest.lexemes_cases
  rw [Nat.zero_add] at hcases
  constructor
  · rintro ⟨tokens, htokens⟩
    obtain ⟨found, hfound, -⟩ := exists_lexemes htokens
    rw [hfound] at hcases
    exact hcases
  · intro heven
    cases hfound : lexemes source.toList with
    | ok found => exact ⟨_, ofSource_of_ok hfound⟩
    | error tail =>
      rw [hfound] at hcases
      exact absurd heven (Nat.not_even_iff_odd.mpr hcases.1)

/-- Otherwise it breaks off in a quoted text. -/
theorem Body.of_error {source : String} {fault : Fault} (h : Body source.toList)
    (herror : ofSource source = .error fault) :
    ∃ tail, fault = .unreadable tail ∧ tail.toList.head? = some '"' := by
  have hcases := h.bodyRest.lexemes_cases
  cases hfound : lexemes source.toList with
  | ok found =>
    rw [ofSource_of_ok hfound] at herror
    cases herror
  | error tail =>
    rw [hfound] at hcases
    rw [ofSource_of_error hfound] at herror
    cases herror
    exact ⟨_, rfl, String.toList_ofList ▸ hcases.2⟩

end StackLang.Token
