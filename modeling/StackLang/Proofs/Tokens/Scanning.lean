import StackLang.Proofs.FirstOccurrence
import StackLang.Proofs.Tokens.Grammar

/-!
# The scanner finds what the grammar allows

Each part of the scanner has two lemmas: one for what the grammar allows to be read
(`quotedTail?_append`, `blockTail_append`, `scan_append`) and one for what has been read
(`of_quotedTail?`, `of_blockTail`, `finds_scan`). Inside a block they speak of a body at any depth
of braces, and the count of open braces is the number of bodies that are still to be closed
(`Closes`).
-/

namespace StackLang.Token

open StackLang.Text (isGap)

/-! ## 1. Quoted texts -/

theorem quotedTail?_append {text : List Char} (rest : List Char) (h : '"' ∉ text) :
    quotedTail? (text ++ '"' :: rest) = some (text ++ ['"'], rest) := by
  unfold quotedTail?
  rw [dropWhile_ne_append h, takeWhile_ne_append h]

theorem of_quotedTail? {cs tail rest : List Char} (h : quotedTail? cs = some (tail, rest)) :
    ∃ text, '"' ∉ text ∧ tail = text ++ ['"'] ∧ cs = text ++ '"' :: rest := by
  unfold quotedTail? at h
  split at h
  next => cases h
  next quote after heq =>
    obtain ⟨rfl, hnone, hcs⟩ := of_dropWhile_ne heq
    cases h
    exact ⟨_, hnone, rfl, hcs⟩

/-! ## 2. Blocks -/

section

variable {depth : Nat} {tail text cs rest seen : List Char} {c : Char}

theorem blockTail_text (h : c ≠ '"') :
    blockTail depth (some tail) seen (c :: cs) = blockTail depth (some tail) (c :: seen) cs := by
  rw [blockTail.eq_def]
  simp [h]

theorem blockTail_text_end :
    blockTail depth (some tail) seen ('"' :: cs) = blockTail depth none ('"' :: seen) cs := by
  rw [blockTail.eq_def]
  simp

theorem blockTail_quote :
    blockTail depth none seen ('"' :: cs) =
      blockTail depth (some ('"' :: cs)) ('"' :: seen) cs := by
  rw [blockTail.eq_def]
  simp

theorem blockTail_open :
    blockTail depth none seen ('\x7b' :: cs) =
      blockTail (depth + 1) none ('\x7b' :: seen) cs := by
  rw [blockTail.eq_def]
  simp

theorem blockTail_close :
    blockTail (depth + 1) none seen ('\x7d' :: cs) = blockTail depth none ('\x7d' :: seen) cs := by
  rw [blockTail.eq_def]
  simp

theorem blockTail_close_zero :
    blockTail 0 none seen ('\x7d' :: cs) = .ok (('\x7d' :: seen).reverse, cs) := by
  rw [blockTail.eq_def]
  simp

theorem blockTail_plain (hquote : c ≠ '"') (hopen : c ≠ '\x7b') (hclose : c ≠ '\x7d') :
    blockTail depth none seen (c :: cs) = blockTail depth none (c :: seen) cs := by
  rw [blockTail.eq_def]
  simp [hquote, hopen, hclose]

/-- A quoted text is passed over up to its end. -/
theorem blockTail_text_append (tail rest : List Char) (h : '"' ∉ text) :
    blockTail depth (some tail) seen (text ++ '"' :: rest) =
      blockTail depth none ('"' :: (text.reverse ++ seen)) rest := by
  induction text generalizing seen with
  | nil => exact blockTail_text_end
  | cons c text ih =>
    rw [List.mem_cons, not_or] at h
    rw [List.cons_append, blockTail_text (Ne.symm h.1), ih h.2]
    simp

/-- **A body is passed over whole**, at any depth. -/
theorem blockTail_append (rest : List Char) (h : Body cs) :
    blockTail depth none seen (cs ++ rest) = blockTail depth none (cs.reverse ++ seen) rest := by
  induction h generalizing depth seen rest with
  | nil => rfl
  | plain hquote hopen hclose _ ih =>
    rw [List.cons_append, blockTail_plain hquote hopen hclose, ih]
    simp
  | quoted htext _ ih =>
    cases htext with
    | enclose htext =>
      simp only [List.cons_append, List.append_assoc, List.nil_append]
      rw [blockTail_quote, blockTail_text_append _ _ htext, ih]
      simp
  | block _ _ ihinner ih =>
    simp only [List.cons_append, List.append_assoc]
    rw [blockTail_open, ihinner, blockTail_close, ih]
    simp

/-- What closes `depth` braces and one more: bodies with a closing brace behind each of them. -/
inductive Closes : Nat → List Char → Prop
  | last {inner : List Char} : Body inner → Closes 0 (inner ++ ['\x7d'])
  | more {depth : Nat} {inner tail : List Char} : Body inner → Closes depth tail →
      Closes (depth + 1) (inner ++ '\x7d' :: tail)

/-- Something that belongs to a body may stand in front. -/
theorem Closes.append (hbody : Body cs) (h : Closes depth tail) : Closes depth (cs ++ tail) := by
  cases h with
  | last hinner =>
    rw [← List.append_assoc]
    exact .last (hbody.append hinner)
  | more hinner htail =>
    rw [← List.append_assoc]
    exact .more (hbody.append hinner) htail

/-- With an opening brace in front there is one brace less to close. -/
theorem Closes.opened (h : Closes (depth + 1) tail) : Closes depth ('\x7b' :: tail) := by
  cases h with
  | more hinner htail => simpa using htail.append (.block hinner .nil)

theorem Closes.braced (h : Closes 0 tail) : Braced ('\x7b' :: tail) := by
  cases h with
  | last hinner => exact .enclose hinner

/-- What closes braces from inside a quoted text: the rest of the text comes first. -/
inductive ClosesFrom (depth : Nat) : Option (List Char) → List Char → Prop
  | outside {tail : List Char} : Closes depth tail → ClosesFrom depth none tail
  | inside {unread text tail : List Char} : '"' ∉ text → Closes depth tail →
      ClosesFrom depth (some unread) (text ++ '"' :: tail)

/-- What a character outside a quoted text is to the scanner of blocks. -/
inductive Kind : Char → Prop
  | quote : Kind '"'
  | opening : Kind '\x7b'
  | closing : Kind '\x7d'
  | plain {c : Char} : c ≠ '"' → c ≠ '\x7b' → c ≠ '\x7d' → Kind c

theorem kind (c : Char) : Kind c := by
  by_cases hquote : c = '"'
  · exact hquote ▸ .quote
  · by_cases hopen : c = '\x7b'
    · exact hopen ▸ .opening
    · by_cases hclose : c = '\x7d'
      · exact hclose ▸ .closing
      · exact .plain hquote hopen hclose

/-- **What has been read closes all open braces.** The induction is over the characters, in the
text of a quote and outside at once. -/
theorem of_blockTail {quote : Option (List Char)}
    (h : blockTail depth quote seen cs = .ok (tail, rest)) :
    ∃ read, ClosesFrom depth quote read ∧ tail = seen.reverse ++ read ∧ cs = read ++ rest := by
  induction cs generalizing depth quote seen with
  | nil => cases h
  | cons c cs ih =>
    cases quote with
    | some unread =>
      by_cases hquote : c = '"'
      · subst hquote
        rw [blockTail_text_end] at h
        obtain ⟨read, hread, rfl, rfl⟩ := ih h
        cases hread with
        | outside hread => exact ⟨'"' :: read, .inside List.not_mem_nil hread, by simp, rfl⟩
      · rw [blockTail_text hquote] at h
        obtain ⟨read, hread, rfl, rfl⟩ := ih h
        cases hread with
        | inside htext hread =>
          have htext' := List.not_mem_cons_of_ne_of_not_mem (Ne.symm hquote) htext
          exact ⟨_, .inside htext' hread, by simp, rfl⟩
    | none =>
      cases kind c with
      | quote =>
        rw [blockTail_quote] at h
        obtain ⟨read, hread, rfl, rfl⟩ := ih h
        cases hread with
        | inside htext hread =>
          have hbody : Body ('"' :: (_ ++ ['"']) ++ []) := .quoted (.enclose htext) .nil
          exact ⟨_, .outside (hread.append hbody), by simp, by simp⟩
      | opening =>
        rw [blockTail_open] at h
        obtain ⟨read, hread, rfl, rfl⟩ := ih h
        cases hread with
        | outside hread => exact ⟨_, .outside hread.opened, by simp, rfl⟩
      | closing =>
        cases depth with
        | zero =>
          rw [blockTail_close_zero] at h
          cases h
          exact ⟨['\x7d'], .outside (.last .nil), by simp, rfl⟩
        | succ depth =>
          rw [blockTail_close] at h
          obtain ⟨read, hread, rfl, rfl⟩ := ih h
          cases hread with
          | outside hread => exact ⟨'\x7d' :: read, .outside (.more .nil hread), by simp, rfl⟩
      | plain hquote hopen hclose =>
        rw [blockTail_plain hquote hopen hclose] at h
        obtain ⟨read, hread, rfl, rfl⟩ := ih h
        cases hread with
        | outside hread =>
          have hbody : Body [c] := .plain hquote hopen hclose .nil
          exact ⟨c :: read, .outside (hread.append hbody), by simp, rfl⟩

/-- What cannot be read begins at the quote that was open or at a quote behind it. -/
theorem suffix_of_blockTail {quote : Option (List Char)} {unread : List Char}
    (h : blockTail depth quote seen cs = .error (some unread)) :
    quote = some unread ∨ unread <:+ cs ∧ unread.head? = some '"' := by
  induction cs generalizing depth quote seen with
  | nil =>
    cases h
    exact .inl rfl
  | cons c cs ih =>
    have behind : unread <:+ cs ∧ unread.head? = some '"' →
        unread <:+ c :: cs ∧ unread.head? = some '"' :=
      fun hunread => ⟨hunread.1.trans (List.suffix_cons c cs), hunread.2⟩
    -- outside a quoted text no quote is open
    have outside : ∀ {depth seen}, blockTail depth none seen cs = .error (some unread) →
        unread <:+ c :: cs ∧ unread.head? = some '"' :=
      fun hstep => (ih hstep).elim nofun behind
    cases quote with
    | some tail =>
      by_cases hquote : c = '"'
      · subst hquote
        exact .inr (outside (blockTail_text_end ▸ h))
      · rw [blockTail_text hquote] at h
        exact (ih h).imp_right behind
    | none =>
      right
      cases kind c with
      | quote =>
        rw [blockTail_quote] at h
        rcases ih h with hsome | hunread
        · cases hsome
          exact ⟨List.suffix_rfl, rfl⟩
        · exact behind hunread
      | opening => exact outside (blockTail_open ▸ h)
      | closing =>
        cases depth with
        | zero =>
          rw [blockTail_close_zero] at h
          cases h
        | succ depth => exact outside (blockTail_close ▸ h)
      | plain hquote hopen hclose => exact outside (blockTail_plain hquote hopen hclose ▸ h)

end

/-! ## 3. One token -/

section

variable {gap lexeme source rest tail cs : List Char} {c : Char}

/-- A gap in front does not matter. -/
theorem scan_gap (hgap : Gap gap) (cs : List Char) : scan (gap ++ cs) = scan cs := by
  unfold scan
  rw [List.dropWhile_append_of_pos hgap]

theorem scan_quote :
    scan ('"' :: cs) =
      match quotedTail? cs with
      | some (tail, rest) => .token ('"' :: tail) rest
      | none => .unclosed ('"' :: cs) := rfl

theorem scan_brace :
    scan ('\x7b' :: cs) =
      match blockTail 0 none [] cs with
      | .ok (tail, rest) => .token ('\x7b' :: tail) rest
      | .error (some tail) => .unclosed tail
      | .error none => .unclosed ('\x7b' :: cs) := rfl

theorem scan_word (hsolid : isGap c = false) (hquote : c ≠ '"') (hopen : c ≠ '\x7b') :
    scan (c :: cs) =
      .token ((c :: cs).takeWhile (!isGap ·)) ((c :: cs).dropWhile (!isGap ·)) := by
  unfold scan
  rw [List.dropWhile_cons_of_neg (by simp [hsolid])]
  simp [hquote, hopen]

/-- Only gaps are no token. -/
theorem scan_done (hgap : Gap gap) : scan gap = .done := by
  rw [← List.append_nil gap, scan_gap hgap]
  rfl

/-- **A token is found behind any gap**, and what follows is left, if it does not go on with the
token. -/
theorem scan_append (hgap : Gap gap) (h : Lexeme lexeme) (hends : Ends lexeme rest) :
    scan (gap ++ (lexeme ++ rest)) = .token lexeme rest := by
  rw [scan_gap hgap]
  cases h with
  | quoted h =>
    cases h with
    | enclose htext =>
      simp only [List.cons_append, List.append_assoc, List.nil_append]
      rw [scan_quote, quotedTail?_append rest htext]
  | braced h =>
    cases h with
    | enclose hbody =>
      simp only [List.cons_append, List.append_assoc, List.nil_append]
      rw [scan_brace, blockTail_append _ hbody, blockTail_close_zero]
      simp
  | word h =>
    obtain ⟨c, cs, rfl⟩ := List.exists_cons_of_ne_nil h.nonempty
    have hsolid : ∀ d ∈ c :: cs, (!isGap d) = true := fun d hd => by simp [h.solid d hd]
    have hquote : c ≠ '"' := fun heq => h.no_quote (by simp [heq])
    have hopen : c ≠ '\x7b' := fun heq => h.no_brace (by simp [heq])
    rw [List.cons_append, scan_word (h.solid c List.mem_cons_self) hquote hopen,
      ← List.cons_append, List.takeWhile_append_of_pos hsolid, List.dropWhile_append_of_pos hsolid]
    cases rest with
    | nil => simp
    | cons d rest => simp [hends h d rfl]

/-- The characters up to the first gap are a word. -/
theorem word_takeWhile (hsolid : isGap c = false) (hquote : c ≠ '"') (hopen : c ≠ '\x7b') :
    Word ((c :: cs).takeWhile (!isGap ·)) where
  nonempty := by simp [hsolid]
  solid d hd := by
    have hall := List.all_takeWhile (p := (!isGap ·)) (l := c :: cs)
    simpa using List.all_eq_true.mp hall d hd
  no_quote := by simp [hsolid, hquote]
  no_brace := by simp [hsolid, hopen]

theorem isGap_of_head?_dropWhile (cs : List Char) :
    ∀ c ∈ (cs.dropWhile (!isGap ·)).head?, isGap c = true := by
  intro c hc
  have := List.head?_dropWhile_not (!isGap ·) cs
  rw [hc] at this
  simpa using this

theorem gap_takeWhile (cs : List Char) : Gap (cs.takeWhile isGap) :=
  fun c hc => List.all_eq_true.mp List.all_takeWhile c hc

/-- A program is a gap and what begins with no gap. -/
theorem exists_gap (source : List Char) :
    ∃ gap cs, Gap gap ∧ source = gap ++ cs ∧ ∀ c ∈ cs.head?, isGap c = false := by
  refine ⟨_, _, gap_takeWhile source, (List.takeWhile_append_dropWhile).symm, ?_⟩
  intro c hc
  have := List.head?_dropWhile_not isGap source
  rw [hc] at this
  simpa using this

/-- What the scanner may say of a program: there is nothing but a gap, there is a token behind a
gap, or there is an end of the program that begins with a quote or a brace. -/
inductive Finds (source : List Char) : Scan → Prop
  | done : Gap source → Finds source .done
  | token {gap lexeme rest : List Char} : Gap gap → source = gap ++ (lexeme ++ rest) →
      Lexeme lexeme → Ends lexeme rest → Finds source (.token lexeme rest)
  | unclosed {tail : List Char} : tail <:+ source →
      tail.head? = some '"' ∨ tail.head? = some '\x7b' → Finds source (.unclosed tail)

theorem Finds.behind {found : Scan} (hgap : Gap gap) (h : Finds cs found) :
    Finds (gap ++ cs) found := by
  cases h with
  | done hcs => exact .done (hgap.append hcs)
  | token hgap' hsource hlexeme hends =>
    refine .token (hgap.append hgap') ?_ hlexeme hends
    rw [hsource, List.append_assoc]
  | unclosed hsuffix hhead => exact .unclosed (hsuffix.trans (List.suffix_append gap cs)) hhead

theorem finds_quote (cs : List Char) : Finds ('"' :: cs) (scan ('"' :: cs)) := by
  rw [scan_quote]
  cases htail : quotedTail? cs with
  | none => exact .unclosed List.suffix_rfl (.inl rfl)
  | some read =>
    obtain ⟨text, htext, hread, rfl⟩ := of_quotedTail? htail
    have hquoted : Quoted ('"' :: read.1) := hread ▸ .enclose htext
    exact .token .nil (by simp [hread]) (.quoted hquoted) (hquoted.ends _)

theorem finds_brace (cs : List Char) : Finds ('\x7b' :: cs) (scan ('\x7b' :: cs)) := by
  rw [scan_brace]
  cases htail : blockTail 0 none [] cs with
  | ok read =>
    obtain ⟨_, hcloses, hread, rfl⟩ := of_blockTail htail
    cases hcloses with
    | outside hcloses =>
      have hbraced : Braced ('\x7b' :: read.1) := by simpa [hread] using hcloses.braced
      exact .token .nil (by simp [hread]) (.braced hbraced) (hbraced.ends _)
  | error unread =>
    cases unread with
    | none => exact .unclosed List.suffix_rfl (.inr rfl)
    | some tail =>
      rcases suffix_of_blockTail htail with hnone | ⟨hsuffix, hhead⟩
      · cases hnone
      · exact .unclosed (hsuffix.trans (List.suffix_cons _ cs)) (.inl hhead)

/-- **What the scanner says is so.** -/
theorem finds_scan (source : List Char) : Finds source (scan source) := by
  obtain ⟨gap, cs, hgap, rfl, hhead⟩ := exists_gap source
  rw [scan_gap hgap]
  refine .behind hgap ?_
  cases cs with
  | nil => exact .done .nil
  | cons c cs =>
    by_cases hquote : c = '"'
    · exact hquote ▸ finds_quote cs
    · by_cases hopen : c = '\x7b'
      · exact hopen ▸ finds_brace cs
      · have hsolid : isGap c = false := hhead c rfl
        rw [scan_word hsolid hquote hopen]
        exact .token .nil (List.takeWhile_append_dropWhile).symm
          (.word (word_takeWhile hsolid hquote hopen)) fun _ => isGap_of_head?_dropWhile _

end

end StackLang.Token
