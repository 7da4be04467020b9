import StackLang.Proofs.Tokens.Joining

/-!
# Programs that break off

A program that breaks off in a quote or a brace still breaks off there with a gap behind it, because
a gap closes nothing; the gap only belongs to the part that cannot be read
(`ofSource_append_of_error`). So the scanner is followed where it fails: in a quoted text, in a
block at any depth, and behind any number of tokens.
-/

namespace StackLang.Token

open StackLang.Text (isGap)

variable {gap source cs tail : List Char}

/-! ## 1. A gap closes nothing -/

theorem ne_of_isGap {c d : Char} (hc : isGap c = true) (hd : isGap d = false) : c ≠ d := by
  rintro rfl
  rw [hc] at hd
  cases hd

theorem quotedTail?_eq_none_iff : quotedTail? cs = none ↔ '"' ∉ cs := by
  constructor
  · intro h hmem
    obtain ⟨text, rest, rfl, htext⟩ := List.eq_append_cons_of_mem hmem
    rw [quotedTail?_append rest htext] at h
    cases h
  · intro h
    cases htail : quotedTail? cs with
    | none => rfl
    | some read =>
      obtain ⟨text, _, _, rfl⟩ := of_quotedTail? htail
      exact absurd (List.mem_append_right text List.mem_cons_self) h

section

variable {depth : Nat} {seen : List Char} {quote unread : Option (List Char)}

/-- In a gap a block stays as open as it was. -/
theorem blockTail_gap (hgap : Gap gap) : blockTail depth quote seen gap = .error quote := by
  induction gap generalizing seen with
  | nil => rfl
  | cons c gap ih =>
    have hc : isGap c = true := hgap c List.mem_cons_self
    have hrest : Gap gap := fun d hd => hgap d (List.mem_cons_of_mem c hd)
    have hquote : c ≠ '"' := ne_of_isGap hc rfl
    cases quote with
    | some tail => rw [blockTail_text hquote, ih hrest]
    | none =>
      rw [blockTail_plain hquote (ne_of_isGap hc rfl) (ne_of_isGap hc rfl), ih hrest]

/-- **A block that is not closed is not closed by a gap.** The text of a quote that is open inside
it goes on through the gap. -/
theorem blockTail_append_gap (hgap : Gap gap) (h : blockTail depth quote seen cs = .error unread) :
    blockTail depth (quote.map (· ++ gap)) seen (cs ++ gap) = .error (unread.map (· ++ gap)) := by
  induction cs generalizing depth quote seen with
  | nil =>
    cases h
    exact blockTail_gap hgap
  | cons c cs ih =>
    rw [List.cons_append]
    cases quote with
    | some tail =>
      rw [Option.map_some]
      by_cases hquote : c = '"'
      · subst hquote
        rw [blockTail_text_end] at h ⊢
        exact ih h
      · rw [blockTail_text hquote] at h ⊢
        exact ih h
    | none =>
      rw [Option.map_none]
      cases kind c with
      | quote =>
        rw [blockTail_quote] at h ⊢
        exact ih h
      | opening =>
        rw [blockTail_open] at h ⊢
        exact ih h
      | closing =>
        cases depth with
        | zero =>
          rw [blockTail_close_zero] at h
          cases h
        | succ depth =>
          rw [blockTail_close] at h ⊢
          exact ih h
      | plain hquote hopen hclose =>
        rw [blockTail_plain hquote hopen hclose] at h ⊢
        exact ih h

end

/-! ## 2. The first token -/

theorem scan_quote_append_gap (hgap : Gap gap) (h : scan ('"' :: cs) = .unclosed tail) :
    scan ('"' :: cs ++ gap) = .unclosed (tail ++ gap) := by
  rw [List.cons_append]
  rw [scan_quote] at h ⊢
  cases htail : quotedTail? cs with
  | some read =>
    rw [htail] at h
    cases h
  | none =>
    rw [htail] at h
    cases h
    have hnone : '"' ∉ cs ++ gap := by
      rw [List.mem_append, not_or]
      exact ⟨quotedTail?_eq_none_iff.mp htail, fun hmem => ne_of_isGap (hgap _ hmem) rfl rfl⟩
    rw [quotedTail?_eq_none_iff.mpr hnone]
    rfl

theorem scan_brace_append_gap (hgap : Gap gap) (h : scan ('\x7b' :: cs) = .unclosed tail) :
    scan ('\x7b' :: cs ++ gap) = .unclosed (tail ++ gap) := by
  rw [List.cons_append]
  rw [scan_brace] at h ⊢
  cases htail : blockTail 0 none [] cs with
  | ok read =>
    rw [htail] at h
    cases h
  | error unread =>
    have happend := blockTail_append_gap hgap htail
    rw [Option.map_none] at happend
    rw [htail] at h
    rw [happend]
    cases unread with
    | none =>
      cases h
      rfl
    | some quote =>
      cases h
      rfl

/-- Where a quote or a brace is not closed, it is not closed with a gap behind. -/
theorem scan_append_gap (hgap : Gap gap) (h : scan source = .unclosed tail) :
    scan (source ++ gap) = .unclosed (tail ++ gap) := by
  obtain ⟨front, cs, hfront, rfl, hhead⟩ := exists_gap source
  rw [scan_gap hfront] at h
  rw [List.append_assoc, scan_gap hfront]
  cases cs with
  | nil =>
    rw [scan_done .nil] at h
    cases h
  | cons c cs =>
    by_cases hquote : c = '"'
    · subst hquote
      exact scan_quote_append_gap hgap h
    · by_cases hopen : c = '\x7b'
      · subst hopen
        exact scan_brace_append_gap hgap h
      · rw [scan_word (hhead c rfl) hquote hopen] at h
        cases h

/-! ## 3. Whole programs -/

/-- What ends a token is not changed by what stands behind it. -/
theorem Ends.append_right {lexeme rest : List Char} (h : Ends lexeme rest) (hne : rest ≠ [])
    (more : List Char) : Ends lexeme (rest ++ more) := by
  obtain ⟨d, rest, rfl⟩ := List.exists_cons_of_ne_nil hne
  exact fun hword c hc => h hword c hc

/-- **A program that breaks off breaks off at the same place with a gap behind it.** The induction
is over the length of what is left behind each token. -/
theorem lexemes_append_gap (hgap : Gap gap) (h : lexemes source = .error tail) :
    lexemes (source ++ gap) = .error (tail ++ gap) := by
  induction hn : source.length using Nat.strongRecOn generalizing source with
  | ind n ih =>
    have hfinds := finds_scan source
    generalize hscan : scan source = found at hfinds
    cases hfinds with
    | done _ =>
      rw [lexemes_done hscan] at h
      cases h
    | unclosed _ _ =>
      rw [lexemes_unclosed hscan] at h
      cases h
      exact lexemes_unclosed (scan_append_gap hgap hscan)
    | @token front lexeme rest hfront hsource hlexeme hends =>
      rw [lexemes_token hscan] at h
      cases hrest : lexemes rest with
      | ok found =>
        rw [hrest] at h
        cases h
      | error tail' =>
        rw [hrest] at h
        cases h
        have hne : rest ≠ [] := by
          rintro rfl
          rw [lexemes_done (scan_done .nil)] at hrest
          cases hrest
        have hscan' := scan_append hfront hlexeme (hends.append_right hne gap)
        rw [hsource, List.append_assoc, List.append_assoc, lexemes_token hscan',
          ih rest.length (hn ▸ length_scan hscan) hrest rfl]
        rfl

/-- A program that cannot be read cannot be read with a gap behind it either, from the same quote or
brace on. -/
theorem ofSource_append_of_error {source gap : String} {fault : Fault} (hgap : Gap gap.toList)
    (h : ofSource source = .error fault) :
    ∃ tail, fault = .unreadable tail ∧
      ofSource (source ++ gap) = .error (.unreadable (tail ++ gap)) := by
  unfold ofSource at h
  split at h
  next => cases h
  next tail htail =>
    cases h
    have happend := lexemes_append_gap hgap htail
    rw [← String.toList_append] at happend
    refine ⟨String.ofList tail, rfl, ?_⟩
    rw [ofSource_of_error happend, String.ofList_append, String.ofList_toList]

end StackLang.Token
