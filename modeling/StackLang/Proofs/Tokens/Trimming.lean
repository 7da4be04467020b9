import Mathlib.Data.List.DropRight
import StackLang.Literal
import StackLang.Proofs.Tokens.Joining

/-!
# Blanks at the ends change no token

A block's body is stored without the blanks at its ends. They are never part of a quoted text or of
a block inside (`Body.trimChars`), so what remains still stands between two braces as one token; and
a program whose outer blanks are gaps has the same tokens without them (`lexemes_trimChars`).
-/

namespace StackLang

/-! ## 1. What trimming takes away -/

namespace Text

/-- Only blank characters. -/
def Blank (cs : List Char) : Prop :=
  ∀ c ∈ cs, isBlank c = true

/-- A list that neither begins nor ends with a blank character. -/
structure Trimmed (cs : List Char) : Prop where
  head : ∀ c ∈ cs.head?, isBlank c = false
  last : ∀ c ∈ cs.getLast?, isBlank c = false

/-- What stands between two marks that are no blanks. -/
theorem trimmed_between {first last : Char} (hfirst : isBlank first = false)
    (hlast : isBlank last = false) (cs : List Char) : Trimmed (first :: (cs ++ [last])) where
  head c hc := by
    cases hc
    exact hfirst
  last c hc := by
    rw [← List.cons_append, List.getLast?_concat] at hc
    cases hc
    exact hlast

/-- Between two lists without blanks at their ends anything may stand. -/
theorem Trimmed.append {cs ds : List Char} (hcs : Trimmed cs) (hds : Trimmed ds) (hcs' : cs ≠ [])
    (hds' : ds ≠ []) (middle : List Char) : Trimmed (cs ++ middle ++ ds) where
  head c hc := by
    rw [List.append_assoc, List.head?_append_of_ne_nil _ hcs'] at hc
    exact hcs.head c hc
  last c hc := by
    rw [List.getLast?_append_of_ne_nil _ hds'] at hc
    exact hds.last c hc

theorem Trimmed.trimChars_eq {cs : List Char} (h : Trimmed cs) : trimChars cs = cs :=
  trimChars_eq_self h.head h.last

theorem trimmed_trimChars (cs : List Char) : Trimmed (trimChars cs) where
  head c hc := by
    have hhead := List.head?_dropWhile_not isBlank cs
    obtain ⟨rest, hrest⟩ := List.head?_eq_some_iff.mp hc
    obtain ⟨back, hback⟩ : trimChars cs <+: cs.dropWhile isBlank := List.rdropWhile_prefix _ _
    rw [← hback, hrest] at hhead
    exact hhead
  last c hc := by
    have hne : trimChars cs ≠ [] := fun hnil => by simp [hnil] at hc
    have hlast := List.rdropWhile_last_not isBlank (cs.dropWhile isBlank) hne
    rw [← List.getLast_of_mem_getLast? hc]
    exact Bool.eq_false_iff.mpr hlast

/-- **Only blanks at the two ends are taken away.** -/
theorem exists_trimChars (cs : List Char) :
    ∃ front back, Blank front ∧ Blank back ∧ cs = front ++ (trimChars cs ++ back) := by
  refine ⟨cs.takeWhile isBlank, (cs.dropWhile isBlank).rtakeWhile isBlank,
    fun c hc => List.mem_takeWhile_imp hc, fun c hc => List.mem_rtakeWhile_imp hc, ?_⟩
  calc cs = cs.takeWhile isBlank ++ cs.dropWhile isBlank :=
        (List.takeWhile_append_dropWhile).symm
    _ = _ := congrArg (cs.takeWhile isBlank ++ ·)
        List.rdropWhile_append_rtakeWhile.symm

/-- **Blanks around a list without blanks at its ends are taken away.** -/
theorem Trimmed.trimChars_append {front cs back : List Char} (h : Trimmed cs)
    (hfront : Blank front) (hback : Blank back) : trimChars (front ++ (cs ++ back)) = cs := by
  by_cases hnil : cs = []
  · have hall : ∀ c ∈ front ++ (cs ++ back), isBlank c = true := by
      rw [hnil]
      exact List.forall_mem_append.mpr ⟨hfront, hback⟩
    rw [trimChars, List.dropWhile_eq_nil_iff.mpr hall, hnil]
    rfl
  · obtain ⟨c, rest, rfl⟩ := List.exists_cons_of_ne_nil hnil
    have hhead : ¬isBlank c = true := Bool.eq_false_iff.mp (h.head c rfl)
    have hself : (c :: rest).dropWhile isBlank = c :: rest := List.dropWhile_cons_of_neg hhead
    have hback' : ∀ d ∈ back.reverse, isBlank d = true :=
      fun d hd => hback d (List.mem_reverse.mp hd)
    calc trimChars (front ++ (c :: rest ++ back))
        = ((c :: rest ++ back).reverse.dropWhile isBlank).reverse := by
          rw [trimChars, List.dropWhile_append_of_pos hfront, List.cons_append,
            List.dropWhile_cons_of_neg hhead]
      _ = ((c :: rest).reverse.dropWhile isBlank).reverse := by
          rw [List.reverse_append, List.dropWhile_append_of_pos hback']
      _ = trimChars (c :: rest) := by rw [trimChars, hself]
      _ = c :: rest := h.trimChars_eq

theorem trimChars_infix (cs : List Char) : trimChars cs <:+: cs := by
  obtain ⟨front, back, _, _, hcs⟩ := exists_trimChars cs
  exact ⟨front, back, by rw [List.append_assoc, ← hcs]⟩

end Text

namespace Token

open StackLang.Text (isGap isBlank trimChars Blank Trimmed)

/-! ## 2. Bodies -/

/-- A blank at the end of a body is neither in a quoted text nor in a block. -/
theorem Body.of_concat {cs : List Char} {c : Char} (hc : isBlank c = true) (h : Body (cs ++ [c])) :
    Body cs := by
  generalize hds : cs ++ [c] = ds at h
  induction h generalizing cs with
  | nil => simp at hds
  | @plain d ds hquote hopen hclose hbody ih =>
    cases cs with
    | nil => exact .nil
    | cons e cs =>
      rw [List.cons_append, List.cons.injEq] at hds
      obtain ⟨rfl, rfl⟩ := hds
      exact .plain hquote hopen hclose (ih rfl)
  | @quoted text ds htext _ ih =>
    rcases List.eq_nil_or_concat' ds with rfl | ⟨ds, d, rfl⟩
    · cases htext with
      | enclose _ =>
        rw [List.append_nil, ← List.cons_append] at hds
        obtain ⟨_, hd⟩ := List.append_inj' hds rfl
        cases hd
        cases hc
    · rw [← List.append_assoc] at hds
      obtain ⟨rfl, hd⟩ := List.append_inj' hds rfl
      exact .quoted htext (ih (by rw [hd]))
  | @block inner ds hinner _ _ ih =>
    rcases List.eq_nil_or_concat' ds with rfl | ⟨ds, d, rfl⟩
    · rw [← List.cons_append] at hds
      obtain ⟨_, hd⟩ := List.append_inj' hds rfl
      cases hd
      cases hc
    · have hds' : cs ++ [c] = '\x7b' :: (inner ++ '\x7d' :: ds) ++ [d] := by simpa using hds
      obtain ⟨rfl, hd⟩ := List.append_inj' hds' rfl
      exact .block hinner (ih (by rw [hd]))

/-- Nor is one at the beginning. -/
theorem Body.of_cons {cs : List Char} {c : Char} (hc : isBlank c = true) (h : Body (c :: cs)) :
    Body cs := by
  generalize hds : c :: cs = ds at h
  cases h with
  | nil => cases hds
  | plain _ _ _ hbody =>
    cases hds
    exact hbody
  | quoted htext _ =>
    cases htext
    cases hds
    cases hc
  | block _ _ =>
    cases hds
    cases hc

theorem Body.of_append_blank {cs blanks : List Char} (hblanks : Blank blanks)
    (h : Body (cs ++ blanks)) : Body cs := by
  induction blanks generalizing cs with
  | nil => rwa [List.append_nil] at h
  | cons c blanks ih =>
    rw [List.append_cons] at h
    have hblanks' : Blank blanks := fun d hd => hblanks d (List.mem_cons_of_mem c hd)
    exact .of_concat (hblanks c List.mem_cons_self) (ih hblanks' h)

theorem Body.of_blank_append {cs blanks : List Char} (hblanks : Blank blanks)
    (h : Body (blanks ++ cs)) : Body cs := by
  induction blanks with
  | nil => exact h
  | cons c blanks ih =>
    have hblanks' : Blank blanks := fun d hd => hblanks d (List.mem_cons_of_mem c hd)
    exact ih hblanks' (.of_cons (hblanks c List.mem_cons_self) h)

/-- **Trimming leaves a body.** -/
theorem Body.trimChars {cs : List Char} (h : Body cs) : Body (trimChars cs) := by
  obtain ⟨front, back, hfront, hback, hcs⟩ := Text.exists_trimChars cs
  rw [hcs] at h
  exact .of_append_blank hback (.of_blank_append hfront h)

/-! ## 3. Programs without their outer gaps -/

/-- A gap behind a program that can be read changes no token. The induction is over the layout of
both. -/
theorem lexemes_of_append_gap {source gap : List Char} {found : List (List Char)} (hgap : Gap gap)
    (hsolid : ∀ c ∈ source.getLast?, isGap c = false)
    (h : lexemes (source ++ gap) = .ok found) : lexemes source = .ok found := by
  obtain ⟨l, hl, htext, rfl⟩ := exists_layout h
  clear h
  induction hl generalizing source with
  | @finish all hall =>
    have hsource : source = [] := by
      cases hlast : source.getLast? with
      | none => exact List.getLast?_eq_none_iff.mp hlast
      | some c =>
        have hmem : c ∈ all := by
          rw [show all = source ++ gap from htext]
          exact List.mem_append_left gap (List.mem_of_getLast? hlast)
        have hgapped := hall c hmem
        rw [hsolid c hlast] at hgapped
        cases hgapped
    rw [hsource]
    exact lexemes_done (scan_done .nil)
  | @token front lexeme rest hfront hlexeme hrest hapart ih =>
    -- the cut before the gap does not go through the token, whose last character is none of a gap
    obtain ⟨after, hsource, hafter⟩ : ∃ after, source = front ++ lexeme ++ after ∧
        rest.text = after ++ gap := by
      rw [Layout.text, ← List.append_assoc, List.append_eq_append_iff] at htext
      rcases htext with hafter | ⟨cut, hcut, hrest⟩
      · exact hafter
      · rcases List.eq_nil_or_concat' cut with rfl | ⟨cut, c, rfl⟩
        · exact ⟨[], by rw [hcut, List.append_nil, List.append_nil], hrest.symm⟩
        · have hgapped : isGap c = true := hgap c (by rw [hrest]; simp)
          rw [hlexeme.last_solid c ?_] at hgapped
          · cases hgapped
          · have hlast := congrArg List.getLast? hcut
            rw [← List.append_assoc, List.getLast?_concat,
              List.getLast?_append_of_ne_nil _ hlexeme.ne_nil] at hlast
            exact hlast
    have hends := hrest.ends hapart
    rw [hafter] at hends
    have hscan := scan_append hfront hlexeme hends.of_append
    rw [hsource, List.append_assoc, lexemes_token hscan, ih ?_ hafter]
    · rfl
    · exact fun c hc => hsolid c (hsource ▸ List.mem_getLast?_append_of_mem_getLast? hc)

/-- The outer blanks of a program, if any, are gaps. -/
structure OuterGaps (source : List Char) : Prop where
  front : Gap (source.takeWhile isBlank)
  back : Gap (source.reverse.takeWhile isBlank)

/-- **Trimming changes no token** of a program that can be read and whose outer blanks are gaps. -/
theorem lexemes_trimChars {source : List Char} {found : List (List Char)}
    (hgaps : OuterGaps source) (h : lexemes source = .ok found) :
    lexemes (Text.trimChars source) = .ok found := by
  obtain ⟨front, back, hfront, hback, hsource⟩ := Text.exists_trimChars source
  have hfront' : Gap front := by
    intro c hc
    refine hgaps.front c ?_
    rw [hsource, List.takeWhile_append_of_pos hfront]
    exact List.mem_append_left _ hc
  have hback' : Gap back := by
    intro c hc
    refine hgaps.back c ?_
    rw [hsource, List.reverse_append, List.reverse_append, List.append_assoc,
      List.takeWhile_append_of_pos fun d hd => hback d (List.mem_reverse.mp hd)]
    exact List.mem_append_left _ (List.mem_reverse.mpr hc)
  rw [hsource, lexemes_gap_append hfront'] at h
  refine lexemes_of_append_gap hback' (fun c hc => ?_) h
  have hsolid := (Text.trimmed_trimChars source).last c hc
  cases hgapped : isGap c with
  | false => rfl
  | true =>
    rw [Text.isBlank_of_isGap hgapped] at hsolid
    cases hsolid

end Token

end StackLang
