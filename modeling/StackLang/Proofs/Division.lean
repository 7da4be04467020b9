import StackLang.Machine.Request
import StackLang.Proofs.Occurrence
import StackLang.Proofs.Pushing
import StackLang.Proofs.Sequence

/-!
# Texts divided at a separator

The pieces of a text are what stands between the occurrences of the separator that are met from left
to right, each behind the one before (`Text.Divided`). Such a reading of the text is the only one
(`Text.Divided.unique`), and it is what `Text.pieces` finds (`Text.divided_pieces`).

Seen from its pieces, a division is known by three facts (`Text.Division`): joined by the separator
the pieces are the text, the last piece holds no separator, and every other one ends where, with the
separator behind it, the separator stands first. An empty separator divides a text into its characters
instead.

Main statement: what the machine pushes for two texts is the one division of the first by the second
(`Eval.run_divide`).
-/

namespace StackLang

namespace Text

/-! ## 1. From left to right -/

/-- The pieces of a text, read from the left: up to the first separator, and then those of what stands
behind it; a text without a separator is one piece. -/
inductive Divided (separator : List Char) : List Char → List (List Char) → Prop
  | last {text : List Char} : ¬separator <:+: text → Divided separator text [text]
  | piece {front back : List Char} {parts : List (List Char)} :
    FirstAt separator (front ++ (separator ++ back)) front.length →
    Divided separator back parts →
    Divided separator (front ++ (separator ++ back)) (front :: parts)

variable {separator text : List Char} {parts others : List (List Char)}

/-- **A text can be read in one way only**: the first separator has one place. -/
theorem Divided.unique (h : Divided separator text parts) (h' : Divided separator text others) :
    parts = others := by
  induction h generalizing others with
  | last hnone =>
    cases h' with
    | last => rfl
    | piece hfirst => exact absurd (infix_iff_exists_firstAt.mpr ⟨_, hfirst⟩) hnone
  | @piece front back parts hfirst hback ih =>
    generalize htext : front ++ (separator ++ back) = text at hfirst h'
    cases h' with
    | last hnone => exact absurd (infix_iff_exists_firstAt.mpr ⟨_, hfirst⟩) hnone
    | @piece front' back' parts' hfirst' hback' =>
      obtain ⟨rfl, hrest⟩ := List.append_inj htext (hfirst.unique hfirst')
      obtain rfl := List.append_cancel_left hrest
      rw [ih hback']

/-- What is read piece by piece is a division of the text. `piece` has been read without an end of a
separator in it, and what is left of the text begins behind the characters still to be passed. -/
theorem divided_piecesFrom (hne : separator ≠ []) (piece : List Char) (skip : Nat)
    (text : List Char)
    (h : ∀ j < piece.length, ¬OccursAt separator (piece.reverse ++ text.drop skip) j) :
    Divided separator (piece.reverse ++ text.drop skip) (piecesFrom separator piece skip text) := by
  fun_induction piecesFrom separator piece skip text with
  | case1 piece skip =>
    rw [List.drop_nil, List.append_nil] at h ⊢
    refine .last fun hstands => ?_
    obtain ⟨k, hk⟩ := infix_iff_exists_occursAt.mp hstands
    have hend := hk.add_length_le
    have hpos := List.length_pos_of_ne_nil hne
    rw [List.length_reverse] at hend
    exact h k (by omega) hk
  | case2 piece skip c text ih => exact ih h
  | case3 piece c text hbegins ih =>
    have hbegins := List.isPrefixOf_iff_prefix.mp hbegins
    have hpos := List.length_pos_of_ne_nil hne
    have hback : c :: text = separator ++ text.drop (separator.length - 1) := by
      have hdrop : (c :: text).drop separator.length = text.drop (separator.length - 1) := by
        rw [← Nat.sub_add_cancel hpos, List.drop_succ_cons, Nat.add_sub_cancel]
      rw [← hdrop]
      exact (List.prefix_iff_eq_append.mp hbegins).symm
    rw [List.drop_zero, hback] at h ⊢
    refine .piece ⟨occursAt_length _ _ _, fun j hj => ?_⟩ (ih nofun)
    rw [List.length_reverse] at hj
    exact h j hj
  | case4 piece c text hbegins ih =>
    have hbegins := mt List.isPrefixOf_iff_prefix.mpr hbegins
    rw [List.drop_zero] at h ⊢
    have hpiece : (c :: piece).reverse ++ text.drop 0 = piece.reverse ++ c :: text := by simp
    rw [hpiece] at ih
    refine ih fun j hj => ?_
    rcases Nat.lt_succ_iff_lt_or_eq.mp hj with hlt | rfl
    · exact h j hlt
    · rintro ⟨-, hat⟩
      rw [← List.length_reverse, List.drop_left] at hat
      exact hbegins hat

theorem divided_pieces (hne : separator ≠ []) (text : List Char) :
    Divided separator text (pieces separator text) := by
  cases separator with
  | nil => exact absurd rfl hne
  | cons c separator => exact divided_piecesFrom hne [] 0 text nofun

/-! ## 2. Seen from the pieces -/

/-- The pieces of a text that is divided at a separator. -/
structure Division (separator text : List Char) (pieces : List (List Char)) : Prop where
  /-- Joined by the separator the pieces are the text. -/
  joined : separator.intercalate pieces = text
  /-- An empty separator divides a text into its characters. -/
  characters : separator = [] → pieces = text.map fun c => [c]
  /-- Else there is a piece, -/
  ne_nil : separator ≠ [] → pieces ≠ []
  /-- the last one holds no separator, -/
  last : separator ≠ [] → ∀ piece ∈ pieces.getLast?, ¬separator <:+: piece
  /-- and every other one ends where the separator behind it begins. -/
  ended : separator ≠ [] →
    ∀ piece ∈ pieces.dropLast, FirstAt separator (piece ++ separator) piece.length

theorem Divided.ne_nil (h : Divided separator text parts) : parts ≠ [] := by
  cases h <;> exact List.cons_ne_nil _ _

theorem Divided.intercalate (h : Divided separator text parts) :
    separator.intercalate parts = text := by
  induction h with
  | last => exact List.intercalate_singleton
  | piece _ hback ih =>
    rw [List.intercalate_cons_of_ne_nil hback.ne_nil, ih, List.append_assoc]

theorem Divided.getLast? (h : Divided separator text parts) :
    ∀ piece ∈ parts.getLast?, ¬separator <:+: piece := by
  induction h with
  | last hnone =>
    rintro piece hpiece
    cases hpiece
    exact hnone
  | piece _ hback ih =>
    rw [List.getLast?_cons_of_ne_nil hback.ne_nil]
    exact ih

theorem Divided.dropLast (h : Divided separator text parts) :
    ∀ piece ∈ parts.dropLast, FirstAt separator (piece ++ separator) piece.length := by
  induction h with
  | last => exact nofun
  | piece hfirst hback ih =>
    rw [List.dropLast_cons_of_ne_nil hback.ne_nil, List.forall_mem_cons]
    exact ⟨(firstAt_length_append_iff _ _ _).mp hfirst, ih⟩

/-- Pieces that end where the separator begins are what is read from the left. -/
theorem divided_intercalate (hne : parts ≠ [])
    (hlast : ∀ piece ∈ parts.getLast?, ¬separator <:+: piece)
    (hended : ∀ piece ∈ parts.dropLast, FirstAt separator (piece ++ separator) piece.length) :
    Divided separator (separator.intercalate parts) parts := by
  induction parts with
  | nil => exact absurd rfl hne
  | cons front parts ih =>
    by_cases hrest : parts = []
    · subst hrest
      rw [List.intercalate_singleton]
      exact .last (hlast front rfl)
    · rw [List.getLast?_cons_of_ne_nil hrest] at hlast
      rw [List.dropLast_cons_of_ne_nil hrest, List.forall_mem_cons] at hended
      rw [List.intercalate_cons_of_ne_nil hrest, List.append_assoc]
      exact .piece ((firstAt_length_append_iff _ _ _).mpr hended.1) (ih hrest hlast hended.2)

theorem intercalate_nil_map_singleton (text : List Char) :
    ([] : List Char).intercalate (text.map fun c => [c]) = text := by
  induction text with
  | nil => rfl
  | cons c text ih =>
    by_cases hrest : text = []
    · subst hrest
      rfl
    · rw [List.map_cons, List.intercalate_cons_of_ne_nil (by simpa using hrest), ih]
      rfl

theorem division_pieces (separator text : List Char) :
    Division separator text (pieces separator text) := by
  by_cases hnil : separator = []
  · subst hnil
    exact ⟨intercalate_nil_map_singleton text, fun _ => rfl, fun h => absurd rfl h,
      fun h => absurd rfl h, fun h => absurd rfl h⟩
  · have h := divided_pieces hnil text
    exact ⟨h.intercalate, fun h => absurd h hnil, fun _ => h.ne_nil, fun _ => h.getLast?,
      fun _ => h.dropLast⟩

theorem Division.unique (h : Division separator text parts)
    (h' : Division separator text others) : others = parts := by
  by_cases hnil : separator = []
  · rw [h.characters hnil, h'.characters hnil]
  · have hdivided := divided_intercalate (h.ne_nil hnil) (h.last hnil) (h.ended hnil)
    have hdivided' := divided_intercalate (h'.ne_nil hnil) (h'.last hnil) (h'.ended hnil)
    rw [h.joined] at hdivided
    rw [h'.joined] at hdivided'
    exact hdivided'.unique hdivided

end Text

namespace Eval

/-! ## 3. The machine -/

/-- **The division of a text is the one leftmost division**: where there is room, an array of texts is
pushed, and these are the pieces of the text between the separators, which no other list of texts is.
The operator does the same with two texts that it takes from the stack. -/
theorem run_divide [Allocator] (limit : Nat) (text separator : String) {m : Machine}
    (hroom : m.stack.size < m.stack.capacity) :
    ∃ pieces : List (List Char),
      Text.Division separator.toList text.toList pieces ∧
      (∀ others, Text.Division separator.toList text.toList others → others = pieces) ∧
      EStateM.run ((Request.divide text separator).perform limit) m =
        .ok () (m.add [.array (pieces.map fun piece => .text (String.ofList piece))]) ∧
      EStateM.run (run limit "/") (m.add [.text text, .text separator]) =
        .ok () (m.add [.array (pieces.map fun piece => .text (String.ofList piece))]) := by
  have hdivision := Text.division_pieces separator.toList text.toList
  have hsymbol : run limit "/" = applyBinary (call limit) .divide :=
    run_symbol limit (.binary .divide)
  refine ⟨_, hdivision, fun others hothers => hdivision.unique hothers, run_push_of_lt hroom _, ?_⟩
  rw [hsymbol]
  exact run_applyBinary_of_result (call limit) hroom rfl

/-- A separator that overlaps itself, at both ends and twice in a row, between characters of several
bytes. -/
theorem run_divide_overlapping :
    (Machine.start 1 .empty).stack.size < 1 ∧
    Text.Division "aa".toList "aaéaaaa𝄞a".toList [[], ['é'], [], ['𝄞', 'a']] ∧
    (∀ others, Text.Division "aa".toList "aaéaaaa𝄞a".toList others →
      others = [[], ['é'], [], ['𝄞', 'a']]) ∧
    EStateM.run ((Request.divide "aaéaaaa𝄞a" "aa").perform 0) (.start 1 .empty) =
      .ok () ⟨⟨#[.array [.text "", .text "é", .text "", .text "𝄞a"]], 1⟩, .initial, [], .empty, 0⟩ ∧
    EStateM.run (run 0 "/") ((Machine.start 1 .empty).add [.text "aaéaaaa𝄞a", .text "aa"]) =
      .ok () ⟨⟨#[.array [.text "", .text "é", .text "", .text "𝄞a"]], 1⟩, .initial, [], .empty, 0⟩ := by
  have hroom : (Machine.start 1 .empty).stack.size < 1 := by decide
  obtain ⟨pieces, hdivision, hunique, hrequest, hoperator⟩ :=
    run_divide 0 "aaéaaaa𝄞a" "aa" (m := .start 1 .empty) hroom
  have hpieces : [[], ['é'], [], ['𝄞', 'a']] = pieces := by
    refine hunique _ ⟨by decide, nofun, fun _ => by decide, fun _ => by decide, fun _ => by decide⟩
  subst hpieces
  exact ⟨hroom, hdivision, hunique, hrequest, hoperator⟩

end Eval

end StackLang
