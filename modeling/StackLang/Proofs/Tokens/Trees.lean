import StackLang.Proofs.Tokens.BlockLiteral

/-!
# Programs as trees

A program that is written as a tree, with blocks inside blocks, is found again at every level. Its
tokens are the items at the top (`Item.ofSource_printAll`). A block's token is stored without its
braces and without the blanks inside them, and what is stored has the items of the block for its
tokens: the scanner of blocks and the scanner of tokens agree on such programs.

What carries the induction is that an item is a token that may also stand in a block
(`Embeddable`).
-/

namespace StackLang.Token

open StackLang.Text (isGap isBlank Blank Trimmed)

/-! ## 1. Items -/

/-- A word that means the same at every level: there is something in it, but no blank, no quote and
no brace. -/
structure PlainWord where
  text : String
  nonempty : text ≠ ""
  plain : ∀ c ∈ text.toList, isBlank c = false ∧ c ≠ '"' ∧ c ≠ '\x7b' ∧ c ≠ '\x7d'

/-- A text that can stand between quotes. -/
structure QuotableText where
  text : String
  unquoted : '"' ∉ text.toList

/-- A part of a program. -/
inductive Item where
  | word (w : PlainWord)
  | text (t : QuotableText)
  | block (items : List Item)

namespace Item

mutual

/-- An item as it stands in a program. -/
def print : Item → String
  | .word w => w.text
  | .text t => Text.quoted t.text
  | .block items => "\x7b " ++ " ".intercalate (printEach items) ++ " \x7d"

/-- Several items, each by itself. -/
def printEach : List Item → List String
  | [] => []
  | item :: items => item.print :: printEach items

end

/-- A program: items with single spaces between them. -/
def printAll (items : List Item) : String :=
  " ".intercalate (items.map print)

/-- A block stands in a program, at any depth. -/
inductive Within (inner : List Item) : List Item → Prop
  | here {items : List Item} : .block inner ∈ items → Within inner items
  | deeper {items outer : List Item} : .block outer ∈ items → Within inner outer →
      Within inner items

theorem printEach_eq_map (items : List Item) : printEach items = items.map print := by
  induction items with
  | nil => rfl
  | cons item items ih => rw [printEach, ih, List.map_cons]

/-- A block is printed as the block of its items with a space at either end. -/
theorem print_block (items : List Item) :
    (Item.block items).print = (Block.mk (" " ++ printAll items ++ " ")).render := by
  rw [print, printEach_eq_map, ← String.toList_inj]
  simp [Block.render, printAll]

end Item

/-! ## 2. Tokens that may stand in a block -/

/-- A token that may stand anywhere in a block: the block's scanner passes over it, and nothing of
it is lost at the ends. -/
structure Embeddable (cs : List Char) : Prop where
  lexeme : Lexeme cs
  body : Body cs
  trimmed : Trimmed cs

theorem body_space : Body [' '] :=
  .of_plain (by simp)

namespace Embeddable

theorem word (w : PlainWord) : Embeddable w.text.toList where
  lexeme := by
    have hne : w.text.toList ≠ [] := fun hnil => w.nonempty (String.toList_eq_nil_iff.mp hnil)
    refine .word ⟨hne, fun c hc => ?_, fun hc => ?_, fun hc => ?_⟩
    · cases hgap : isGap c with
      | false => rfl
      | true =>
        have hblank := Text.isBlank_of_isGap hgap
        rw [(w.plain c hc).1] at hblank
        cases hblank
    · exact (w.plain _ (List.mem_of_head? hc)).2.1 rfl
    · exact (w.plain _ (List.mem_of_head? hc)).2.2.1 rfl
  body := .of_plain fun c hc => (w.plain c hc).2
  trimmed := ⟨fun c hc => (w.plain c (List.mem_of_head? hc)).1,
    fun c hc => (w.plain c (List.mem_of_getLast? hc)).1⟩

theorem quoted {text : List Char} (h : '"' ∉ text) : Embeddable ('"' :: (text ++ ['"'])) where
  lexeme := .quoted (.enclose h)
  body := by
    have hbody := Body.quoted (.enclose h) .nil
    rwa [List.append_nil] at hbody
  trimmed := Text.trimmed_between rfl rfl text

theorem braced {inner : List Char} (h : Body inner) :
    Embeddable ('\x7b' :: (inner ++ ['\x7d'])) where
  lexeme := .braced (.enclose h)
  body := .block h .nil
  trimmed := Text.trimmed_between rfl rfl inner

end Embeddable

section

variable {texts : List String}

/-- Such tokens with spaces between them are a body. -/
theorem body_intercalate (h : ∀ text ∈ texts, Embeddable text.toList) :
    Body (" ".intercalate texts).toList := by
  induction texts with
  | nil => exact .nil
  | cons text texts ih =>
    have hfirst := (h text List.mem_cons_self).body
    cases texts with
    | nil =>
      rw [String.intercalate_singleton]
      exact hfirst
    | cons next texts =>
      have hrest := ih fun other hother => h other (List.mem_cons_of_mem text hother)
      rw [String.intercalate_cons_cons, String.toList_append, String.toList_append]
      exact (hfirst.append body_space).append hrest

/-- No blank stands at the ends of such a body. -/
theorem trimmed_intercalate (h : ∀ text ∈ texts, Embeddable text.toList) :
    Trimmed (" ".intercalate texts).toList := by
  -- a list of tokens that is not empty is printed as something, which ends in no blank
  suffices hall : texts ≠ [] → (" ".intercalate texts).toList ≠ [] ∧
      Trimmed (" ".intercalate texts).toList by
    cases texts with
    | nil => exact ⟨nofun, nofun⟩
    | cons text texts => exact (hall (List.cons_ne_nil text texts)).2
  induction texts with
  | nil => exact fun hne => absurd rfl hne
  | cons text texts ih =>
    intro _
    have hfirst := h text List.mem_cons_self
    cases texts with
    | nil =>
      rw [String.intercalate_singleton]
      exact ⟨hfirst.lexeme.ne_nil, hfirst.trimmed⟩
    | cons next texts =>
      obtain ⟨hne, hrest⟩ := ih (fun other hother => h other (List.mem_cons_of_mem text hother))
        (List.cons_ne_nil next texts)
      rw [String.intercalate_cons_cons, String.toList_append, String.toList_append]
      exact ⟨List.append_ne_nil_of_right_ne_nil _ hne,
        hfirst.trimmed.append hrest hfirst.lexeme.ne_nil hne _⟩

end

/-! ## 3. Printed programs -/

namespace Item

mutual

/-- **Every item is a token that may stand in a block.** -/
theorem embeddable_print : (item : Item) → Embeddable item.print.toList
  | .word w => .word w
  | .text t => by
    rw [print, Text.toList_quoted]
    exact .quoted t.unquoted
  | .block items => by
    have hitems := embeddable_printEach items
    have hbody : Body (" " ++ printAll items ++ " ").toList := by
      rw [String.toList_append, String.toList_append, printAll, ← printEach_eq_map]
      exact (body_space.append (body_intercalate hitems)).append body_space
    rw [print_block, Block.toList_render]
    exact .braced hbody

theorem embeddable_printEach : (items : List Item) →
    ∀ text ∈ printEach items, Embeddable text.toList
  | [] => nofun
  | item :: items => List.forall_mem_cons.mpr ⟨item.embeddable_print, embeddable_printEach items⟩

end

theorem embeddable_of_mem_map {items : List Item} : ∀ text ∈ items.map print,
    Embeddable text.toList := by
  rw [← printEach_eq_map]
  exact embeddable_printEach items

/-- The tokens of a printed program are its items. -/
theorem ofSource_printAll (items : List Item) :
    ofSource (printAll items) = .ok (items.map print) := by
  have htokens : ∀ text ∈ items.map print, ofSource text = .ok [text] :=
    fun text htext => ofSource_lexeme (embeddable_of_mem_map text htext).lexeme
  rw [printAll, ofSource_intercalate htokens, List.flatMap_singleton']

/-- **A printed block is stored as the program of its items.** -/
theorem ofLiteral?_print_block (items : List Item) :
    Value.ofLiteral? (Item.block items).print = some (.block ⟨printAll items⟩) := by
  have hspace : Blank " ".toList := by simp [Blank, isBlank]
  have htrimmed : Trimmed (printAll items).toList := trimmed_intercalate embeddable_of_mem_map
  have htrim : (Block.mk (" " ++ printAll items ++ " ")).trim = ⟨printAll items⟩ := by
    rw [Block.trim, Text.trim, String.append_assoc, String.toList_append, String.toList_append]
    rw [htrimmed.trimChars_append hspace hspace, String.ofList_toList]
  rw [print_block, Value.ofLiteral?_render, htrim]

/-- **A program that is printed from a tree is read as this tree, at every level**: its tokens are
its items; and the token of each block in it, at any depth, stores a body whose tokens are the items
of the block. The second half holds of every block, in the program or not, since a block is printed
in the same way wherever it stands. -/
theorem ofSource_print_tree (program : List Item) :
    ofSource (printAll program) = .ok (program.map print) ∧
    ∀ items, Within items program →
      ∃ b, Value.ofLiteral? (Item.block items).print = some (.block b) ∧
        ofSource b.body = .ok (items.map print) :=
  ⟨ofSource_printAll program, fun items _ =>
    ⟨⟨printAll items⟩, ofLiteral?_print_block items, ofSource_printAll items⟩⟩

/-- A quoted brace two blocks deep, beside a block with nothing in it. -/
theorem ofSource_print_tree_nested :
    Within [.text ⟨"\x7d ", by simp⟩, .block []]
      [.word ⟨"7", by simp, by simp [isBlank]⟩,
        .block [.block [.text ⟨"\x7d ", by simp⟩, .block []]]] ∧
    ofSource "7 \x7b \x7b \"\x7d \" \x7b  \x7d \x7d \x7d" =
      .ok ["7", "\x7b \x7b \"\x7d \" \x7b  \x7d \x7d \x7d"] ∧
    ∃ b, Value.ofLiteral? "\x7b \"\x7d \" \x7b  \x7d \x7d" = some (.block b) ∧
      ofSource b.body = .ok ["\"\x7d \"", "\x7b  \x7d"] := by
  have hwithin : Within [.text ⟨"\x7d ", by simp⟩, .block []]
      [.word ⟨"7", by simp, by simp [isBlank]⟩,
        .block [.block [.text ⟨"\x7d ", by simp⟩, .block []]]] :=
    .deeper (List.mem_cons_of_mem _ List.mem_cons_self) (.here List.mem_cons_self)
  obtain ⟨htokens, hblocks⟩ := ofSource_print_tree [.word ⟨"7", by simp, by simp [isBlank]⟩,
    .block [.block [.text ⟨"\x7d ", by simp⟩, .block []]]]
  exact ⟨hwithin, htokens, hblocks _ hwithin⟩

end Item

end StackLang.Token
