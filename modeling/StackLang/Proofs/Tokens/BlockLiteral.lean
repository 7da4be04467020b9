import StackLang.Proofs.Blocks
import StackLang.Proofs.Tokens.Literals
import StackLang.Proofs.Tokens.Trimming
import StackLang.Value.Render

/-!
# How blocks are written

A block is shown between braces. If what stands between them is a body, this is one token
(`Token.ofSource_render`), and the token writes the block, its outer blanks apart
(`Instruction.ofToken?_render`). The other way round, a block that a token writes has the body that
stands in the token (`Value.allBlocks_ofLiteral?`), and that token is a part of the program
(`Token.of_mem_ofSource`).
-/

namespace StackLang

open StackLang.Text (trimChars)

/-! ## 1. The text of a block -/

/-- The block without blanks at the ends of its body. -/
def Block.trim (b : Block) : Block :=
  ⟨Text.trim b.body⟩

@[simp] theorem Block.toList_render (b : Block) :
    b.render.toList = '\x7b' :: (b.body.toList ++ ['\x7d']) := by
  simp [Block.render]

@[simp] theorem Block.toList_body_trim (b : Block) :
    b.trim.body.toList = trimChars b.body.toList :=
  String.toList_ofList

theorem enclosed?_render (b : Block) :
    enclosed? '\x7b' '\x7d' b.render.toList = some b.body.toList :=
  enclosed?_eq_some_iff.mpr b.toList_render

/-- A block is no text. -/
theorem enclosed?_quote_render (b : Block) : enclosed? '"' '"' b.render.toList = none := by
  rw [Block.toList_render]
  rfl

namespace Value

theorem ofLiteral?_render (b : Block) : ofLiteral? b.render = some (.block b.trim) := by
  simp only [ofLiteral?, enclosed?_quote_render, enclosed?_render]
  rfl

theorem allBlocks_ofNumeral? {P : Block → Prop} {cs : List Char} {v : Value}
    (h : ofNumeral? cs = some v) : v.AllBlocks P := by
  unfold ofNumeral? at h
  split at h
  · obtain ⟨r, _, rfl⟩ := Option.map_eq_some_iff.mp h
    exact allBlocks_real r
  · obtain ⟨n, _, rfl⟩ := Option.map_eq_some_iff.mp h
    exact allBlocks_integer n

/-- **A literal writes no block but the one between its braces.** -/
theorem allBlocks_ofLiteral? {P : Block → Prop} {token : String} {v : Value}
    (h : ofLiteral? token = some v) (hP : ∀ b : Block, token = b.render → P b.trim) :
    v.AllBlocks P := by
  simp only [ofLiteral?] at h
  split at h
  next =>
    cases h
    exact allBlocks_text _
  next =>
    split at h
    next body hbody =>
      cases h
      have htoken : token = Block.render ⟨String.ofList body⟩ := by
        rw [← String.toList_inj, Block.toList_render, enclosed?_eq_some_iff.mp hbody,
          String.toList_ofList]
      have htrim : (Block.mk (String.ofList body)).trim = ⟨String.ofList (trimChars body)⟩ := by
        rw [Block.trim, Text.trim, String.toList_ofList]
      exact allBlocks_block.mpr (htrim ▸ hP _ htoken)
    next => exact allBlocks_ofNumeral? h

end Value

/-! ## 2. Block literals among the tokens -/

namespace Instruction

/-- A block's text names no operator and no variable: it writes the block. -/
theorem ofToken?_render (b : Block) : ofToken? b.render = some (.push (.block b.trim)) :=
  ofToken?_of_ofLiteral? (Value.ofLiteral?_render b)

end Instruction

namespace Token

variable {source : String} {tokens : List String} {t : String}

theorem Layout.Proper.of_mem {l : Layout} (h : l.Proper) {lexeme : List Char}
    (hmem : lexeme ∈ l.tokens) : Lexeme lexeme ∧ lexeme <:+: l.text := by
  induction h with
  | finish _ => cases hmem
  | @token gap first rest _ hfirst _ _ ih =>
    rcases List.mem_cons.mp hmem with rfl | hrest
    · exact ⟨hfirst, gap, rest.text, by rw [Layout.text, List.append_assoc]⟩
    · obtain ⟨hlexeme, hinfix⟩ := ih hrest
      refine ⟨hlexeme, hinfix.trans ?_⟩
      rw [Layout.text, ← List.append_assoc]
      exact (List.suffix_append _ rest.text).isInfix

/-- **Each token of a program is a token, and a part of the program.** -/
theorem of_mem_ofSource (h : ofSource source = .ok tokens) (ht : t ∈ tokens) :
    Lexeme t.toList ∧ t.toList <:+: source.toList := by
  obtain ⟨l, hl, htext, rfl⟩ := exists_layout_of_ofSource h
  obtain ⟨lexeme, hmem, rfl⟩ := List.mem_map.mp ht
  rw [String.toList_ofList, ← htext]
  exact hl.of_mem hmem

theorem lexeme_render {b : Block} (h : Body b.body.toList) : Lexeme b.render.toList := by
  rw [Block.toList_render]
  exact .braced (.enclose h)

/-- **Between braces a body is one token.** -/
theorem ofSource_render {b : Block} (h : Body b.body.toList) :
    ofSource b.render = .ok [b.render] :=
  ofSource_lexeme (lexeme_render h)

/-- What stands between braces as one token is a body. -/
theorem body_of_ofSource_render {b : Block} (h : ofSource b.render = .ok [b.render]) :
    Body b.body.toList := by
  obtain ⟨hlexeme, _⟩ := of_mem_ofSource h List.mem_cons_self
  rw [Block.toList_render] at hlexeme
  exact hlexeme.body_of_braces

end Token

end StackLang
