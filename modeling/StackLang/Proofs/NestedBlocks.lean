import StackLang.Proofs.Avoidance
import StackLang.Proofs.Provenance
import StackLang.Proofs.Tokens.StrayQuotes

/-!
# Blocks that cannot be read

A block has its end where its braces and quotes say so, in words as well; but when it is run, its
body is read as a program, in which those in words mean nothing. So the body of a block is a program
exactly if its words hold an even number of quotes, and otherwise it breaks off in a quoted text,
never at a brace. This is so at any depth, since a block inside is the token of a body.

All blocks of a session come from the programs that were run (`Block.NestedInAny`). Therefore a run
meets no brace without its end, and no quote without its end as long as each block in these programs
has an even number of quotes in its words (`Machine.Reached.nested_blocks`).
-/

namespace StackLang

/-! ## 1. Blocks inside blocks -/

/-- A block that a program writes, or that is written in the body of such a block, at any depth. -/
inductive Block.NestedIn (source : String) : Block → Prop
  | token {b : Block} : b.TokenOf source → NestedIn source b
  | inside {outer b : Block} : NestedIn source outer → b.TokenOf outer.body → NestedIn source b

namespace Block

variable {b : Block} {source : String}

theorem TokenOf.body (h : b.TokenOf source) : Token.Body b.body.toList :=
  (h.writtenIn List.mem_cons_self List.infix_rfl : b.WrittenIn [source]).body

theorem NestedIn.body (h : b.NestedIn source) : Token.Body b.body.toList := by
  cases h with
  | token hb => exact hb.body
  | inside _ hb => exact hb.body

/-! ## 2. Blocks that break off -/

/-- A block whose body breaks off at a character that has no end. -/
def breaksOff (first : Char) (b : Block) : Bool :=
  match Token.ofSource b.body with
  | .error (.unreadable tail) => tail.toList.head? = some first
  | _ => false

theorem breaksOff_of_readable (h : Token.Readable b.body) (first : Char) :
    b.breaksOff first = false := by
  obtain ⟨tokens, htokens⟩ := h
  rw [breaksOff, htokens]

theorem breaksOff_brace (h : Token.Body b.body.toList) : b.breaksOff '\x7b' = false := by
  cases htokens : Token.ofSource b.body with
  | ok tokens => exact breaksOff_of_readable ⟨tokens, htokens⟩ _
  | error fault =>
    obtain ⟨tail, rfl, hquote⟩ := h.of_error htokens
    simp [breaksOff, htokens, hquote]

end Block

/-! ## 3. Runs -/

/-- A block that is nested in one of several programs. -/
def Block.NestedInAny (sources : List String) (b : Block) : Prop :=
  ∃ source ∈ sources, b.NestedIn source

namespace Block.NestedInAny

variable {sources : List String} {b outer : Block} {source : String}

theorem cons (h : b.NestedInAny sources) (source : String) : b.NestedInAny (source :: sources) := by
  obtain ⟨written, hwritten, hb⟩ := h
  exact ⟨written, List.mem_cons_of_mem source hwritten, hb⟩

theorem of_tokenOf (h : b.TokenOf source) (sources : List String) :
    b.NestedInAny (source :: sources) :=
  ⟨source, List.mem_cons_self, .token h⟩

theorem of_body (h : outer.NestedInAny sources) (hb : b.TokenOf outer.body) :
    b.NestedInAny sources := by
  obtain ⟨source, hsource, houter⟩ := h
  exact ⟨source, hsource, .inside houter hb⟩

end Block.NestedInAny

namespace Machine.Reached

section

variable [Allocator] {sources : List String} {m : Machine}

/-- Every block in a machine is nested in a program that has been run. The induction is over the
runs. -/
theorem allBlocks_nestedInAny (h : Reached sources m) :
    m.AllBlocks (Block.NestedInAny sources) := by
  induction h with
  | start capacity marks input depth => exact .initial _ capacity marks input depth
  | @run sources m limit source _ ih =>
    have hmore : m.AllBlocks (Block.NestedInAny (source :: sources)) :=
      ih.mono fun _ hb => hb.cons source
    exact hmore.run_of (fun _ _ => .of_body) (fun _ hb => .of_tokenOf hb sources) limit
  | handedOver marks input depth _ ih => exact { ih with }

/-- A run runs no blocks but those that are nested in its program or in one before. -/
theorem avoidsBlocks (h : Reached sources m) (limit : Nat) {source : String} {bad : Block → Bool}
    (hbad : ∀ written ∈ source :: sources, ∀ b : Block, b.NestedIn written → bad b = false) :
    Eval.AvoidsBlocks limit bad source m := by
  have hinvariant : Invariant limit (Machine.AllBlocks (Block.NestedInAny (source :: sources)))
      (Block.NestedInAny (source :: sources)) fun _ => True :=
    invariant_allBlocks limit fun _ _ => .of_body
  refine hinvariant.avoidsBlocks (fun b hb => ?_)
    (Coupling.allowsProgram_of_tokens (fun _ hb => .of_tokenOf hb sources) fun _ => trivial)
    (h.allBlocks_nestedInAny.mono fun _ hb => hb.cons source)
  obtain ⟨written, hwritten, hnested⟩ := hb
  exact hbad written hwritten b hnested

/-- **The blocks of a program are programs, unless their words hold an odd number of quotes.**

* The body of every block that is nested in a program, at any depth, can be read exactly if its words
  hold an even number of quotes, as far as it can be read; otherwise it breaks off in a quoted text.
* In any session no run runs a block that breaks off at a brace.
* If the words of all blocks that are nested in the programs of the session hold an even number of
  quotes, no run runs a block that breaks off in a quoted text. -/
theorem nested_blocks (h : Reached sources m) (limit : Nat) (source : String) :
    (∀ b : Block, b.NestedIn source →
      (Token.Readable b.body ↔ Even (Token.strayQuotes b.body.toList)) ∧
      ∀ fault, Token.ofSource b.body = .error fault →
        ∃ tail, fault = .unreadable tail ∧ tail.toList.head? = some '"') ∧
    Eval.AvoidsBlocks limit (Block.breaksOff '\x7b') source m ∧
    ((∀ written ∈ source :: sources, ∀ b : Block, b.NestedIn written →
        Even (Token.strayQuotes b.body.toList)) →
      Eval.AvoidsBlocks limit (Block.breaksOff '"') source m) := by
  refine ⟨fun b hb => ⟨hb.body.readable_iff, fun fault => hb.body.of_error⟩, ?_, fun heven => ?_⟩
  · exact h.avoidsBlocks limit fun _ _ b hb => Block.breaksOff_brace hb.body
  · refine h.avoidsBlocks limit fun written hwritten b hb => ?_
    exact Block.breaksOff_of_readable (hb.body.readable_iff.mpr (heven written hwritten b hb)) _

end

/-- A program that is run twice: it runs the block that it stored before, whose words hold two
quotes. -/
theorem nested_blocks_twice :
    ∃ m, Reached ["B ~ \x7b a\" b\" \x7d :B"] m ∧
      (∀ b : Block, b.NestedIn "B ~ \x7b a\" b\" \x7d :B" ↔ b = ⟨"a\" b\""⟩) ∧
      (Token.Readable "a\" b\"" ↔ Even (Token.strayQuotes "a\" b\"".toList)) ∧
      Eval.AvoidsBlocks 1 (Block.breaksOff '\x7b') "B ~ \x7b a\" b\" \x7d :B" m ∧
      Eval.AvoidsBlocks 1 (Block.breaksOff '"') "B ~ \x7b a\" b\" \x7d :B" m := by
  have hsource : Token.ofSource "B ~ \x7b a\" b\" \x7d :B" =
      .ok ["B", "~", "\x7b a\" b\" \x7d", ":B"] := by cbv
  have hliteral : Value.ofLiteral? "\x7b a\" b\" \x7d" = some (.block ⟨"a\" b\""⟩) := by cbv
  have hbody : Token.ofSource "a\" b\"" = .ok ["a\"", "b\""] := by cbv
  have htoken : ∀ b : Block, b.TokenOf "B ~ \x7b a\" b\" \x7d :B" → b = ⟨"a\" b\""⟩ := by
    rintro b ⟨tokens, token, htokens, ht, hb⟩
    have hothers : ∀ t ∈ ["B", "~", ":B"], Value.ofLiteral? t = none := by
      simp only [List.forall_mem_cons]
      exact ⟨by cbv, by cbv, by cbv, fun _ hnil => absurd hnil List.not_mem_nil⟩
    cases hsource.symm.trans htokens
    by_cases hblock : token = "\x7b a\" b\" \x7d"
    · rw [hblock, hliteral] at hb
      cases hb
      rfl
    · rw [hothers token (by simpa [hblock] using ht)] at hb
      cases hb
  have hinside : ∀ b : Block, ¬b.TokenOf "a\" b\"" := by
    rintro b ⟨tokens, token, htokens, ht, hb⟩
    have hwords : ∀ t ∈ ["a\"", "b\""], Value.ofLiteral? t = none := by
      simp only [List.forall_mem_cons]
      exact ⟨by cbv, by cbv, fun _ hnil => absurd hnil List.not_mem_nil⟩
    cases hbody.symm.trans htokens
    rw [hwords token ht] at hb
    cases hb
  have hnested : ∀ b : Block, b.NestedIn "B ~ \x7b a\" b\" \x7d :B" ↔ b = ⟨"a\" b\""⟩ := by
    intro b
    constructor
    · intro hb
      induction hb with
      | token hb => exact htoken _ hb
      | inside _ hb ih => exact absurd hb (ih ▸ hinside _)
    · rintro rfl
      exact .token ⟨_, _, hsource, by simp, hliteral⟩
  have hreached : Reached ["B ~ \x7b a\" b\" \x7d :B"] _ := .run 1 _ (.start 2 [] .empty 0)
  obtain ⟨hread, hbrace, hquote⟩ := nested_blocks hreached 1 "B ~ \x7b a\" b\" \x7d :B"
  have hblock := (hread _ ((hnested _).mpr rfl)).1
  refine ⟨_, hreached, hnested, hblock, hbrace, hquote fun written hwritten b hb => ?_⟩
  obtain rfl : written = "B ~ \x7b a\" b\" \x7d :B" := by simpa using hwritten
  rw [(hnested b).mp hb]
  exact hblock.mp ⟨_, hbody⟩

/-- The quote in the word and the one behind it are the ends of a quoted text where the end of the
block is looked for; where the block is run, the second one has no end. -/
theorem nested_blocks_odd :
    Token.ofSource "\x7b1 0 / a\" \"\x7d ~" = .ok ["\x7b1 0 / a\" \"\x7d", "~"] ∧
    Value.ofLiteral? "\x7b1 0 / a\" \"\x7d" = some (.block ⟨"1 0 / a\" \""⟩) ∧
    Token.ofSource "1 0 / a\" \"" = .error (.unreadable "\"") ∧
    EStateM.run (Eval.run 1 "\x7b1 0 / a\" \"\x7d ~") (.start 1 .empty) =
      .error (.unreadable "\"") (.start 1 .empty) := by
  refine ⟨?_, ?_, ?_, ?_⟩ <;> cbv

end Machine.Reached

end StackLang
