import StackLang.Command.Response
import StackLang.Proofs.Reading
import StackLang.Proofs.Sequence
import StackLang.Proofs.TextBytes
import StackLang.Proofs.Tokens.Unclosed

/-!
# A program from the arguments and a program from the input

A run does the same with a program whether it is given in the arguments or is the first line of the
input (`Options.run_line`). Exactly this line is taken, so the lines behind it are read as if they
were the whole input. The line feed that ends it is a gap: it changes no token, and in a program
that breaks off it belongs to the part that cannot be read.
-/

namespace StackLang

/-! ## 1. Where the program comes from -/

namespace Input

/-- **A text without a line feed is the first line** where a line feed follows it. -/
theorem line_and_rest_ofText {s : String} (h : '\n' ∉ s.toList) (other : List UInt8) :
    (Input.mk ((ofText s).unread ++ lineFeed :: other)).line = (ofText (s ++ "\n")).unread ∧
      (Input.mk ((ofText s).unread ++ lineFeed :: other)).rest = ⟨other⟩ := by
  obtain ⟨hline, hrest⟩ := line_and_rest (lineFeed_notMem_ofText h) other
  have hfeed : (ofText "\n").unread = [lineFeed] := by
    rw [unread_ofText]
    rfl
  refine ⟨hline.trans ?_, hrest⟩
  rw [unread_ofText_append, hfeed]

end Input

namespace Options

variable {options : Options} {program : String}

/-- The program that is read from the input keeps its line feed. -/
theorem source_of_line (hnone : options.program = none) (h : '\n' ∉ program.toList)
    (rest : List UInt8) :
    options.source ⟨(Input.ofText program).unread ++ Input.lineFeed :: rest⟩ =
      .ok (program ++ "\n", ⟨rest⟩) := by
  obtain ⟨hline, hrest⟩ := Input.line_and_rest_ofText h rest
  rw [source, hnone]
  dsimp only
  rw [hline, hrest, Input.decode?_ofText]

theorem source_of_program (hsome : options.program = some program) (input : Input) :
    options.source input = .ok (program, input) := by
  rw [source, hsome]

/-! ## 2. What a run prints -/

variable [Allocator] {limits : Limits} {input unread : Input} {out : Output} {source : String}
  {m : Machine}
  {fault : Fault}

theorem run_of_ok (hsource : options.source input = .ok (source, unread))
    (hrun : EStateM.run (Eval.run limits.depth source) (.start limits.capacity unread) = .ok () m) :
    options.run limits input out = (.ok (), out.print m.stack.render) := by
  rw [Options.run, evaluate, hsource]
  dsimp only
  rw [hrun]
  rfl

theorem run_of_fault (hsource : options.source input = .ok (source, unread))
    (hrun : EStateM.run (Eval.run limits.depth source) (.start limits.capacity unread) =
      .error fault m) :
    options.run limits input out = (.error fault, out) := by
  rw [Options.run, evaluate, hsource]
  dsimp only
  rw [hrun]

theorem run_of_malformed (hsource : options.source input = .error fault) :
    options.run limits input out = (.error fault, out) := by
  rw [Options.run, evaluate, hsource]

/-- **All or nothing is printed**: a run fails and prints nothing, or it prints the stack that its
program leaves. What was collected before stands in front of that. -/
theorem run_cases (options : Options) (limits : Limits) (input : Input) (out : Output) :
    (∃ fault, options.run limits input out = (.error fault, out)) ∨
      ∃ source unread m, options.source input = .ok (source, unread) ∧
        EStateM.run (Eval.run limits.depth source) (.start limits.capacity unread) = .ok () m ∧
        options.run limits input out = (.ok (), out.print m.stack.render) ∧
        ∀ text, out = .collected text →
          (options.run limits input out).2.text = text ++ m.stack.render := by
  cases hsource : options.source input with
  | error fault => exact .inl ⟨fault, run_of_malformed hsource⟩
  | ok read =>
    cases hrun : EStateM.run (Eval.run limits.depth read.1) (.start limits.capacity read.2) with
    | ok _ m =>
      have hprint : options.run limits input out = (.ok (), out.print m.stack.render) :=
        run_of_ok hsource hrun
      refine .inr ⟨read.1, read.2, m, rfl, hrun, hprint, ?_⟩
      rintro text rfl
      rw [hprint]
      exact Output.text_print_collected text m.stack.render
    | error fault m => exact .inl ⟨fault, run_of_fault hsource hrun⟩

/-- Two runs print the same if their programs do the same with what is left of the input. -/
theorem run_congr {other : Options} {input' : Input} {source' : String}
    (hsource : options.source input = .ok (source, unread))
    (hother : other.source input' = .ok (source', unread))
    (hsame : Eval.run limits.depth source = Eval.run limits.depth source') :
    options.run limits input out = other.run limits input' out := by
  rw [Options.run, Options.run, evaluate, evaluate, hsource, hother]
  dsimp only
  rw [hsame]

end Options

/-! ## 3. The line feed behind the program -/

theorem Token.gap_lineFeed : Token.Gap "\n".toList := by
  intro c hc
  rw [List.mem_singleton.mp hc]
  rfl

namespace Eval

variable {source gap : String} {tokens : List String} {fault : Fault}

/-- A gap behind a program changes nothing. -/
theorem run_append_gap [Allocator] (limit : Nat) (h : Token.ofSource source = .ok tokens)
    (hgap : Token.Gap gap.toList) (hne : gap ≠ "") :
    run limit (source ++ gap) = run limit source := by
  have happend := Token.ofSource_append h hgap hne ""
  rw [String.append_empty, Token.ofSource_empty] at happend
  have htokens : Token.ofSource (source ++ gap) = .ok tokens := by
    rw [happend]
    exact congrArg Except.ok (List.append_nil tokens)
  rw [run_of_ok limit htokens, run_of_ok limit h]

end Eval

namespace Options

/-- **A program does the same from either place.** A program that is a line of text and can be read
does the same as the first line of the input and in the arguments, with the lines behind it as its
input; one that cannot be read fails at the same quote or brace, and as a line of the input it shows
its line feed there. And whatever the options and the input, a run prints the stack that its program
leaves, behind the text that was collected before and with nothing else, or it fails and prints
nothing. -/
theorem run_line [Allocator] (options : Options) (limits : Limits) (out : Output) {program : String}
    (h : '\n' ∉ program.toList) (rest : List UInt8) :
    (∀ tokens, Token.ofSource program = .ok tokens →
      Options.run { options with program := none } limits
          ⟨(Input.ofText program).unread ++ Input.lineFeed :: rest⟩ out =
        Options.run { options with program := some program } limits ⟨rest⟩ out) ∧
    (∀ fault, Token.ofSource program = .error fault → ∃ tail, fault = .unreadable tail ∧
      Options.run { options with program := some program } limits ⟨rest⟩ out =
        (.error (.unreadable tail), out) ∧
      Options.run { options with program := none } limits
          ⟨(Input.ofText program).unread ++ Input.lineFeed :: rest⟩ out =
        (.error (.unreadable (tail ++ "\n")), out)) ∧
    ∀ (other : Options) (input : Input),
      (∃ fault, other.run limits input out = (.error fault, out)) ∨
        ∃ source unread m, other.source input = .ok (source, unread) ∧
          EStateM.run (Eval.run limits.depth source) (.start limits.capacity unread) = .ok () m ∧
          other.run limits input out = (.ok (), out.print m.stack.render) ∧
          ∀ text, out = .collected text →
            (other.run limits input out).2.text = text ++ m.stack.render := by
  have hline := @source_of_line { options with program := none } program rfl h rest
  have hprogram := @source_of_program { options with program := some program } program rfl ⟨rest⟩
  refine ⟨fun tokens htokens => ?_, fun fault hfault => ?_, fun other input => ?_⟩
  · refine run_congr hline hprogram ?_
    exact Eval.run_append_gap limits.depth htokens Token.gap_lineFeed (by decide)
  · obtain ⟨tail, rfl, happend⟩ := Token.ofSource_append_of_error Token.gap_lineFeed hfault
    refine ⟨tail, rfl, run_of_fault (m := .start limits.capacity ⟨rest⟩) hprogram ?_,
      run_of_fault (m := .start limits.capacity ⟨rest⟩) hline ?_⟩
    · rw [Eval.run_of_error limits.depth hfault]
      rfl
    · rw [Eval.run_of_error limits.depth happend]
      rfl
  · exact run_cases other limits input out

/-- A line that reads the line behind it and is printed behind what was printed before, and one that
breaks off in a quote inside a block. -/
theorem run_line_two_lines :
    ('\n' ∉ "l \"é\" +".toList ∧ Token.ofSource "l \"é\" +" = .ok ["l", "\"é\"", "+"] ∧
      Options.run ⟨none, none⟩ ⟨2, 0⟩
          ⟨[108, 32, 34, 195, 169, 34, 32, 43, 10, 97, 10, 98]⟩ .empty =
        Options.run ⟨none, some "l \"é\" +"⟩ ⟨2, 0⟩ ⟨[97, 10, 98]⟩ .empty) ∧
    (Options.run ⟨none, some "l \"é\" +"⟩ ⟨2, 0⟩ ⟨[97, 10, 98]⟩ (.collected "x")).2.text =
      "x" ++ "a\né\n" ∧
    '\n' ∉ "1 \x7b \"é".toList ∧ Token.ofSource "1 \x7b \"é" = .error (.unreadable "\"é") ∧
      Options.run ⟨none, some "1 \x7b \"é"⟩ ⟨2, 0⟩ ⟨[97]⟩ .empty =
        (.error (.unreadable "\"é"), .empty) ∧
      Options.run ⟨none, none⟩ ⟨2, 0⟩ ⟨[49, 32, 123, 32, 34, 195, 169, 10, 97]⟩ .empty =
        (.error (.unreadable "\"é\n"), .empty) := by
  have hread : Token.ofSource "l \"é\" +" = .ok ["l", "\"é\"", "+"] := by cbv
  have hopen : Token.ofSource "1 \x7b \"é" = .error (.unreadable "\"é") := by cbv
  have hline : '\n' ∉ "l \"é\" +".toList := by decide
  have hbroken : '\n' ∉ "1 \x7b \"é".toList := by decide
  have hsame := (run_line ⟨none, none⟩ ⟨2, 0⟩ .empty hline [97, 10, 98]).1 _ hread
  obtain ⟨tail, htail, hprogram, hinput⟩ :=
    (run_line ⟨none, none⟩ ⟨2, 0⟩ .empty hbroken [97]).2.1 _ hopen
  cases htail
  rw [Input.unread_ofText] at hsame hinput
  refine ⟨⟨hline, hread, hsame⟩, ?_, hbroken, hopen, hprogram, hinput⟩
  have hsource : (Options.mk none (some "l \"é\" +")).source ⟨[97, 10, 98]⟩ =
      .ok ("l \"é\" +", ⟨[97, 10, 98]⟩) := source_of_program rfl _
  have hrun : EStateM.run (Eval.run (Limits.mk 2 0).depth "l \"é\" +")
      (.start (Limits.mk 2 0).capacity ⟨[97, 10, 98]⟩) =
        .ok () ⟨⟨#[.text "a\né"], 2⟩, .initial, [], ⟨[98]⟩, 0⟩ := by cbv
  rcases (run_line ⟨none, none⟩ ⟨2, 0⟩ (.collected "x") hline [97, 10, 98]).2.2
      ⟨none, some "l \"é\" +"⟩ ⟨[97, 10, 98]⟩ with
    ⟨fault, hfault⟩ | ⟨source, unread, m, hother, hok, -, hprinted⟩
  · cases (run_of_ok hsource hrun).symm.trans hfault
  · cases hsource.symm.trans hother
    cases hrun.symm.trans hok
    exact hprinted "x" rfl

end Options

end StackLang
