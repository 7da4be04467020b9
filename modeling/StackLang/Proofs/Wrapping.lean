import StackLang.Proofs.BlockOperand
import StackLang.Proofs.Widening

/-!
# A block that is run at once

A program may be put between braces and run at once, any number of times (`wrapped`). Each time
takes one level of blocks and changes nothing else: under a limit that leaves these levels the
program does what it did (`Eval.run_wrapped`), under a lower one the innermost block that is allowed
meets the limit.

Two things come together here. What stands between the braces is read again when the block is run,
without its outer blanks, and has to give the same tokens. And the program inside is run with more
blocks counted, under a limit that is higher by as many.
-/

namespace StackLang

/-! ## 1. The same machine deeper in blocks -/

/-- The same machine with more blocks that are being run. -/
def Machine.deeper (m : Machine) (levels : Nat) : Machine :=
  { m with depth := m.depth + levels }

theorem Machine.deeper_succ (m : Machine) (levels : Nat) :
    m.deeper (levels + 1) = m.enter.deeper levels := by
  rw [Machine.deeper, Machine.deeper, Machine.depth_enter, Nat.add_right_comm]
  rfl

@[simp] theorem Machine.leave_enter (m : Machine) : m.enter.leave = m := rfl

/-- Every machine belongs to the same machine with at most so many more blocks; overflows of the
first are excused. How many more blocks there are exactly is known from the counts at the start. -/
def Coupling.deeper (levels : Nat) : Coupling where
  related m n := ∃ depth, depth ≤ m.depth + levels ∧ n = { m with depth }
  excused fault := fault.isOverflow = true
  offset := 0
  block _ := True
  name _ := True

namespace Coupling

variable {levels : Nat}

/-- No elementary step looks at the count of blocks. -/
theorem deeper_steps (levels : Nat) : (deeper levels).Steps where
  push {m n v s} hmn _ hp := by
    obtain ⟨depth, hdepth, rfl⟩ := hmn
    exact ⟨s, hp, depth, hdepth, rfl⟩
  full _ _ := .inl rfl
  pop {m n v s} hmn hp := by
    obtain ⟨depth, hdepth, rfl⟩ := hmn
    exact ⟨v.allBlocks_true, s, hp, depth, hdepth, rfl⟩
  empty {m n} hmn hempty := by
    obtain ⟨depth, _, rfl⟩ := hmn
    exact .inr hempty
  size {m n} hmn := by
    obtain ⟨depth, _, rfl⟩ := hmn
    rfl
  above {m n height} hmn _ := by
    obtain ⟨depth, hdepth, rfl⟩ := hmn
    exact ⟨fun v _ => v.allBlocks_true, rfl, depth, hdepth, rfl⟩
  opened {m n} hmn := by
    obtain ⟨depth, hdepth, rfl⟩ := hmn
    exact ⟨depth, hdepth, rfl⟩
  get {m n name} hmn _ := by
    obtain ⟨depth, _, rfl⟩ := hmn
    exact ⟨rfl, fun v _ => v.allBlocks_true⟩
  set {m n name v} hmn _ _ := by
    obtain ⟨depth, hdepth, rfl⟩ := hmn
    exact ⟨depth, hdepth, rfl⟩
  input {m n} hmn := by
    obtain ⟨depth, _, rfl⟩ := hmn
    rfl
  rest {m n} hmn := by
    obtain ⟨depth, hdepth, rfl⟩ := hmn
    exact ⟨depth, hdepth, rfl⟩

theorem deeper_closes {m n : Machine} (hmn : (deeper levels).related m n) :
    (deeper levels).Closes m n := by
  obtain ⟨depth, hdepth, rfl⟩ := hmn
  exact ⟨rfl, depth, hdepth, rfl⟩

/-- A limit that is higher by so many levels allows every block that the lower one allows. -/
theorem deeper_runners [Allocator] (limit levels : Nat) :
    (deeper levels).Runners (Runner.standard limit) (Runner.standard (limit + levels)) where
  each hcall ht _ _ hmn :=
    (deeper_steps levels).dispatch hcall ht hmn fun _ => deeper_closes hmn.related
  allow {m n} hmn hlt := by
    obtain ⟨depth, hdepth, rfl⟩ := hmn
    have hlt : m.depth < limit := hlt
    show depth < limit + levels
    omega
  refuse _ _ := .inl rfl
  enter {m n} hmn _ _ := by
    obtain ⟨depth, hdepth, rfl⟩ := hmn
    refine ⟨depth + 1, ?_, rfl⟩
    rw [Machine.depth_enter]
    omega
  leave {m n} hmn := by
    obtain ⟨depth, hdepth, rfl⟩ := hmn
    refine ⟨depth - 1, ?_, rfl⟩
    rw [Machine.depth_leave]
    omega
  program _ := allowsProgram_of_forall (fun _ => trivial) (fun _ _ => trivial) _

/-- Ends of coupled runs that started so many levels apart are so many levels apart. -/
theorem At.eq_deeper {d : Nat} {m n : Machine} (h : (deeper levels).At d (d + levels) m n) :
    n = m.deeper levels := by
  obtain ⟨depth, _, rfl⟩ := h.related
  have hright : depth = d + levels := h.right
  rw [Machine.deeper, h.left, hright]

end Coupling

namespace Eval

/-- **Deeper in blocks a program does the same** under a limit that is higher by as many levels. -/
theorem run_deeper [Allocator] (limit levels : Nat) (source : String) (m : Machine) :
    (∀ m', EStateM.run (run limit source) m = .ok () m' →
      EStateM.run (run (limit + levels) source) (m.deeper levels) = .ok () (m'.deeper levels)) ∧
    (∀ fault m', fault.isOverflow = false → EStateM.run (run limit source) m = .error fault m' →
      EStateM.run (run (limit + levels) source) (m.deeper levels) =
        .error fault (m'.deeper levels)) := by
  have hsource : (Coupling.deeper levels).AllowsProgram source :=
    Coupling.allowsProgram_of_forall (fun _ => trivial) (fun _ _ => trivial) source
  have hend := (Coupling.deeper_runners limit levels).run hsource m (m.deeper levels)
    ⟨⟨m.depth + levels, Nat.le_refl _, rfl⟩, rfl, rfl⟩
  change Coupling.Ends _ _ _ _ (EStateM.run (run limit source) m)
    (EStateM.run (run (limit + levels) source) (m.deeper levels)) at hend
  constructor
  · intro m' hrun
    rw [hrun] at hend
    obtain ⟨_, n, hn, _, hmn⟩ := hend.exists_of_ok
    rw [hn, hmn.eq_deeper]
  · intro fault m' hfault hrun
    rw [hrun] at hend
    obtain ⟨n, hn, hmn⟩ := hend.exists_of_error (Bool.eq_false_iff.mp hfault)
    rw [hn, hmn.eq_deeper]

end Eval

/-! ## 2. One block that is run at once -/

namespace Token

theorem lexeme_sign : Lexeme "~".toList :=
  lexeme_symbol (.unary .bitNot)

/-- A block and the sign that runs it. -/
theorem ofSource_render_append {b : Block} (h : Body b.body.toList) :
    ofSource (b.render ++ " ~") = .ok [b.render, "~"] := by
  have happend := ofSource_append (ofSource_lexeme (lexeme_render h)) gap_space (by decide) "~"
  rwa [String.append_assoc, ofSource_lexeme lexeme_sign] at happend

end Token

namespace Eval

/-- A block that is pushed and run at once is run on the stack as it was. -/
theorem run_render_append [Allocator] {limit : Nat} {b : Block} {m : Machine}
    (h : Token.Body b.body.toList) (hroom : m.stack.size < m.stack.capacity) :
    EStateM.run (run limit (b.render ++ " ~")) m = EStateM.run (call limit b.trim) m := by
  have hboth : run limit (b.render ++ " ~") = (do
      push (.block b.trim)
      applyUnary (call limit) .bitNot) := by
    have happend := run_render_symbol limit h (.unary .bitNot)
    rwa [String.append_assoc] at happend
  have hact : UnaryOperator.bitNot.act (.block b.trim) = .ok (.call b.trim) := rfl
  calc EStateM.run (run limit (b.render ++ " ~")) m
      = EStateM.run (applyUnary (call limit) .bitNot) (m.add [.block b.trim]) := by
        rw [hboth, EStateM.run_bind, run_push_of_lt hroom]
    _ = EStateM.run (call limit b.trim) m := run_applyUnary_add _ hact m

end Eval

/-! ## 3. Wrapped programs -/

/-- A program inside a number of blocks each of which is run at once. -/
def wrapped (source : String) : Nat → String
  | 0 => source
  | k + 1 => (Block.mk (wrapped source k)).render ++ " ~"

theorem toList_wrapped_succ (source : String) (k : Nat) :
    (wrapped source (k + 1)).toList =
      '\x7b' :: ((wrapped source k).toList ++ ['\x7d', ' ', '~']) := by
  rw [wrapped, String.toList_append, Block.toList_render, List.cons_append, List.append_assoc]
  rfl

/-- A brace in front and the sign behind are no blanks. -/
theorem trimmed_wrapped_succ (source : String) (k : Nat) :
    Text.Trimmed (wrapped source (k + 1)).toList := by
  have hends : Text.Trimmed ('\x7b' :: ((wrapped source k).toList ++ ['\x7d', ' '] ++ ['~'])) :=
    Text.trimmed_between rfl rfl _
  rw [List.append_assoc] at hends
  rw [toList_wrapped_succ]
  exact hends

/-- A program that can stand between braces: it can be read, with the braces it is one token, and
it loses only gaps at its ends when the token is read. -/
structure Wrappable (source : String) : Prop where
  readable : ∃ tokens, Token.ofSource source = .ok tokens
  braced : Token.ofSource (Block.mk source).render = .ok [(Block.mk source).render]
  gaps : Token.OuterGaps source.toList

namespace Wrappable

variable {source : String}

theorem body (h : Wrappable source) (k : Nat) : Token.Body (wrapped source k).toList := by
  induction k with
  | zero => exact Token.body_of_ofSource_render h.braced
  | succ k ih =>
    have hsign : Token.Body [' ', '~'] := .of_plain (by simp)
    rw [toList_wrapped_succ]
    exact .block ih hsign

/-- What is run as a block has the tokens of the program. -/
theorem trim_body (h : Wrappable source) (k : Nat) :
    ∃ tokens, Token.ofSource (wrapped source k) = .ok tokens ∧
      Token.ofSource (Block.mk (wrapped source k)).trim.body = .ok tokens := by
  cases k with
  | zero =>
    obtain ⟨tokens, htokens⟩ := h.readable
    obtain ⟨found, hfound, hmap⟩ := Token.exists_lexemes htokens
    refine ⟨tokens, htokens, hmap ▸ Token.ofSource_of_ok ?_⟩
    rw [Block.toList_body_trim]
    exact Token.lexemes_trimChars h.gaps hfound
  | succ k =>
    have htrim : (Block.mk (wrapped source (k + 1))).trim = ⟨wrapped source (k + 1)⟩ := by
      rw [Block.trim, Text.trim, (trimmed_wrapped_succ source k).trimChars_eq,
        String.ofList_toList]
    have hbody : Token.Body (Block.mk (wrapped source k)).body.toList := h.body k
    have htokens := Token.ofSource_render_append hbody
    refine ⟨_, htokens, ?_⟩
    rw [htrim]
    exact htokens

end Wrappable

namespace Eval

section

variable [Allocator] {source : String} {limit : Nat} {m : Machine}

theorem run_wrapped_succ (h : Wrappable source) (k : Nat) (hlt : m.depth < limit)
    (hroom : m.stack.size < m.stack.capacity) :
    EStateM.run (run limit (wrapped source (k + 1))) m =
      EStateM.run (nested (run limit (wrapped source k))) m := by
  obtain ⟨tokens, htokens, htrim⟩ := h.trim_body k
  rw [wrapped, run_render_append (h.body k) hroom, run_call_of_lt htrim hlt, run_of_ok limit htrim,
    run_of_ok limit htokens]

/-- Under a limit that leaves fewer levels, the first block that meets it is refused. -/
theorem run_wrapped_of_lt (h : Wrappable source) {k : Nat} (hle : m.depth ≤ limit)
    (hlt : limit < m.depth + k) (hroom : m.stack.size < m.stack.capacity) :
    EStateM.run (run limit (wrapped source k)) m = .error (.stackOverflow limit) m := by
  induction k generalizing m with
  | zero => omega
  | succ k ih =>
    rcases Nat.lt_or_eq_of_le hle with hlevel | hlevel
    · have hinner : m.enter.depth ≤ limit ∧ limit < m.enter.depth + k := by
        rw [Machine.depth_enter]
        omega
      have hrun := ih hinner.1 hinner.2 hroom
      rw [run_wrapped_succ h k hlevel hroom, run_nested_of_error hrun, Machine.leave_enter]
    · rw [wrapped, run_render_append (h.body k) hroom, run_call_of_le _ hlevel.ge]

/-- Where there are levels enough, the program runs in the innermost block as it runs there
alone. -/
theorem run_wrapped_of_le (h : Wrappable source) {k : Nat} (hle : m.depth + k ≤ limit)
    (hroom : m.stack.size < m.stack.capacity) :
    (∀ m', EStateM.run (run limit source) (m.deeper k) = .ok () (m'.deeper k) →
      EStateM.run (run limit (wrapped source k)) m = .ok () m') ∧
    (∀ fault m', EStateM.run (run limit source) (m.deeper k) = .error fault (m'.deeper k) →
      EStateM.run (run limit (wrapped source k)) m = .error fault m') := by
  induction k generalizing m with
  | zero => exact ⟨fun _ hrun => hrun, fun _ _ hrun => hrun⟩
  | succ k ih =>
    have hlevel : m.depth < limit := by omega
    have hinner : m.enter.depth + k ≤ limit := by
      rw [Machine.depth_enter]
      omega
    obtain ⟨hok, herror⟩ := ih hinner hroom
    rw [run_wrapped_succ h k hlevel hroom]
    constructor
    · intro m' hrun
      rw [Machine.deeper_succ, Machine.deeper_succ] at hrun
      rw [run_nested_of_ok (hok _ hrun), Machine.leave_enter]
    · intro fault m' hrun
      rw [Machine.deeper_succ, Machine.deeper_succ] at hrun
      rw [run_nested_of_error (herror _ _ hrun), Machine.leave_enter]

/-- **A block that is run at once changes nothing but the depth**: a program that succeeds, or fails
otherwise than for want of room, does the same inside any number of blocks under a limit that is
higher by as many levels. Under a lower limit the blocks are refused, and nothing has changed. -/
theorem run_wrapped (limit : Nat) (h : Wrappable source) (k : Nat) (hdepth : m.depth = 0)
    (hroom : m.stack.size < m.stack.capacity) :
    (∀ m', EStateM.run (run limit source) m = .ok () m' →
      EStateM.run (run (limit + k) (wrapped source k)) m = .ok () m') ∧
    (∀ fault m', fault.isOverflow = false → EStateM.run (run limit source) m = .error fault m' →
      EStateM.run (run (limit + k) (wrapped source k)) m = .error fault m') ∧
    (∀ j < k, EStateM.run (run j (wrapped source k)) m = .error (.stackOverflow j) m) := by
  obtain ⟨hok, herror⟩ := run_deeper limit k source m
  have hle : m.depth + k ≤ limit + k := by omega
  obtain ⟨hok', herror'⟩ := run_wrapped_of_le h hle hroom
  refine ⟨fun m' hrun => hok' m' (hok m' hrun), fun fault m' hfault hrun => ?_, fun j hj => ?_⟩
  · exact herror' fault m' (herror fault m' hfault hrun)
  · exact run_wrapped_of_lt h (by omega) (by omega) hroom

end

/-- A program with a block of its own and outer blanks, and one that fails, two blocks deep. -/
theorem run_wrapped_twice :
    (Wrappable " \x7b7\x7d ~\n" ∧
      EStateM.run (run 1 " \x7b7\x7d ~\n") (.start 2 .empty) =
        .ok () ⟨⟨#[.integer 7], 2⟩, .initial, [], .empty, 0⟩ ∧
      EStateM.run (run 3 "\x7b\x7b \x7b7\x7d ~\n\x7d ~\x7d ~") (.start 2 .empty) =
        .ok () ⟨⟨#[.integer 7], 2⟩, .initial, [], .empty, 0⟩ ∧
      EStateM.run (run 1 "\x7b\x7b \x7b7\x7d ~\n\x7d ~\x7d ~") (.start 2 .empty) =
        .error (.stackOverflow 1) (.start 2 .empty)) ∧
    (Wrappable "+" ∧
      EStateM.run (run 0 "+") (.start 2 .empty) = .error .stackUnderflow (.start 2 .empty) ∧
      EStateM.run (run 2 "\x7b\x7b+\x7d ~\x7d ~") (.start 2 .empty) =
        .error .stackUnderflow (.start 2 .empty)) := by
  have hblock : Wrappable " \x7b7\x7d ~\n" := by
    refine ⟨⟨["\x7b7\x7d", "~"], by cbv⟩, by cbv, ?_⟩
    constructor <;> simp [Token.Gap, Text.isBlank, Text.isGap]
  have hplus : Wrappable "+" := by
    refine ⟨⟨["+"], by cbv⟩, by cbv, ?_⟩
    constructor <;> simp [Token.Gap, Text.isBlank]
  have hok : EStateM.run (run 1 " \x7b7\x7d ~\n") (.start 2 .empty) =
      .ok () ⟨⟨#[.integer 7], 2⟩, .initial, [], .empty, 0⟩ := by cbv
  have herror : EStateM.run (run 0 "+") (.start 2 .empty) =
      .error .stackUnderflow (.start 2 .empty) := by cbv
  have hwrapped := run_wrapped 1 hblock 2 (m := .start 2 .empty) rfl (by decide)
  have hfailed := run_wrapped 0 hplus 2 (m := .start 2 .empty) rfl (by decide)
  exact ⟨⟨hblock, hok, hwrapped.1 _ hok, hwrapped.2.2 1 (by decide)⟩,
    hplus, herror, hfailed.2.1 _ _ rfl herror⟩

end Eval

end StackLang
