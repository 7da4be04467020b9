import Mathlib
import StackLang.Proofs.Closure
import StackLang.Proofs.FirstOccurrence

/-!
# A run sees no more of the input than it takes

What a run leaves of the input is an end of the input, and where it leaves something, what it leaves
might have been anything else: the run would have done the same and left that (`Eval.run_reading`).

Input is read line by line. A line that was taken while something is left behind it ends with its
line feed, so it is the same line whatever follows.
-/

namespace StackLang

/-! ## 1. Lines -/

namespace Input

/-- A line goes up to the first line feed. -/
theorem line_and_rest {body : List UInt8} (h : lineFeed ∉ body) (other : List UInt8) :
    (Input.mk (body ++ lineFeed :: other)).line = body ++ [lineFeed] ∧
      (Input.mk (body ++ lineFeed :: other)).rest = ⟨other⟩ := by
  rw [line, rest, dropWhile_ne_append h, takeWhile_ne_append h]
  exact ⟨rfl, rfl⟩

/-- Where something is left behind a line, the line ends with its line feed. -/
theorem exists_line {input : Input} (h : input.rest.unread ≠ []) :
    ∃ body, lineFeed ∉ body ∧ input.unread = body ++ lineFeed :: input.rest.unread := by
  rw [rest] at h ⊢
  cases hdrop : input.unread.dropWhile (· ≠ lineFeed) with
  | nil =>
    rw [hdrop] at h
    exact absurd rfl h
  | cons b after =>
    obtain ⟨rfl, hnone, hunread⟩ := of_dropWhile_ne hdrop
    exact ⟨_, hnone, hunread⟩

/-- Such a line has no other line feed. -/
theorem exists_line_eq {input : Input} (h : input.rest.unread ≠ []) :
    ∃ body, lineFeed ∉ body ∧ input.line = body ++ [lineFeed] := by
  obtain ⟨body, hbody, hunread⟩ := exists_line h
  have hline := (line_and_rest hbody input.rest.unread).1
  rw [← hunread] at hline
  exact ⟨body, hbody, hline⟩

/-- **A line does not depend on what follows it.** -/
theorem line_append {input : Input} (h : input.rest.unread ≠ []) (other : List UInt8) :
    (Input.mk (input.line ++ other)).line = input.line ∧
      (Input.mk (input.line ++ other)).rest = ⟨other⟩ := by
  obtain ⟨body, hbody, hline⟩ := exists_line_eq h
  have hother := line_and_rest hbody other
  rw [hline, List.append_assoc]
  exact hother

end Input

/-! ## 2. The same machine with another input -/

/-- The same machine with other bytes to read. -/
def Machine.reading (m : Machine) (bytes : List UInt8) : Machine :=
  { m with input := ⟨bytes⟩ }

/-- The same end with other bytes left to read. -/
def Outcome.reading {α : Type} (o : Outcome α) (bytes : List UInt8) : Outcome α :=
  match o with
  | .ok a m => .ok a (m.reading bytes)
  | .error fault m => .error fault (m.reading bytes)

/-- The bytes that are left at the end of an evaluation. -/
def Outcome.unread {α : Type} (o : Outcome α) : List UInt8 :=
  (Outcome.machine o).input.unread

@[simp] theorem Outcome.unread_ok {α : Type} (a : α) (m : Machine) :
    Outcome.unread (.ok a m : Outcome α) = m.input.unread := rfl

@[simp] theorem Outcome.unread_reading {α : Type} (o : Outcome α) (bytes : List UInt8) :
    Outcome.unread (Outcome.reading o bytes) = bytes := by
  cases o <;> rfl

/-! ## 3. Evaluations that see no more than they take -/

namespace Eval

/-- What is left of the input is an end of it; and where something is left, the evaluation does the
same with anything else in its place, and leaves that. -/
def SeesTaken {α : Type} (x : Eval α) : Prop :=
  ∀ m, ∃ taken, m.input.unread = taken ++ Outcome.unread (EStateM.run x m) ∧
    (Outcome.unread (EStateM.run x m) ≠ [] → ∀ other,
      EStateM.run x (m.reading (taken ++ other)) = Outcome.reading (EStateM.run x m) other)

section

variable {α β : Type} {x : Eval α}

/-- One behind the other, two evaluations take what the first takes and then what the second
takes. -/
theorem SeesTaken.bind {f : α → Eval β} (hx : SeesTaken x) (hf : ∀ a, SeesTaken (f a)) :
    SeesTaken (x >>= f) := by
  intro m
  obtain ⟨taken, hunread, hother⟩ := hx m
  rw [EStateM.run_bind]
  cases hrun : EStateM.run x m with
  | error fault m₁ =>
    rw [hrun] at hunread hother
    refine ⟨taken, hunread, fun hne other => ?_⟩
    rw [EStateM.run_bind, hother hne other]
    rfl
  | ok a m₁ =>
    rw [hrun] at hunread hother
    obtain ⟨taken₁, hunread₁, hother₁⟩ := hf a m₁
    refine ⟨taken ++ taken₁, ?_, fun hne other => ?_⟩
    · rw [hunread, Outcome.unread_ok, hunread₁, List.append_assoc]
    · -- what is left at the end was left after the first evaluation too
      have hne₁ : m₁.input.unread ≠ [] := by
        rw [hunread₁]
        exact List.append_ne_nil_of_right_ne_nil _ hne
      rw [EStateM.run_bind, List.append_assoc, hother hne₁ (taken₁ ++ other)]
      exact hother₁ hne other

theorem SeesTaken.nested {x : Eval Unit} (hx : SeesTaken x) : SeesTaken (Eval.nested x) := by
  intro m
  obtain ⟨taken, hunread, hother⟩ := hx m.enter
  cases hrun : EStateM.run x m.enter with
  | ok a m₁ =>
    rw [hrun] at hunread hother
    rw [run_nested_of_ok hrun]
    refine ⟨taken, hunread, fun hne other => ?_⟩
    have hrun' : EStateM.run x (m.reading (taken ++ other)).enter = .ok a (m₁.reading other) :=
      hother hne other
    rw [run_nested_of_ok hrun']
    rfl
  | error fault m₁ =>
    rw [hrun] at hunread hother
    rw [run_nested_of_error hrun]
    refine ⟨taken, hunread, fun hne other => ?_⟩
    have hrun' : EStateM.run x (m.reading (taken ++ other)).enter =
        .error fault (m₁.reading other) := hother hne other
    rw [run_nested_of_error hrun']
    rfl

end

/-- **Reading takes a line**, and where something is left, the line is the same whatever follows. -/
theorem seesTaken_nextLine : SeesTaken nextLine := by
  intro m
  by_cases hend : m.input.line = []
  · have hunread : m.input.unread = [] := Input.line_eq_nil_iff.mp hend
    rw [run_nextLine_of_end hend]
    exact ⟨[], rfl, fun hne => absurd hunread hne⟩
  · have hother : m.input.rest.unread ≠ [] → ∀ other,
        (m.reading (m.input.line ++ other)).input.line = m.input.line ∧
          (m.reading (m.input.line ++ other)).input.rest = ⟨other⟩ :=
      fun hne other => Input.line_append hne other
    cases hline : Input.decode? m.input.line with
    | some line =>
      rw [run_nextLine_of_some hend hline]
      refine ⟨m.input.line, (Input.line_append_rest m.input).symm, fun hne other => ?_⟩
      obtain ⟨hsame, hrest⟩ := hother hne other
      rw [← hsame] at hend hline
      rw [run_nextLine_of_some hend hline, hrest]
      rfl
    | none =>
      rw [run_nextLine_of_none hend hline]
      refine ⟨m.input.line, (Input.line_append_rest m.input).symm, fun hne other => ?_⟩
      obtain ⟨hsame, hrest⟩ := hother hne other
      rw [← hsame] at hend hline
      rw [run_nextLine_of_none hend hline, hrest]
      rfl

/-- A quiet step does the same with any input. -/
theorem Quiet.reading {α : Type} {x : Eval α} (h : Quiet x) (m : Machine) (bytes : List UInt8) :
    EStateM.run x (m.reading bytes) = Outcome.reading (EStateM.run x m) bytes := by
  cases h with
  | pure | throw | size | openArray | getVariable | setVariable => rfl
  | push v =>
    cases hp : m.stack.push? v with
    | some stack =>
      rw [run_push_of_some hp, run_push_of_some (m := m.reading bytes) hp]
      rfl
    | none =>
      rw [run_push_of_none hp, run_push_of_none (m := m.reading bytes) hp]
      rfl
  | pop =>
    cases hp : m.stack.pop? with
    | some top =>
      rw [run_pop_of_some hp, run_pop_of_some (m := m.reading bytes) hp]
      rfl
    | none =>
      rw [run_pop_of_none hp, run_pop_of_none (m := m.reading bytes) hp]
      rfl
  | top =>
    cases htop : m.stack.top? with
    | some v =>
      rw [run_top_of_some htop, run_top_of_some (m := m.reading bytes) htop]
      rfl
    | none =>
      rw [run_top_of_none htop, run_top_of_none (m := m.reading bytes) htop]
      rfl
  | takeAbove height =>
    rcases Nat.lt_or_ge m.stack.size height with hlt | hle
    · rw [run_takeAbove_of_lt hlt, run_takeAbove_of_lt (m := m.reading bytes) hlt]
      rfl
    · rw [run_takeAbove_of_le hle, run_takeAbove_of_le (m := m.reading bytes) hle]
      rfl
  | closeMark =>
    rw [run_closeMark, run_closeMark]
    rfl
  | checkDepth limit =>
    rcases Nat.lt_or_ge m.depth limit with hlt | hle
    · rw [run_checkDepth_of_lt hlt, run_checkDepth_of_lt (m := m.reading bytes) hlt]
      rfl
    · rw [run_checkDepth_of_le hle, run_checkDepth_of_le (m := m.reading bytes) hle]
      rfl

/-- A quiet step takes no input: with its own input put in its place, a machine is the same. -/
theorem Quiet.input {α : Type} {x : Eval α} (h : Quiet x) (m : Machine) :
    (Outcome.machine (EStateM.run x m)).input = m.input := by
  have hself : EStateM.run x m = Outcome.reading (EStateM.run x m) m.input.unread :=
    h.reading m m.input.unread
  have hunread := congrArg Outcome.unread hself
  rw [Outcome.unread_reading] at hunread
  exact congrArg Input.mk hunread

theorem Quiet.seesTaken {α : Type} {x : Eval α} (h : Quiet x) : SeesTaken x :=
  fun m => ⟨[], (congrArg Input.unread (h.input m)).symm, fun _ other => h.reading m other⟩

/-- `l` takes its line, whether the line is then pushed or not. -/
theorem seesTaken_readLine : SeesTaken readLine :=
  seesTaken_nextLine.bind fun line => by
    cases line with
    | some line => exact (Quiet.push _).seesTaken
    | none => exact (Quiet.pure ()).seesTaken

/-- All that is put together from quiet steps and `l` sees no more than it takes. -/
theorem closed_seesTaken : Closed SeesTaken where
  quiet h := h.seesTaken
  readLine := seesTaken_readLine
  bind hx hf := hx.bind hf
  nested hx := hx.nested
  atDepth hf m := hf m.depth m

/-- **A run sees no more of the input than it takes**: what it leaves is an end of the input, and
where it leaves something, with any other bytes in that place it has the same end, on the same
machine, and leaves these bytes. -/
theorem run_reading [Allocator] (limit : Nat) (source : String) (m : Machine) :
    ∃ taken, m.input.unread = taken ++ Outcome.unread (EStateM.run (run limit source) m) ∧
      (Outcome.unread (EStateM.run (run limit source) m) ≠ [] → ∀ other,
        EStateM.run (run limit source) (m.reading (taken ++ other)) =
          Outcome.reading (EStateM.run (run limit source) m) other) :=
  closed_seesTaken.run limit source m

/-- Two lines are read inside a block and fill the stack; the byte behind them might have been any
other input. -/
theorem run_reading_two_lines :
    ∃ taken, ([97, 10, 10, 33] : List UInt8) = taken ++ [33] ∧ ∀ other,
      EStateM.run (run 1 "\x7bl l\x7d ~ 1") ⟨.empty 2, .initial, [], ⟨taken ++ other⟩, 0⟩ =
        .error (.stackOverflow 2) ⟨⟨#[.text "a\n", .text "\n"], 2⟩, .initial, [], ⟨other⟩, 0⟩ := by
  have hrun : EStateM.run (run 1 "\x7bl l\x7d ~ 1") (.start 2 ⟨[97, 10, 10, 33]⟩) =
      .error (.stackOverflow 2) ⟨⟨#[.text "a\n", .text "\n"], 2⟩, .initial, [], ⟨[33]⟩, 0⟩ := by cbv
  obtain ⟨taken, hunread, hother⟩ := run_reading 1 "\x7bl l\x7d ~ 1" (.start 2 ⟨[97, 10, 10, 33]⟩)
  rw [hrun] at hunread hother
  exact ⟨taken, hunread, hother (List.cons_ne_nil _ _)⟩

end Eval

end StackLang
