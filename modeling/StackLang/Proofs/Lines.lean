import Mathlib
import StackLang.Proofs.Pushing
import StackLang.Proofs.Reading
import StackLang.Proofs.Sequence
import StackLang.Proofs.TextBytes

/-!
# Every line is read once

The input is divided behind each line feed (`Input.lines`). Whatever is asked of a machine, and
whatever fails meanwhile, the first `l` that is carried out takes the first line, the second one the
second line, and so on; nothing else takes anything (`Request.reads_lines`). A line is taken whether it
is pushed, finds no room or is no text, and behind the last line `l` does nothing.

To speak of the first and the second `l` one has to know on which machines `l` is carried out in the
course of an evaluation (`Eval.ReadsAt`). This is told from how the evaluation is put together; all
steps but `l` are quiet (`Eval.Quiet`) and do not look at the input.
-/

namespace StackLang

/-! ## 1. Lines -/

namespace Input

/-- The lines of the input: it is divided behind each line feed, and nowhere else. -/
def lines (input : Input) : List (List UInt8) :=
  input.unread.splitBy fun b _ => b != lineFeed

theorem flatten_lines (input : Input) : input.lines.flatten = input.unread :=
  List.flatten_splitBy _ _

theorem lines_eq_nil_iff {input : Input} : input.lines = [] ↔ input.unread = [] :=
  List.splitBy_eq_nil

/-- Where no byte but the last may be a line feed, nothing is divided. -/
theorem isChain_append {body tail : List UInt8} (hbody : ∀ b ∈ body, (b != lineFeed) = true)
    (htail : tail.IsChain fun b _ => (b != lineFeed) = true) :
    (body ++ tail).IsChain fun b _ => (b != lineFeed) = true := by
  induction body with
  | nil => exact htail
  | cons b body ih =>
    exact List.isChain_cons.mpr ⟨fun _ _ => hbody b List.mem_cons_self,
      ih fun c hc => hbody c (List.mem_cons_of_mem b hc)⟩

theorem isChain_line (input : Input) :
    input.line.IsChain fun b _ => (b != lineFeed) = true := by
  refine isChain_append (fun b hb => ?_) ?_
  · simpa using List.mem_takeWhile_imp hb
  · cases input.unread.dropWhile (· ≠ lineFeed) with
    | nil => exact .nil
    | cons b after => exact .singleton b

/-- The first of the lines is the next line, and the others are the lines of the rest. -/
theorem lines_eq_cons {input : Input} (h : input.unread ≠ []) :
    input.lines = input.line :: input.rest.lines := by
  have hline : input.line ≠ [] := fun hnil => h (line_eq_nil_iff.mp hnil)
  have hfirst : input.line.splitBy (fun b _ => b != lineFeed) = [input.line] :=
    List.splitBy_of_isChain hline input.isChain_line
  calc input.lines
      = (input.line ++ input.rest.unread).splitBy fun b _ => b != lineFeed := by
        rw [line_append_rest, lines]
    _ = input.line.splitBy (fun b _ => b != lineFeed) ++ input.rest.lines := by
        -- where something follows, the line ends with its line feed
        refine List.splitBy_append fun b hb c hc => ?_
        have hbehind : input.rest.unread ≠ [] := List.ne_nil_of_mem (List.mem_of_mem_head? hc)
        obtain ⟨body, -, hbody⟩ := exists_line_eq hbehind
        rw [hbody, List.getLast?_concat] at hb
        cases hb
        rfl
    _ = input.line :: input.rest.lines := by
        rw [hfirst]
        rfl

/-- Behind the last line there is none. -/
theorem lines_rest (input : Input) : input.rest.lines = input.lines.drop 1 := by
  by_cases h : input.unread = []
  · have hrest : input.rest.unread = [] := by
      rw [rest, h]
      rfl
    rw [lines_eq_nil_iff.mpr h, lines_eq_nil_iff.mpr hrest]
    rfl
  · rw [lines_eq_cons h]
    rfl

end Input

/-! ## 2. What `l` does -/

namespace Eval

variable {m : Machine}

theorem run_readLine_of_end (h : m.input.unread = []) : EStateM.run readLine m = .ok () m := by
  rw [readLine, EStateM.run_bind, run_nextLine_of_end (Input.line_eq_nil_iff.mpr h)]
  rfl

/-- A line that is a text is taken, and then the text is pushed. -/
theorem run_readLine_of_text {s : String} (hmore : m.input.unread ≠ [])
    (h : (Input.ofText s).unread = m.input.line) :
    EStateM.run readLine m =
      EStateM.run (push (.text s)) (m.reading m.input.rest.unread) := by
  have hline : m.input.line ≠ [] := fun hnil => hmore (Input.line_eq_nil_iff.mp hnil)
  rw [readLine, EStateM.run_bind, run_nextLine_of_some hline (Input.decode?_eq_some_iff.mpr h)]
  rfl

/-- A line that is no text is taken as well. -/
theorem run_readLine_of_malformed (hmore : m.input.unread ≠ [])
    (h : ∀ s, (Input.ofText s).unread ≠ m.input.line) :
    EStateM.run readLine m = .error .malformedInput (m.reading m.input.rest.unread) := by
  have hline : m.input.line ≠ [] := fun hnil => hmore (Input.line_eq_nil_iff.mp hnil)
  rw [readLine, EStateM.run_bind, run_nextLine_of_none hline (Input.decode?_eq_none_iff.mpr h)]
  rfl

/-- Whatever becomes of a line, it has been taken. -/
theorem input_readLine (m : Machine) :
    (Outcome.machine (EStateM.run readLine m)).input = m.input.rest := by
  by_cases hmore : m.input.unread = []
  · have hrest : m.input.rest = m.input := by
      obtain ⟨stack, vars, marks, ⟨unread⟩, depth⟩ := m
      obtain rfl : unread = [] := hmore
      rfl
    rw [run_readLine_of_end hmore, Outcome.machine_ok, hrest]
  · by_cases htext : ∃ s, (Input.ofText s).unread = m.input.line
    · obtain ⟨s, hs⟩ := htext
      rw [run_readLine_of_text hmore hs, (Quiet.push _).input]
      rfl
    · rw [run_readLine_of_malformed hmore (not_exists.mp htext), Outcome.machine_error]
      rfl

/-! ## 3. Where `l` is carried out -/

/-- In the course of an evaluation on a machine, `l` is carried out on these machines, in this
order.

* `quiet`, `line`: a quiet step, and `l`;
* `failed`, `bind`: the first of two evaluations fails, or the second one follows it;
* `nested`, `atDepth`: what is run inside a block, and what depends on the count of blocks. -/
inductive ReadsAt : {α : Type} → Eval α → Machine → List Machine → Prop
  | quiet {α : Type} {x : Eval α} (h : Quiet x) (m : Machine) : ReadsAt x m []
  | line (m : Machine) : ReadsAt readLine m [m]
  | failed {α β : Type} {x : Eval α} {f : α → Eval β} {m m' : Machine} {fault : Fault}
    {readers : List Machine} (hx : ReadsAt x m readers)
    (hrun : EStateM.run x m = .error fault m') : ReadsAt (x >>= f) m readers
  | bind {α β : Type} {x : Eval α} {f : α → Eval β} {m m' : Machine} {a : α}
    {readers others : List Machine} (hx : ReadsAt x m readers)
    (hrun : EStateM.run x m = .ok a m') (hf : ReadsAt (f a) m' others) :
    ReadsAt (x >>= f) m (readers ++ others)
  | nested {x : Eval Unit} {m : Machine} {readers : List Machine}
    (hx : ReadsAt x m.enter readers) : ReadsAt (nested x) m readers
  | atDepth {f : Nat → Eval Unit} {m : Machine} {readers : List Machine}
    (hf : ReadsAt (f m.depth) m readers) : ReadsAt (fun m => f m.depth m) m readers

/-- **Every evaluation has such a course**: all are put together in these ways. -/
theorem closed_readsAt : Closed fun x => ∀ m, ∃ readers, ReadsAt x m readers where
  quiet h m := ⟨[], .quiet h m⟩
  readLine m := ⟨[m], .line m⟩
  bind {α β x f} hx hf m := by
    obtain ⟨readers, hreaders⟩ := hx m
    cases hrun : EStateM.run x m with
    | error fault m' => exact ⟨readers, .failed hreaders hrun⟩
    | ok a m' =>
      obtain ⟨others, hothers⟩ := hf a m'
      exact ⟨readers ++ others, .bind hreaders hrun hothers⟩
  nested hx m := by
    obtain ⟨readers, hreaders⟩ := hx m.enter
    exact ⟨readers, .nested hreaders⟩
  atDepth hf m := by
    obtain ⟨readers, hreaders⟩ := hf m.depth m
    exact ⟨readers, .atDepth hreaders⟩

variable [Allocator]

/-- The token `l` is carried out on the machine that it is given to. -/
theorem readsAt_dispatch (call : Block → Eval Unit) (m : Machine) :
    ReadsAt (dispatch call "l") m [m] := by
  have hline : dispatch call "l" = readLine := dispatch_symbol call .readLine
  rw [hline]
  exact .line m

/-- The program `l` is carried out where it is started. -/
theorem readsAt_run (limit : Nat) (m : Machine) : ReadsAt (run limit "l") m [m] := by
  have hline : run limit "l" = readLine := run_symbol limit .readLine
  rw [hline]
  exact .line m

/-- A block that reads `l` carries it out one level deeper. -/
theorem readsAt_call {limit : Nat} (hlt : m.depth < limit) :
    ReadsAt (call limit ⟨"l"⟩) m [m.enter] := by
  have htokens : Token.ofSource "l" = .ok ["l"] :=
    Token.ofSource_lexeme (Token.lexeme_symbol .readLine)
  obtain ⟨levels, hlevels⟩ : ∃ levels, limit - m.depth = levels + 1 :=
    ⟨limit - m.depth - 1, by omega⟩
  refine .atDepth (f := fun depth =>
    execute limit ((Runner.standard limit).runTokens (limit - depth)) ⟨"l"⟩) ?_
  refine .bind (.quiet (.checkDepth limit) m) (run_checkDepth_of_lt hlt) ?_
  rw [withTokens_of_ok _ htokens, hlevels]
  refine .nested ?_
  show ReadsAt (do
    dispatch (execute limit ((Runner.standard limit).runTokens levels)) "l"
    pure ()) m.enter [m.enter]
  rw [bind_pure_unit]
  exact readsAt_dispatch _ _

end Eval

/-! ## 4. One line after the other -/

/-- Machines each of which reads the line that the ones before it have left. -/
inductive Input.ReadBy : Input → List Machine → Input → Prop
  | nil (input : Input) : ReadBy input [] input
  | cons (n : Machine) {readers : List Machine} {left : Input}
    (h : ReadBy n.input.rest readers left) : ReadBy n.input (n :: readers) left

namespace Input.ReadBy

variable {input between left : Input} {readers others : List Machine}

theorem append (h : ReadBy input readers between) (h' : ReadBy between others left) :
    ReadBy input (readers ++ others) left := by
  induction h with
  | nil => exact h'
  | cons n _ ih => exact .cons n (ih h')

/-- What is left are the lines that have not been read. -/
theorem lines_left (h : ReadBy input readers left) :
    left.lines = input.lines.drop readers.length := by
  induction h with
  | nil => rfl
  | cons n _ ih =>
    rw [ih, lines_rest, List.drop_drop, List.length_cons, Nat.add_comm]

/-- Each machine has the lines to read that the ones before it have not read. -/
theorem lines_reader (h : ReadBy input readers left) {k : Nat} {n : Machine}
    (hn : readers[k]? = some n) : n.input.lines = input.lines.drop k := by
  induction h generalizing k with
  | nil => cases hn
  | cons first _ ih =>
    cases k with
    | zero =>
      cases hn
      rfl
    | succ k =>
      rw [ih hn, lines_rest, List.drop_drop, Nat.add_comm]

end Input.ReadBy

/-- **In the course of an evaluation the lines are read one after the other**, and what is left at the
end are the lines that were not read. -/
theorem Eval.ReadsAt.readBy {α : Type} {x : Eval α} {m : Machine} {readers : List Machine}
    (h : ReadsAt x m readers) :
    m.input.ReadBy readers (Outcome.machine (EStateM.run x m)).input := by
  induction h with
  | quiet h m =>
    rw [h.input]
    exact .nil _
  | line m =>
    rw [input_readLine]
    exact .cons m (.nil _)
  | failed _ hrun ih =>
    rw [hrun] at ih
    rw [EStateM.run_bind, hrun]
    exact ih
  | bind _ hrun _ ih ih' =>
    rw [hrun] at ih
    rw [EStateM.run_bind, hrun]
    exact ih.append ih'
  | @nested x m readers _ ih =>
    cases hrun : EStateM.run x m.enter with
    | ok a m' =>
      rw [hrun] at ih
      rw [run_nested_of_ok hrun]
      exact ih
    | error fault m' =>
      rw [hrun] at ih
      rw [run_nested_of_error hrun]
      exact ih
  | atDepth _ ih => exact ih

/-! ## 5. Sessions -/

/-- In the course of requests that are made one after the other, whether they fail or not, `l` is
carried out on these machines, in this order. -/
inductive Request.ReadsAt [Allocator] (limit : Nat) : Machine → List Request → List Machine → Prop
  | nil (m : Machine) : ReadsAt limit m [] []
  | cons {m : Machine} {request : Request} {requests : List Request} {readers others : List Machine}
    (h : Eval.ReadsAt (request.perform limit) m readers)
    (hrest : ReadsAt limit (Outcome.machine (EStateM.run (request.perform limit) m)) requests
      others) : ReadsAt limit m (request :: requests) (readers ++ others)

theorem Request.exists_readsAt [Allocator] (limit : Nat) (requests : List Request) (m : Machine) :
    ∃ readers, ReadsAt limit m requests readers := by
  induction requests generalizing m with
  | nil => exact ⟨[], .nil m⟩
  | cons request requests ih =>
    obtain ⟨readers, hreaders⟩ := Eval.closed_readsAt.request limit request m
    obtain ⟨others, hothers⟩ := ih (Outcome.machine (EStateM.run (request.perform limit) m))
    exact ⟨readers ++ others, .cons hreaders hothers⟩

theorem Request.ReadsAt.readBy [Allocator] {limit : Nat} {m : Machine} {requests : List Request}
    {readers : List Machine} (h : ReadsAt limit m requests readers) :
    m.input.ReadBy readers (after limit m requests).input := by
  induction h with
  | nil m => exact .nil _
  | cons h _ ih => exact h.readBy.append ih

open Eval (readLine) in
/-- What `l` does on a machine whose next line are these bytes, with other bytes behind it: the line
is taken in any case. If it consists of the bytes of a text, this text is pushed, or there is no room
for it; if not, the line is refused. -/
structure Machine.ReadsLine (m : Machine) (line behind : List UInt8) : Prop where
  unread : m.input.unread = line ++ behind
  pushed {s : String} : (Input.ofText s).unread = line → m.stack.size < m.stack.capacity →
    EStateM.run readLine m = .ok () ((m.reading behind).add [.text s])
  full {s : String} : (Input.ofText s).unread = line → m.stack.capacity ≤ m.stack.size →
    EStateM.run readLine m = .error (.stackOverflow m.stack.capacity) (m.reading behind)
  refused : (∀ s, (Input.ofText s).unread ≠ line) →
    EStateM.run readLine m = .error .malformedInput (m.reading behind)

theorem Machine.readsLine {m : Machine} (hmore : m.input.unread ≠ []) :
    m.ReadsLine m.input.line m.input.rest.unread where
  unread := (Input.line_append_rest m.input).symm
  pushed htext hroom := by
    rw [Eval.run_readLine_of_text hmore htext]
    exact Eval.run_push_of_lt (m := m.reading m.input.rest.unread) hroom _
  full htext hfull := by
    rw [Eval.run_readLine_of_text hmore htext]
    exact Eval.run_push_of_le (m := m.reading m.input.rest.unread) hfull _
  refused htext := Eval.run_readLine_of_malformed hmore htext

/-- **Every line is read once.** Whatever is asked of a machine in whatever order, and however each
request ends: `l` is carried out on certain machines, one after the other. The one at place `k` takes
the line at place `k`, and where there are not so many lines it does nothing. The lines that were taken
and what is left make up the input. It is the token `l` that is carried out: on the machine that it is
given to, alone or as a program, and one level deeper as a block.

This holds of every way in which the requests can be taken apart into steps. Two ways may differ in how
often `l` is carried out behind the last line, where this cannot be told from what the machine does. -/
theorem Request.reads_lines [Allocator] (limit : Nat) (requests : List Request) (m : Machine) :
    (∃ readers, ReadsAt limit m requests readers) ∧
    (∀ readers, ReadsAt limit m requests readers →
      (∀ k n, readers[k]? = some n →
        (∀ line, m.input.lines[k]? = some line →
          n.ReadsLine line (m.input.lines.drop (k + 1)).flatten) ∧
        (m.input.lines.length ≤ k →
          n.input.unread = [] ∧ EStateM.run Eval.readLine n = .ok () n)) ∧
      (m.input.lines.take readers.length).flatten ++ (after limit m requests).input.unread =
        m.input.unread) ∧
    (∀ call n, Eval.ReadsAt (Eval.dispatch call "l") n [n]) ∧
    (∀ n, Eval.ReadsAt (Eval.run limit "l") n [n]) ∧
    ∀ n : Machine, n.depth < limit → Eval.ReadsAt (Eval.call limit ⟨"l"⟩) n [n.enter] := by
  refine ⟨exists_readsAt limit requests m, fun readers hreaders => ⟨fun k n hn => ?_, ?_⟩,
    Eval.readsAt_dispatch, Eval.readsAt_run limit, fun _ => Eval.readsAt_call⟩
  · have hlines := hreaders.readBy.lines_reader hn
    constructor
    · intro line hline
      have hdrop : n.input.lines = line :: m.input.lines.drop (k + 1) := by
        obtain ⟨hlt, hget⟩ := List.getElem?_eq_some_iff.mp hline
        rw [hlines, List.drop_eq_getElem_cons hlt, hget]
      have hmore : n.input.unread ≠ [] := fun hnil => by
        rw [Input.lines_eq_nil_iff.mpr hnil] at hdrop
        cases hdrop
      rw [Input.lines_eq_cons hmore, List.cons.injEq] at hdrop
      obtain ⟨rfl, hrest⟩ := hdrop
      rw [← hrest, Input.flatten_lines]
      exact Machine.readsLine hmore
    · intro hend
      rw [List.drop_of_length_le hend] at hlines
      have hnil := Input.lines_eq_nil_iff.mp hlines
      exact ⟨hnil, Eval.run_readLine_of_end hnil⟩
  · rw [← Input.flatten_lines (after limit m requests).input, hreaders.readBy.lines_left,
      ← List.flatten_append, List.take_append_drop, Input.flatten_lines]

/-- A line that fills the stack, one inside a block that is no text, one without a line feed that finds
no room, and then the end of the input. -/
theorem Request.reads_lines_three :
    ReadsAt 1 (.start 1 ⟨[97, 10, 255, 10, 98]⟩)
        [.dispatch "l", .call ⟨"l"⟩, .run "l", .dispatch "l"]
        [.start 1 ⟨[97, 10, 255, 10, 98]⟩,
          ⟨⟨#[.text "a\n"], 1⟩, .initial, [], ⟨[255, 10, 98]⟩, 1⟩,
          ⟨⟨#[.text "a\n"], 1⟩, .initial, [], ⟨[98]⟩, 0⟩,
          ⟨⟨#[.text "a\n"], 1⟩, .initial, [], ⟨[]⟩, 0⟩] ∧
      (Machine.start 1 ⟨[97, 10, 255, 10, 98]⟩).ReadsLine [97, 10] [255, 10, 98] ∧
      (Machine.mk ⟨#[.text "a\n"], 1⟩ .initial [] ⟨[255, 10, 98]⟩ 1).ReadsLine [255, 10] [98] ∧
      (Machine.mk ⟨#[.text "a\n"], 1⟩ .initial [] ⟨[98]⟩ 0).ReadsLine [98] [] ∧
      EStateM.run Eval.readLine ⟨⟨#[.text "a\n"], 1⟩, .initial, [], ⟨[]⟩, 0⟩ =
        .ok () ⟨⟨#[.text "a\n"], 1⟩, .initial, [], ⟨[]⟩, 0⟩ := by
  obtain ⟨-, hread, hdispatch, hrun, hcall⟩ := reads_lines 1
    [.dispatch "l", .call ⟨"l"⟩, .run "l", .dispatch "l"] (.start 1 ⟨[97, 10, 255, 10, 98]⟩)
  have hfirst : Outcome.machine (EStateM.run (perform 1 (.dispatch "l"))
      (.start 1 ⟨[97, 10, 255, 10, 98]⟩)) =
      ⟨⟨#[.text "a\n"], 1⟩, .initial, [], ⟨[255, 10, 98]⟩, 0⟩ := by cbv
  have hsecond : Outcome.machine (EStateM.run (perform 1 (.call ⟨"l"⟩))
      ⟨⟨#[.text "a\n"], 1⟩, .initial, [], ⟨[255, 10, 98]⟩, 0⟩) =
      ⟨⟨#[.text "a\n"], 1⟩, .initial, [], ⟨[98]⟩, 0⟩ := by cbv
  have hthird : Outcome.machine (EStateM.run (perform 1 (.run "l"))
      ⟨⟨#[.text "a\n"], 1⟩, .initial, [], ⟨[98]⟩, 0⟩) =
      ⟨⟨#[.text "a\n"], 1⟩, .initial, [], ⟨[]⟩, 0⟩ := by cbv
  have hsession : ReadsAt 1 (.start 1 ⟨[97, 10, 255, 10, 98]⟩)
      [.dispatch "l", .call ⟨"l"⟩, .run "l", .dispatch "l"]
      ([.start 1 ⟨[97, 10, 255, 10, 98]⟩] ++
        ([⟨⟨#[.text "a\n"], 1⟩, .initial, [], ⟨[255, 10, 98]⟩, 1⟩] ++
          ([⟨⟨#[.text "a\n"], 1⟩, .initial, [], ⟨[98]⟩, 0⟩] ++
            ([⟨⟨#[.text "a\n"], 1⟩, .initial, [], ⟨[]⟩, 0⟩] ++ [])))) := by
    refine .cons (hdispatch (Eval.call 1) _) ?_
    rw [hfirst]
    refine .cons (hcall _ Nat.zero_lt_one) ?_
    rw [hsecond]
    refine .cons (hrun _) ?_
    rw [hthird]
    exact .cons (hdispatch (Eval.call 1) _) (.nil _)
  have hlines : (Machine.start 1 ⟨[97, 10, 255, 10, 98]⟩).input.lines =
      [[97, 10], [255, 10], [98]] := by decide
  have hreaders := (hread _ hsession).1
  rw [hlines] at hreaders
  exact ⟨hsession, (hreaders 0 _ rfl).1 _ rfl, (hreaders 1 _ rfl).1 _ rfl,
    (hreaders 2 _ rfl).1 _ rfl, ((hreaders 3 _ rfl).2 (by decide)).2⟩

end StackLang
