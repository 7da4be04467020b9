/-!
# Input

The bytes that have not been read yet. They are read line by line: a line reaches up to and with
the next line feed, or to the end if there is none. Lines lose nothing (`Input.line_append_rest`);
a line is a text if its bytes are well-formed UTF-8 (`Input.decode?`).
-/

namespace StackLang

/-- Bytes waiting to be read. -/
structure Input where
  unread : List UInt8
  deriving DecidableEq, Repr

namespace Input

/-- The byte that ends a line. -/
def lineFeed : UInt8 := 10

/-- No input. -/
def empty : Input :=
  ⟨[]⟩

/-- The bytes of a text as input. -/
def ofText (s : String) : Input :=
  ⟨s.toUTF8.toList⟩

/-- The bytes of the next line, with its line feed; none at the end of the input. -/
def line (input : Input) : List UInt8 :=
  input.unread.takeWhile (· ≠ lineFeed) ++ (input.unread.dropWhile (· ≠ lineFeed)).take 1

/-- The input behind the next line. -/
def rest (input : Input) : Input :=
  ⟨(input.unread.dropWhile (· ≠ lineFeed)).drop 1⟩

/-- The next line and the rest make up the input. -/
theorem line_append_rest (input : Input) : input.line ++ input.rest.unread = input.unread := by
  rw [line, rest, List.append_assoc, List.take_append_drop, List.takeWhile_append_dropWhile]

/-- The next line is empty exactly at the end of the input. -/
theorem line_eq_nil_iff {input : Input} : input.line = [] ↔ input.unread = [] := by
  obtain ⟨unread⟩ := input
  cases unread with
  | nil => simp [line]
  | cons b bs => by_cases h : b = lineFeed <;> simp [line, h]

/-- The text of a line of bytes, if they are well-formed UTF-8. -/
def decode? (bytes : List UInt8) : Option String :=
  String.fromUTF8? ⟨bytes.toArray⟩

end Input

end StackLang
