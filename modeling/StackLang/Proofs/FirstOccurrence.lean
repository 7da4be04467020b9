/-!
# A list divided at the first occurrence of an element

What stands before the first occurrence does not hold the element, and any such list with the
element behind it is divided there. Quoted texts end at the first quote and lines at the first line
feed.
-/

namespace StackLang

variable {α : Type} [DecidableEq α] {a b : α} {before after l : List α}

theorem decide_ne_of_notMem (h : a ∉ before) : ∀ c ∈ before, decide (c ≠ a) = true := by
  intro c hc
  simpa using fun heq : c = a => h (heq ▸ hc)

theorem takeWhile_ne_append (h : a ∉ before) (after : List α) :
    (before ++ a :: after).takeWhile (· ≠ a) = before := by
  rw [List.takeWhile_append_of_pos (decide_ne_of_notMem h)]
  simp

theorem dropWhile_ne_append (h : a ∉ before) (after : List α) :
    (before ++ a :: after).dropWhile (· ≠ a) = a :: after := by
  rw [List.dropWhile_append_of_pos (decide_ne_of_notMem h)]
  simp

/-- Where something is left, the element stands first in it and nowhere before. -/
theorem of_dropWhile_ne (h : l.dropWhile (· ≠ a) = b :: after) :
    b = a ∧ a ∉ l.takeWhile (· ≠ a) ∧ l = l.takeWhile (· ≠ a) ++ b :: after := by
  refine ⟨?_, fun hmem => ?_, ?_⟩
  · have hhead := List.head?_dropWhile_not (· ≠ a) l
    rw [h] at hhead
    simpa using hhead
  · have hall := List.all_takeWhile (p := (· ≠ a)) (l := l)
    simpa using List.all_eq_true.mp hall a hmem
  · rw [← h, List.takeWhile_append_dropWhile]

end StackLang
