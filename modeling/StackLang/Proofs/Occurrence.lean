import StackLang.Text.Search

/-!
# Where a list stands in another

A list stands at a place of another one if it is what begins there (`OccursAt`). If it stands
anywhere there is exactly one first place (`FirstAt`, `FirstAt.unique`), and that is what the search
finds (`Text.indexOf?_eq_some_iff`, `Text.indexOf?_eq_none_iff`).

What follows behind an occurrence does not move it: an occurrence that ends inside a list is the same
in every longer list (`occursAt_append_iff`).
-/

namespace StackLang

/-- `needle` stands in `hay` behind the first `k` elements. -/
def OccursAt {α : Type} (needle hay : List α) (k : Nat) : Prop :=
  k ≤ hay.length ∧ needle <+: hay.drop k

/-- `needle` stands in `hay` behind the first `k` elements and nowhere before. -/
def FirstAt {α : Type} (needle hay : List α) (k : Nat) : Prop :=
  OccursAt needle hay k ∧ ∀ j < k, ¬OccursAt needle hay j

variable {α : Type} {needle hay front back : List α} {a : α} {j k : Nat}

instance [DecidableEq α] (needle hay : List α) (k : Nat) : Decidable (OccursAt needle hay k) :=
  inferInstanceAs (Decidable (_ ∧ _))

instance [DecidableEq α] (needle hay : List α) (k : Nat) : Decidable (FirstAt needle hay k) :=
  inferInstanceAs (Decidable (_ ∧ _))

/-! ## 1. Places -/

/-- An occurrence divides the list into what stands before it, itself and what stands behind it. -/
theorem occursAt_iff :
    OccursAt needle hay k ↔ ∃ front back, hay = front ++ (needle ++ back) ∧ front.length = k := by
  constructor
  · rintro ⟨hle, back, hback⟩
    refine ⟨hay.take k, back, ?_, List.length_take_of_le hle⟩
    rw [hback, List.take_append_drop]
  · rintro ⟨front, back, rfl, rfl⟩
    refine ⟨by simp, back, ?_⟩
    rw [List.drop_left]

theorem occursAt_length (front needle back : List α) :
    OccursAt needle (front ++ (needle ++ back)) front.length :=
  occursAt_iff.mpr ⟨front, back, rfl, rfl⟩

/-- An occurrence ends inside the list. -/
theorem OccursAt.add_length_le (h : OccursAt needle hay k) : k + needle.length ≤ hay.length := by
  obtain ⟨front, back, rfl, rfl⟩ := occursAt_iff.mp h
  simp only [List.length_append]
  omega

theorem infix_iff_exists_occursAt : needle <:+: hay ↔ ∃ k, OccursAt needle hay k := by
  constructor
  · rintro ⟨front, back, rfl⟩
    rw [List.append_assoc]
    exact ⟨front.length, occursAt_length front needle back⟩
  · rintro ⟨k, h⟩
    obtain ⟨front, back, rfl, -⟩ := occursAt_iff.mp h
    exact ⟨front, back, List.append_assoc front needle back⟩

/-- What stands behind a list does not matter to an occurrence that ends inside it. -/
theorem occursAt_append_iff (h : k + needle.length ≤ hay.length) (back : List α) :
    OccursAt needle (hay ++ back) k ↔ OccursAt needle hay k := by
  have hk : k ≤ hay.length := by omega
  have hlength : needle.length ≤ (hay.drop k).length := by
    rw [List.length_drop]
    omega
  unfold OccursAt
  rw [List.drop_append_of_le_length hk, List.length_append]
  constructor
  · rintro ⟨-, hbegins⟩
    exact ⟨hk, List.prefix_of_prefix_length_le hbegins (List.prefix_append _ _) hlength⟩
  · rintro ⟨-, hbegins⟩
    exact ⟨by omega, hbegins.trans (List.prefix_append _ _)⟩

@[simp] theorem occursAt_zero : OccursAt needle hay 0 ↔ needle <+: hay := by
  simp [OccursAt]

@[simp] theorem occursAt_cons_succ :
    OccursAt needle (a :: hay) (k + 1) ↔ OccursAt needle hay k := by
  simp [OccursAt]

/-! ## 2. The first place -/

/-- There is only one first place. -/
theorem FirstAt.unique (hj : FirstAt needle hay j) (hk : FirstAt needle hay k) : j = k := by
  rcases Nat.lt_trichotomy j k with hlt | heq | hgt
  · exact absurd hj.1 (hk.2 j hlt)
  · exact heq
  · exact absurd hk.1 (hj.2 k hgt)

/-- Wherever a list stands, it has a first place. -/
theorem OccursAt.exists_firstAt (h : OccursAt needle hay k) : ∃ j, FirstAt needle hay j := by
  induction k using Nat.strongRecOn with
  | ind k ih =>
    by_cases hbefore : ∃ j, j < k ∧ OccursAt needle hay j
    · obtain ⟨j, hj, hat⟩ := hbefore
      exact ih j hj hat
    · exact ⟨k, h, fun j hj hat => hbefore ⟨j, hj, hat⟩⟩

theorem infix_iff_exists_firstAt : needle <:+: hay ↔ ∃ k, FirstAt needle hay k := by
  rw [infix_iff_exists_occursAt]
  constructor
  · rintro ⟨k, h⟩
    exact h.exists_firstAt
  · rintro ⟨k, h⟩
    exact ⟨k, h.1⟩

/-- What stands behind an occurrence does not make it any later. -/
theorem firstAt_length_append_iff (front needle back : List α) :
    FirstAt needle (front ++ (needle ++ back)) front.length ↔
      FirstAt needle (front ++ needle) front.length := by
  have hat : ∀ j ≤ front.length,
      OccursAt needle (front ++ (needle ++ back)) j ↔ OccursAt needle (front ++ needle) j := by
    intro j hj
    rw [← List.append_assoc]
    refine occursAt_append_iff ?_ back
    rw [List.length_append]
    omega
  unfold FirstAt
  rw [hat _ (Nat.le_refl _)]
  refine and_congr_right fun _ => forall₂_congr fun j hj => ?_
  rw [hat j (Nat.le_of_lt hj)]

@[simp] theorem firstAt_zero : FirstAt needle hay 0 ↔ needle <+: hay := by
  simp [FirstAt]

theorem firstAt_cons_succ :
    FirstAt needle (a :: hay) (k + 1) ↔ ¬needle <+: a :: hay ∧ FirstAt needle hay k := by
  unfold FirstAt
  rw [occursAt_cons_succ]
  constructor
  · rintro ⟨hat, hbefore⟩
    refine ⟨?_, hat, fun j hj => ?_⟩
    · simpa using hbefore 0 (Nat.succ_pos k)
    · simpa using hbefore (j + 1) (Nat.succ_lt_succ hj)
  · rintro ⟨hnot, hat, hbefore⟩
    refine ⟨hat, fun j hj => ?_⟩
    cases j with
    | zero => simpa using hnot
    | succ j => simpa using hbefore j (Nat.lt_of_succ_lt_succ hj)

/-- The empty list stands first at the beginning. -/
theorem firstAt_nil_iff : FirstAt [] hay k ↔ k = 0 := by
  have hzero : FirstAt [] hay 0 := firstAt_zero.mpr (List.nil_prefix)
  constructor
  · intro h
    exact h.unique hzero
  · rintro rfl
    exact hzero

/-! ## 3. The search -/

namespace Text

variable {needle hay : List Char} {k : Nat}

theorem indexFrom?_eq (needle : List Char) (index : Nat) (hay : List Char) :
    indexFrom? needle index hay = (indexOf? needle hay).map (index + ·) := by
  unfold indexOf?
  induction hay generalizing index with
  | nil =>
    unfold indexFrom?
    split <;> simp
  | cons c hay ih =>
    unfold indexFrom?
    split
    · simp
    · rw [ih (index + 1), ih (0 + 1), Option.map_map]
      congr 1
      funext k
      simp only [Function.comp_apply]
      omega

theorem indexOf?_cons (needle : List Char) (c : Char) (hay : List Char) :
    indexOf? needle (c :: hay) =
      if needle <+: c :: hay then some 0 else (indexOf? needle hay).map (· + 1) := by
  rw [indexOf?, indexFrom?, indexFrom?_eq]
  simp only [List.isPrefixOf_iff_prefix, Nat.zero_add, Nat.add_comm 1]

/-- **The search finds the first place.** The induction is over the list that is searched: either
the other list begins here, or the place is one behind that in the rest. -/
theorem indexOf?_eq_some_iff : indexOf? needle hay = some k ↔ FirstAt needle hay k := by
  induction hay generalizing k with
  | nil =>
    by_cases hnil : needle = []
    · subst hnil
      rw [indexOf?_nil, firstAt_nil_iff, Option.some.injEq, eq_comm]
    · have hsearch : indexOf? needle [] = none := by simp [indexOf?, indexFrom?, hnil]
      rw [hsearch]
      simp [FirstAt, OccursAt, hnil]
  | cons c hay ih =>
    rw [indexOf?_cons]
    by_cases hbegins : needle <+: c :: hay
    · rw [if_pos hbegins, Option.some.injEq]
      constructor
      · rintro rfl
        exact firstAt_zero.mpr hbegins
      · intro h
        exact (firstAt_zero.mpr hbegins).unique h
    · rw [if_neg hbegins, Option.map_eq_some_iff]
      cases k with
      | zero => simp [hbegins]
      | succ k =>
        rw [firstAt_cons_succ, ← ih]
        simp [hbegins]

/-- **The search fails exactly if there is no place.** -/
theorem indexOf?_eq_none_iff : indexOf? needle hay = none ↔ ¬needle <:+: hay := by
  rw [infix_iff_exists_firstAt, not_exists, Option.eq_none_iff_forall_ne_some]
  refine forall_congr' fun k => not_congr ?_
  exact indexOf?_eq_some_iff

end Text

end StackLang
