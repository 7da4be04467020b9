import StackLang.Proofs.Occurrence
import StackLang.Proofs.Pushing
import StackLang.Proofs.Sequence

/-!
# The position of a text in another

The position of a text in another counts the characters in front of its first occurrence. Whoever
looks for the bytes of the one among the bytes of the other finds the same occurrence: a byte with
which encodings begin stands at the beginning of a character (`Text.exists_of_firstByte`), so no
occurrence begins inside one, and before the first one stand the bytes of exactly the characters in
front of it (`Text.firstAt_bytes_iff`).

Main statement: the number that the machine pushes for a text and what is looked for in it is this
position, and -1 exactly if there is none (`Eval.run_position`).
-/

namespace StackLang

namespace Text

/-! ## 1. Characters among bytes -/

/-- The UTF-8 encoding of characters, one behind the other. -/
def bytes (cs : List Char) : List UInt8 :=
  cs.flatMap String.utf8EncodeChar

variable {needle hay : List Char} {j k offset : Nat}

@[simp] theorem bytes_nil : bytes [] = [] := rfl

@[simp] theorem bytes_cons (c : Char) (cs : List Char) :
    bytes (c :: cs) = String.utf8EncodeChar c ++ bytes cs := rfl

@[simp] theorem bytes_append (cs ds : List Char) : bytes (cs ++ ds) = bytes cs ++ bytes ds :=
  List.flatMap_append

/-- The encoding of a character begins with a byte with which encodings begin. -/
theorem exists_firstByte (c : Char) :
    ∃ b tail, String.utf8EncodeChar c = b :: tail ∧ b.IsUTF8FirstByte := by
  cases hc : String.utf8EncodeChar c with
  | nil => exact absurd hc String.utf8EncodeChar_ne_nil
  | cons b tail =>
    have hfirst := UInt8.isUTF8FirstByte_getElem_zero_utf8EncodeChar (c := c)
    simp only [hc, List.getElem_cons_zero] at hfirst
    exact ⟨b, tail, rfl, hfirst⟩

theorem bytes_ne_nil (h : needle ≠ []) : bytes needle ≠ [] := by
  obtain ⟨c, cs, rfl⟩ := List.exists_cons_of_ne_nil h
  rw [bytes_cons]
  exact List.append_ne_nil_of_left_ne_nil String.utf8EncodeChar_ne_nil _

/-- Such a byte stands nowhere else in the encoding of a character. -/
theorem eq_nil_of_firstByte {c : Char} {before after : List UInt8} {b : UInt8}
    (h : String.utf8EncodeChar c = before ++ b :: after) (hb : b.IsUTF8FirstByte) :
    before = [] := by
  have hlt : before.length < (String.utf8EncodeChar c).length := by
    rw [h]
    simp
  have hat : (String.utf8EncodeChar c)[before.length] = b := by simp [h]
  rw [← hat, UInt8.isUTF8FirstByte_getElem_utf8EncodeChar] at hb
  exact List.length_eq_zero_iff.mp hb

/-- **A byte with which encodings begin stands at the beginning of a character.** The induction is
over the characters: the byte lies in the first one, and then at its beginning, or behind it. -/
theorem exists_of_firstByte {cs : List Char} {before after : List UInt8} {b : UInt8}
    (h : bytes cs = before ++ b :: after) (hb : b.IsUTF8FirstByte) :
    ∃ front back, cs = front ++ back ∧ bytes front = before ∧ bytes back = b :: after := by
  induction cs generalizing before with
  | nil => simp at h
  | cons c cs ih =>
    rw [bytes_cons, List.append_eq_append_iff] at h
    rcases h with ⟨before', rfl, hrest⟩ | ⟨head, hc, hrest⟩
    · obtain ⟨front, back, rfl, rfl, hback⟩ := ih hrest
      exact ⟨c :: front, back, rfl, rfl, hback⟩
    · cases head with
      | nil =>
        rw [List.append_nil] at hc
        exact ⟨[c], cs, rfl, by simp [hc], hrest.symm⟩
      | cons b' head =>
        obtain ⟨rfl, htail⟩ := List.cons_eq_cons.mp hrest
        obtain rfl := eq_nil_of_firstByte hc hb
        refine ⟨[], c :: cs, rfl, rfl, ?_⟩
        rw [bytes_cons, hc, htail]
        rfl

/-- Encodings that begin alike begin with the same characters. -/
theorem prefix_of_bytes {cs ds : List Char} (h : bytes cs <+: bytes ds) : cs <+: ds := by
  obtain ⟨after, hafter⟩ := h
  refine List.isPrefix_of_utf8Encode_append_eq_utf8Encode after.toByteArray ?_
  show (bytes cs).toByteArray ++ after.toByteArray = (bytes ds).toByteArray
  rw [← List.toByteArray_append, hafter]

/-! ## 2. Occurrences among bytes -/

/-- The encoding of something stands exactly where the characters stand. -/
theorem occursAt_bytes_iff (hne : needle ≠ []) :
    OccursAt (bytes needle) (bytes hay) offset ↔
      ∃ k, OccursAt needle hay k ∧ (bytes (hay.take k)).length = offset := by
  constructor
  · intro h
    obtain ⟨before, after, hhay, rfl⟩ := occursAt_iff.mp h
    obtain ⟨c, cs, rfl⟩ := List.exists_cons_of_ne_nil hne
    obtain ⟨b, tail, hc, hb⟩ := exists_firstByte c
    have hbytes : bytes hay = before ++ b :: (tail ++ (bytes cs ++ after)) := by
      rw [hhay, bytes_cons, hc]
      simp
    obtain ⟨front, back, rfl, rfl, hback⟩ := exists_of_firstByte hbytes hb
    have hbegins : bytes (c :: cs) <+: bytes back := by
      rw [hback, bytes_cons, hc]
      exact ⟨after, by simp⟩
    obtain ⟨rest, rfl⟩ := prefix_of_bytes hbegins
    refine ⟨front.length, occursAt_length front _ rest, ?_⟩
    rw [List.take_left]
  · rintro ⟨k, h, rfl⟩
    obtain ⟨front, back, rfl, rfl⟩ := occursAt_iff.mp h
    rw [List.take_left, bytes_append, bytes_append]
    exact occursAt_length _ _ _

/-- More characters have more bytes. -/
theorem length_bytes_take_lt (hlt : j < k) (hk : k ≤ hay.length) :
    (bytes (hay.take j)).length < (bytes (hay.take k)).length := by
  have hsplit : hay.take k = hay.take j ++ (hay.drop j).take (k - j) := by
    rw [← List.take_add, Nat.add_sub_of_le (Nat.le_of_lt hlt)]
  have hbetween : (hay.drop j).take (k - j) ≠ [] := by
    intro hnil
    have hlength := congrArg List.length hnil
    rw [List.length_take, List.length_drop, List.length_nil] at hlength
    omega
  have hpos := List.length_pos_of_ne_nil (bytes_ne_nil hbetween)
  rw [hsplit, bytes_append, List.length_append]
  omega

/-- **The first occurrence of the bytes is that of the characters**, behind the bytes of the characters
in front of it. -/
theorem firstAt_bytes_iff :
    FirstAt (bytes needle) (bytes hay) offset ↔
      ∃ k, FirstAt needle hay k ∧ (bytes (hay.take k)).length = offset := by
  by_cases hne : needle = []
  · subst hne
    simp [firstAt_nil_iff, eq_comm]
  · unfold FirstAt
    constructor
    · rintro ⟨hat, hbefore⟩
      obtain ⟨k, hk, rfl⟩ := (occursAt_bytes_iff hne).mp hat
      refine ⟨k, ⟨hk, fun j hj hoccurs => ?_⟩, rfl⟩
      have hbytes := (occursAt_bytes_iff hne).mpr ⟨j, hoccurs, rfl⟩
      exact hbefore _ (length_bytes_take_lt hj hk.1) hbytes
    · rintro ⟨k, ⟨hk, hbefore⟩, rfl⟩
      refine ⟨(occursAt_bytes_iff hne).mpr ⟨k, hk, rfl⟩, fun i hi hoccurs => ?_⟩
      obtain ⟨j, hj, rfl⟩ := (occursAt_bytes_iff hne).mp hoccurs
      rcases Nat.lt_trichotomy j k with hlt | rfl | hgt
      · exact hbefore j hlt hj
      · exact Nat.lt_irrefl _ hi
      · exact Nat.lt_asymm hi (length_bytes_take_lt hgt hj.1)

end Text

/-! ## 3. The number -/

namespace BinaryOperator

/-- The position as a number: that of the first place, or -1 if there is none. -/
def place (needle hay : List Char) : Int :=
  match Text.indexOf? needle hay with
  | some k => k
  | none => -1

variable {needle hay : List Char}

theorem place_eq_iff {k : Nat} : place needle hay = k ↔ FirstAt needle hay k := by
  rw [← Text.indexOf?_eq_some_iff]
  unfold place
  split
  case h_1 j hj => rw [hj, Int.natCast_inj, Option.some.injEq]
  case h_2 hnone => simp [hnone]

theorem place_eq_neg_one_iff : place needle hay = -1 ↔ ¬needle <:+: hay := by
  rw [← Text.indexOf?_eq_none_iff]
  unfold place
  split
  case h_1 j hj => simp [hj]
  case h_2 hnone => simp [hnone]

/-- In a text with no more characters than a machine integer counts, the position is one. -/
theorem inRange_place (needle : List Char) (h : hay.length ≤ 9223372036854775807) :
    Integer.InRange (place needle hay) := by
  unfold place
  split
  case h_1 k hk =>
    have hle := (Text.indexOf?_eq_some_iff.mp hk).1.1
    exact ⟨by omega, by omega⟩
  case h_2 => decide

theorem position_eq (needle hay : List Char) :
    position needle hay = checked .search (Integer.narrow? (place needle hay)) := by
  unfold position place
  cases Text.indexOf? needle hay <;> rfl

/-- The operator looks for the text of its second operand, whether that is a text or a character. -/
theorem act_search [Allocator] {needle : Value}
    (hneedle : needle.tag = .text ∨ needle.tag = .character) (text : String) :
    act .power (.text text) needle =
      (checked .search (Integer.narrow? (place needle.render.toList text.toList))).map .result := by
  rw [← position_eq]
  cases needle with
  | text s => rw [Value.render_text]; rfl
  | character c => rw [Value.render_character, String.toList_singleton]; rfl
  | _ => simp at hneedle

end BinaryOperator

namespace Eval

/-- **The position of a text in another counts the characters in front of its first occurrence**, and it
is -1 exactly if it occurs nowhere; the empty text stands at the beginning. The same occurrence is the
first one among the bytes. The number takes the place of the operands; it can be out of range only in a
text with more characters than a machine integer counts. -/
theorem run_position [Allocator] (limit : Nat) (text : String) {needle : Value}
    (hneedle : needle.tag = .text ∨ needle.tag = .character) (m : Machine)
    (hfits : (m.add [.text text, needle]).stack.Fits) :
    ∃ n : Int,
      EStateM.run (run limit "#") (m.add [.text text, needle]) =
        (if Integer.InRange n then .ok () (m.add [.integer (Int64.ofInt n)])
        else .error (.integerOverflow .search) m) ∧
      (text.length ≤ 9223372036854775807 → Integer.InRange n) ∧
      (∀ k : Nat, n = k ↔ FirstAt needle.render.toList text.toList k) ∧
      (n = -1 ↔ ¬needle.render.toList <:+: text.toList) ∧
      (needle.render = "" → n = 0) ∧
      (∀ offset, FirstAt (Text.bytes needle.render.toList) (Text.bytes text.toList) offset ↔
        0 ≤ n ∧ (Text.bytes (text.toList.take n.toNat)).length = offset) := by
  have hsymbol : run limit "#" = applyBinary (call limit) .power :=
    run_symbol limit (.binary .power)
  refine ⟨BinaryOperator.place needle.render.toList text.toList, ?_, fun hlength => ?_,
    fun k => BinaryOperator.place_eq_iff, BinaryOperator.place_eq_neg_one_iff, fun hempty => ?_,
    fun offset => ?_⟩
  · have hact := BinaryOperator.act_search hneedle text
    unfold Integer.narrow? at hact
    rw [hsymbol]
    by_cases hrange :
        Integer.InRange (BinaryOperator.place needle.render.toList text.toList)
    · rw [if_pos hrange] at hact ⊢
      exact run_applyBinary_of_result (call limit) hfits.lt_of_add hact
    · rw [if_neg hrange] at hact ⊢
      exact run_applyBinary_of_error (call limit) hact
  · rw [← String.length_toList] at hlength
    exact BinaryOperator.inRange_place _ hlength
  · rw [hempty]
    exact BinaryOperator.place_eq_iff.mpr (firstAt_nil_iff.mpr rfl)
  · rw [Text.firstAt_bytes_iff]
    constructor
    · rintro ⟨k, hk, rfl⟩
      rw [BinaryOperator.place_eq_iff.mpr hk]
      exact ⟨Int.natCast_nonneg k, rfl⟩
    · rintro ⟨hnonneg, rfl⟩
      obtain ⟨k, hk⟩ := Int.eq_ofNat_of_zero_le hnonneg
      rw [hk]
      exact ⟨k, BinaryOperator.place_eq_iff.mp hk, rfl⟩

/-- A character behind another one that shares its first bytes, in a text of characters of one to four
bytes. -/
theorem run_position_character :
    ((Value.character '€').tag = .text ∨ (Value.character '€').tag = .character) ∧
    ((Machine.start 2 .empty).add [.text "a𝄞é₭€€", .character '€']).stack.Fits ∧
    EStateM.run (run 0 "#") ((Machine.start 2 .empty).add [.text "a𝄞é₭€€", .character '€']) =
      .ok () ⟨⟨#[.integer 4], 2⟩, .initial, [], .empty, 0⟩ ∧
    FirstAt "€".toList "a𝄞é₭€€".toList 4 ∧
    FirstAt (Text.bytes "€".toList) (Text.bytes "a𝄞é₭€€".toList) 10 := by
  have hneedle : (Value.character '€').tag = .text ∨ (Value.character '€').tag = .character :=
    .inr rfl
  have hfits : ((Machine.start 2 .empty).add [.text "a𝄞é₭€€", .character '€']).stack.Fits :=
    Nat.le_refl 2
  obtain ⟨n, hrun, _, hplace, _, _, hbytes⟩ :=
    run_position 0 "a𝄞é₭€€" hneedle (.start 2 .empty) hfits
  have hfirst : FirstAt "€".toList "a𝄞é₭€€".toList 4 := by decide
  obtain rfl : n = 4 := (hplace 4).mpr hfirst
  rw [if_pos (by decide)] at hrun
  exact ⟨hneedle, hfits, hrun, hfirst, (hbytes 10).mpr (by decide)⟩

end Eval

end StackLang
