import StackLang.Input

/-!
# The bytes of a text

A text as input are the UTF-8 encodings of its characters, one behind the other
(`Input.unread_ofText`), and reading these bytes gives the text back (`Input.decode?_ofText`). The
bytes of a longer encoding are all large (`Input.mem_utf8EncodeChar`), so a text without a line feed
is one line, whatever characters it consists of.
-/

namespace StackLang

namespace Input

/-! ## 1. Encoding and decoding -/

theorem toList_loop (bytes : ByteArray) (index : Nat) (seen : List UInt8) :
    ByteArray.toList.loop bytes index seen = seen.reverse ++ bytes.data.toList.drop index := by
  fun_induction ByteArray.toList.loop bytes index seen with
  | case1 index seen hlt ih =>
    have hlt' : index < bytes.data.toList.length := hlt
    rw [ih, List.drop_eq_getElem_cons hlt', List.reverse_cons, List.append_assoc]
    simp [ByteArray.get!, hlt]
  | case2 index seen hle =>
    have hle' : bytes.data.toList.length ≤ index := Nat.le_of_not_lt hle
    rw [List.drop_eq_nil_of_le hle', List.append_nil]

theorem unread_ofText_eq_data (s : String) : (ofText s).unread = s.toByteArray.data.toList :=
  toList_loop s.toByteArray 0 []

/-- A text is encoded character by character. -/
theorem unread_ofText (s : String) :
    (ofText s).unread = s.toList.flatMap String.utf8EncodeChar := by
  rw [unread_ofText_eq_data, ← String.utf8Encode_toList]
  exact List.toList_data_toByteArray

theorem unread_ofText_append (s t : String) :
    (ofText (s ++ t)).unread = (ofText s).unread ++ (ofText t).unread := by
  rw [unread_ofText, unread_ofText, unread_ofText, String.toList_append, List.flatMap_append]

/-- **The bytes of a text are read as this text.** -/
theorem decode?_ofText (s : String) : decode? (ofText s).unread = some s := by
  have hbytes : ByteArray.mk (ofText s).unread.toArray = s.toByteArray := by
    rw [unread_ofText_eq_data]
  rw [decode?, hbytes, String.fromUTF8?, dif_pos s.isValidUTF8]
  rfl

/-- Bytes are read as a text exactly if they are the bytes of this text. -/
theorem decode?_eq_some_iff {bytes : List UInt8} {s : String} :
    decode? bytes = some s ↔ (ofText s).unread = bytes := by
  constructor
  · intro h
    rw [decode?, String.fromUTF8?] at h
    split at h
    · cases h
      rw [unread_ofText_eq_data]
      rfl
    · cases h
  · rintro rfl
    exact decode?_ofText s

theorem decode?_eq_none_iff {bytes : List UInt8} :
    decode? bytes = none ↔ ∀ s, (ofText s).unread ≠ bytes := by
  rw [Option.eq_none_iff_forall_ne_some]
  exact forall_congr' fun s => not_congr decode?_eq_some_iff

/-! ## 2. Line feeds -/

/-- A byte of a character is the character itself, or large. -/
theorem mem_utf8EncodeChar {b : UInt8} {c : Char} (h : b ∈ String.utf8EncodeChar c) :
    b.toNat = c.toNat ∨ 128 ≤ b.toNat := by
  unfold String.utf8EncodeChar at h
  dsimp only at h
  have hcode : c.val.toNat = c.toNat := rfl
  split at h
  case isTrue =>
    obtain rfl := List.mem_singleton.mp h
    left
    rw [UInt8.toNat_ofNat']
    omega
  case isFalse =>
    right
    -- to the few bits of the code point that a byte carries at least 128 is added
    have large : ∀ n : Nat, 128 ≤ n → n < 256 → b = UInt8.ofNat n → 128 ≤ b.toNat := by
      rintro n hle hlt rfl
      rw [UInt8.toNat_ofNat']
      omega
    split at h
    case isTrue =>
      simp only [List.mem_cons, List.not_mem_nil, or_false] at h
      rcases h with h | h <;> exact large _ (by omega) (by omega) h
    case isFalse =>
      split at h
      case isTrue =>
        simp only [List.mem_cons, List.not_mem_nil, or_false] at h
        rcases h with h | h | h <;> exact large _ (by omega) (by omega) h
      case isFalse =>
        simp only [List.mem_cons, List.not_mem_nil, or_false] at h
        rcases h with h | h | h | h <;> exact large _ (by omega) (by omega) h

theorem eq_of_lineFeed_mem {c : Char} (h : lineFeed ∈ String.utf8EncodeChar c) : c = '\n' := by
  rcases mem_utf8EncodeChar h with hsame | hlarge
  · exact Char.toNat_inj.mp hsame.symm
  · exact absurd hlarge (by decide)

/-- **A text without a line feed has no line feed among its bytes.** -/
theorem lineFeed_notMem_ofText {s : String} (h : '\n' ∉ s.toList) :
    lineFeed ∉ (ofText s).unread := by
  rw [unread_ofText]
  intro hmem
  obtain ⟨c, hc, hbyte⟩ := List.mem_flatMap.mp hmem
  exact h (eq_of_lineFeed_mem hbyte ▸ hc)

end Input

end StackLang
