import Quill.Text.Measure

/-!
The bytes of a text. Offsets count bytes while the lexer reads characters; what is said here
lets a fact about the one be read as a fact about the other. Only the plain characters,
below 128, are bytes by themselves: all bytes of other characters lie above them, so a plain
byte is never met inside a character.
-/

namespace Quill.Text

set_option autoImplicit false

def byte? (source : String) (offset : Nat) : Option UInt8 := source.toUTF8.data[offset]?

def bytes (text : List Char) : List UInt8 := text.flatMap String.utf8EncodeChar

@[simp] theorem bytes_nil : bytes [] = [] := rfl

@[simp] theorem bytes_cons (char : Char) (text : List Char) :
    bytes (char :: text) = String.utf8EncodeChar char ++ bytes text := rfl

@[simp] theorem bytes_append (left right : List Char) :
    bytes (left ++ right) = bytes left ++ bytes right := List.flatMap_append

@[simp] theorem length_bytes (text : List Char) : (bytes text).length = byteLength text := by
  induction text with
  | nil => rfl
  | cons char text induction => simp [induction]

theorem source_bytes (source : String) : source.toUTF8.data.toList = bytes source.toList := by
  rw [String.toUTF8_eq_toByteArray, ← String.utf8Encode_toList]
  simp [List.utf8Encode, bytes]

theorem byte_eq (source : String) (offset : Nat) :
    byte? source offset = (bytes source.toList)[offset]? := by
  rw [byte?, ← Array.getElem?_toList, source_bytes]

theorem byte_length_source (source : String) : byteLength source.toList = source.utf8ByteSize := by
  rw [← length_bytes, ← source_bytes, Array.length_toList]
  exact String.size_toByteArray

/-- A character that is one byte by itself. All bytes of other characters are larger, so a plain
byte found in an encoding always stands for its character. -/
def Plain (char : Char) : Prop := char.val.toNat < 128

instance (char : Char) : Decidable (Plain char) := inferInstanceAs (Decidable (_ < _))

theorem plain_encoded {char : Char} (plain : Plain char) :
    String.utf8EncodeChar char = [char.toUInt8] := by
  have small : char.val.toNat ≤ 127 := Nat.le_of_lt_succ plain
  unfold String.utf8EncodeChar
  simp only [small, if_true]
  rfl

theorem plain_size {char : Char} (plain : Plain char) : char.utf8Size = 1 := by
  rw [← String.length_utf8EncodeChar, plain_encoded plain, List.length_singleton]

theorem plain_byte {char : Char} (plain : Plain char) : char.toUInt8.toNat = char.val.toNat := by
  have small : char.val.toNat < 128 := plain
  simp only [Char.toUInt8, UInt32.toNat_toUInt8]
  omega

theorem plain_byte_inj {char other : Char} (plain : Plain char) (otherPlain : Plain other)
    (same : char.toUInt8 = other.toUInt8) : char = other := by
  have values : char.val.toNat = other.val.toNat := by
    rw [← plain_byte plain, ← plain_byte otherPlain, same]
  exact Char.ext (UInt32.toNat_inj.1 values)

theorem encoded_large {char : Char} (notPlain : ¬ Plain char) :
    ∀ byte ∈ String.utf8EncodeChar char, 128 ≤ byte.toNat := by
  have large : ¬ char.val.toNat ≤ 127 := fun small => notPlain (Nat.lt_succ_of_le small)
  intro byte member
  unfold String.utf8EncodeChar at member
  simp only [large, if_false] at member
  split at member
  · simp only [List.mem_cons, List.not_mem_nil, or_false] at member
    rcases member with rfl | rfl <;> simp <;> omega
  · split at member
    · simp only [List.mem_cons, List.not_mem_nil, or_false] at member
      rcases member with rfl | rfl | rfl <;> simp <;> omega
    · simp only [List.mem_cons, List.not_mem_nil, or_false] at member
      rcases member with rfl | rfl | rfl | rfl <;> simp <;> omega

/-- A plain character occurs among the bytes of a text as often as among its characters, since all
bytes of other characters are larger. -/
theorem count_bytes {char : Char} (plain : Plain char) (text : List Char) :
    (bytes text).count char.toUInt8 = text.count char := by
  induction text with
  | nil => rfl
  | cons first text induction =>
      rw [bytes_cons, List.count_append, induction, List.count_cons]
      by_cases firstPlain : Plain first
      · rw [plain_encoded firstPlain, List.count_singleton]
        by_cases same : first = char
        · simp [same, Nat.add_comm]
        · have different : first.toUInt8 ≠ char.toUInt8 := fun bytes =>
            same (plain_byte_inj firstPlain plain bytes)
          simp [same, different]
      · have absent : char.toUInt8 ∉ String.utf8EncodeChar first := by
          intro member
          have large := encoded_large firstPlain _ member
          have small := plain_byte plain
          unfold Plain at plain
          omega
        have different : first ≠ char := by
          rintro rfl
          exact firstPlain plain
        simp [List.count_eq_zero.2 absent, different]

theorem mem_bytes {char : Char} (plain : Plain char) (text : List Char) :
    char.toUInt8 ∈ bytes text ↔ char ∈ text := by
  rw [← List.count_pos_iff, ← List.count_pos_iff, count_bytes plain]

/-- The byte behind a front is that of a plain character only if the text goes on with it. What is
said of bytes at an offset becomes a statement about characters here. -/
theorem byte_behind {source : String} {front behind : List Char} {char : Char}
    (parts : source.toList = front ++ behind) (plain : Plain char) :
    byte? source (byteLength front) = some char.toUInt8 ↔ behind.head? = some char := by
  rw [byte_eq, parts, bytes_append, List.getElem?_append_right (by simp), length_bytes,
    Nat.sub_self, ← List.head?_eq_getElem?]
  cases behind with
  | nil => simp
  | cons first rest =>
      rw [bytes_cons, List.head?_cons, Option.some.injEq]
      by_cases firstPlain : Plain first
      · rw [plain_encoded firstPlain, List.singleton_append, List.head?_cons, Option.some.injEq]
        exact ⟨plain_byte_inj firstPlain plain, fun same => same ▸ rfl⟩
      · constructor
        · intro head
          have present : String.utf8EncodeChar first ≠ [] := by
            rw [← List.length_pos_iff, String.length_utf8EncodeChar]
            exact first.utf8Size_pos
          obtain ⟨byte, others, encoded⟩ := List.exists_cons_of_ne_nil present
          have large := encoded_large firstPlain byte (encoded ▸ List.mem_cons_self)
          rw [encoded, List.cons_append, List.head?_cons, Option.some.injEq] at head
          have small : char.val.toNat < 128 := plain
          rw [head, plain_byte plain] at large
          omega
        · rintro rfl
          exact absurd plain firstPlain

theorem byte_length_succ (char : Char) (text : List Char) :
    ∃ count, byteLength (char :: text) = count + 1 ∧ char.utf8Size ≤ count + 1 ∧
      count + 1 - char.utf8Size = byteLength text := by
  have positive := char.utf8Size_pos
  refine ⟨char.utf8Size + byteLength text - 1, ?_, ?_, ?_⟩
  · rw [byte_length_cons]
    omega
  · omega
  · omega

theorem newlines_before_append (front back : List Char) :
    newlinesBefore (front ++ back) (byteLength front) = front.count '\n' := by
  induction front with
  | nil => cases back <;> rfl
  | cons char front induction =>
      obtain ⟨count, isCount, -, left⟩ := byte_length_succ char front
      rw [List.cons_append, isCount, newlinesBefore, left, induction, List.count_cons]
      simp only [beq_iff_eq]
      exact Nat.add_comm _ _

theorem split_at_front (front back : List Char) :
    splitAtByte? (front ++ back) (byteLength front) = some (front, back) := by
  induction front with
  | nil => cases back <;> rfl
  | cons char front induction =>
      obtain ⟨count, isCount, fits, left⟩ := byte_length_succ char front
      rw [List.cons_append, isCount, splitAtByte?, if_pos fits, left, induction]
      rfl

theorem slice_between (front middle back : List Char) :
    slice? (front ++ middle ++ back) (byteLength front) (byteLength front + byteLength middle) =
      some middle := by
  unfold slice?
  rw [if_pos (Nat.le_add_right _ _), List.append_assoc, split_at_front, Nat.add_sub_cancel_left]
  simp [split_at_front]

end Quill.Text
