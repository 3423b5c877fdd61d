import Stdx.Foundation.Blocks

/-! # Cutting a string

`truncate` cuts the bytes of a string where `is_char_boundary` finds the beginning of a
character, for which it looks at a single byte. In the encoding of characters the bytes
that it takes for a beginning are those that are one
(`Stdx.ByteString.marked_utf8EncodeChar`), so what is left is an encoding again
(`Stdx.ByteString.truncate_utf8`).
-/

namespace Stdx

open Foundation

/-- `String`, without its allocator. -/
structure ByteString where
  vec : List UInt8
deriving DecidableEq

/-- `is_utf8_char_boundary`. -/
def isUtf8CharBoundary (x : UInt8) : Bool := decide (-0x40 ≤ x.toInt8)

namespace ByteString

/-- `len`. -/
def len (string : ByteString) : Nat := string.vec.length

/-- `is_char_boundary`. -/
def isCharBoundary (string : ByteString) (index : Nat) : Bool :=
  if index = 0 then
    true
  else if inside : index < string.vec.length then
    isUtf8CharBoundary string.vec[index]
  else
    index = string.len

/-- `truncate`; there is no result when the assertion fails. -/
def truncate (string : ByteString) (newLen : Nat) : Option ByteString :=
  if newLen ≤ string.len then
    if string.isCharBoundary newLen then some ⟨string.vec.take newLen⟩ else none
  else
    some string

/-- The string of some characters. -/
def utf8 (chars : List Char) : ByteString := ⟨chars.flatMap String.utf8EncodeChar⟩

/-- The promise of `truncate`: a length that is not smaller changes nothing, a smaller one
leaves the encoding of the first characters or fails, and it fails inside a character. -/
structure Cuts (chars : List Char) (newLen : Nat) (outcome : Option ByteString) : Prop where
  longer : (utf8 chars).len < newLen → outcome = some (utf8 chars)
  shorter : newLen ≤ (utf8 chars).len → outcome = none ∨
    ∃ front, front <+: chars ∧ (utf8 front).len = newLen ∧ outcome = some (utf8 front)
  fails : outcome = none ↔ IsInside String.utf8EncodeChar chars newLen

/-! ## The bytes of a character -/

/-- The signed comparison leaves out the bytes from `0x80` to `0xbf`. -/
theorem isUtf8CharBoundary_ofNat {n : Nat} (byte : n < 0x100) :
    isUtf8CharBoundary (UInt8.ofNat n) = true ↔ n < 0x80 ∨ 0xc0 ≤ n := by
  unfold isUtf8CharBoundary
  rw [decide_eq_true_iff, Int8.le_iff_toInt_le, UInt8.toInt8_ofNat', Int8.toInt_ofNat']
  change (-0x40 : Int) ≤ (n : Int).bmod 0x100 ↔ _
  rw [Int.bmod_def]
  split
  · omega
  · omega

/-- The last six bits of a part of a character. -/
theorem not_boundary_continuation (part : Nat) :
    isUtf8CharBoundary (UInt8.ofNat (part % 0x40 + 0x80)) = false := by
  rw [← Bool.not_eq_true, isUtf8CharBoundary_ofNat (by omega)]
  omega

/-- The first byte of a character is taken for a boundary and no other one is. -/
theorem marked_utf8EncodeChar : Marked String.utf8EncodeChar isUtf8CharBoundary := by
  intro char
  fun_cases String.utf8EncodeChar char with
  | case1 v short =>
      refine ⟨_, _, rfl, (isUtf8CharBoundary_ofNat (by omega)).mpr (by omega), ?_⟩
      exact List.forall_mem_nil _
  | case2 v _ short =>
      refine ⟨_, _, rfl, (isUtf8CharBoundary_ofNat (by omega)).mpr (by omega), ?_⟩
      exact List.forall_mem_singleton.mpr (not_boundary_continuation _)
  | case3 v _ _ short =>
      refine ⟨_, _, rfl, (isUtf8CharBoundary_ofNat (by omega)).mpr (by omega), ?_⟩
      exact List.forall_mem_cons.mpr ⟨not_boundary_continuation _,
        List.forall_mem_singleton.mpr (not_boundary_continuation _)⟩
  | case4 v _ _ long =>
      refine ⟨_, _, rfl, (isUtf8CharBoundary_ofNat (by omega)).mpr (by omega), ?_⟩
      exact List.forall_mem_cons.mpr ⟨not_boundary_continuation _,
        List.forall_mem_cons.mpr ⟨not_boundary_continuation _,
          List.forall_mem_singleton.mpr (not_boundary_continuation _)⟩⟩

/-! ## The strings of characters -/

/-- `is_char_boundary` finds the ends of the first characters. -/
theorem isCharBoundary_utf8 (chars : List Char) (index : Nat) :
    (utf8 chars).isCharBoundary index = true ↔
      IsBoundary String.utf8EncodeChar chars index := by
  unfold isCharBoundary
  by_cases zero : index = 0
  · rw [if_pos zero, zero]
    exact iff_of_true rfl (isBoundary_zero _ _)
  rw [if_neg zero]
  by_cases inside : index < (utf8 chars).vec.length
  · rw [dif_pos inside]
    exact marked_utf8EncodeChar.isBoundary_iff inside
  · rw [dif_neg inside, decide_eq_true_iff]
    constructor
    · rintro rfl
      exact isBoundary_length _ _
    · intro boundary
      exact le_antisymm boundary.le_length (not_lt.mp inside)

/-- **Cutting a string.** In the encoding of characters the boundaries are the ends of
the first characters, and a truncation keeps its promise. -/
theorem truncate_utf8 (chars : List Char) :
    (∀ index, (utf8 chars).isCharBoundary index = true ↔
        IsBoundary String.utf8EncodeChar chars index) ∧
      ∀ newLen, Cuts chars newLen ((utf8 chars).truncate newLen) := by
  refine ⟨isCharBoundary_utf8 chars, fun newLen => ?_⟩
  unfold truncate
  by_cases within : newLen ≤ (utf8 chars).len
  · rw [if_pos within]
    by_cases boundary : IsBoundary String.utf8EncodeChar chars newLen
    · rw [if_pos ((isCharBoundary_utf8 chars newLen).mpr boundary)]
      refine ⟨fun longer => absurd longer (not_lt.mpr within), fun _ => .inr ?_, ?_⟩
      · obtain ⟨front, prefixed, length, same⟩ := boundary.take
        exact ⟨front, prefixed, length, congrArg (some ∘ mk) same⟩
      · refine iff_of_false (fun same => nomatch same) fun inside => ?_
        exact (not_isBoundary_iff within).mpr inside boundary
    · rw [if_neg (mt (isCharBoundary_utf8 chars newLen).mp boundary)]
      refine ⟨fun longer => absurd longer (not_lt.mpr within), fun _ => .inl rfl, ?_⟩
      exact iff_of_true rfl ((not_isBoundary_iff within).mp boundary)
  · rw [if_neg within]
    refine ⟨fun _ => rfl, fun shorter => absurd shorter within, ?_⟩
    refine iff_of_false (fun same => nomatch same) fun inside => ?_
    exact within inside.lt_length.le

end ByteString

end Stdx
