import Stdx.Array.Contents

/-! # Moving all elements of an array

`append` copies the elements of the other array behind its own, but updates
neither length: its slice does not grow and the other array keeps what it had.
So it keeps its promise exactly when nothing is moved
(`Stdx.Parts.append_iff`).
-/

namespace Stdx

open Foundation

variable {w : Nat} {α σ : Type*} [Element w α]

/-- `Array::append` and `RawArray::append`, with both arrays afterwards. The other
array is borrowed mutably, but only its pointer and its length are read. -/
def RawArray.append (self : Parts w α) (alloc : Allocator w σ) (other : Parts w α) (state : σ) :
    Except AllocError Unit × Parts w α × Parts w α × σ × List (Event α) :=
  let appended := self.append alloc other state
  (appended.1, appended.2.1, other, appended.2.2)

namespace Parts

/-- The promise of `append`: it leaves all elements in the first array, each in one
of the two, or changes nothing. -/
structure Transfers (array other : Parts w α)
    (outcome : Except AllocError Unit × Parts w α × Parts w α × σ × List (Event α)) : Prop where
  moved : outcome.1 = .ok () → outcome.2.1.deref = array.deref ++ other.deref
  emptied : outcome.1 = .ok () → outcome.2.2.1.length = 0
  once : outcome.1 = .ok () →
    outcome.2.1.owned + outcome.2.2.1.owned = array.owned + other.owned
  failed : outcome.1 = .error .allocError → outcome.2.1 = array ∧ outcome.2.2.1 = other

variable {self other : Parts w α} {alloc : Allocator w σ} {state : σ}

/-- What `append` answers and leaves. -/
theorem append_cases (self : Parts w α) (alloc : Allocator w σ) (other : Parts w α) (state : σ) :
    (self.granted alloc other.length state = none ∧ ∃ after,
        RawArray.append self alloc other state = (.error .allocError, self, other, after, [])) ∨
      ∃ slice, self.granted alloc other.length state = some slice ∧ ∃ after,
        let moved := (self.enlarged slice).moveFrom other (List.range other.length.toNat)
        RawArray.append self alloc other state = (.ok (), moved.1, other, after, moved.2) := by
  unfold RawArray.append append
  rcases self.reserve_cases alloc other.length state with
    ⟨refused, after, reserved⟩ | ⟨slice, grant, after, reserved⟩
  · exact .inl ⟨refused, after, by rw [reserved]⟩
  · exact .inr ⟨slice, grant, after, by rw [reserved]⟩

/-- **Exactly when `append` keeps its promise.** -/
theorem append_iff (counted : self.Counted) (alloc : Allocator w σ) (other : Parts w α)
    (state : σ) :
    Transfers self other (RawArray.append self alloc other state) ↔
      ∀ slice ∈ self.granted alloc other.length state, other.length = 0 ∧ self.Carries := by
  rcases self.append_cases alloc other state with
    ⟨refused, after, appended⟩ | ⟨slice, grant, after, appended⟩
  · rw [appended, refused]
    constructor
    · exact fun _ _ some => absurd some (Option.not_mem_none _)
    · exact fun _ => ⟨(nomatch ·), (nomatch ·), (nomatch ·), fun _ => ⟨rfl, rfl⟩⟩
  · rw [appended, grant]
    have nothing (empty : other.length = 0) :
        ((self.enlarged slice).moveFrom other (List.range other.length.toNat)).1 =
          self.enlarged slice := by
      rw [empty]
      rfl
    constructor
    · intro promise _ _
      have empty := promise.emptied rfl
      have moved := promise.moved rfl
      dsimp only at empty moved
      rw [nothing empty, deref_of_length empty, List.append_nil] at moved
      exact ⟨empty, (deref_enlarged_iff counted grant).mp moved⟩
    · intro condition
      obtain ⟨empty, carries⟩ := condition slice rfl
      have kept := (deref_enlarged_iff counted grant).mpr carries
      rw [nothing empty]
      refine ⟨fun _ => ?_, fun _ => empty, fun _ => ?_, (nomatch ·)⟩
      · rw [deref_of_length empty, List.append_nil]
        exact kept
      · dsimp only
        rw [owned, kept]
        rfl

/-- Appending an empty array to one of two bytes. -/
theorem nothing_appended :
    Transfers (ofBytes [5, 6]) (ofBytes [])
      (RawArray.append (ofBytes [5, 6]) (FixedBufferAllocator.allocator 64) (ofBytes [])
        (page 8)) :=
  (append_iff (fun _ => by decide) (FixedBufferAllocator.allocator 64) (ofBytes [])
    (page 8)).mpr (by decide)

/-- An appended byte is not in the slice, and the other array still owns it. -/
theorem appended_byte_missing :
    ¬ ∀ (alloc : Allocator 64 (FixedBufferAllocator 64 × Memory 64)), alloc.Honours →
      ∀ (self other : Parts 64 UInt8) (state : FixedBufferAllocator 64 × Memory 64),
        self.Counted → Transfers self other (RawArray.append self alloc other state) := by
  intro claim
  have transfers := claim (FixedBufferAllocator.allocator 64)
    (FixedBufferAllocator.allocator_honours 64) (ofBytes [5]) (ofBytes [6]) (page 8)
    (fun _ => by decide)
  exact absurd (transfers.emptied (by decide)) (by decide)

end Parts

end Stdx
