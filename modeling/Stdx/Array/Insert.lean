import Stdx.Array.Capacity

/-! # Inserting elements

An insertion at the end is a push and one in front of it shifts the elements
behind the index, but neither updates the length. So `insert` keeps its promise
exactly when it inserts nothing: the index is out of bounds, no block is
obtained, or the push refuses the block that it has obtained
(`Stdx.Parts.insert_iff`).
-/

namespace Stdx

open Foundation

variable {w : Nat} {α σ : Type*} [Element w α]

/-- The element an event reads, writes or drops in place is inside a block. -/
def Event.Inside (size bytes : Nat) : Event α → Prop
  | .read offset _ | .write offset _ | .dropInPlace offset _ => offset + size ≤ bytes
  | .readOther _ _ | .dropValue _ | .overflow => True

namespace Parts

/-- The promise of `insert`: it refuses exactly the indices that are out of
bounds, and otherwise puts the value between the elements in front of the index
and those behind, inside the block. -/
structure Inserts (array : Parts w α) (values : List α) (index : Nat) (value : α)
    (outcome : Except AllocError (Option Unit) × Parts w α × σ × List (Event α)) : Prop where
  refused : outcome.1 = .ok none ∧ outcome.2.1 = array ↔ values.length < index
  inserted : outcome.1 = .ok (some ()) →
    outcome.2.1.deref = (values.take index ++ value :: values.drop index).map .val
  longer : outcome.1 = .ok (some ()) → outcome.2.1.length.toNat = array.length.toNat + 1
  inside : outcome.1 = .ok (some ()) → ∀ event ∈ outcome.2.2.2,
    event.Inside (sizeOf w α).toNat outcome.2.1.bytes.toNat

variable {array : Parts w α} {values : List α} {alloc : Allocator w σ} {index : Usize w}
  {value : α} {state : σ}
  {outcome : Except AllocError (Option Unit) × Parts w α × σ × List (Event α)}

/-- An insertion in bounds that reports an error keeps the promise. -/
theorem Inserts.of_error (inside : index.toNat ≤ values.length)
    (failed : outcome.1 = .error .allocError) :
    Inserts array values index.toNat value outcome := by
  refine ⟨⟨fun refused => ?_, fun outside => absurd outside (not_lt.mpr inside)⟩,
    fun ok => ?_, fun ok => ?_, fun ok => ?_⟩
  · exact nomatch failed.symm.trans refused.1
  all_goals exact nomatch failed.symm.trans ok

/-- An insertion that succeeds without a longer array breaks the promise. -/
theorem not_inserts (ok : outcome.1 = .ok (some ()))
    (short : outcome.2.1.length.toNat ≤ array.length.toNat) :
    ¬ Inserts array values index.toNat value outcome := by
  intro promise
  have longer := promise.longer ok
  omega

/-- An insertion in bounds is an unchecked one. -/
theorem insert_inside (alloc : Allocator w σ) (value : α) (state : σ)
    (inside : index.toNat ≤ array.length.toNat) :
    Safe.obtained alloc array state (.insert index value) =
        array.granted alloc (array.insertRoom index) state ∧
      RawArray.insert array alloc index value state =
        ((array.insertUnchecked alloc index value state).1.map some,
          (array.insertUnchecked alloc index value state).2) := by
  refine ⟨?_, if_neg (not_lt.mpr inside)⟩
  rw [Safe.obtained, Safe.reserves_insert value inside, Option.bind_some]

/-- An index out of bounds changes nothing and obtains nothing. -/
theorem insert_outside (alloc : Allocator w σ) (value : α) (state : σ)
    (outside : array.length.toNat < index.toNat) :
    Safe.obtained alloc array state (.insert index value) = none ∧
      RawArray.insert array alloc index value state =
        (.ok none, array, state, [.dropValue value]) := by
  have none : Safe.reserves array (.insert index value) = none := if_pos outside
  exact ⟨by rw [Safe.obtained, none, Option.bind_none], if_pos outside⟩

/-- **Exactly when `insert` keeps its promise.** -/
theorem insert_iff (shown : array.Shows values) (alloc : Allocator w σ) (index : Usize w)
    (value : α) (state : σ) :
    Inserts array values index.toNat value (RawArray.insert array alloc index value state) ↔
      ∀ slice ∈ Safe.obtained alloc array state (.insert index value),
        index = array.length ∧ isizeMax w < (sizeOf w α).toNat * slice.len.toNat := by
  by_cases outside : array.length.toNat < index.toNat
  · obtain ⟨none, inserted⟩ := insert_outside alloc value state outside
    rw [none, inserted]
    refine ⟨fun _ _ some => absurd some (Option.not_mem_none _), fun _ => ?_⟩
    refine ⟨⟨fun _ => ?_, fun _ => ⟨rfl, rfl⟩⟩, (nomatch ·), (nomatch ·), (nomatch ·)⟩
    exact shown.count ▸ outside
  · have inside := not_lt.mp outside
    obtain ⟨needed, entered⟩ := insert_inside alloc value state inside
    rw [needed, entered]
    rcases array.insertUnchecked_cases alloc index value state with
      ⟨refused, after, inserted⟩ |
        ⟨slice, grant, ⟨late, after, inserted⟩ | ⟨early, ok, inserted⟩⟩
    · rw [refused, inserted]
      exact ⟨fun _ _ some => absurd some (Option.not_mem_none _),
        fun _ => .of_error (shown.count ▸ inside) rfl⟩
    · rw [grant, inserted]
      refine ⟨fun _ other same => ?_, fun _ => .of_error (shown.count ▸ inside) rfl⟩
      cases same
      exact late
    · rw [grant]
      constructor
      · intro promise
        refine absurd promise (not_inserts (by rw [ok]; rfl) ?_)
        rw [inserted]
        exact length_enlarged_le_length array slice
      · exact fun condition => absurd (condition slice rfl) early

/-- An index out of bounds of an array of two bytes. -/
theorem twoBytes_index_refused :
    Inserts (ofBytes [5, 6]) [5, 6] 3 7
      (RawArray.insert (ofBytes [5, 6]) (FixedBufferAllocator.allocator 64) 3 7 (page 8)) :=
  (insert_iff (ofBytes_shows (by decide)) (FixedBufferAllocator.allocator 64) 3 7 (page 8)).mpr
    (by decide)

/-- A byte put in front of two others takes the place of one of them. -/
theorem inserted_byte_replaces :
    ¬ ∀ (alloc : Allocator 64 (FixedBufferAllocator 64 × Memory 64)), alloc.Honours →
      ∀ (array : Parts 64 UInt8) (values : List UInt8), array.Shows values →
        ∀ (index : Usize 64) (value : UInt8) (state : FixedBufferAllocator 64 × Memory 64),
          Inserts array values index.toNat value
            (RawArray.insert array alloc index value state) := by
  intro claim
  have inserts := claim (FixedBufferAllocator.allocator 64)
    (FixedBufferAllocator.allocator_honours 64) (ofBytes [5, 6]) [5, 6]
    (ofBytes_shows (by decide)) 0 7 (page 8)
  exact absurd (inserts.inserted (by decide)) (by decide)

end Parts

end Stdx
