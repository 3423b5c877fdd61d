import Stdx.Array.Shared
import Stdx.Array.Stores

/-! # The memory of a shared buffer

What arrays of bytes that share a buffer write goes to the memory of the buffer. Although a push
puts its value behind the block, where the free space begins, the memory holds the elements of
all arrays after every interleaving of their operations (`Stdx.Shared.elements_stay`).
-/

namespace Stdx

open Foundation

variable {w : Nat} {α ι : Type*}

namespace Shared

variable [Element w α] [DecidableEq ι]

/-- One operation; what it writes is stored. -/
def store (encode : Cell α → UInt8) (world : Shared ι w α) (call : ι × SafeOp w α) :
    List (Event α) × Shared ι w α :=
  let done := (machine ι w α).step world call
  (done.1, { done.2 with
    memory := storeAll encode (done.2.arrays call.1).data done.2.memory
      (done.1.filterMap Event.written) })

/-- Arrays driven by operations in any order, with what they write. -/
def storing (ι : Type*) [DecidableEq ι] (encode : Cell α → UInt8) :
    Machine (Shared ι w α) (ι × SafeOp w α) (List (Event α)) := ⟨store encode⟩

variable {base : Nat} {end_ : Usize w} {world : Shared ι w α} {index : ι} {op : SafeOp w α}
  {encode : Cell α → UInt8}

omit [DecidableEq ι] in
/-- Whether the blocks are sound does not depend on the memory. -/
theorem Sound.of_memory (sound : world.Sound base end_) (memory : Memory w) :
    ({ world with memory } : Shared ι w α).Sound base end_ := ⟨sound.owned, sound.full,
  sound.place, sound.apart, sound.base_le, sound.begin_le, sound.stop⟩

omit [DecidableEq ι] in
/-- A reservation leaves the memory alone. -/
theorem base_memory (unit : sizeOf w α = 1) (low : end_.toNat ≤ isizeMax w)
    (sound : world.Sound base end_) (admitted : world.Admits (index, op)) :
    (Parts.Safe.base (FixedBufferAllocator.allocator w) (world.arrays index)
      (world.fba, world.memory) op).2.2 = world.memory := by
  unfold Parts.Safe.base
  cases reserved : Parts.Safe.reserves (world.arrays index) op with
  | none => rfl
  | some additional =>
      rcases sound.reserve_cases unit low (admitted.2 additional reserved) with
        ⟨_, slice, fba, _, granted⟩ | ⟨_, refused⟩
      · simp only [granted]
      · simp only [refused]

omit [DecidableEq ι] in
/-- The array on the block that its reservation leaves is still in memory. -/
theorem base_inMemory (unit : sizeOf w α = 1) (low : end_.toNat ≤ isizeMax w)
    (sound : world.Sound base end_) (admitted : world.Admits (index, op))
    (inMemory : (world.arrays index).InMemory encode world.memory) :
    (Parts.Safe.base (FixedBufferAllocator.allocator w) (world.arrays index)
      (world.fba, world.memory) op).1.InMemory encode world.memory := by
  unfold Parts.Safe.base
  cases reserved : Parts.Safe.reserves (world.arrays index) op with
  | none => exact inMemory
  | some additional =>
      rcases sound.reserve_cases unit low (admitted.2 additional reserved) with
        ⟨_, slice, fba, extends_, granted⟩ | ⟨_, refused⟩
      · simp only [granted]
        by_cases empty : (world.arrays index).capacity = 0
        · intro offset inside value holds
          simp only [Parts.enlarged, empty, ↓reduceIte] at holds
          cases holds
        · have size := congrArg BitVec.toNat (Parts.sizeOf_mul unit (world.arrays index).capacity)
          refine inMemory.keep unit size (if_neg empty) fun offset _ => ?_
          change world.memory (slice.ptr + _) = _
          rw [extends_.ptr, if_neg empty]
      · simp only [refused]
        exact inMemory

/-- The world after a step whose writes are stored. -/
theorem storing_next (world : Shared ι w α) (call : ι × SafeOp w α) :
    (storing ι encode).next world call =
      { (machine ι w α).next world call with
        memory := storeAll encode (((machine ι w α).next world call).arrays call.1).data
          ((machine ι w α).next world call).memory
          (((machine ι w α).out world call).filterMap Event.written) } := rfl

/-- Without what it writes, an operation leaves the memory alone. -/
theorem next_memory (unit : sizeOf w α = 1) (low : end_.toNat ≤ isizeMax w)
    (sound : world.Sound base end_) (admitted : world.Admits (index, op)) :
    ((machine ι w α).next world (index, op)).memory = world.memory := by
  have state := (Parts.Safe.next_base unit (FixedBufferAllocator.allocator_honours w)
    (world.arrays index) (world.fba, world.memory) op).2
  exact (congrArg Prod.snd state).trans (base_memory unit low sound admitted)

/-- Where a byte is that is written: in the block or the one behind it, below the end. -/
theorem written_below (unit : sizeOf w α = 1) (sound : world.Sound base end_)
    (after : ((machine ι w α).next world (index, op)).Sound base end_) :
    ∀ write ∈ ((machine ι w α).out world (index, op)).filterMap Event.written,
      write.1 < 2 ^ w ∧
        (((machine ι w α).next world (index, op)).arrays index).data.toNat + write.1 < 2 ^ w := by
  intro write member
  obtain ⟨event, happened, same⟩ := List.mem_filterMap.mp member
  have changed := Parts.Safe.step_changed unit (FixedBufferAllocator.allocator_honours w)
    (sound.owned index) (world.fba, world.memory) op
    (List.mem_filterMap.mpr ⟨event, happened, Event.changed_of_written same⟩)
  rw [← next_own] at changed
  have place : write.1 ≤
      (((machine ι w α).next world (index, op)).arrays index).capacity.toNat := by
    rcases changed with inside | ⟨behind, _⟩
    · exact inside.le
    · exact behind.le
  have bound := (((machine ι w α).next world (index, op)).arrays index).capacity.isLt
  refine ⟨place.trans_lt bound, ?_⟩
  by_cases empty : (((machine ι w α).next world (index, op)).arrays index).capacity = 0
  · rw [empty] at place
    have start := (((machine ι w α).next world (index, op)).arrays index).data.isLt
    have none : write.1 = 0 := Nat.le_zero.mp place
    rwa [none]
  · have stop := (after.place index empty).2
    have full := after.full index
    have limit := ((machine ι w α).next world (index, op)).fba.begin.isLt
    unfold Parts.block at stop
    rw [full] at stop
    dsimp only at stop
    omega

/-- The array of an operation after its writes. -/
theorem own_inMemory (unit : sizeOf w α = 1) (low : end_.toNat ≤ isizeMax w)
    (sound : world.Sound base end_) (admitted : world.Admits (index, op))
    (inMemory : (world.arrays index).InMemory encode world.memory)
    (small : ∀ write ∈ ((machine ι w α).out world (index, op)).filterMap Event.written,
      write.1 < 2 ^ w) :
    (((storing ι encode).next world (index, op)).arrays index).InMemory encode
      ((storing ι encode).next world (index, op)).memory := by
  have based := base_inMemory unit low sound admitted inMemory
  have next := Parts.Safe.next_replayed unit (FixedBufferAllocator.allocator_honours w)
    (world.arrays index) (world.fba, world.memory) op
  have memory := next_memory unit low sound admitted
  have stored := based.putAll small
  rw [storing_next]
  dsimp only
  rw [next_own, memory, next]
  exact stored

/-- The other arrays after the writes of an operation. -/
theorem other_inMemory (sound : world.Sound base end_) (owes : world.Owes (index, op))
    (small : ∀ write ∈ ((machine ι w α).out world (index, op)).filterMap Event.written,
      write.1 < 2 ^ w ∧
        (((machine ι w α).next world (index, op)).arrays index).data.toNat + write.1 < 2 ^ w)
    (kept : ((machine ι w α).next world (index, op)).memory = world.memory) {other : ι}
    (differ : other ≠ index)
    (inMemory : (world.arrays other).InMemory encode world.memory) :
    (((storing ι encode).next world (index, op)).arrays other).InMemory encode
      ((storing ι encode).next world (index, op)).memory := by
  have stays : ((machine ι w α).next world (index, op)).arrays other = world.arrays other :=
    Function.update_of_ne differ ..
  rw [storing_next]
  dsimp only
  rw [stays, kept]
  intro offset inside value holds
  rw [storeAll_of_ne]
  · exact inMemory offset inside value holds
  · intro write written equal
    obtain ⟨event, happened, same⟩ := List.mem_filterMap.mp written
    have outside := owes.changes write.1
      (List.mem_filterMap.mpr ⟨event, happened, Event.changed_of_written same⟩) other differ
    rw [stays] at outside
    apply outside
    have stop := (sound.place other (Parts.occupied_of_lt inside)).2
    have bound := world.fba.begin.isLt
    obtain ⟨short, below⟩ := small write written
    unfold Parts.block at stop ⊢
    rw [sound.full other] at stop ⊢
    dsimp only at stop
    have numbers := congrArg BitVec.toNat equal
    rw [BitVec.toNat_add_of_lt, BitVec.toNat_add_of_lt, BitVec.toNat_ofNat, BitVec.toNat_ofNat,
      Nat.mod_eq_of_lt short, Nat.mod_eq_of_lt (by omega)] at numbers
    · rw [← numbers]
      exact ⟨Nat.le_add_right _ _, Nat.add_lt_add_left inside _⟩
    · rwa [BitVec.toNat_ofNat, Nat.mod_eq_of_lt short]
    · rw [BitVec.toNat_ofNat, Nat.mod_eq_of_lt (by omega)]
      omega

/-- One operation leaves all elements in memory. -/
theorem step_inMemory (unit : sizeOf w α = 1) (low : end_.toNat ≤ isizeMax w)
    (sound : world.Sound base end_) (call : ι × SafeOp w α) (admitted : world.Admits call)
    (inMemory : ∀ index, (world.arrays index).InMemory encode world.memory) :
    ((storing ι encode).next world call).Sound base end_ ∧
      ∀ index, (((storing ι encode).next world call).arrays index).InMemory encode
        ((storing ι encode).next world call).memory := by
  obtain ⟨index, op⟩ := call
  obtain ⟨owes, after⟩ := step_owes unit low sound (index, op) admitted
  refine ⟨after.of_memory _, fun other => ?_⟩
  have written := written_below unit sound after
  by_cases equal : other = index
  · subst equal
    exact own_inMemory unit low sound admitted (inMemory other) fun write member =>
      (written write member).1
  · have kept := next_memory unit low sound admitted
    exact other_inMemory sound owes written kept equal (inMemory other)

/-- **The elements stay in memory.** Over every interleaving of the operations of the arrays,
pushes included. -/
theorem elements_stay (unit : sizeOf w α = 1) (encode : Cell α → UInt8)
    (fba : FixedBufferAllocator w) (memory : Memory w) (ordered : fba.begin.toNat ≤ fba.end_.toNat)
    (low : fba.end_.toNat ≤ isizeMax w) (calls : List (ι × SafeOp w α))
    (admitted : (storing ι encode).Along Admits (start fba memory) calls) :
    let final := (storing ι encode).final (start fba memory) calls
    final.Sound fba.begin.toNat fba.end_ ∧
      ∀ index, (final.arrays index).InMemory encode final.memory := by
  apply admitted.invariant (fun world => world.Sound fba.begin.toNat fba.end_ ∧
    ∀ index, (world.arrays index).InMemory encode world.memory)
  · intro world call ⟨sound, inMemory⟩ admitted
    exact step_inMemory unit low sound call admitted inMemory
  · refine ⟨sound_start memory ordered, fun index offset inside => ?_⟩
    exact absurd inside (Nat.not_lt_zero offset)

/-- Two arrays of which one pushes behind its block, where the other one gets its block. -/
def pushedCalls : List (Bool × SafeOp 64 UInt8) :=
  [(true, .reserve 2), (true, .pushWithinCapacity 8), (true, .push 9), (false, .reserve 4),
    (false, .pushWithinCapacity 7)]

theorem pushedCalls_stay :
    let final := (storing Bool Cell.byte).final (start ⟨0x1000, 0x1020⟩ fun _ => 0) pushedCalls
    final.Sound 0x1000 0x1020 ∧ ∀ index, (final.arrays index).InMemory Cell.byte final.memory :=
  elements_stay rfl Cell.byte ⟨0x1000, 0x1020⟩ (fun _ => 0) (by decide) (by decide) pushedCalls
    (by decide)

end Shared

end Stdx
