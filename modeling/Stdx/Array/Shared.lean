import Stdx.Array.Changes

/-! # Arrays that share a buffer

Any number of arrays whose elements have one byte may take their blocks from one fixed
buffer allocator. Over every interleaving of their safe operations the blocks stay apart and
inside the buffer, a reservation succeeds exactly when the array has no block or the last
one and the buffer has the room, and what an operation changes is in the array's own block
or, for a push, the first byte that is free (`Stdx.Shared.blocks_stay_apart`).
-/

namespace Stdx

open Foundation

variable {w : Nat} {α ι : Type*}

/-- Arrays and the buffer that they take their blocks from. -/
structure Shared (ι : Type*) (w : Nat) (α : Type*) where
  arrays : ι → Parts w α
  fba : FixedBufferAllocator w
  memory : Memory w

namespace Shared

variable [Element w α] [DecidableEq ι]

/-- Arrays without blocks. -/
def start (fba : FixedBufferAllocator w) (memory : Memory w) : Shared ι w α :=
  ⟨fun _ => .new, fba, memory⟩

/-- An operation on one of the arrays. -/
def step (world : Shared ι w α) (call : ι × SafeOp w α) : List (Event α) × Shared ι w α :=
  let done := (Parts.Safe.machine (FixedBufferAllocator.allocator w)).step
    (world.arrays call.1, world.fba, world.memory) call.2
  (done.1, ⟨Function.update world.arrays call.1 done.2.1, done.2.2.1, done.2.2.2⟩)

/-- Arrays driven by operations in any order. -/
def machine (ι : Type*) [DecidableEq ι] (w : Nat) (α : Type*) [Element w α] :
    Machine (Shared ι w α) (ι × SafeOp w α) (List (Event α)) := ⟨step⟩

/-- Neither does the operation remove from an empty array with the largest index, nor does
`grow` let its block pass the end of the buffer. -/
def Admits (world : Shared ι w α) (call : ι × SafeOp w α) : Prop :=
  ¬ Parts.Safe.Wraps (world.arrays call.1) call.2 ∧
    ∀ additional ∈ Parts.Safe.reserves (world.arrays call.1) call.2,
      ¬ (world.arrays call.1).Overshoots world.fba additional

instance (world : Shared ι w α) (call : ι × SafeOp w α) : Decidable (world.Admits call) :=
  -- not by going through all words
  have := Option.decidableForallMem (p := fun additional =>
    ¬ (world.arrays call.1).Overshoots world.fba additional)
    (Parts.Safe.reserves (world.arrays call.1) call.2)
  inferInstanceAs (Decidable (_ ∧ _))

/-- The blocks are apart, and in the part of the buffer that has been handed out. -/
structure Sound (base : Nat) (end_ : Usize w) (world : Shared ι w α) : Prop where
  owned : ∀ index, (world.arrays index).Owned
  full : ∀ index, (world.arrays index).bytes = (world.arrays index).capacity
  place : ∀ index, (world.arrays index).capacity ≠ 0 →
    base ≤ (world.arrays index).data.toNat ∧
      (world.arrays index).block.stop ≤ world.fba.begin.toNat
  apart : ∀ first second, first ≠ second →
    Disjoint (world.arrays first).block.range (world.arrays second).block.range
  base_le : base ≤ world.fba.begin.toNat
  begin_le : world.fba.begin.toNat ≤ end_.toNat
  stop : world.fba.end_ = end_

/-- What an operation on one of the arrays owes: a reservation succeeds exactly when there is
room for it, and otherwise nothing changes; the block stays where it is and takes what the
free space loses; and what the operation changes is in no block of another array. -/
structure Owes (world : Shared ι w α) (call : ι × SafeOp w α) : Prop where
  answer : ∀ additional ∈ Parts.Safe.reserves (world.arrays call.1) call.2,
    Parts.Safe.succeeds (FixedBufferAllocator.allocator w) (world.arrays call.1)
        (world.fba, world.memory) call.2 = true ↔
      (world.arrays call.1).HasRoom world.fba additional
  refused : Parts.Safe.succeeds (FixedBufferAllocator.allocator w) (world.arrays call.1)
      (world.fba, world.memory) call.2 = false → (machine ι w α).next world call = world
  pinned : (world.arrays call.1).capacity ≠ 0 →
    (((machine ι w α).next world call).arrays call.1).data = (world.arrays call.1).data
  space : ((machine ι w α).next world call).fba.begin.toNat +
      (world.arrays call.1).capacity.toNat =
    world.fba.begin.toNat + (((machine ι w α).next world call).arrays call.1).capacity.toNat
  changes : ∀ place ∈ ((machine ι w α).out world call).filterMap Event.changed,
    ∀ other ≠ call.1, (((machine ι w α).next world call).arrays call.1).data.toNat + place ∉
      (((machine ι w α).next world call).arrays other).block.range

variable {base : Nat} {end_ : Usize w} {world : Shared ι w α} {index : ι} {op : SafeOp w α}

/-- One of the arrays may take another block that is apart from the others. -/
theorem Sound.update (sound : world.Sound base end_) (index : ι) {array : Parts w α}
    {fba : FixedBufferAllocator w} {memory : Memory w} (owned : array.Owned)
    (full : array.bytes = array.capacity)
    (place : array.capacity ≠ 0 → base ≤ array.data.toNat ∧ array.block.stop ≤ fba.begin.toNat)
    (apart : ∀ other ≠ index, Disjoint array.block.range (world.arrays other).block.range)
    (raised : world.fba.begin.toNat ≤ fba.begin.toNat) (bound : fba.begin.toNat ≤ end_.toNat)
    (stop : fba.end_ = end_) :
    Sound base end_ ⟨Function.update world.arrays index array, fba, memory⟩ where
  owned other := by
    by_cases same : other = index
    · subst same
      simpa only [Function.update_self] using owned
    · simpa only [Function.update_of_ne same] using sound.owned other
  full other := by
    by_cases same : other = index
    · subst same
      simpa only [Function.update_self] using full
    · simpa only [Function.update_of_ne same] using sound.full other
  place other := by
    by_cases same : other = index
    · subst same
      simpa only [Function.update_self] using place
    · simp only [Function.update_of_ne same]
      intro occupied
      obtain ⟨above, below⟩ := sound.place other occupied
      exact ⟨above, below.trans raised⟩
  apart first second differ := by
    by_cases left : first = index
    · subst left
      simp only [Function.update_self, Function.update_of_ne differ.symm]
      exact apart second differ.symm
    by_cases right : second = index
    · subst right
      simp only [Function.update_self, Function.update_of_ne left]
      exact (apart first left).symm
    · simp only [Function.update_of_ne left, Function.update_of_ne right]
      exact sound.apart first second differ
  base_le := sound.base_le.trans raised
  begin_le := bound
  stop := stop

omit [DecidableEq ι] in
/-- The addresses from the free space on are in no block. -/
theorem Sound.free (sound : world.Sound base end_) (index : ι) {address : Nat}
    (above : world.fba.begin.toNat ≤ address) : address ∉ (world.arrays index).block.range := by
  rintro ⟨low, high⟩
  by_cases empty : (world.arrays index).capacity = 0
  · have full := sound.full index
    rw [empty] at full
    have start : (world.arrays index).data.toNat ≤ address := low
    have stop : address < (world.arrays index).data.toNat + (world.arrays index).bytes.toNat :=
      high
    rw [full] at stop
    exact absurd stop (not_lt.mpr start)
  · have below := (sound.place index empty).2
    omega

omit [DecidableEq ι] in
/-- A reservation of one of the arrays. -/
theorem Sound.reserve_cases (unit : sizeOf w α = 1) (low : end_.toNat ≤ isizeMax w)
    (sound : world.Sound base end_) {additional : Usize w}
    (clear : ¬ (world.arrays index).Overshoots world.fba additional) :
    ((world.arrays index).HasRoom world.fba additional ∧ ∃ slice fba,
        (world.arrays index).Extends world.fba additional slice fba ∧
          (world.arrays index).reserve (FixedBufferAllocator.allocator w) additional
              (world.fba, world.memory) =
            (.ok (), (world.arrays index).enlarged slice, fba, world.memory)) ∨
      ¬ (world.arrays index).HasRoom world.fba additional ∧
        (world.arrays index).reserve (FixedBufferAllocator.allocator w) additional
            (world.fba, world.memory) =
          (.error .allocError, world.arrays index, world.fba, world.memory) := by
  have stop := sound.stop
  apply Parts.reserve_fixedBuffer unit world.memory _ _ _ clear
  · intro occupied
    rw [← sound.full index]
    exact (sound.place index occupied).2
  · rw [stop]
    exact sound.begin_le
  · rw [stop]
    exact low

/-- The array of a step. -/
theorem next_own (world : Shared ι w α) (index : ι) (op : SafeOp w α) :
    ((machine ι w α).next world (index, op)).arrays index =
      ((Parts.Safe.machine (FixedBufferAllocator.allocator w)).next
        (world.arrays index, world.fba, world.memory) op).1 := Function.update_self ..

/-- The world after a step, from what the step does to its array and to the buffer. -/
theorem next_eq {array : Parts w α} {fba : FixedBufferAllocator w} {memory : Memory w}
    (ran : (Parts.Safe.machine (FixedBufferAllocator.allocator w)).next
      (world.arrays index, world.fba, world.memory) op = (array, fba, memory)) :
    (machine ι w α).next world (index, op) =
      ⟨Function.update world.arrays index array, fba, memory⟩ := by
  change (⟨Function.update world.arrays index _, _, _⟩ : Shared ι w α) = _
  rw [show array = (array, fba, memory).1 from rfl, ← ran]
  change _ = (⟨_, (array, fba, memory).2.1, (array, fba, memory).2.2⟩ : Shared ι w α)
  rw [← ran]
  rfl

/-- What a step changes is in no other block, if the blocks are apart after it and a value
behind the block is put where the free space begins. -/
theorem changes_outside (unit : sizeOf w α = 1) (sound : world.Sound base end_)
    (after : ((machine ι w α).next world (index, op)).Sound base end_)
    (behind : (Parts.Safe.reserves (world.arrays index) op).isSome →
      Parts.Safe.succeeds (FixedBufferAllocator.allocator w) (world.arrays index)
        (world.fba, world.memory) op = true →
      (((machine ι w α).next world (index, op)).arrays index).block.stop =
        ((machine ι w α).next world (index, op)).fba.begin.toNat) :
    ∀ place ∈ ((machine ι w α).out world (index, op)).filterMap Event.changed,
      ∀ other ≠ index,
        (((machine ι w α).next world (index, op)).arrays index).data.toNat + place ∉
          (((machine ι w α).next world (index, op)).arrays other).block.range := by
  intro place member other differ
  have full := after.full index
  have changed := Parts.Safe.step_changed unit (FixedBufferAllocator.allocator_honours w)
    (sound.owned index) (world.fba, world.memory) op member
  rw [← next_own] at changed
  rcases changed with inside | ⟨same, reserved, succeeded⟩
  · apply Set.disjoint_left.mp (after.apart index other differ.symm)
    refine ⟨Nat.le_add_right _ _, Nat.add_lt_add_left ?_ _⟩
    rw [full]
    exact inside
  · apply after.free other
    rw [← behind reserved succeeded, same, ← full]
    exact le_rfl

/-- A step that leaves the array on its block. -/
theorem stays_step (unit : sizeOf w α = 1) (sound : world.Sound base end_)
    (noWrap : ¬ Parts.Safe.Wraps (world.arrays index) op)
    (none : Parts.Safe.reserves (world.arrays index) op = none) :
    world.Owes (index, op) ∧ ((machine ι w α).next world (index, op)).Sound base end_ := by
  have owned := sound.owned index
  have same := Parts.Safe.next_of_none (FixedBufferAllocator.allocator w)
    (world.fba, world.memory) none
  have succeeded := Parts.Safe.succeeds_of_none (FixedBufferAllocator.allocator w)
    (world.fba, world.memory) none
  rcases Parts.Safe.step_cases (FixedBufferAllocator.allocator w) (world.arrays index)
      (world.fba, world.memory) op with ⟨_, reserved, _⟩ | stays
  · exact nomatch none.symm.trans reserved
  have next := next_eq (Prod.ext stays.same same)
  have own := congrArg (fun world => world.arrays index) next
  simp only [Function.update_self] at own
  have after : ((machine ι w α).next world (index, op)).Sound base end_ := by
    rw [next]
    refine sound.update index ⟨⟨?_, owned.block⟩, owned.bytes⟩ (sound.full index)
      (sound.place index) (fun other differ => sound.apart index other differ.symm) le_rfl
      sound.begin_le sound.stop
    exact (stays.length noWrap).trans (max_le owned.length le_rfl)
  refine ⟨⟨?_, ?_, fun _ => (congrArg Parts.data own).trans rfl, ?_, ?_⟩, after⟩
  · intro additional reserved
    exact nomatch none.symm.trans reserved
  · intro failed
    exact absurd (succeeded.symm.trans failed) Bool.noConfusion
  · have begin := congrArg (fun world => world.fba.begin.toNat) next
    dsimp only at begin ⊢
    rw [begin, own]
  · apply changes_outside unit sound after
    intro reserved
    rw [none] at reserved
    cases reserved

/-- A step whose reservation is refused changes nothing. -/
theorem refused_step (unit : sizeOf w α = 1) (sound : world.Sound base end_)
    {additional : Usize w}
    (reserved : Parts.Safe.reserves (world.arrays index) op = some additional)
    (full : ¬ (world.arrays index).HasRoom world.fba additional)
    (refused : (world.arrays index).reserve (FixedBufferAllocator.allocator w) additional
        (world.fba, world.memory) =
      (.error .allocError, world.arrays index, world.fba, world.memory)) :
    world.Owes (index, op) ∧ ((machine ι w α).next world (index, op)).Sound base end_ := by
  obtain ⟨failed, ran⟩ := Parts.Safe.next_of_refused reserved refused
  have next : (machine ι w α).next world (index, op) = world := by
    rw [next_eq ran, Function.update_eq_self]
  have after : ((machine ι w α).next world (index, op)).Sound base end_ := by
    rw [next]
    exact sound
  refine ⟨⟨?_, fun _ => next, fun _ => by rw [next], by rw [next], ?_⟩, after⟩
  · intro other same
    cases Option.mem_unique reserved same
    exact ⟨fun succeeded => absurd (succeeded.symm.trans failed) Bool.noConfusion,
      fun room => absurd room full⟩
  · apply changes_outside unit sound after
    intro _ succeeded
    exact absurd (succeeded.symm.trans failed) Bool.noConfusion

section

variable {additional : Usize w} {slice : Slice w} {fba : FixedBufferAllocator w}

omit [DecidableEq ι] in
/-- From where the block of a granted reservation begins there is no block of another array. -/
theorem Sound.extends_apart (sound : world.Sound base end_)
    (room : (world.arrays index).HasRoom world.fba additional)
    (extends_ : (world.arrays index).Extends world.fba additional slice fba) {other : ι}
    (differ : other ≠ index) {address : Nat} (above : slice.ptr.toNat ≤ address) :
    address ∉ (world.arrays other).block.range := by
  by_cases old : address < world.fba.begin.toNat
  · rw [extends_.ptr] at above
    by_cases empty : (world.arrays index).capacity = 0
    · rw [if_pos empty] at above
      exact absurd old (not_lt.mpr above)
    · rw [if_neg empty] at above
      apply Set.disjoint_left.mp (sound.apart index other differ.symm)
      refine ⟨above, ?_⟩
      change address < _ + (world.arrays index).bytes.toNat
      rw [sound.full index, room.1.resolve_left empty]
      exact old
  · exact sound.free other (not_lt.mp old)

/-- The blocks after a granted reservation: one takes the first bytes of the free space. -/
theorem Sound.extended (unit : sizeOf w α = 1) (low : end_.toNat ≤ isizeMax w)
    (sound : world.Sound base end_) (room : (world.arrays index).HasRoom world.fba additional)
    (extends_ : (world.arrays index).Extends world.fba additional slice fba) (cells : Cells α) :
    Sound base end_ ⟨Function.update world.arrays index
      { (world.arrays index).enlarged slice with cells }, fba, world.memory⟩ := by
  have len := extends_.len
  have begin := extends_.begin
  have ends := extends_.ends room
  have fits := room.2
  rw [sound.stop] at fits
  have bounded : slice.len.toNat ≤ isizeMax w := by omega
  refine sound.update index ⟨⟨?_, ?_⟩, bounded⟩ rfl (fun _ => ⟨?_, ends.le⟩) ?_ ?_ ?_ ?_
  · have within := (sound.owned index).length
    have length := Parts.length_enlarged_le_length (world.arrays index) slice
    change ((world.arrays index).enlarged slice).length.toNat ≤ slice.len.toNat
    omega
  · change (sizeOf w α).toNat * slice.len.toNat ≤ slice.len.toNat
    rw [Parts.toNat_sizeOf_mul unit]
  · change base ≤ slice.ptr.toNat
    rw [extends_.ptr]
    by_cases empty : (world.arrays index).capacity = 0
    · rw [if_pos empty]
      exact sound.base_le
    · rw [if_neg empty]
      exact (sound.place index empty).1
  · intro other differ
    rw [Set.disjoint_left]
    intro address inside
    exact sound.extends_apart room extends_ differ inside.1
  · omega
  · omega
  · rw [extends_.end_, sound.stop]

/-- A step whose reservation is granted. -/
theorem granted_step (unit : sizeOf w α = 1) (low : end_.toNat ≤ isizeMax w)
    (sound : world.Sound base end_)
    (reserved : Parts.Safe.reserves (world.arrays index) op = some additional)
    (room : (world.arrays index).HasRoom world.fba additional)
    (extends_ : (world.arrays index).Extends world.fba additional slice fba)
    (granted : (world.arrays index).reserve (FixedBufferAllocator.allocator w) additional
        (world.fba, world.memory) =
      (.ok (), (world.arrays index).enlarged slice, fba, world.memory)) :
    world.Owes (index, op) ∧ ((machine ι w α).next world (index, op)).Sound base end_ := by
  have len := extends_.len
  have ends := extends_.ends room
  have fits := room.2
  rw [sound.stop] at fits
  have begin := extends_.begin
  have bounded : slice.len.toNat ≤ isizeMax w := by omega
  obtain ⟨succeeded, ran⟩ := Parts.Safe.next_of_granted reserved granted
    (by rw [Parts.toNat_sizeOf_mul unit]; exact bounded)
  have next := next_eq ran
  have own := congrArg (fun world => world.arrays index) next
  simp only [Function.update_self] at own
  have after : ((machine ι w α).next world (index, op)).Sound base end_ := by
    rw [next]
    exact sound.extended unit low room extends_ _
  refine ⟨⟨?_, ?_, ?_, ?_, ?_⟩, after⟩
  · intro other same
    cases Option.mem_unique reserved same
    exact ⟨fun _ => room, fun _ => succeeded⟩
  · intro failed
    exact absurd (succeeded.symm.trans failed) Bool.noConfusion
  · intro occupied
    rw [own]
    change slice.ptr = _
    rw [extends_.ptr, if_neg occupied]
  · have after := congrArg (fun world => world.fba.begin.toNat) next
    dsimp only at after ⊢
    rw [after, own, begin]
    change _ = _ + slice.len.toNat
    omega
  · apply changes_outside unit sound after
    intro _ _
    rw [own, next]
    exact ends

end

/-- One step keeps the blocks apart and owes what it should. -/
theorem step_owes (unit : sizeOf w α = 1) (low : end_.toNat ≤ isizeMax w)
    (sound : world.Sound base end_) (call : ι × SafeOp w α) (admitted : world.Admits call) :
    world.Owes call ∧ ((machine ι w α).next world call).Sound base end_ := by
  obtain ⟨index, op⟩ := call
  obtain ⟨noWrap, clear⟩ := admitted
  cases reserved : Parts.Safe.reserves (world.arrays index) op with
  | none => exact stays_step unit sound noWrap reserved
  | some additional =>
      rcases sound.reserve_cases unit low (clear additional reserved) with
        ⟨room, slice, fba, extends_, granted⟩ | ⟨full, refused⟩
      · exact granted_step unit low sound reserved room extends_ granted
      · exact refused_step unit sound reserved full refused

omit [DecidableEq ι] in
/-- The blocks of arrays without blocks. -/
theorem sound_start {fba : FixedBufferAllocator w} (memory : Memory w)
    (ordered : fba.begin.toNat ≤ fba.end_.toNat) :
    (start fba memory : Shared ι w α).Sound fba.begin.toNat fba.end_ where
  owned _ := ⟨⟨le_rfl, by simp [start, Parts.new]⟩, by simp [start, Parts.new]⟩
  full _ := rfl
  place _ occupied := absurd rfl occupied
  apart _ _ _ := Region.disjoint_of_le (by simp [start, Parts.block, Parts.new])
  base_le := le_rfl
  begin_le := ordered
  stop := rfl

/-- **Arrays of bytes share a buffer.** Over every interleaving of their operations, the
blocks are apart and inside the part of the buffer that has been handed out, and every step
answers as the free space tells and changes no block of another array. -/
theorem blocks_stay_apart (unit : sizeOf w α = 1) (fba : FixedBufferAllocator w)
    (memory : Memory w) (ordered : fba.begin.toNat ≤ fba.end_.toNat)
    (low : fba.end_.toNat ≤ isizeMax w) (calls : List (ι × SafeOp w α))
    (admitted : (machine ι w α).Along Admits (start fba memory) calls) :
    ((machine ι w α).final (start fba memory) calls).Sound fba.begin.toNat fba.end_ ∧
      (machine ι w α).Along Owes (start fba memory) calls := by
  have step := fun world call (sound : Sound (ι := ι) (α := α) fba.begin.toNat fba.end_ world)
    (admitted : world.Admits call) => step_owes unit low sound call admitted
  exact ⟨admitted.invariant _ (fun world call sound clear => (step world call sound clear).2)
      (sound_start memory ordered),
    admitted.of_invariant _ step (sound_start memory ordered)⟩

/-- Two arrays take turns: the first grows where it is, the second takes a block behind it,
and then the first cannot grow while the second one can. -/
def turns : List (Bool × SafeOp 64 UInt8) :=
  [(true, .reserve 2), (true, .push 8), (false, .reserve 4), (true, .push 9), (false, .reserve 2)]

theorem turns_apart :
    ((machine Bool 64 UInt8).final (start ⟨0x1000, 0x1010⟩ fun _ => 0) turns).Sound 0x1000
      0x1010 :=
  (blocks_stay_apart rfl ⟨0x1000, 0x1010⟩ (fun _ => 0) (by decide) (by decide) turns
    (by decide)).1

end Shared

end Stdx
