import Stdx.Array.Changes

/-! # Larger elements in a fixed buffer

`reserve` counts every byte of a block as an element, so the old layout that it passes to
`grow` is larger than the block when elements have more than one byte, and a fixed buffer
allocator does not recognise the block as its last one. An array of such elements with a
buffer of its own gets one block with bytes in its life: whatever is done to it later, every
operation that would need a larger one fails and changes nothing
(`Stdx.Parts.block_is_final`).
-/

namespace Stdx

open Foundation

variable {w : Nat} {α σ : Type*} [Element w α]

namespace Parts

namespace Safe

variable {alloc : Allocator w σ} {array : Parts w α} {state : σ} {op : SafeOp w α}
  {additional : Usize w}

/-- An operation leaves the allocator as its reservation does. -/
theorem next_state (alloc : Allocator w σ) (state : σ)
    (reserved : reserves array op = some additional) :
    ((machine alloc).next (array, state) op).2 = (array.reserve alloc additional state).2.2 := by
  -- a push only reserves
  have pushes (value : α) : (array.push alloc value state).2.2.1 =
      (array.reserve alloc array.room state).2.2 := by
    unfold push
    rcases array.reserve alloc array.room state with ⟨_ | _, moved, after⟩
    · rfl
    · dsimp only
      cases (sizeOf w α).checkedMul moved.capacity with
      | none => rfl
      | some offset =>
          dsimp only
          split
          · rfl
          · rfl
  cases op with
  | reserve count =>
      cases reserved
      rfl
  | push value =>
      cases reserved
      exact pushes value
  | append other =>
      cases reserved
      change (array.append alloc other state).2.2.1 = _
      unfold append
      rcases array.reserve alloc other.length state with ⟨_ | _, moved, after⟩
      · rfl
      · rfl
  | insert index value =>
      by_cases outside : array.length.toNat < index.toNat
      · exact nomatch reserved.symm.trans (if_pos outside)
      · rw [reserves_insert value (not_lt.mp outside)] at reserved
        cases reserved
        change (RawArray.insert array alloc index value state).2.2.1 = _
        rw [(insert_inside alloc value state (not_lt.mp outside)).2]
        unfold insertUnchecked insertRoom
        by_cases last : index = array.length
        · rw [if_pos last, if_pos last]
          exact pushes value
        · rw [if_neg last, if_neg last]
          rcases array.reserve alloc 1 state with ⟨_ | _, moved, after⟩
          · rfl
          · rfl
  | pop | clear | pushWithinCapacity value | remove index | swapRemove index | truncate len
  | assign index value => cases reserved

/-- An operation whose reservation is granted leaves the array on the block it obtained. -/
theorem next_of_ok {moved : Parts w α} {after : σ}
    (reserved : reserves array op = some additional)
    (granted : array.reserve alloc additional state = (.ok (), moved, after)) :
    (machine alloc).next (array, state) op =
      ({ moved with cells := ((machine alloc).next (array, state) op).1.cells }, after) := by
  have left := next_state alloc state reserved
  rw [granted] at left
  refine Prod.ext ?_ left
  rcases array.reserve_cases alloc additional state with
    ⟨_, _, refused⟩ | ⟨slice, grant, _, obtained⟩
  · rw [refused] at granted
    cases granted
  · rw [obtained] at granted
    cases granted
    rcases step_cases alloc array state op with ⟨other, needed, block, given, same⟩ | stays
    · cases Option.mem_unique reserved needed
      cases Option.mem_unique grant given
      exact same
    · have none := stays.refused
      rw [Safe.obtained, reserved, Option.bind_some, grant] at none
      cases none

end Safe

/-- The only block of a fixed buffer, if there is one, with the free space behind it. -/
structure Alone (world : Parts w α × FixedBufferAllocator w × Memory w) : Prop where
  block : world.1.capacity ≠ 0 →
    world.1.data.toNat + world.1.capacity.toNat = world.2.1.begin.toNat
  ordered : world.2.1.begin.toNat ≤ world.2.1.end_.toNat
  low : world.2.1.end_.toNat ≤ isizeMax w

/-- An array with a block keeps it, and what needs a larger one fails and changes nothing. -/
structure Frozen (world : Parts w α × FixedBufferAllocator w × Memory w) (op : SafeOp w α) :
    Prop where
  fails : ∀ additional ∈ Safe.reserves world.1 op,
    Safe.succeeds (FixedBufferAllocator.allocator w) world.1 world.2 op = false ∧
      (Safe.machine (FixedBufferAllocator.allocator w)).next world op = world
  block : ((Safe.machine (FixedBufferAllocator.allocator w)).next world op).1.data =
      world.1.data ∧
    ((Safe.machine (FixedBufferAllocator.allocator w)).next world op).1.capacity =
      world.1.capacity
  buffer : ((Safe.machine (FixedBufferAllocator.allocator w)).next world op).2 = world.2

variable {array : Parts w α} {fba : FixedBufferAllocator w} {memory : Memory w}
  {additional : Usize w} {op : SafeOp w α}

/-- Both layouts of a growth have the alignment of the elements. -/
theorem growLayouts_align {capacity : Usize w} {layouts : Layout w × Layout w}
    (answer : growLayouts α capacity additional = some layouts) :
    layouts.1.align = layouts.2.align := by
  simp only [growLayouts, Option.bind_eq_bind, Option.bind_eq_some_iff,
    Layout.fromSizeAlign_eq_some, Option.pure_def, Option.some.injEq] at answer
  obtain ⟨_, _, _, _, _, _, old, ⟨_, oldAlign⟩, new, ⟨_, newAlign⟩, rfl⟩ := answer
  rw [oldAlign, newAlign]

/-- The old layout of larger elements is not the one of the last block. -/
theorem not_isLast (wide : 2 ≤ (sizeOf w α).toNat) (alone : Alone (array, fba, memory))
    (occupied : array.capacity ≠ 0) {layout : Layout w}
    (size : layout.size.toNat = (sizeOf w α).toNat * array.capacity.toNat) :
    ¬ fba.IsLast array.data layout := by
  have ends := alone.block occupied
  have ordered := alone.ordered
  have low := alone.low
  dsimp only at ends ordered low
  have positive : 0 < array.capacity.toNat :=
    Nat.pos_of_ne_zero fun zero => occupied (BitVec.eq_of_toNat_eq zero)
  have larger : 2 * array.capacity.toNat ≤ layout.size.toNat := by
    rw [size]
    exact Nat.mul_le_mul_right _ wide
  intro last
  by_cases room : layout.size.toNat ≤ fba.begin.toNat
  · obtain ⟨_, below, _⟩ := (FixedBufferAllocator.isLast_iff room).mp last
    omega
  · have high := FixedBufferAllocator.lt_of_isLast_of_wrap (Nat.lt_of_not_le room) last
    unfold isizeMax at low
    omega

/-- A block of larger elements does not grow. -/
theorem reserve_refused (wide : 2 ≤ (sizeOf w α).toNat) (alone : Alone (array, fba, memory))
    (occupied : array.capacity ≠ 0) :
    array.reserve (FixedBufferAllocator.allocator w) additional (fba, memory) =
      (.error .allocError, array, fba, memory) := by
  unfold reserve
  rw [if_neg occupied]
  cases answer : growLayouts α array.capacity additional with
  | none => rfl
  | some layouts =>
      obtain ⟨old, new⟩ := layouts
      have size := (growLayouts_eq_some answer).1
      have last := not_isLast wide alone occupied size
      have stays : fba.grow memory array.data old new = (none, fba, memory) := by
        rcases (FixedBufferAllocator.grow_cases (growLayouts_align answer) :
            fba.GrowsInPlace array.data old new ∧ _ ∨ _) with ⟨grows, _⟩ | ⟨_, refused⟩
        · exact absurd grows.1 last
        · exact refused
      simp only [FixedBufferAllocator.allocator, stays]

/-- The first block of an array is the only one of the buffer. -/
theorem alone_reserve (additional : Usize w) (alone : Alone (array, fba, memory))
    (empty : array.capacity = 0) :
    (array.reserve (FixedBufferAllocator.allocator w) additional (fba, memory) =
        (.error .allocError, array, fba, memory)) ∨
      ∃ slice after,
        array.reserve (FixedBufferAllocator.allocator w) additional (fba, memory) =
          (.ok (), array.enlarged slice, after, memory) ∧
        Alone (array.enlarged slice, after, memory) := by
  have ordered := alone.ordered
  have low := alone.low
  dsimp only at ordered low
  unfold reserve
  rw [if_pos empty]
  cases answer : firstLayout w α additional with
  | none => exact .inl rfl
  | some layout =>
      cases granted : fba.allocate layout with
      | none =>
          simp only [FixedBufferAllocator.allocator, granted]
          exact .inl trivial
      | some pair =>
          obtain ⟨slice, after⟩ := pair
          have positive := Nat.two_pow_pos (w - 1)
          have noWrap : fba.NoWrap layout := .of_low (by unfold isizeMax at low; omega)
          have fits := FixedBufferAllocator.Granted.of_noWrap granted noWrap
          have begin := fits.begin
          rw [← fits.len] at begin
          refine .inr ⟨slice, after, ?_, ⟨fun _ => begin.symm, ?_, ?_⟩⟩
          · simp only [FixedBufferAllocator.allocator, granted, enlarged, empty, if_true]
          · dsimp only
            rw [fits.end_]
            exact fits.bound
          · dsimp only
            rw [fits.end_]
            exact low

/-- One step on an array with a buffer of its own. -/
theorem frozen_step (wide : 2 ≤ (sizeOf w α).toNat)
    {world : Parts w α × FixedBufferAllocator w × Memory w} (alone : Alone world) :
    (world.1.capacity ≠ 0 → Frozen world op) ∧
      Alone ((Safe.machine (FixedBufferAllocator.allocator w)).next world op) := by
  obtain ⟨array, fba, memory⟩ := world
  dsimp only
  cases reserved : Safe.reserves array op with
  | none =>
      have same := Safe.next_of_none (FixedBufferAllocator.allocator w) (fba, memory) reserved
      rcases Safe.step_cases (FixedBufferAllocator.allocator w) array (fba, memory) op with
        ⟨_, needed, _⟩ | stays
      · exact nomatch reserved.symm.trans needed
      · have next : (Safe.machine (FixedBufferAllocator.allocator w)).next (array, fba, memory) op =
            (_, fba, memory) := Prod.ext stays.same same
        refine ⟨fun _ => ⟨fun additional needed => ?_, ?_, same⟩, ?_⟩
        · exact nomatch reserved.symm.trans needed
        · rw [next]
          exact ⟨rfl, rfl⟩
        · rw [next]
          exact ⟨alone.block, alone.ordered, alone.low⟩
  | some additional =>
      by_cases empty : array.capacity = 0
      · refine ⟨fun occupied => absurd empty occupied, ?_⟩
        rcases alone_reserve additional alone empty with
          refused | ⟨slice, after, granted, kept⟩
        · rw [(Safe.next_of_refused reserved refused).2]
          exact alone
        · rw [Safe.next_of_ok reserved granted]
          exact ⟨kept.block, kept.ordered, kept.low⟩
      · obtain ⟨failed, next⟩ := Safe.next_of_refused reserved (reserve_refused wide alone empty)
        refine ⟨fun _ => ⟨fun _ _ => ⟨failed, next⟩, ?_, ?_⟩, ?_⟩
        · rw [next]
          exact ⟨rfl, rfl⟩
        · rw [next]
        · rw [next]
          exact alone

/-- **One block for life.** With a fixed buffer for itself, an array of elements of two or
more bytes that has a block with bytes keeps it, whatever is done to it. -/
theorem block_is_final (wide : 2 ≤ (sizeOf w α).toNat) (fba : FixedBufferAllocator w)
    (memory : Memory w) (ordered : fba.begin.toNat ≤ fba.end_.toNat)
    (low : fba.end_.toNat ≤ isizeMax w) (ops : List (SafeOp w α)) :
    (Safe.machine (FixedBufferAllocator.allocator w)).Along
      (fun world op => world.1.capacity ≠ 0 → Frozen world op) (new, fba, memory) ops := by
  have always : (Safe.machine (FixedBufferAllocator.allocator w)).Along (fun _ _ => True)
      ((new : Parts w α), fba, memory) ops := .of_forall (fun _ _ => trivial) _ _
  exact always.of_invariant Alone (fun _ _ alone _ => frozen_step wide alone)
    ⟨fun occupied => absurd rfl occupied, ordered, low⟩

/-- Sixteen words take the first 64 bytes of a page; there is no room for one more. -/
theorem words_stay :
    (Safe.machine (FixedBufferAllocator.allocator 64)).Along
      (fun world op => world.1.capacity ≠ 0 → Frozen world op)
      ((new : Parts 64 UInt32), ⟨0x1000, 0x2000⟩, fun _ => 0)
      [.push 7, .push 8, .reserve 1] :=
  block_is_final (by decide) ⟨0x1000, 0x2000⟩ (fun _ => 0) (by decide) (by decide) _

end Parts

end Stdx
