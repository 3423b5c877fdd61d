import Stdx.Alloc.Provided
import Stdx.Array.Stores

/-! # Arrays on a heap

Any number of arrays whose elements have one byte take their blocks from an allocator that
leaves resizing to the trait, and what they write goes to the memory that the allocator works
on. Under a discipline that serves blocks of bytes, over every interleaving of safe operations
that put nothing behind a block, the arrays are lawful clients: what they pass to the allocator
is a live block of their own with its layout, and they write inside it. The live blocks are then
those of the arrays, and the memory holds the elements of all of them (`Stdx.Arrays.Sound.run`).
-/

namespace Stdx

open Foundation

variable {w : Nat} {α σ ι : Type*}

namespace Minimal

variable {alloc : Minimal w σ} {newLayout : Layout w} {slice : Slice w}

/-- An allocator as arrays use it, with the memory it works on; the trait provides `grow`. -/
def allocator (alloc : Minimal w σ) : Allocator w (σ × Memory w) where
  allocate state layout := alloc.allocate state.1 state.2 layout
  grow state ptr oldLayout newLayout :=
    match alloc.allocate state.1 state.2 newLayout with
    | (none, after) => (none, after)
    | (some slice, after) =>
        (some slice, alloc.deallocate after.1
          (copyNonoverlapping after.2 ptr slice.ptr oldLayout.size) ptr oldLayout)

/-- The blocks have exactly the size that was asked for. -/
def Exact (alloc : Minimal w σ) : Prop :=
  ∀ state memory layout slice,
    (alloc.allocate state memory layout).1 = some slice → slice.len = layout.size

theorem Exact.grow (exact : alloc.Exact) {state : σ × Memory w} {ptr : Usize w}
    {oldLayout : Layout w}
    (granted : (alloc.allocator.grow state ptr oldLayout newLayout).1 = some slice) :
    slice.len = newLayout.size := by
  apply exact state.1 state.2 newLayout
  rcases answer : alloc.allocate state.1 state.2 newLayout with ⟨_ | other, after⟩
  · simp only [allocator, answer] at granted
    cases granted
  · simp only [allocator, answer] at granted
    exact granted

theorem Exact.honours (exact : alloc.Exact) : alloc.allocator.Honours where
  allocate state layout slice granted := by
    rw [exact state.1 state.2 layout slice granted]
    exact ⟨le_rfl, layout.size_le⟩
  grow state ptr oldLayout newLayout slice granted := by
    rw [exact.grow granted]
    exact ⟨le_rfl, newLayout.size_le⟩

/-- The conditions of a discipline are met where blocks of bytes are allocated and grow. -/
structure Discipline.ServesBytes (discipline : alloc.Discipline) : Prop where
  grants : ∀ {state layout}, 0 < layout.size.toNat → discipline.grants state layout
  resizes : ∀ {world block newLayout}, discipline.valid world.state world.live →
    block ∈ world.live → block.layout.align.toNat = 1 → newLayout.align.toNat = 1 →
      0 < block.size → block.size ≤ newLayout.size.toNat →
        discipline.Resizes world block newLayout

end Minimal

namespace Parts

variable [Element w α] {array : Parts w α} {block : Block w} {encode : Cell α → UInt8}
  {memory : Memory w} {writes : List (Nat × Cell α)}

/-- The block of an array, with its layout. -/
def held (array : Parts w α) : Option (Block w) :=
  if array.capacity = 0 then none
  else (Layout.fromSizeAlign (sizeOf w α * array.capacity) (alignOf w α)).map fun layout =>
    ⟨array.data, layout⟩

theorem held_eq_some :
    array.held = some block ↔ array.capacity ≠ 0 ∧ block.ptr = array.data ∧
      block.layout.size = sizeOf w α * array.capacity ∧ block.layout.align = alignOf w α := by
  unfold held
  by_cases empty : array.capacity = 0
  · simp only [empty, ↓reduceIte, ne_eq, not_true_eq_false, false_and, reduceCtorEq]
  · obtain ⟨ptr, layout⟩ := block
    simp only [empty, ↓reduceIte, Option.map_eq_some_iff, Layout.fromSizeAlign_eq_some, ne_eq,
      not_false_eq_true, true_and, Block.mk.injEq]
    constructor
    · rintro ⟨_, same, rfl, rfl⟩
      exact ⟨rfl, same⟩
    · rintro ⟨rfl, same⟩
      exact ⟨layout, same, rfl, rfl⟩

theorem held_eq_none (empty : array.capacity = 0) : array.held = none := if_pos empty

/-- The block of an array that was moved to a slice. -/
theorem held_of_slice (unit : sizeOf w α = 1) {slice : Slice w} {layout : Layout w}
    (data : array.data = slice.ptr) (capacity : array.capacity = slice.len)
    (len : slice.len = layout.size) (align : layout.align = alignOf w α)
    (positive : 0 < layout.size.toNat) : array.held = some ⟨slice.ptr, layout⟩ := by
  rw [held_eq_some, data, capacity, sizeOf_mul unit]
  refine ⟨fun empty => ?_, rfl, len.symm, align⟩
  rw [← len, empty] at positive
  exact absurd positive (Nat.lt_irrefl 0)

/-- An array that was moved to a slice is in its block. -/
theorem owned_of_slice (unit : sizeOf w α = 1) {slice : Slice w}
    (capacity : array.capacity = slice.len) (bytes : array.bytes = slice.len)
    (length : array.length.toNat ≤ slice.len.toNat) (small : slice.len.toNat ≤ isizeMax w) :
    array.Owned := by
  refine ⟨⟨capacity ▸ length, ?_⟩, bytes ▸ small⟩
  rw [toNat_sizeOf_mul unit, capacity, bytes]

/-- An array with a capacity has a block. -/
theorem exists_held (unit : sizeOf w α = 1) (owned : array.Owned)
    (occupied : array.capacity ≠ 0) : ∃ block, array.held = some block := by
  have small := owned.block.trans owned.bytes
  rw [toNat_sizeOf_mul unit] at small
  obtain ⟨layout, size, align⟩ := layout_of_unit unit array.capacity small
  refine ⟨⟨array.data, layout⟩, held_eq_some.mpr ⟨occupied, rfl, ?_, align⟩⟩
  rw [size, sizeOf_mul unit]

/-- The addresses of the bytes of an array are those of its block. -/
theorem covers_of_held (unit : sizeOf w α = 1) (held : array.held = some block) {offset : Nat}
    (inside : offset < array.capacity.toNat) :
    block.Covers (array.data + BitVec.ofNat w offset) := by
  obtain ⟨_, ptr, size, _⟩ := held_eq_some.mp held
  have bound := array.capacity.isLt
  unfold Block.Covers
  rw [ptr, size, sizeOf_mul unit]
  apply inSpan_add
  rwa [BitVec.toNat_ofNat, Nat.mod_eq_of_lt (by omega)]

/-- What stays in the block of an array is still there. -/
theorem InMemory.of_kept (unit : sizeOf w α = 1) (owned : array.Owned) {after : Memory w}
    (inMemory : array.InMemory encode memory)
    (kept : ∀ block, array.held = some block → ∀ address, block.Covers address →
      after address = memory address) : array.InMemory encode after := by
  intro offset inside value holds
  obtain ⟨block, held⟩ := exists_held unit owned (occupied_of_lt inside)
  rw [kept block held _ (covers_of_held unit held inside)]
  exact inMemory offset inside value holds

/-- The writes change nothing that the block does not cover. -/
theorem storeAll_of_not_covers (unit : sizeOf w α = 1) (held : array.held = some block)
    (inside : ∀ write ∈ writes, write.1 < array.capacity.toNat) {address : Usize w}
    (outside : ¬ block.Covers address) :
    storeAll encode array.data memory writes address = memory address := by
  apply storeAll_of_ne
  rintro write written rfl
  exact outside (covers_of_held unit held (inside write written))

/-- The writes of an array as those of a client. -/
theorem stores_reached (unit : sizeOf w α = 1) (alloc : Minimal w σ) {world : Heap w σ}
    (held : array.held = some block) (live : block ∈ world.live)
    (inside : ∀ write ∈ writes, write.1 < array.capacity.toNat) :
    alloc.machine.Reaches Minimal.Admits world
      { world with memory := storeAll encode array.data world.memory writes } := by
  obtain ⟨_, ptr, size, _⟩ := held_eq_some.mp held
  have bound := array.capacity.isLt
  induction writes generalizing world with
  | nil => exact .refl _ _ _
  | cons write writes ih =>
      obtain ⟨here, others⟩ := List.forall_mem_cons.mp inside
      have admitted : Minimal.Admits world
          (.write block (BitVec.ofNat w write.1) (encode write.2)) := by
        refine ⟨live, ?_⟩
        unfold Block.size
        rwa [size, sizeOf_mul unit, BitVec.toNat_ofNat, Nat.mod_eq_of_lt (by omega)]
      have first : alloc.machine.Reaches Minimal.Admits world _ := .of_step admitted
      refine first.trans ?_
      change alloc.machine.Reaches Minimal.Admits ⟨world.state, Function.update world.memory
        (block.ptr + BitVec.ofNat w write.1) (encode write.2), world.live⟩ _
      rw [ptr]
      exact ih live others

end Parts

/-- Arrays, the state of the allocator that they take their blocks from, and the memory. -/
structure Arrays (ι : Type*) (w : Nat) (α σ : Type*) where
  arrays : ι → Parts w α
  state : σ
  memory : Memory w

namespace Arrays

variable [Element w α]

/-- Arrays without blocks. -/
def start (state : σ) (memory : Memory w) : Arrays ι w α σ := ⟨fun _ => .new, state, memory⟩

/-- Nothing is put behind a block or removed from an empty array with the largest index, and no
empty block is asked for. -/
def Admits (world : Arrays ι w α σ) (call : ι × SafeOp w α) : Prop :=
  (¬ Parts.Safe.Wraps (world.arrays call.1) call.2 ∧
    ¬ Parts.Safe.PutsBehind (world.arrays call.1) call.2) ∧
    ∀ additional ∈ Parts.Safe.reserves (world.arrays call.1) call.2,
      (world.arrays call.1).capacity = 0 → additional ≠ 0

instance (world : Arrays ι w α σ) (call : ι × SafeOp w α) : Decidable (world.Admits call) :=
  -- not by going through all words
  have := Option.decidableForallMem (p := fun additional =>
    (world.arrays call.1).capacity = 0 → additional ≠ 0)
    (Parts.Safe.reserves (world.arrays call.1) call.2)
  inferInstanceAs (Decidable (_ ∧ _))

/-- The live blocks are those of the arrays of the given owners, and the memory holds what is
in them. -/
structure Sound {alloc : Minimal w σ} (discipline : alloc.Discipline) (encode : Cell α → UInt8)
    (owners : List ι) (world : Arrays ι w α σ) (live : List (Block w)) : Prop where
  valid : discipline.valid world.state live
  blocks : live.Perm (owners.filterMap fun index => (world.arrays index).held)
  outside : ∀ index ∉ owners, (world.arrays index).capacity = 0
  owned : ∀ index, (world.arrays index).Owned
  inMemory : ∀ index, (world.arrays index).InMemory encode world.memory

variable {alloc : Minimal w σ} {discipline : alloc.Discipline} {encode : Cell α → UInt8}
  {owners : List ι} {world : Arrays ι w α σ} {live : List (Block w)} {index : ι}
  {block : Block w} {state : σ} {memory : Memory w}

/-- An array with a block is one of the owners. -/
theorem Sound.owner (sound : Sound discipline encode owners world live)
    (held : (world.arrays index).held = some block) : index ∈ owners := by
  by_contra outside
  exact (Parts.held_eq_some.mp held).1 (sound.outside index outside)

/-- The block of an array is live. -/
theorem Sound.held_mem (sound : Sound discipline encode owners world live)
    (held : (world.arrays index).held = some block) : block ∈ live :=
  sound.blocks.mem_iff.mpr (List.mem_filterMap.mpr ⟨index, sound.owner held, held⟩)

/-- A refused request. -/
theorem Sound.refused (unit : sizeOf w α = 1) (sound : Sound discipline encode owners world live)
    (valid : discipline.valid state live) (kept : KeptOn live world.memory memory) :
    Sound discipline encode owners ⟨world.arrays, state, memory⟩ live where
  valid := valid
  blocks := sound.blocks
  outside := sound.outside
  owned := sound.owned
  inMemory other := (sound.inMemory other).of_kept unit (sound.owned other)
    fun block held => kept block (sound.held_mem held)

variable [DecidableEq ι]

/-- One operation; what it writes is stored. -/
def step (alloc : Minimal w σ) (encode : Cell α → UInt8) (world : Arrays ι w α σ)
    (call : ι × SafeOp w α) : List (Event α) × Arrays ι w α σ :=
  let done := (Parts.Safe.machine alloc.allocator).step
    (world.arrays call.1, world.state, world.memory) call.2
  (done.1, ⟨Function.update world.arrays call.1 done.2.1, done.2.2.1,
    storeAll encode done.2.1.data done.2.2.2 (done.1.filterMap Event.written)⟩)

/-- Arrays driven by operations in any order. -/
def machine (ι : Type*) [DecidableEq ι] (alloc : Minimal w σ) (encode : Cell α → UInt8) :
    Machine (Arrays ι w α σ) (ι × SafeOp w α) (List (Event α)) := ⟨step alloc encode⟩

/-- The blocks of the other arrays. -/
def rest (owners : List ι) (world : Arrays ι w α σ) (index : ι) : List (Block w) :=
  (owners.erase index).filterMap fun other => (world.arrays other).held

/-- The block of an array and those of the others. -/
theorem perm_rest (member : index ∈ owners) (world : Arrays ι w α σ) :
    (owners.filterMap fun other => (world.arrays other).held).Perm
      ((world.arrays index).held.toList ++ rest owners world index) := by
  have split := (List.perm_cons_erase member).filterMap fun other => (world.arrays other).held
  refine split.trans (.of_eq ?_)
  cases held : (world.arrays index).held with
  | none => exact List.filterMap_cons_none held
  | some block => exact List.filterMap_cons_some held

theorem Sound.blocks_rest (sound : Sound discipline encode owners world live)
    (member : index ∈ owners) :
    live.Perm ((world.arrays index).held.toList ++ rest owners world index) :=
  sound.blocks.trans (perm_rest member world)

/-- Another array at one of the indices, with a block that takes the place of the old one. -/
theorem Sound.replace (unit : sizeOf w α = 1) (nodup : owners.Nodup)
    (member : index ∈ owners) (sound : Sound discipline encode owners world live)
    {array : Parts w α} {left : List (Block w)} (valid : discipline.valid state left)
    (blocks : left.Perm (array.held.toList ++ rest owners world index))
    (kept : KeptOn (rest owners world index) world.memory memory) (owned : array.Owned)
    (inMemory : array.InMemory encode memory) :
    Sound discipline encode owners
      ⟨Function.update world.arrays index array, state, memory⟩ left where
  valid := valid
  blocks := by
    refine blocks.trans (.trans (.of_eq ?_) (perm_rest member _).symm)
    have same : rest owners world index =
        rest owners ⟨Function.update world.arrays index array, state, memory⟩ index := by
      apply List.filterMap_congr
      intro other present
      have differ := (nodup.mem_erase_iff.mp present).1
      dsimp only
      rw [Function.update_of_ne differ]
    rw [same]
    dsimp only
    rw [Function.update_self]
  outside other outsider := by
    have differ : other ≠ index := by
      rintro rfl
      exact outsider member
    dsimp only
    rw [Function.update_of_ne differ]
    exact sound.outside other outsider
  owned other := by
    by_cases same : other = index
    · subst same
      simpa only [Function.update_self] using owned
    · simpa only [Function.update_of_ne same] using sound.owned other
  inMemory other := by
    by_cases same : other = index
    · subst same
      simpa only [Function.update_self] using inMemory
    · simp only [Function.update_of_ne same]
      apply (sound.inMemory other).of_kept unit (sound.owned other)
      intro block held
      apply kept block
      have beside := nodup.mem_erase_iff.mpr ⟨same, sound.owner held⟩
      exact List.mem_filterMap.mpr ⟨other, beside, held⟩

/-- A run of lawful calls leads from the heap of the one to that of the other. -/
def Follows (discipline : alloc.Discipline) (encode : Cell α → UInt8) (owners : List ι)
    (before : Heap w σ) (after : Arrays ι w α σ) : Prop :=
  ∃ live, alloc.machine.Reaches Minimal.Admits before ⟨after.state, after.memory, live⟩ ∧
    Sound discipline encode owners after live

/-- The first block of an array. -/
theorem Sound.allocate (unit : sizeOf w α = 1) (serves : discipline.ServesBytes)
    (nodup : owners.Nodup) (member : index ∈ owners)
    (sound : Sound discipline encode owners world live) {additional : Usize w}
    (exact : alloc.Exact) (empty : (world.arrays index).capacity = 0) (asked : additional ≠ 0) :
    let done := (world.arrays index).reserve alloc.allocator additional
      (world.state, world.memory)
    Follows discipline encode owners ⟨world.state, world.memory, live⟩
      ⟨Function.update world.arrays index done.2.1, done.2.2.1, done.2.2.2⟩ := by
  intro done
  have same : done = (world.arrays index).reserve alloc.allocator additional
    (world.state, world.memory) := rfl
  rw [Parts.reserve, if_pos empty] at same
  cases layouts : Parts.firstLayout w α additional with
  | none =>
      rw [layouts] at same
      rw [same]
      simp only [Function.update_eq_self]
      exact ⟨live, .refl _ _ _, sound⟩
  | some layout =>
      obtain ⟨_, size, align⟩ := Parts.firstLayout_eq_some.mp layouts
      rw [Parts.sizeOf_mul unit] at size
      have positive : 0 < layout.size.toNat := by
        rw [size]
        exact Nat.pos_of_ne_zero fun zero => asked (BitVec.eq_of_toNat_eq zero)
      have grants : discipline.grants world.state layout := serves.grants positive
      have admitted : Minimal.Admits ⟨world.state, world.memory, live⟩
        (.call (.allocate layout)) := trivial
      have reached : alloc.machine.Reaches Minimal.Admits ⟨world.state, world.memory, live⟩
        (alloc.machine.next ⟨world.state, world.memory, live⟩ (.call (.allocate layout))) :=
        .of_step admitted
      simp only [Machine.next, Minimal.machine, Minimal.step] at reached
      rcases answer : alloc.allocate world.state world.memory layout with
        ⟨_ | slice, after, later⟩
      · obtain ⟨valid, kept⟩ := discipline.refuse sound.valid grants answer
        simp only [layouts, Minimal.allocator, answer] at same
        simp only [answer] at reached
        rw [same]
        simp only [Function.update_eq_self]
        exact ⟨live, reached, sound.refused unit valid kept⟩
      · obtain ⟨valid, kept⟩ := discipline.allocate sound.valid grants answer
        have len := exact world.state world.memory layout slice (by rw [answer])
        simp only [layouts, Minimal.allocator, answer] at same
        simp only [answer] at reached
        rw [same]
        refine ⟨_, reached, sound.replace unit nodup member valid ?_ ?_ ?_ ?_⟩
        · have others := sound.blocks_rest member
          rw [Parts.held_eq_none empty] at others
          rw [Parts.held_of_slice unit rfl rfl len align positive]
          exact others.cons _
        · exact kept.mono fun block present =>
            (sound.blocks_rest member).mem_iff.mpr (List.mem_append_right _ present)
        · exact Parts.owned_of_slice unit rfl rfl (Nat.zero_le _) (len ▸ layout.size_le)
        · intro offset inside value holds
          cases holds

/-- A larger block of an array. -/
theorem Sound.grow (unit : sizeOf w α = 1) (serves : discipline.ServesBytes)
    (nodup : owners.Nodup) (member : index ∈ owners)
    (sound : Sound discipline encode owners world live) (additional : Usize w)
    (exact : alloc.Exact) (occupied : (world.arrays index).capacity ≠ 0) :
    let done := (world.arrays index).reserve alloc.allocator additional
      (world.state, world.memory)
    Follows discipline encode owners ⟨world.state, world.memory, live⟩
      ⟨Function.update world.arrays index done.2.1, done.2.2.1, done.2.2.2⟩ := by
  intro done
  have same : done = (world.arrays index).reserve alloc.allocator additional
    (world.state, world.memory) := rfl
  rw [Parts.reserve, if_neg occupied] at same
  rcases Parts.growLayouts_of_unit unit (world.arrays index).capacity additional with
    ⟨⟨old, new⟩, layouts, oldSize, oldAlign, newSize, sameAlign⟩ | ⟨_, layouts⟩
  · dsimp only at oldSize oldAlign newSize sameAlign
    have held : (world.arrays index).held = some ⟨(world.arrays index).data, old⟩ := by
      rw [Parts.held_eq_some, Parts.sizeOf_mul unit]
      exact ⟨occupied, rfl, oldSize, oldAlign⟩
    have larger : old.size.toNat ≤ new.size.toNat := by
      rw [newSize, oldSize]
      exact Nat.le_add_right _ _
    have some := Nat.pos_of_ne_zero fun zero => occupied (BitVec.eq_of_toNat_eq zero)
    have positive : 0 < new.size.toNat := by omega
    let heap : Heap w σ := ⟨world.state, world.memory, live⟩
    have admitted : Minimal.Admits heap (.call (.grow ⟨(world.arrays index).data, old⟩ new)) :=
      ⟨sound.held_mem held, larger⟩
    have reached : alloc.machine.Reaches Minimal.Admits heap _ := .of_step admitted
    have valid : discipline.valid heap.state heap.live := sound.valid
    have align := Parts.alignOf_of_unit unit
    have resizes := serves.resizes valid admitted.1 (by rw [oldAlign, align])
      (by rw [sameAlign, oldAlign, align]) (by rw [Block.size, oldSize]; exact some) larger
    obtain ⟨isolated, valid⟩ := discipline.step_isolated valid _ admitted resizes
    simp only [Minimal.Isolated, Machine.next, Machine.out, Minimal.machine, Minimal.step,
      Minimal.resized, heap] at reached valid isolated
    rcases answer : alloc.allocate world.state world.memory new with ⟨_ | slice, after, later⟩
    · simp only [answer] at reached valid isolated
      simp only [layouts, Minimal.allocator, answer] at same
      rw [same]
      simp only [Function.update_eq_self]
      exact ⟨live, reached, sound.refused unit valid (isolated.refused rfl).2⟩
    · have len := exact world.state world.memory new slice (by rw [answer])
      simp only [answer] at reached valid isolated
      simp only [layouts, Minimal.allocator, answer] at same
      rw [same]
      have others := sound.blocks_rest member
      rw [held] at others
      have left := others.erase ⟨(world.arrays index).data, old⟩
      rw [Option.toList_some, List.singleton_append, List.erase_cons_head] at left
      refine ⟨_, reached, sound.replace unit nodup member valid ?_ ?_ ?_ ?_⟩
      · rw [Parts.held_of_slice unit rfl rfl len (sameAlign.trans oldAlign) positive]
        exact left.cons _
      · exact isolated.others.2.mono fun block present => left.mem_iff.mpr present
      · apply Parts.owned_of_slice unit rfl rfl _ (len ▸ new.size_le)
        have within := (sound.owned index).length
        rw [len, newSize]
        exact within.trans (Nat.le_add_right _ _)
      · refine (sound.inMemory index).keep unit (congrArg BitVec.toNat oldSize) rfl
          fun offset before => ?_
        have bound := (world.arrays index).capacity.isLt
        have place : (BitVec.ofNat w offset).toNat = offset := by
          rw [BitVec.toNat_ofNat, Nat.mod_eq_of_lt (by omega)]
        apply isolated.contents _ ⟨(world.arrays index).data, old⟩ new slice rfl (.inl rfl) rfl
        rw [place, Block.size, oldSize, newSize]
        exact lt_min before (Nat.lt_add_right _ before)
  · rw [layouts] at same
    rw [same]
    simp only [Function.update_eq_self]
    exact ⟨live, .refl _ _ _, sound⟩

/-- A reservation of one of the arrays. -/
theorem Sound.reserve (unit : sizeOf w α = 1) (exact : alloc.Exact)
    (serves : discipline.ServesBytes) (nodup : owners.Nodup) (member : index ∈ owners)
    (sound : Sound discipline encode owners world live) {additional : Usize w}
    (asks : (world.arrays index).capacity = 0 → additional ≠ 0) :
    let done := (world.arrays index).reserve alloc.allocator additional
      (world.state, world.memory)
    Follows discipline encode owners ⟨world.state, world.memory, live⟩
      ⟨Function.update world.arrays index done.2.1, done.2.2.1, done.2.2.2⟩ := by
  by_cases empty : (world.arrays index).capacity = 0
  · exact sound.allocate unit serves nodup member exact empty (asks empty)
  · exact sound.grow unit serves nodup member additional exact empty

/-- Writes of one of the arrays. -/
theorem Sound.store (unit : sizeOf w α = 1) (nodup : owners.Nodup) (member : index ∈ owners)
    (sound : Sound discipline encode owners world live) {writes : List (Nat × Cell α)}
    (inside : ∀ write ∈ writes, write.1 < (world.arrays index).capacity.toNat)
    {array : Parts w α} (same : array = { world.arrays index with
      length := array.length
      cells := (world.arrays index).cells.putAll writes }) (owned : array.Owned) :
    Follows discipline encode owners ⟨world.state, world.memory, live⟩
      ⟨Function.update world.arrays index array, world.state,
        storeAll encode array.data world.memory writes⟩ := by
  have data : array.data = (world.arrays index).data := by rw [same]
  have held : array.held = (world.arrays index).held := by
    rw [same]
    rfl
  have inMemory : array.InMemory encode
      (storeAll encode array.data world.memory writes) := by
    rw [data]
    have stored := (sound.inMemory index).putAll fun write written =>
      (inside write written).trans (BitVec.isLt _)
    rw [same]
    exact stored
  rw [data] at inMemory ⊢
  cases found : (world.arrays index).held with
  | none =>
      have empty : writes = [] := by
        rw [List.eq_nil_iff_forall_not_mem]
        intro write written
        have occupied := Parts.occupied_of_lt (inside write written)
        obtain ⟨block, some⟩ := Parts.exists_held unit (sound.owned index) occupied
        rw [found] at some
        cases some
      rw [empty] at inMemory ⊢
      refine ⟨live, .refl _ _ _, sound.replace unit nodup member sound.valid ?_ (.refl _ _) owned
        inMemory⟩
      rw [held]
      exact sound.blocks_rest member
  | some block =>
      refine ⟨live, Parts.stores_reached unit alloc found (sound.held_mem found) inside,
        sound.replace unit nodup member sound.valid ?_ ?_ owned inMemory⟩
      · rw [held]
        exact sound.blocks_rest member
      · have split := sound.blocks_rest member
        rw [found] at split
        have symmetric : ∀ {first second : Block w}, first.Apart second → second.Apart first :=
          Block.Apart.symm
        have apart := (split.pairwise_iff symmetric).mp (discipline.apart sound.valid)
        intro other present address covers
        apply Parts.storeAll_of_not_covers unit found inside
        exact fun inside => (List.pairwise_cons.mp apart).1 other present address inside covers

/-- What an operation of one of the arrays works on. -/
theorem Sound.base (unit : sizeOf w α = 1) (exact : alloc.Exact)
    (serves : discipline.ServesBytes) (nodup : owners.Nodup) (member : index ∈ owners)
    (sound : Sound discipline encode owners world live) {op : SafeOp w α}
    (asks : ∀ additional ∈ Parts.Safe.reserves (world.arrays index) op,
      (world.arrays index).capacity = 0 → additional ≠ 0) :
    let base := Parts.Safe.base alloc.allocator (world.arrays index)
      (world.state, world.memory) op
    Follows discipline encode owners ⟨world.state, world.memory, live⟩
      ⟨Function.update world.arrays index base.1, base.2.1, base.2.2⟩ := by
  unfold Parts.Safe.base
  cases reserved : Parts.Safe.reserves (world.arrays index) op with
  | none =>
      simp only [Function.update_eq_self]
      exact ⟨live, .refl _ _ _, sound⟩
  | some additional => exact sound.reserve unit exact serves nodup member (asks _ reserved)

/-- One operation of one of the arrays. -/
theorem Sound.step (unit : sizeOf w α = 1) (exact : alloc.Exact)
    (serves : discipline.ServesBytes) (nodup : owners.Nodup) (call : ι × SafeOp w α)
    (member : call.1 ∈ owners) (sound : Sound discipline encode owners world live)
    (admitted : world.Admits call) :
    Follows discipline encode owners ⟨world.state, world.memory, live⟩
      ((machine ι alloc encode).next world call) := by
  obtain ⟨index, op⟩ := call
  obtain ⟨⟨noWrap, within⟩, asks⟩ := admitted
  have honours := exact.honours
  have owned := sound.owned index
  have inside := Parts.Safe.written_inside unit honours owned (world.state, world.memory) op within
  obtain ⟨middle, reached, kept⟩ := sound.base unit exact serves nodup member asks
  let array := ((Parts.Safe.machine alloc.allocator).next
    (world.arrays index, world.state, world.memory) op).1
  let base := Parts.Safe.base alloc.allocator (world.arrays index) (world.state, world.memory) op
  have same : array = { base.1 with
      length := array.length
      cells := base.1.cells.putAll (((Parts.Safe.machine alloc.allocator).out
        (world.arrays index, world.state, world.memory) op).filterMap Event.written) } :=
    Parts.Safe.next_replayed unit honours (world.arrays index) (world.state, world.memory) op
  have capacity : array.capacity = base.1.capacity := by rw [same]
  have after : array.Owned := Parts.Safe.owned_next honours owned
    ((Parts.Safe.within_iff honours (Parts.sizeOf_ne_zero unit) owned).mpr
      ⟨fun _ _ => .inl unit, noWrap⟩)
  have stored : Follows discipline encode owners ⟨base.2.1, base.2.2, middle⟩
      ⟨Function.update (Function.update world.arrays index base.1) index array, base.2.1,
        storeAll encode array.data base.2.2 (((Parts.Safe.machine alloc.allocator).out
          (world.arrays index, world.state, world.memory) op).filterMap Event.written)⟩ := by
    apply kept.store unit nodup member _ _ after
    · dsimp only
      rw [Function.update_self]
      intro write written
      exact capacity ▸ inside write written
    · dsimp only
      rw [Function.update_self]
      exact same
  rw [Function.update_idem] at stored
  obtain ⟨left, continued, sound⟩ := stored
  have world' : (machine ι alloc encode).next world (index, op) =
      ⟨Function.update world.arrays index array, base.2.1,
        storeAll encode array.data base.2.2 (((Parts.Safe.machine alloc.allocator).out
          (world.arrays index, world.state, world.memory) op).filterMap Event.written)⟩ := by
    rw [← (Parts.Safe.next_base unit honours (world.arrays index)
      (world.state, world.memory) op).2]
    rfl
  rw [world']
  exact ⟨left, reached.trans continued, sound⟩

/-- A run of the arrays is one of lawful calls. -/
theorem Sound.run (unit : sizeOf w α = 1) (exact : alloc.Exact) (serves : discipline.ServesBytes)
    (nodup : owners.Nodup) (sound : Sound discipline encode owners world live)
    {calls : List (ι × SafeOp w α)} (members : ∀ call ∈ calls, call.1 ∈ owners)
    (admitted : (machine ι alloc encode).Along Admits world calls) :
    Follows discipline encode owners ⟨world.state, world.memory, live⟩
      ((machine ι alloc encode).final world calls) := by
  have among : (machine ι alloc encode).Along (fun _ call => call.1 ∈ owners) world calls :=
    .of_forall_mem (fun call present _ => members call present) world
  obtain ⟨heap, reached, left, equal, kept⟩ := (admitted.and among).reaches
    (fun (world : Arrays ι w α σ) (heap : Heap w σ) => ∃ live,
      heap = ⟨world.state, world.memory, live⟩ ∧ Sound discipline encode owners world live)
    (fun world heap call ⟨live, equal, sound⟩ both => by
      subst equal
      obtain ⟨left, reached, kept⟩ := sound.step unit exact serves nodup call both.2 both.1
      exact ⟨_, reached, left, rfl, kept⟩)
    ⟨live, rfl, sound⟩
  subst equal
  exact ⟨left, reached, kept⟩

omit [DecidableEq ι] in
/-- Arrays without blocks. -/
theorem sound_start {memory : Memory w} (valid : discipline.valid state []) (owners : List ι) :
    Sound discipline encode owners (start state memory) [] where
  valid := valid
  blocks := by
    have none (index : ι) (_ : index ∈ owners) :
        ((start state memory : Arrays ι w α σ).arrays index).held = none :=
      Parts.held_eq_none rfl
    rw [List.filterMap_eq_nil_iff.mpr none]
  outside _ _ := rfl
  owned _ := ⟨⟨Nat.le_refl _, by simp [start, Parts.new]⟩, by simp [start, Parts.new]⟩
  inMemory _ offset inside := absurd inside (Nat.not_lt_zero offset)

end Arrays

end Stdx
