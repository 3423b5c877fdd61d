import Stdx.Alloc.Disjointness

/-! # Blocks that move to a new alignment

`grow` and `shrink` move a block to a new one when the alignment changes, and
copy as many bytes as the old block has. Whatever the memory holds, a move keeps
the contents and writes inside the new block only, if and only if the new block
is not smaller and does not overlap the old one, or there is no new block
(`Stdx.World.relocates_iff`). In runs whose steps are sound every `grow` to
another alignment is such a move (`Stdx.World.grow_relocates`).
-/

namespace Stdx

open Foundation

variable {w : Nat}

/-- The address is one of the given number from the start on. -/
def InSpan (start count address : Usize w) : Prop := address - start < count

instance (start count address : Usize w) : Decidable (InSpan start count address) :=
  inferInstanceAs (Decidable (_ < _))

/-- Two spans of one length have no address in common. -/
def Apart (src dst count : Usize w) : Prop :=
  ∀ address, InSpan src count address → ¬ InSpan dst count address

/-- The offset of an address from the start of its span. -/
theorem add_sub_start (start index : Usize w) : start + index - start = index := by
  rw [BitVec.add_comm, BitVec.add_sub_cancel]

/-- The addresses of a span are its start with an index below the count. -/
theorem inSpan_add {start count index : Usize w} (inside : index.toNat < count.toNat) :
    InSpan start count (start + index) := by
  rw [InSpan, add_sub_start]
  exact BitVec.lt_def.mpr inside

/-- A copied byte. -/
theorem copyNonoverlapping_add {src dst count index : Usize w} (memory : Memory w)
    (inside : index.toNat < count.toNat) :
    copyNonoverlapping memory src dst count (dst + index) = memory (src + index) := by
  unfold copyNonoverlapping
  rw [add_sub_start, if_pos (BitVec.lt_def.mpr inside)]

namespace World

/-- A move, from the memory that it leaves: the new block has the contents of the
old one, as far as both blocks go, and no byte outside the new block is changed. -/
structure Moves (world : World w) (block : Block w) (newLayout : Layout w) (slice : Slice w)
    (after : Memory w) : Prop where
  contents : ∀ index : Usize w, index.toNat < min block.size newLayout.size.toNat →
    after (slice.ptr + index) = world.memory (block.ptr + index)
  others : ∀ address, ¬ InSpan slice.ptr slice.len address → after address = world.memory address

/-- What may be in memory after a call that moved a block: what the machine leaves
there, and anything if the copied spans overlap, for which
`ptr::copy_nonoverlapping` promises nothing. -/
def MayLeave (world : World w) (call : Call w) (block : Block w) (slice : Slice w)
    (after : Memory w) : Prop :=
  Apart block.ptr slice.ptr block.layout.size → after = ((machine w).next world call).memory

/-- Whatever a call that returns a block may leave in memory is a move. -/
def Relocates (world : World w) (call : Call w) (block : Block w) (newLayout : Layout w) : Prop :=
  ∀ slice, (machine w).out world call = .block slice →
    ∀ after, world.MayLeave call block slice after → world.Moves block newLayout slice after

/-- The new block is not smaller than the old one and apart from it. -/
def MovesApart (world : World w) (block : Block w) (newLayout : Layout w) : Prop :=
  ∀ granted ∈ world.fba.allocate newLayout,
    block.size ≤ newLayout.size.toNat ∧ Apart block.ptr granted.1.ptr block.layout.size

variable {world : World w} {call : Call w} {block : Block w} {newLayout : Layout w}
  {slice : Slice w}

/-- A call that moves a block returns the block that is allocated for it. -/
theorem out_eq_block_iff (resizes : Resizes block newLayout call)
    (differ : block.layout.align ≠ newLayout.align) :
    (machine w).out world call = .block slice ↔
      ∃ after, world.fba.allocate newLayout = some (slice, after) := by
  have moved : (machine w).out world call =
      (world.resized block newLayout
        (world.fba.relocate world.memory block.ptr block.layout newLayout)).1 := by
    rcases resizes with rfl | rfl
    · simp only [Machine.out, machine, step, FixedBufferAllocator.grow_of_align_ne differ]
    · simp only [Machine.out, machine, step, FixedBufferAllocator.shrink_of_align_ne differ]
  rw [moved]
  rcases world.fba.relocate_cases world.memory block.ptr block.layout newLayout with
    ⟨refused, equal⟩ | ⟨granted, middle, allocated, equal⟩
  · rw [equal, refused]
    constructor
    · intro answer
      cases answer
    · rintro ⟨after, granted⟩
      cases granted
  · rw [equal, allocated]
    constructor
    · rintro ⟨⟩
      exact ⟨middle, rfl⟩
    · rintro ⟨after, ⟨⟩⟩
      rfl

/-- The block does not depend on what the memory holds. -/
theorem out_of_memory (resizes : Resizes block newLayout call)
    (differ : block.layout.align ≠ newLayout.align)
    (answer : (machine w).out world call = .block slice) (memory : Memory w) :
    (machine w).out { world with memory } call = .block slice := by
  rw [out_eq_block_iff resizes differ] at answer ⊢
  exact answer

/-- The memory after a call that moved a block. -/
theorem next_memory (resizes : Resizes block newLayout call)
    (differ : block.layout.align ≠ newLayout.align)
    (answer : (machine w).out world call = .block slice) :
    ((machine w).next world call).memory =
      copyNonoverlapping world.memory block.ptr slice.ptr block.layout.size := by
  obtain ⟨after, allocated⟩ := (out_eq_block_iff resizes differ).mp answer
  have moved : world.fba.relocate world.memory block.ptr block.layout newLayout =
      (some slice, after.deallocate block.ptr block.layout,
        copyNonoverlapping world.memory block.ptr slice.ptr block.layout.size) := by
    simp only [FixedBufferAllocator.relocate, allocated]
  rcases resizes with rfl | rfl
  · simp only [Machine.next, machine, step, FixedBufferAllocator.grow_of_align_ne differ, moved,
      resized]
  · simp only [Machine.next, machine, step, FixedBufferAllocator.shrink_of_align_ne differ, moved,
      resized]

/-- A copy to a block that is large enough is a move. -/
theorem Moves.of_copied {after : Memory w} (large : block.size ≤ newLayout.size.toNat)
    (len : slice.len = newLayout.size)
    (copied : after = copyNonoverlapping world.memory block.ptr slice.ptr block.layout.size) :
    world.Moves block newLayout slice after := by
  subst copied
  constructor
  · intro index inside
    exact copyNonoverlapping_add _ (inside.trans_le (Nat.min_le_left _ _))
  · intro address outside
    apply if_neg
    intro copies
    rw [InSpan, len] at outside
    exact outside (BitVec.lt_def.mpr (lt_of_lt_of_le (BitVec.lt_def.mp copies) large))

theorem apart_of_size_eq_zero {src dst : Usize w} {count : Usize w} (empty : count.toNat = 0) :
    Apart src dst count := by
  intro address inside
  have below := BitVec.lt_def.mp inside
  omega

/-- No new block, or one that is large enough and apart. -/
theorem MovesApart.relocates (apart : world.MovesApart block newLayout)
    (resizes : Resizes block newLayout call) (differ : block.layout.align ≠ newLayout.align) :
    world.Relocates call block newLayout := by
  intro slice answer after leaves
  obtain ⟨middle, granted⟩ := (out_eq_block_iff resizes differ).mp answer
  obtain ⟨large, apart⟩ := apart _ granted
  obtain ⟨_, rfl, _⟩ := FixedBufferAllocator.allocate_eq_some.mp granted
  exact .of_copied large rfl ((leaves apart).trans (next_memory resizes differ answer))

/-- A smaller block is written past its end: into memory that holds nothing but one byte, the
first one that has no place in the new block, the call copies this byte. -/
theorem size_le_of_relocates (resizes : Resizes block newLayout call)
    (differ : block.layout.align ≠ newLayout.align)
    (answer : (machine w).out world call = .block slice) (len : slice.len = newLayout.size)
    (relocates : ∀ memory, ({ world with memory } : World w).Relocates call block newLayout) :
    block.size ≤ newLayout.size.toNat := by
  by_contra smaller
  have below : newLayout.size.toNat < block.layout.size.toNat := Nat.lt_of_not_le smaller
  have outside : ¬ InSpan slice.ptr slice.len (slice.ptr + newLayout.size) := by
    rw [InSpan, add_sub_start, len]
    exact BitVec.lt_irrefl _
  by_cases apart : Apart block.ptr slice.ptr block.layout.size
  · let memory : Memory w := Function.update (fun _ => 0) (block.ptr + newLayout.size) 1
    have again := out_of_memory resizes differ answer memory
    have same := (relocates memory slice again _ fun _ => rfl).others _ outside
    have copied : ((machine w).next { world with memory } call).memory
        (slice.ptr + newLayout.size) = 1 := by
      have held : memory (block.ptr + newLayout.size) = 1 := by
        simp only [memory, Function.update_self]
      rw [next_memory resizes differ again, copyNonoverlapping_add _ below]
      exact held
    have elsewhere : slice.ptr + newLayout.size ≠ block.ptr + newLayout.size := by
      intro equal
      rw [(BitVec.add_left_inj _).mp equal] at apart
      exact apart _ (inSpan_add below) (inSpan_add below)
    rw [copied] at same
    have zero : memory (slice.ptr + newLayout.size) = 0 := by
      simp only [memory, Function.update_of_ne elsewhere]
    exact absurd (same.trans zero) (by decide)
  · have again := out_of_memory resizes differ answer fun _ => 0
    have same := (relocates _ slice again (fun _ => 1) fun claimed => absurd claimed apart).others
      _ outside
    exact absurd same (by decide : (1 : UInt8) ≠ 0)

/-- A copy between spans that overlap may leave anything in memory, and so
nothing of the contents. -/
theorem apart_of_relocates (resizes : Resizes block newLayout call)
    (differ : block.layout.align ≠ newLayout.align)
    (answer : (machine w).out world call = .block slice)
    (large : block.size ≤ newLayout.size.toNat)
    (relocates : ∀ memory, ({ world with memory } : World w).Relocates call block newLayout) :
    Apart block.ptr slice.ptr block.layout.size := by
  by_contra overlap
  have occupied : 0 < block.size :=
    Nat.pos_of_ne_zero fun empty => overlap (apart_of_size_eq_zero empty)
  have again := out_of_memory resizes differ answer fun _ => 0
  have moves := relocates _ slice again (fun _ => 1) fun apart => absurd apart overlap
  have first : (0#w).toNat < min block.size newLayout.size.toNat := by
    rw [BitVec.toNat_zero]
    exact lt_min occupied (lt_of_lt_of_le occupied large)
  exact absurd (moves.contents 0#w first) (by decide : (1 : UInt8) ≠ 0)

/-- **Relocation.** Whatever the memory holds, a call that changes the alignment keeps the
contents and changes nothing outside the new block. -/
theorem relocates_iff (world : World w) (call : Call w) (block : Block w) (newLayout : Layout w)
    (resizes : Resizes block newLayout call) (differ : block.layout.align ≠ newLayout.align) :
    (∀ memory, ({ world with memory } : World w).Relocates call block newLayout) ↔
      world.MovesApart block newLayout := by
  constructor
  · rintro relocates ⟨slice, after⟩ granted
    have answer : (machine w).out world call = .block slice :=
      (out_eq_block_iff resizes differ).mpr ⟨after, granted⟩
    have len : slice.len = newLayout.size := by
      obtain ⟨_, rfl, _⟩ := FixedBufferAllocator.allocate_eq_some.mp granted
      rfl
    have large := size_le_of_relocates resizes differ answer len relocates
    exact ⟨large, apart_of_relocates resizes differ answer large relocates⟩
  · intro apart memory
    have here : ({ world with memory } : World w).MovesApart block newLayout := apart
    exact here.relocates resizes differ

/-! ## Runs -/

/-- Spans that do not wrap and follow each other are apart. -/
theorem apart_of_le {src dst count : Usize w} (above : src.toNat + count.toNat ≤ dst.toNat)
    (fits : dst.toNat + count.toNat ≤ 2 ^ w) : Apart src dst count := by
  intro address inside written
  have source := BitVec.lt_def.mp inside
  have target := BitVec.lt_def.mp written
  have bound := address.isLt
  rw [BitVec.toNat_sub] at source target
  by_cases low : src.toNat ≤ address.toNat
  · have offset : (2 ^ w - src.toNat + address.toNat) % 2 ^ w = address.toNat - src.toNat := by
      rw [show 2 ^ w - src.toNat + address.toNat = address.toNat - src.toNat + 2 ^ w by omega,
        Nat.add_mod_right, Nat.mod_eq_of_lt (by omega)]
    rw [offset] at source
    rw [Nat.mod_eq_of_lt (by omega)] at target
    omega
  · rw [Nat.mod_eq_of_lt (by omega)] at source
    omega

/-- A live block below `begin` is apart from the block it is moved to. -/
theorem Filled.movesApart (filled : Filled world.fba world.live) (member : block ∈ world.live)
    (larger : block.size ≤ newLayout.size.toNat) (sound : AllocatesSoundly world.fba newLayout) :
    world.MovesApart block newLayout := by
  rintro ⟨slice, after⟩ granted
  refine ⟨larger, ?_⟩
  have noWrap : world.fba.NoWrap newLayout := by
    rcases sound with noWrap | refused
    · exact noWrap
    · exact absurd (FixedBufferAllocator.allocate_eq_some.mp granted).1 (Nat.not_le_of_lt refused)
  have result := FixedBufferAllocator.Granted.of_noWrap granted noWrap
  have above := le_alignUp world.fba.begin.toNat newLayout.align_pos
  have start := result.ptr
  have fits := noWrap.2
  rcases Nat.eq_zero_or_pos block.size with empty | occupied
  · exact apart_of_size_eq_zero empty
  · have stop : block.ptr.toNat + block.layout.size.toNat ≤ world.fba.begin.toNat :=
      filled.below block.region (List.mem_map_of_mem member) (Nat.lt_add_of_pos_right occupied)
    change block.layout.size.toNat ≤ _ at larger
    exact apart_of_le (by dsimp only; omega) (by dsimp only; omega)

/-- In a run whose calls respect the trait and whose steps are sound, every
`grow` to another alignment keeps the contents and writes in the new block only. -/
theorem grow_relocates (buffer : Buffer w) (memory : Memory w) (calls : List (Call w))
    (admitted : (machine w).Along Admits (new buffer memory) calls)
    (sound : (machine w).Along Sound (new buffer memory) calls) :
    (machine w).Along (fun world call => ∀ block newLayout, call = .grow block newLayout →
      block.layout.align ≠ newLayout.align → world.Relocates call block newLayout)
      (new buffer memory) calls := by
  have start : Filled (new buffer memory).fba (new buffer memory).live := Region.Filled.nil _
  refine (admitted.and sound).of_invariant (fun world => Filled world.fba world.live)
    (fun world call filled step => ?_) start
  refine ⟨?_, filled.step step.1 step.2 (world.step_outcome call)⟩
  rintro block newLayout rfl differ
  have allocates := (step.2.relocated (.inl rfl) differ).1
  exact (filled.movesApart step.1.1 step.1.2 allocates).relocates (.inl rfl) differ

/-- A byte at the start of the page. -/
def byteWorld : World 64 := (machine 64).final (new page fun _ => 7) [.allocate .byte]

/-- The byte is moved to an aligned word. -/
theorem byteWorld_relocates :
    byteWorld.Relocates (.grow ⟨0x1000, .byte⟩ .word) ⟨0x1000, .byte⟩ .word := by
  refine (relocates_iff byteWorld (.grow ⟨0x1000, .byte⟩ .word) ⟨0x1000, .byte⟩ .word (.inl rfl)
    (by decide)).mpr ?_ byteWorld.memory
  rintro ⟨slice, after⟩ granted
  cases granted
  exact ⟨by decide, apart_of_le (by decide) (by decide)⟩

/-- Shrinking two bytes to an aligned one copies both, and the second one changes the byte behind
the new block. -/
theorem shrink_writes_past_block :
    ¬ ∀ (w : Nat) (buffer : Buffer w) (memory : Memory w) (calls : List (Call w)),
      (machine w).Along Admits (new buffer memory) calls →
        let world := (machine w).final (new buffer memory) calls
        ∀ (call : Call w) (block : Block w) (newLayout : Layout w), world.Admits call →
          Resizes block newLayout call → block.layout.align ≠ newLayout.align →
            world.Relocates call block newLayout := by
  intro claim
  let memory : Memory 64 := fun address => if address = 0x1001 then 1 else 0
  have moves := claim 64 page memory [.allocate .twoBytes] (by decide)
    (.shrink ⟨0x1000, .twoBytes⟩ .alignedByte) ⟨0x1000, .twoBytes⟩ .alignedByte (by decide)
    (.inr rfl) (by decide) ⟨0x1004, 1⟩ (by decide) _ fun _ => rfl
  exact absurd (moves.others 0x1005 (by decide)) (by decide)

end World

end Stdx
