import Stdx.Alloc.Client

/-! # When live blocks stay disjoint

The allocator recognises the last block by rounding `begin - size` down, so a
block of low alignment above a block of higher alignment can be mistaken for the
padding of the lower one: deallocating or resizing the lower block then moves
`begin` below a live block, which a later allocation overlaps
(`Stdx.World.overlap_after_mistaken_deallocation`). This is the only way to lose
disjointness besides sums that wrap around the address space: in every run whose
steps rewind only below all other live blocks and whose sums do not wrap, the
live blocks are pairwise disjoint in every state
(`Stdx.World.live_blocks_disjoint`).
-/

namespace Stdx

open Foundation Region

variable {w : Nat}

/-- Every other block that is not empty ends at or below the address. -/
def Topmost (others : List (Block w)) (address : Nat) : Prop :=
  ∀ other ∈ others, other.size ≠ 0 → other.stop ≤ address

instance (others : List (Block w)) (address : Nat) : Decidable (Topmost others address) :=
  inferInstanceAs (Decidable (∀ _ ∈ _, _))

namespace World

/-- If the block is recognised as the last one, it is above all others. -/
def RewindsTopmost (fba : FixedBufferAllocator w) (block : Block w) (others : List (Block w)) :
    Prop :=
  fba.IsLast block.ptr block.layout → Topmost others block.start

/-- The sums of an allocation do not wrap, or the wrapped sum is refused. -/
def AllocatesSoundly (fba : FixedBufferAllocator w) (layout : Layout w) : Prop :=
  fba.NoWrap layout ∨ fba.end_.toNat < (fba.newBegin layout).toNat

/-- A relocation allocates soundly, and the deallocation of the old block that
follows does not rewind below the new block or another one. -/
def RelocatesSoundly (world : World w) (block : Block w) (newLayout : Layout w) : Prop :=
  AllocatesSoundly world.fba newLayout ∧
    ∀ granted ∈ world.fba.allocate newLayout,
      RewindsTopmost granted.2 block (⟨granted.1.ptr, newLayout⟩ :: world.live.erase block)

/-- The condition on one step: whenever the masked subtraction recognises the
block of the call as the last one, every other live block that is not empty lies
below it, and no accepted sum of addresses wraps. -/
def Sound (world : World w) : Call w → Prop
  | .allocate layout => AllocatesSoundly world.fba layout
  | .deallocate block => RewindsTopmost world.fba block (world.live.erase block)
  | .grow block newLayout =>
      if block.layout.align = newLayout.align then
        world.fba.GrowsInPlace block.ptr block.layout newLayout →
          Topmost (world.live.erase block) block.start ∧
            world.fba.begin.toNat + newLayout.size.toNat < 2 ^ w + block.layout.size.toNat
      else
        world.RelocatesSoundly block newLayout
  | .shrink block newLayout =>
      if block.layout.align = newLayout.align then
        RewindsTopmost world.fba block (world.live.erase block)
      else
        world.RelocatesSoundly block newLayout

instance (fba : FixedBufferAllocator w) (block : Block w) (others : List (Block w)) :
    Decidable (RewindsTopmost fba block others) :=
  inferInstanceAs (Decidable (_ → _))

instance (fba : FixedBufferAllocator w) (layout : Layout w) :
    Decidable (AllocatesSoundly fba layout) :=
  inferInstanceAs (Decidable (_ ∨ _))

instance (world : World w) (block : Block w) (newLayout : Layout w) :
    Decidable (world.RelocatesSoundly block newLayout) :=
  inferInstanceAs (Decidable (_ ∧ _))

instance (world : World w) : ∀ call, Decidable (world.Sound call)
  | .allocate _ => inferInstanceAs (Decidable (AllocatesSoundly _ _))
  | .deallocate _ => inferInstanceAs (Decidable (RewindsTopmost _ _ _))
  | .grow _ _ => inferInstanceAs (Decidable (ite _ _ _))
  | .shrink _ _ => inferInstanceAs (Decidable (ite _ _ _))

/-- Live blocks are disjoint and end at or below `begin`. -/
def Filled (fba : FixedBufferAllocator w) (live : List (Block w)) : Prop :=
  Region.Filled fba.begin.toNat (live.map Block.region)

theorem below_of_topmost {others : List (Block w)} {address : Nat}
    (topmost : Topmost others address) : Below address (others.map Block.region) := by
  intro region member occupied
  obtain ⟨other, inside, rfl⟩ := List.mem_map.mp member
  refine topmost other inside fun empty => ?_
  change other.start < other.start + other.size at occupied
  omega

theorem Filled.erase {fba : FixedBufferAllocator w} {live : List (Block w)}
    (filled : Filled fba live) (block : Block w) : Filled fba (live.erase block) :=
  Region.Filled.sublist filled (List.erase_sublist.map _)

/-- The subtraction of the recognising test does not wrap for a live block. -/
theorem Filled.room {fba : FixedBufferAllocator w} {live : List (Block w)} {block : Block w}
    (filled : Filled fba live) (member : block ∈ live) :
    block.layout.size.toNat ≤ fba.begin.toNat := by
  rcases Nat.eq_zero_or_pos block.layout.size.toNat with empty | occupied
  · omega
  · have stop := filled.below block.region (List.mem_map_of_mem member)
      (Nat.lt_add_of_pos_right occupied)
    change block.ptr.toNat + block.layout.size.toNat ≤ _ at stop
    omega

/-- An allocation puts its block above all others. -/
theorem Filled.allocate {fba after : FixedBufferAllocator w} {live : List (Block w)}
    {layout : Layout w} {slice : Slice w} (filled : Filled fba live)
    (granted : fba.allocate layout = some (slice, after))
    (sound : AllocatesSoundly fba layout) : Filled after (⟨slice.ptr, layout⟩ :: live) := by
  have noWrap : fba.NoWrap layout := by
    rcases sound with noWrap | refused
    · exact noWrap
    · exact absurd (FixedBufferAllocator.allocate_eq_some.mp granted).1 (Nat.not_le_of_lt refused)
  have block := FixedBufferAllocator.Granted.of_noWrap granted noWrap
  have above := le_alignUp fba.begin.toNat layout.align_pos
  have start := block.ptr
  have stop := block.begin
  refine Region.Filled.push filled ⟨_, _⟩ ?_ ?_ fun _ => ?_
  · change _ ≤ slice.ptr.toNat
    omega
  · omega
  · change slice.ptr.toNat + layout.size.toNat ≤ _
    omega

/-- A deallocation rewinds to a bound of the remaining blocks or not at all. -/
theorem Filled.deallocate {fba : FixedBufferAllocator w} {others : List (Block w)}
    {block : Block w} (filled : Filled fba others) (sound : RewindsTopmost fba block others) :
    Filled (fba.deallocate block.ptr block.layout) others := by
  rcases fba.deallocate_cases block.ptr block.layout with ⟨last, equal⟩ | ⟨_, equal⟩
  · rw [equal]
    exact Region.Filled.rewind filled (below_of_topmost (sound last))
  · rw [equal]
    exact filled

/-- Resizing the topmost block in place keeps it above all others. -/
theorem Filled.resize {fba : FixedBufferAllocator w} {live : List (Block w)} {block : Block w}
    {newLayout : Layout w} (filled : Filled fba live) (member : block ∈ live)
    (last : fba.IsLast block.ptr block.layout)
    (topmost : Topmost (live.erase block) block.start)
    (fits : fba.begin.toNat + newLayout.size.toNat < 2 ^ w + block.layout.size.toNat) :
    Filled { fba with begin := fba.begin + (newLayout.size - block.layout.size) }
      (⟨block.ptr, newLayout⟩ :: live.erase block) := by
  have room := filled.room member
  obtain ⟨_, close, _⟩ := (FixedBufferAllocator.isLast_iff room).mp last
  have moved := FixedBufferAllocator.toNat_begin_add_sub room fits
  refine Region.Filled.push
    (Region.Filled.rewind (filled.erase block) (below_of_topmost topmost)) ⟨_, _⟩
    (Nat.le_refl _) ?_ fun _ => ?_
  · change block.ptr.toNat ≤ (fba.begin + _).toNat
    omega
  · change block.ptr.toNat + newLayout.size.toNat ≤ (fba.begin + _).toNat
    omega

/-- A sound resizing in place is one of the topmost block. -/
theorem Sound.resized {world : World w} {call : Call w} {block : Block w} {newLayout : Layout w}
    (sound : world.Sound call) (admitted : world.Admits call)
    (resizes : Resizes block newLayout call) (sameAlign : block.layout.align = newLayout.align)
    (last : world.fba.IsLast block.ptr block.layout)
    (within : call = .grow block newLayout →
      world.fba.passesEnd block.ptr (newLayout.size - block.layout.size) = false) :
    Topmost (world.live.erase block) block.start ∧
      world.fba.begin.toNat + newLayout.size.toNat < 2 ^ w + block.layout.size.toNat := by
  rcases resizes with rfl | rfl
  · simp only [Sound, sameAlign, ↓reduceIte] at sound
    exact sound ⟨last, within rfl⟩
  · simp only [Sound, sameAlign, ↓reduceIte] at sound
    have beginBound := world.fba.begin.isLt
    have smaller := admitted.2
    exact ⟨sound last, by omega⟩

theorem Sound.relocated {world : World w} {call : Call w} {block : Block w}
    {newLayout : Layout w} (sound : world.Sound call) (resizes : Resizes block newLayout call)
    (differ : block.layout.align ≠ newLayout.align) : world.RelocatesSoundly block newLayout := by
  rcases resizes with rfl | rfl
  · simpa only [Sound, differ, ↓reduceIte] using sound
  · simpa only [Sound, differ, ↓reduceIte] using sound

/-- One admitted and sound call keeps the live blocks disjoint below `begin`. -/
theorem Filled.step {world after : World w} {call : Call w} {reply : Reply w}
    (filled : Filled world.fba world.live) (admitted : world.Admits call)
    (sound : world.Sound call) (outcome : Outcome world call reply after) :
    Filled after.fba after.live := by
  cases outcome with
  | refused => exact filled
  | allocated granted => exact filled.allocate granted sound
  | deallocated block => exact (filled.erase block).deallocate sound
  | resized resizes sameAlign last within =>
      obtain ⟨topmost, fits⟩ := sound.resized admitted resizes sameAlign last within
      exact filled.resize (admitted.member resizes) last topmost fits
  | @relocated _ block _ _ _ resizes differ granted =>
      obtain ⟨allocates, rewinds⟩ := sound.relocated resizes differ
      exact ((filled.erase block).allocate granted allocates).deallocate (rewinds _ granted)

/-- **Disjointness of live blocks.** In every run whose calls respect the trait
and whose steps rewind only below all other live blocks, without sums that wrap,
any two live blocks are disjoint. -/
theorem live_blocks_disjoint (buffer : Buffer w) (memory : Memory w) (calls : List (Call w))
    (admitted : (machine w).Along Admits (new buffer memory) calls)
    (sound : (machine w).Along Sound (new buffer memory) calls) :
    ((machine w).final (new buffer memory) calls).live.Pairwise fun first second =>
      Disjoint first.region.range second.region.range := by
  have start : Filled (new buffer memory).fba (new buffer memory).live := Region.Filled.nil _
  have filled : Filled ((machine w).final (new buffer memory) calls).fba
      ((machine w).final (new buffer memory) calls).live :=
    (admitted.and sound).invariant (fun world => Filled world.fba world.live)
      (fun world call filled step => filled.step step.1 step.2 (world.step_outcome call)) start
  have apart := filled.apart
  rwa [List.pairwise_map] at apart

/-- Allocations of different alignments, resized and released in stack order. -/
def stackedCalls : List (Call 64) :=
  [.allocate .byte, .allocate .word, .allocate .byte, .grow ⟨0x1008, .byte⟩ .twoBytes,
    .shrink ⟨0x1008, .twoBytes⟩ .byte, .deallocate ⟨0x1008, .byte⟩, .allocate .twoBytes]

theorem stackedCalls_live_blocks_disjoint :
    ((machine 64).final (new page fun _ => 0) stackedCalls).live.Pairwise fun first second =>
      Disjoint first.region.range second.region.range :=
  live_blocks_disjoint page (fun _ => 0) stackedCalls (by decide) (by decide)

/-- A byte above an aligned byte, which is deallocated first. -/
def mistakenCalls : List (Call 64) :=
  [.allocate .alignedByte, .allocate .byte, .deallocate ⟨0x1000, .alignedByte⟩,
    .allocate .twoBytes]

/-- Deallocating the aligned byte rewinds `begin` below the live byte above it,
and the next allocation covers that byte. -/
theorem overlap_after_mistaken_deallocation :
    ¬ ∀ (w : Nat) (buffer : Buffer w) (memory : Memory w) (calls : List (Call w)),
      (machine w).Along Admits (new buffer memory) calls →
        ((machine w).final (new buffer memory) calls).live.Pairwise fun first second =>
          Disjoint first.region.range second.region.range := by
  intro claim
  have apart := claim 64 page (fun _ => 0) mistakenCalls (by decide)
  have live : ((machine 64).final (new page fun _ => 0) mistakenCalls).live =
      [⟨0x1000, .twoBytes⟩, ⟨0x1001, .byte⟩] := by
    decide
  rw [live] at apart
  have disjoint := (List.pairwise_cons.mp apart).1 _ (List.mem_singleton_self _)
  exact Set.disjoint_left.mp disjoint (show 0x1001 ∈ _ from ⟨by decide, by decide⟩)
    ⟨by decide, by decide⟩

end World

end Stdx
