import Stdx.Alloc.Relocation

/-! # What clients keep in their blocks

Between the calls on an allocator its clients write to their blocks. A call is isolated when
the blocks that it is not about stay live with what they hold, a block that is resized keeps
what both its layouts have room for, and a refusal leaves all blocks as they are. In every
run of a fixed buffer allocator in the lower half of the address space whose steps are sound,
every call is isolated (`Stdx.World.blocks_isolated`), also where a move to a smaller block
copies bytes past its end.
-/

namespace Stdx

open Foundation

variable {w : Nat}

/-- An address of a span that does not wrap is between its ends. -/
theorem bounds_of_inSpan {start count address : Usize w}
    (fits : start.toNat + count.toNat ≤ 2 ^ w) (inside : InSpan start count address) :
    start.toNat ≤ address.toNat ∧ address.toNat < start.toNat + count.toNat := by
  have offset := BitVec.lt_def.mp inside
  have place : (start + (address - start)).toNat = start.toNat + (address - start).toNat :=
    BitVec.toNat_add_of_lt (by omega)
  rw [BitVec.add_comm, BitVec.sub_add_cancel] at place
  omega

namespace Block

/-- The address is one of the block. -/
def Covers (block : Block w) (address : Usize w) : Prop :=
  InSpan block.ptr block.layout.size address

/-- No address is one of both blocks. -/
def Apart (first second : Block w) : Prop :=
  ∀ address, first.Covers address → ¬ second.Covers address

variable {first second : Block w} {live : List (Block w)}

theorem Apart.symm (apart : first.Apart second) : second.Apart first :=
  fun address inSecond inFirst => apart address inFirst inSecond

/-- Blocks inside the address space with disjoint regions are apart. -/
theorem apart_of_disjoint (firstFits : first.stop ≤ 2 ^ w) (secondFits : second.stop ≤ 2 ^ w)
    (disjoint : Disjoint first.region.range second.region.range) : first.Apart second := by
  intro address inFirst inSecond
  rw [Set.disjoint_left] at disjoint
  exact disjoint (bounds_of_inSpan firstFits inFirst) (bounds_of_inSpan secondFits inSecond)

/-- One of the live blocks is apart from all the other ones. -/
theorem apart_of_mem_erase (apart : live.Pairwise Apart) (member : first ∈ live) :
    ∀ other ∈ live.erase first, first.Apart other := by
  have symmetric : ∀ {first second : Block w}, first.Apart second → second.Apart first :=
    Apart.symm
  have reordered := ((List.perm_cons_erase member).pairwise_iff symmetric).mp apart
  exact (List.pairwise_cons.mp reordered).1

end Block

/-- What the memory holds in the given blocks is the same. -/
def KeptOn (blocks : List (Block w)) (before after : Memory w) : Prop :=
  ∀ block ∈ blocks, ∀ address, block.Covers address → after address = before address

namespace KeptOn

variable {blocks fewer : List (Block w)} {before middle after : Memory w}

theorem refl (blocks : List (Block w)) (memory : Memory w) : KeptOn blocks memory memory :=
  fun _ _ _ _ => rfl

theorem trans (first : KeptOn blocks before middle) (second : KeptOn blocks middle after) :
    KeptOn blocks before after := fun block member address inside =>
  (second block member address inside).trans (first block member address inside)

theorem mono (kept : KeptOn blocks before after) (sub : fewer ⊆ blocks) :
    KeptOn fewer before after :=
  fun block member => kept block (sub member)

/-- A copy to a span that is apart from the blocks. -/
theorem copy {target count : Usize w} (memory : Memory w) (src : Usize w)
    (apart : ∀ block ∈ blocks, ∀ address, InSpan target count address → ¬ block.Covers address) :
    KeptOn blocks memory (copyNonoverlapping memory src target count) := by
  intro block member address inside
  unfold copyNonoverlapping
  rw [if_neg]
  exact fun written => apart block member address written inside

/-- A write to a block that is apart from the given ones. -/
theorem write {block : Block w} {index : Usize w} (memory : Memory w)
    (apart : ∀ other ∈ blocks, block.Apart other) (inside : index.toNat < block.size)
    (byte : UInt8) :
    KeptOn blocks memory (Function.update memory (block.ptr + index) byte) := by
  intro other member address covered
  apply Function.update_of_ne
  rintro rfl
  exact apart other member _ (inSpan_add inside) covered

end KeptOn

/-- A call on the allocator, or a byte that a client writes to a block. -/
inductive HeapCall (w : Nat)
  | call (call : Call w)
  | write (block : Block w) (index : Usize w) (byte : UInt8)

/-- The blocks that the call is not about. -/
def HeapCall.others (live : List (Block w)) : HeapCall w → List (Block w)
  | .call (.allocate _) => live
  | .call (.deallocate block) | .call (.grow block _) | .call (.shrink block _)
  | .write block _ _ => live.erase block

/-- What a call does to the memory of the live blocks and to their list. -/
structure Isolation (call : HeapCall w) (memory : Memory w) (live : List (Block w))
    (reply : Reply w) (later : Memory w) (left : List (Block w)) : Prop where
  others : call.others live ⊆ left ∧ KeptOn (call.others live) memory later
  contents : ∀ inner block newLayout slice, call = .call inner →
    World.Resizes block newLayout inner → reply = .block slice →
      ∀ index : Usize w, index.toNat < min block.size newLayout.size.toNat →
        later (slice.ptr + index) = memory (block.ptr + index)
  refused : reply = .allocError → left = live ∧ KeptOn live memory later

namespace Isolation

variable {call : HeapCall w} {inner : Call w} {block : Block w} {layout newLayout : Layout w}
  {memory middle later : Memory w} {live : List (Block w)} {slice : Slice w} {count : Usize w}

theorem others_subset (call : HeapCall w) (live : List (Block w)) : call.others live ⊆ live := by
  rcases call with (layout | block | ⟨block, newLayout⟩ | ⟨block, newLayout⟩) |
    ⟨block, index, byte⟩
  · exact List.Subset.refl _
  · exact List.erase_subset
  · exact List.erase_subset
  · exact List.erase_subset
  · exact List.erase_subset

/-- A refusal that leaves the memory of the blocks alone. -/
theorem of_refused (kept : KeptOn live memory later) :
    Isolation call memory live .allocError later live where
  others := ⟨others_subset call live, kept.mono (others_subset call live)⟩
  contents := by rintro inner block newLayout slice _ _ ⟨⟩
  refused _ := ⟨rfl, kept⟩

/-- An allocation that leaves the memory of the blocks alone. -/
theorem of_allocated (kept : KeptOn live memory later) :
    Isolation (.call (.allocate layout)) memory live (.block slice) later
      (⟨slice.ptr, layout⟩ :: live) where
  others := ⟨List.subset_cons_self _ _, kept⟩
  contents := by rintro _ block newLayout slice ⟨⟩ (equal | equal) <;> cases equal
  refused := by rintro ⟨⟩

/-- A deallocation that leaves the memory of the other blocks alone. -/
theorem of_deallocated (kept : KeptOn (live.erase block) memory later) :
    Isolation (.call (.deallocate block)) memory live .done later (live.erase block) where
  others := ⟨List.Subset.refl _, kept⟩
  contents := by rintro _ other newLayout slice _ _ ⟨⟩
  refused := by rintro ⟨⟩

/-- A write to a live block that is apart from the others. -/
theorem of_written (apart : live.Pairwise Block.Apart) (member : block ∈ live) {index : Usize w}
    (inside : index.toNat < block.size) (byte : UInt8) :
    Isolation (.write block index byte) memory live .done
      (Function.update memory (block.ptr + index) byte) live where
  others := ⟨List.erase_subset,
    .write memory (Block.apart_of_mem_erase apart member) inside byte⟩
  contents := by rintro inner other newLayout slice ⟨⟩
  refused := by rintro ⟨⟩

/-- A resizing that leaves the memory of the other blocks alone and keeps the contents. -/
theorem of_resized (resizes : World.Resizes block newLayout inner)
    (kept : KeptOn (live.erase block) memory later)
    (contents : ∀ index : Usize w, index.toNat < min block.size newLayout.size.toNat →
      later (slice.ptr + index) = memory (block.ptr + index)) :
    Isolation (.call inner) memory live (.block slice) later
      (⟨slice.ptr, newLayout⟩ :: live.erase block) where
  others := by
    have about : (HeapCall.call inner).others live = live.erase block := by
      rcases resizes with rfl | rfl
      · rfl
      · rfl
    rw [about]
    exact ⟨List.subset_cons_self _ _, kept⟩
  contents := by
    rintro _ other otherLayout _ ⟨⟩ same ⟨⟩
    have agree : other = block ∧ otherLayout = newLayout := by
      rcases resizes with rfl | rfl <;> rcases same with same | same <;> cases same <;>
        exact ⟨rfl, rfl⟩
    obtain ⟨rfl, rfl⟩ := agree
    exact contents
  refused := by rintro ⟨⟩

/-- A resizing by a copy to a span that is apart from the live blocks, with steps before and
after it that leave the memory of the blocks alone. -/
theorem of_moved (resizes : World.Resizes block newLayout inner) (member : block ∈ live)
    (before : KeptOn live memory middle)
    (apart : ∀ other ∈ live, ∀ address, InSpan slice.ptr count address → ¬ other.Covers address)
    (enough : min block.size newLayout.size.toNat ≤ count.toNat)
    (after : KeptOn (⟨slice.ptr, newLayout⟩ :: live.erase block)
      (copyNonoverlapping middle block.ptr slice.ptr count) later) :
    Isolation (.call inner) memory live (.block slice) later
      (⟨slice.ptr, newLayout⟩ :: live.erase block) := by
  apply of_resized resizes
  · have copied := (before.trans (.copy middle block.ptr apart)).mono
      (List.erase_subset (a := block))
    exact copied.trans (after.mono (List.subset_cons_self _ _))
  · intro index inside
    have target : (⟨slice.ptr, newLayout⟩ : Block w).Covers (slice.ptr + index) :=
      inSpan_add (inside.trans_le (Nat.min_le_right _ _))
    have origin : block.Covers (block.ptr + index) :=
      inSpan_add (inside.trans_le (Nat.min_le_left _ _))
    calc later (slice.ptr + index)
        = copyNonoverlapping middle block.ptr slice.ptr count (slice.ptr + index) :=
          after _ List.mem_cons_self _ target
      _ = middle (block.ptr + index) := copyNonoverlapping_add middle (inside.trans_le enough)
      _ = memory (block.ptr + index) := before block member _ origin

end Isolation

namespace World

/-! ## The fixed buffer allocator with its clients -/

/-- One call, or one byte written by a client. -/
def clientStep (world : World w) : HeapCall w → Reply w × World w
  | .call call => world.step call
  | .write block index byte =>
      (.done, { world with memory := Function.update world.memory (block.ptr + index) byte })

/-- The allocator with clients that write. -/
def clients (w : Nat) : Machine (World w) (HeapCall w) (Reply w) := ⟨clientStep⟩

/-- The precondition of the `Allocator` trait; clients write inside live blocks. -/
def ClientAdmits (world : World w) : HeapCall w → Prop
  | .call call => world.Admits call
  | .write block index _ => block ∈ world.live ∧ index.toNat < block.size

/-- The calls are sound. -/
def ClientSound (world : World w) : HeapCall w → Prop
  | .call call => world.Sound call
  | .write _ _ _ => True

instance (world : World w) : ∀ call, Decidable (world.ClientAdmits call)
  | .call call => inferInstanceAs (Decidable (world.Admits call))
  | .write _ _ _ => inferInstanceAs (Decidable (_ ∧ _))

instance (world : World w) : ∀ call, Decidable (world.ClientSound call)
  | .call call => inferInstanceAs (Decidable (world.Sound call))
  | .write _ _ _ => inferInstanceAs (Decidable True)

/-- A call does to the world what isolates the clients. -/
def Isolated (world : World w) (call : HeapCall w) : Prop :=
  Isolation call world.memory world.live ((clients w).out world call)
    ((clients w).next world call).memory ((clients w).next world call).live

variable {fba : FixedBufferAllocator w} {world after : World w} {live : List (Block w)}
  {block : Block w} {layout : Layout w} {call : Call w} {reply : Reply w}

/-- A live block does not end above the address space, and at or below `begin` if it has
an address. -/
theorem Filled.stop_le (filled : Filled fba live) (member : block ∈ live) :
    block.stop ≤ 2 ^ w ∧ (0 < block.size → block.stop ≤ fba.begin.toNat) := by
  have below (occupied : 0 < block.size) : block.stop ≤ fba.begin.toNat :=
    filled.below block.region (List.mem_map_of_mem member) (Nat.lt_add_of_pos_right occupied)
  refine ⟨?_, below⟩
  rcases Nat.eq_zero_or_pos block.size with empty | occupied
  · unfold Block.stop
    rw [empty]
    exact block.ptr.isLt.le
  · exact (below occupied).trans fba.begin.isLt.le

/-- Disjoint live blocks have no address in common. -/
theorem Filled.blocksApart (filled : Filled fba live) : live.Pairwise Block.Apart := by
  have disjoint := filled.apart
  rw [List.pairwise_map] at disjoint
  exact disjoint.imp_of_mem fun first second disjoint =>
    Block.apart_of_disjoint (filled.stop_le first).1 (filled.stop_le second).1 disjoint

/-- A span from `begin` on is apart from the live blocks. -/
theorem Filled.apart_of_begin_le (filled : Filled fba live) {start count : Usize w}
    (above : fba.begin.toNat ≤ start.toNat) (fits : start.toNat + count.toNat ≤ 2 ^ w) :
    ∀ block ∈ live, ∀ address, InSpan start count address → ¬ block.Covers address := by
  intro block member address inside covered
  obtain ⟨bound, below⟩ := filled.stop_le member
  have low := (bounds_of_inSpan fits inside).1
  have high := bounds_of_inSpan bound covered
  have stop := below (by unfold Block.size; omega)
  unfold Block.stop Block.start Block.size at stop
  omega

/-- The end of the buffer stays. -/
theorem Outcome.end_ (outcome : Outcome world call reply after) :
    after.fba.end_ = world.fba.end_ := by
  cases outcome with
  | refused => rfl
  | allocated granted =>
      obtain ⟨_, _, rfl⟩ := FixedBufferAllocator.allocate_eq_some.mp granted
      rfl
  | deallocated block =>
      rcases world.fba.deallocate_cases block.ptr block.layout with ⟨_, equal⟩ | ⟨_, equal⟩
      · rw [equal]
      · rw [equal]
  | resized resizes sameAlign last within => rfl
  | @relocated _ block _ _ middle resizes differ granted =>
      obtain ⟨_, _, rfl⟩ := FixedBufferAllocator.allocate_eq_some.mp granted
      rcases FixedBufferAllocator.deallocate_cases
        { world.fba with begin := world.fba.newBegin _ } block.ptr block.layout with
        ⟨_, equal⟩ | ⟨_, equal⟩
      · rw [equal]
      · rw [equal]

/-- One sound call. The old size is copied also to a smaller block, but all that is above
`begin` belongs to no one. -/
theorem Filled.isolation (filled : Filled world.fba world.live)
    (low : world.fba.end_.toNat ≤ 2 ^ (w - 1)) (admitted : world.Admits call)
    (sound : world.Sound call) (outcome : Outcome world call reply after) :
    Isolation (.call call) world.memory world.live reply after.memory after.live := by
  cases outcome with
  | refused => exact .of_refused (.refl _ _)
  | allocated granted => exact .of_allocated (.refl _ _)
  | deallocated block => exact .of_deallocated (.refl _ _)
  | resized resizes sameAlign last within =>
      exact .of_resized resizes (.refl _ _) fun index inside => rfl
  | @relocated _ block newLayout slice _ resizes differ granted =>
      have noWrap : world.fba.NoWrap newLayout := by
        rcases (sound.relocated resizes differ).1 with noWrap | refused
        · exact noWrap
        · exact absurd (FixedBufferAllocator.allocate_eq_some.mp granted).1
            (Nat.not_le_of_lt refused)
      have result := FixedBufferAllocator.Granted.of_noWrap granted noWrap
      have above := le_alignUp world.fba.begin.toNat newLayout.align_pos
      have start := result.ptr
      have stop := result.begin
      have bound := result.bound
      have half := block.layout.two_pow_width
      have size := block.layout.fits
      exact .of_moved resizes (admitted.member resizes) (.refl _ _)
        (filled.apart_of_begin_le (by omega) (by omega)) (Nat.min_le_left _ _) (.refl _ _)

/-- **Isolation of live blocks.** In every run with writing clients whose calls respect the
trait and are sound, in a buffer in the lower half of the address space. -/
theorem blocks_isolated (buffer : Buffer w) (low : buffer.stop ≤ 2 ^ (w - 1)) (memory : Memory w)
    (calls : List (HeapCall w))
    (admitted : (clients w).Along ClientAdmits (new buffer memory) calls)
    (sound : (clients w).Along ClientSound (new buffer memory) calls) :
    (clients w).Along Isolated (new buffer memory) calls := by
  have end_ : (new buffer memory).fba.end_.toNat = buffer.stop :=
    BitVec.toNat_add_of_lt buffer.no_wrap
  have start : Filled (new buffer memory).fba (new buffer memory).live ∧
      (new buffer memory).fba.end_.toNat = buffer.stop := ⟨Region.Filled.nil _, end_⟩
  refine (admitted.and sound).of_invariant
    (fun world => Filled world.fba world.live ∧ world.fba.end_.toNat = buffer.stop)
    (fun world call valid both => ?_) start
  obtain ⟨filled, stop⟩ := valid
  cases call with
  | call inner =>
      have outcome := world.step_outcome inner
      refine ⟨filled.isolation (stop.trans_le low) both.1 both.2 outcome,
        filled.step both.1 both.2 outcome, ?_⟩
      rw [← stop]
      exact congrArg BitVec.toNat outcome.end_
  | write block index byte =>
      exact ⟨.of_written filled.blocksApart both.1.1 both.1.2 byte, filled, stop⟩

/-- A word that is written moves to a byte above two words that are written as well. -/
def movedAwayCalls : List (HeapCall 64) :=
  [.call (.allocate .word), .write ⟨0x1000, .word⟩ 0 7, .call (.allocate .twoWords),
    .write ⟨0x1004, .twoWords⟩ 7 9, .call (.shrink ⟨0x1000, .word⟩ .byte)]

theorem movedAwayCalls_isolated :
    (clients 64).Along Isolated (new page fun _ => 0) movedAwayCalls :=
  blocks_isolated page (by decide) (fun _ => 0) movedAwayCalls (by decide) (by decide)

end World

end Stdx
