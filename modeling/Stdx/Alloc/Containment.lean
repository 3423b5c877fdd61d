import Stdx.Alloc.Client

/-! # When blocks stay inside the buffer

`grow` resizes the last block in place after comparing the buffer's end with
`ptr + (new size - old size)`. The address that moves is `begin`, which is the
block's end and not its start, so the comparison admits a block that ends beyond
the buffer (`Stdx.World.grow_leaves_buffer`). Everything else is contained: for a
buffer in the lower half of the address space, `begin` stays between the
buffer's bounds and every returned block is inside the buffer, aligned and of
the requested size exactly in the runs in which no such `grow` occurs
(`Stdx.World.inside_buffer_iff`).
-/

namespace Stdx

open Foundation

variable {w : Nat}

/-- The layout a call asks for. -/
def Call.requested : Call w → Option (Layout w)
  | .allocate layout => some layout
  | .deallocate _ => none
  | .grow _ newLayout => some newLayout
  | .shrink _ newLayout => some newLayout

theorem World.Resizes.requested {call : Call w} {block : Block w} {newLayout : Layout w}
    (resizes : World.Resizes block newLayout call) : call.requested = some newLayout := by
  rcases resizes with rfl | rfl
  · rfl
  · rfl

/-- A block of memory inside the buffer that answers a request for a layout. -/
structure Buffer.Holds (buffer : Buffer w) (slice : Slice w) (layout : Layout w) : Prop where
  start : buffer.start.toNat ≤ slice.ptr.toNat
  stop : slice.ptr.toNat + slice.len.toNat ≤ buffer.stop
  aligned : layout.align.toNat ∣ slice.ptr.toNat
  len : slice.len = layout.size

namespace World

/-- The bounds of the buffer are kept. -/
def InRange (buffer : Buffer w) (fba : FixedBufferAllocator w) : Prop :=
  buffer.start.toNat ≤ fba.begin.toNat ∧ fba.begin.toNat ≤ fba.end_.toNat

/-- What one step owes: `begin` in range afterwards, and a returned block
inside the buffer that is what was asked for. -/
def Answers (buffer : Buffer w) (world : World w) (call : Call w) : Prop :=
  InRange buffer ((machine w).next world call).fba ∧
    ∀ slice, (machine w).out world call = .block slice →
      ∀ layout ∈ call.requested, buffer.Holds slice layout

/-- The condition on one step: a `grow` that keeps the alignment, recognises its
block as the last one and passes the comparison with the end leaves room for
`begin` as well. -/
def GrowsWithin (world : World w) : Call w → Prop
  | .grow block newLayout =>
      block.layout.align = newLayout.align → world.fba.IsLast block.ptr block.layout →
        block.start + newLayout.size.toNat ≤ world.fba.end_.toNat + block.size →
          world.fba.begin.toNat + newLayout.size.toNat ≤ world.fba.end_.toNat + block.size
  | _ => True

instance (world : World w) : ∀ call, Decidable (world.GrowsWithin call)
  | .allocate _ => inferInstanceAs (Decidable True)
  | .deallocate _ => inferInstanceAs (Decidable True)
  | .grow _ _ => inferInstanceAs (Decidable (_ → _ → _ → _))
  | .shrink _ _ => inferInstanceAs (Decidable True)

/-- A block is inside the buffer and aligned. -/
structure BlockIn (buffer : Buffer w) (block : Block w) : Prop where
  start : buffer.start.toNat ≤ block.start
  stop : block.stop ≤ buffer.stop
  aligned : block.layout.align.toNat ∣ block.start

/-- The allocator keeps to its buffer, and so do the live blocks. -/
structure Contained (buffer : Buffer w) (fba : FixedBufferAllocator w)
    (live : List (Block w)) : Prop where
  end_ : fba.end_.toNat = buffer.stop
  range : InRange buffer fba
  blocks : ∀ block ∈ live, BlockIn buffer block

namespace Contained

variable {buffer : Buffer w} {fba after : FixedBufferAllocator w} {live : List (Block w)}
  {block : Block w} {layout newLayout : Layout w} {slice : Slice w}

theorem erase (contained : Contained buffer fba live) (block : Block w) :
    Contained buffer fba (live.erase block) :=
  ⟨contained.end_, contained.range,
    fun other member => contained.blocks other (List.mem_of_mem_erase member)⟩

/-- A recognised block of the buffer ends at or below `begin`: had the
subtraction wrapped, the block would start in the upper half. -/
theorem room (inside : BlockIn buffer block) (low : buffer.stop ≤ 2 ^ (w - 1))
    (last : fba.IsLast block.ptr block.layout) :
    block.layout.size.toNat ≤ fba.begin.toNat := by
  by_contra wraps
  have upper := FixedBufferAllocator.lt_of_isLast_of_wrap (Nat.lt_of_not_le wraps) last
  have stop := inside.stop
  unfold Block.stop Block.start at stop
  omega

/-- A recognised block of the buffer ends less than one alignment below `begin`. -/
theorem close (inside : BlockIn buffer block) (low : buffer.stop ≤ 2 ^ (w - 1))
    (last : fba.IsLast block.ptr block.layout) : block.stop ≤ fba.begin.toNat :=
  ((FixedBufferAllocator.isLast_iff (room inside low last)).mp last).2.1

theorem allocate (contained : Contained buffer fba live) (low : buffer.stop ≤ 2 ^ (w - 1))
    (granted : fba.allocate layout = some (slice, after)) :
    Contained buffer after (⟨slice.ptr, layout⟩ :: live) ∧ buffer.Holds slice layout := by
  have end_ := contained.end_
  have range := contained.range
  unfold InRange at range
  have noWrap : fba.NoWrap layout := .of_low (by omega)
  have result := FixedBufferAllocator.Granted.of_noWrap granted noWrap
  have above := le_alignUp fba.begin.toNat layout.align_pos
  have ptr := result.ptr
  have len := result.len
  have begin := result.begin
  have bound := result.bound
  have aligned : layout.align.toNat ∣ slice.ptr.toNat := ptr ▸ dvd_alignUp _ _
  refine ⟨⟨result.end_ ▸ end_, ⟨by omega, result.end_ ▸ bound⟩, fun other member => ?_⟩,
    ⟨by omega, by rw [len]; omega, aligned, len⟩⟩
  rcases List.mem_cons.mp member with rfl | old
  · refine ⟨?_, ?_, aligned⟩
    · change _ ≤ slice.ptr.toNat
      omega
    · change slice.ptr.toNat + layout.size.toNat ≤ _
      omega
  · exact contained.blocks other old

theorem deallocate (contained : Contained buffer fba live) (inside : BlockIn buffer block) :
    Contained buffer (fba.deallocate block.ptr block.layout) live := by
  rcases fba.deallocate_cases block.ptr block.layout with ⟨_, equal⟩ | ⟨_, equal⟩
  · have start := inside.start
    have stop := inside.stop
    have end_ := contained.end_
    unfold Block.stop at stop
    rw [equal]
    exact ⟨end_, ⟨start, show block.start ≤ fba.end_.toNat by omega⟩, contained.blocks⟩
  · rw [equal]
    exact contained

theorem resize (contained : Contained buffer fba live) (low : buffer.stop ≤ 2 ^ (w - 1))
    (member : block ∈ live) (sameAlign : block.layout.align = newLayout.align)
    (last : fba.IsLast block.ptr block.layout)
    (fits : fba.begin.toNat + newLayout.size.toNat ≤ fba.end_.toNat + block.layout.size.toNat) :
    Contained buffer { fba with begin := fba.begin + (newLayout.size - block.layout.size) }
        (⟨block.ptr, newLayout⟩ :: live.erase block) ∧
      buffer.Holds ⟨block.ptr, newLayout.size⟩ newLayout := by
  have inside := contained.blocks block member
  have end_ := contained.end_
  have start := inside.start
  have aligned : newLayout.align.toNat ∣ block.ptr.toNat := sameAlign ▸ inside.aligned
  have stop := close inside low last
  have endBound := fba.end_.isLt
  unfold Block.stop Block.start Block.size at stop
  unfold Block.start at start
  have moved := FixedBufferAllocator.toNat_begin_add_sub (room inside low last)
    (by omega : fba.begin.toNat + newLayout.size.toNat < 2 ^ w + block.layout.size.toNat)
  have within : block.ptr.toNat + newLayout.size.toNat ≤ buffer.stop := by omega
  refine ⟨⟨end_, ⟨?_, ?_⟩, fun other old => ?_⟩, ⟨start, within, aligned, rfl⟩⟩
  · change _ ≤ (fba.begin + _).toNat
    omega
  · change (fba.begin + _).toNat ≤ fba.end_.toNat
    omega
  · rcases List.mem_cons.mp old with rfl | kept
    · exact ⟨start, within, aligned⟩
    · exact contained.blocks other (List.mem_of_mem_erase kept)

/-- For a block of the buffer the signed comparison of `grow` is the unsigned one. -/
theorem passesEnd_iff (contained : Contained buffer fba live) (inside : BlockIn buffer block)
    (larger : block.layout.size.toNat ≤ newLayout.size.toNat) :
    fba.passesEnd block.ptr (newLayout.size - block.layout.size) = true ↔
      fba.end_.toNat + block.size < block.start + newLayout.size.toNat := by
  have end_ := contained.end_
  have start := inside.start
  have stop := inside.stop
  have len := buffer.len_le
  unfold Buffer.stop at end_ stop
  unfold Block.stop Block.start at stop
  unfold Block.start at start
  exact FixedBufferAllocator.passesEnd_iff (by omega) (by omega) larger

end Contained

variable {buffer : Buffer w} {world : World w} {call : Call w} {block : Block w}
  {newLayout : Layout w}

/-- A resizing in place leaves room for `begin`. -/
theorem Contained.fits (contained : Contained buffer world.fba world.live)
    (admitted : world.Admits call) (within : world.GrowsWithin call)
    (resizes : Resizes block newLayout call) (sameAlign : block.layout.align = newLayout.align)
    (last : world.fba.IsLast block.ptr block.layout)
    (accepted : call = .grow block newLayout →
      world.fba.passesEnd block.ptr (newLayout.size - block.layout.size) = false) :
    world.fba.begin.toNat + newLayout.size.toNat ≤
      world.fba.end_.toNat + block.layout.size.toNat := by
  rcases resizes with rfl | rfl
  · have inside := contained.blocks block admitted.1
    have passes := (contained.passesEnd_iff inside admitted.2).not.mp
      (Bool.eq_false_iff.mp (accepted rfl))
    exact within sameAlign last (Nat.le_of_not_lt passes)
  · have range := contained.range.2
    have smaller := admitted.2
    omega

/-- One admitted step in which `grow` leaves room for `begin` answers from the
buffer and keeps to it. -/
theorem Contained.step {after : World w} {reply : Reply w}
    (contained : Contained buffer world.fba world.live) (low : buffer.stop ≤ 2 ^ (w - 1))
    (admitted : world.Admits call) (within : world.GrowsWithin call)
    (outcome : Outcome world call reply after) :
    Contained buffer after.fba after.live ∧
      ∀ slice, reply = .block slice → ∀ layout ∈ call.requested, buffer.Holds slice layout := by
  cases outcome with
  | refused => exact ⟨contained, by rintro _ ⟨⟩⟩
  | allocated granted =>
      obtain ⟨kept, holds⟩ := contained.allocate low granted
      exact ⟨kept, by rintro _ ⟨⟩ _ ⟨⟩; exact holds⟩
  | deallocated block =>
      exact ⟨(contained.erase block).deallocate (contained.blocks block admitted),
        by rintro _ ⟨⟩⟩
  | resized resizes sameAlign last accepted =>
      obtain ⟨kept, holds⟩ := contained.resize low (admitted.member resizes) sameAlign last
        (contained.fits admitted within resizes sameAlign last accepted)
      refine ⟨kept, ?_⟩
      rintro _ ⟨⟩ layout requested
      rw [resizes.requested, Option.mem_some] at requested
      exact requested ▸ holds
  | @relocated _ block _ _ _ resizes _ granted =>
      obtain ⟨kept, holds⟩ := (contained.erase block).allocate low granted
      refine ⟨kept.deallocate (contained.blocks block (admitted.member resizes)), ?_⟩
      rintro _ ⟨⟩ layout requested
      rw [resizes.requested, Option.mem_some] at requested
      exact requested ▸ holds

/-- A `grow` that answers with `begin` in range leaves room for `begin`. -/
theorem Contained.growsWithin (contained : Contained buffer world.fba world.live)
    (low : buffer.stop ≤ 2 ^ (w - 1)) (admitted : world.Admits call)
    (answers : Answers buffer world call) : world.GrowsWithin call := by
  cases call with
  | allocate _ => trivial
  | deallocate _ => trivial
  | shrink _ _ => trivial
  | grow block newLayout =>
      intro sameAlign last fits
      have inside := contained.blocks block admitted.1
      have passes := (contained.passesEnd_iff inside admitted.2).not.mpr (Nat.not_lt.mpr fits)
      have kept := answers.1.2
      simp only [Machine.next, machine, World.step] at kept
      rcases FixedBufferAllocator.grow_cases sameAlign with ⟨_, equal⟩ | ⟨refused, _⟩
      · rw [equal] at kept
        have room := Contained.room inside low last
        have range := contained.range.2
        have end_ := contained.end_
        have half := newLayout.two_pow_width
        have bound := newLayout.fits
        have positive := newLayout.align_pos
        have moved := FixedBufferAllocator.toNat_begin_add_sub room
          (by omega : world.fba.begin.toNat + newLayout.size.toNat <
            2 ^ w + block.layout.size.toNat)
        change (world.fba.begin + _).toNat ≤ world.fba.end_.toNat at kept
        unfold Block.size
        omega
      · exact absurd ⟨last, Bool.eq_false_iff.mpr passes⟩ refused

theorem contained_new (buffer : Buffer w) (memory : Memory w) :
    Contained buffer (new buffer memory).fba (new buffer memory).live := by
  have sum : (buffer.start + buffer.len).toNat = buffer.stop :=
    BitVec.toNat_add_of_lt buffer.no_wrap
  refine ⟨sum, ⟨Nat.le_refl _, ?_⟩, nofun⟩
  change buffer.start.toNat ≤ (buffer.start + buffer.len).toNat
  rw [sum]
  exact Nat.le_add_right _ _

/-- **Containment.** For a buffer whose addresses do not exceed `isize::MAX` and
a run whose calls respect the trait, `begin` stays in range and every returned
block is inside the buffer, aligned and of the requested size, if and only if
every `grow` that resizes in place leaves room for `begin` below the end. -/
theorem inside_buffer_iff (buffer : Buffer w) (low : buffer.stop ≤ 2 ^ (w - 1))
    (memory : Memory w) (calls : List (Call w))
    (admitted : (machine w).Along Admits (new buffer memory) calls) :
    InRange buffer (new buffer memory).fba ∧
        (machine w).Along (Answers buffer) (new buffer memory) calls ↔
      (machine w).Along GrowsWithin (new buffer memory) calls := by
  have start := contained_new buffer memory
  constructor
  · rintro ⟨_, answers⟩
    refine (admitted.and answers).of_invariant
      (fun world => Contained buffer world.fba world.live) (fun world call contained step => ?_)
      start
    have within := contained.growsWithin low step.1 step.2
    exact ⟨within, (contained.step low step.1 within (world.step_outcome call)).1⟩
  · intro within
    refine ⟨start.range, (admitted.and within).of_invariant
      (fun world => Contained buffer world.fba world.live) (fun world call contained step => ?_)
      start⟩
    obtain ⟨kept, holds⟩ := contained.step low step.1 step.2 (world.step_outcome call)
    exact ⟨⟨kept.range, holds⟩, kept⟩

/-- A block allocated at the start of the page and grown within it. -/
def grownCalls : List (Call 64) :=
  [.allocate .word, .grow ⟨0x1000, .word⟩ .twoWords, .grow ⟨0x1000, .twoWords⟩ .manyBytes]

theorem grownCalls_inside_buffer :
    InRange page (new page fun _ => 0).fba ∧
      (machine 64).Along (Answers page) (new page fun _ => 0) grownCalls :=
  (inside_buffer_iff page (by decide) (fun _ => 0) grownCalls (by decide)).mpr (by decide)

/-- A block of two bytes grown by as many bytes as the page has. -/
def overgrownCalls : List (Call 64) :=
  [.allocate .twoBytes, .grow ⟨0x1000, .twoBytes⟩ .manyBytes]

/-- Growing a block by the length of the page is granted, and the block then
ends beyond the page. -/
theorem grow_leaves_buffer :
    ¬ ∀ (w : Nat) (buffer : Buffer w), buffer.stop ≤ 2 ^ (w - 1) →
      ∀ (memory : Memory w) (calls : List (Call w)),
        (machine w).Along Admits (new buffer memory) calls →
          InRange buffer (new buffer memory).fba ∧
            (machine w).Along (Answers buffer) (new buffer memory) calls := by
  intro claim
  obtain ⟨_, _, ⟨kept, _⟩, _⟩ := claim 64 page (by decide) (fun _ => 0) overgrownCalls (by decide)
  exact absurd kept.2 (by decide)

end World

end Stdx
