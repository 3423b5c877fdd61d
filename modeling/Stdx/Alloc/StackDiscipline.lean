import Mathlib.Data.List.Nodup
import Stdx.Alloc.Client

/-! # Runs of one alignment are a stack of blocks

When all layouts of a run have the same alignment and sizes that are positive
multiples of it, no padding ever separates two blocks. The one address the
allocator keeps then stands for a plain stack of contiguous blocks: the masked
subtraction recognises the top block and no other, also while released blocks
are buried under live ones (`Stdx.World.refines_stack`).
-/

namespace Stdx

open Foundation Region

variable {w : Nat}

/-- A plain stack of blocks, top first, between a base and a limit. Blocks that
were released below the top stay on the stack. `used` records that a block has
been put on it. -/
structure BlockStack where
  base : Nat
  limit : Nat
  blocks : List (Region Nat)
  used : Bool
deriving DecidableEq

namespace BlockStack

/-- What can be done with a stack of blocks. -/
inductive Op
  | push (size : Nat)
  | pop (block : Region Nat)
  | shorten (block : Region Nat) (size : Nat)

/-- What the stack answers. -/
inductive Answer
  | block (region : Region Nat)
  | refused
  | done
deriving DecidableEq

/-- The address the next block would start at. -/
def top (stack : BlockStack) : Nat := Region.top stack.base stack.blocks

/-- Push above the top if it fits; pop and shorten the top block only. -/
def step (stack : BlockStack) : Op → Answer × BlockStack
  | .push size =>
      let region : Region Nat := ⟨stack.top, stack.top + size⟩
      if region.stop ≤ stack.limit then
        (.block region, { stack with blocks := region :: stack.blocks, used := true })
      else
        (.refused, stack)
  | .pop block =>
      if stack.blocks.head? = some block then
        (.done, { stack with blocks := stack.blocks.tail })
      else
        (.done, stack)
  | .shorten block size =>
      let region : Region Nat := ⟨block.start, block.start + size⟩
      if stack.blocks.head? = some block then
        (.block region, { stack with blocks := region :: stack.blocks.tail })
      else
        (.refused, stack)

/-- The stack as a machine. -/
def machine : Machine BlockStack Op Answer := ⟨step⟩

end BlockStack

namespace World

/-- The calls of a run of one alignment. -/
def Uniform (align : Nat) (_ : World w) : Call w → Prop
  | .allocate layout =>
      layout.align.toNat = align ∧ align ∣ layout.size.toNat ∧ 0 < layout.size.toNat
  | .deallocate _ => True
  | .grow _ _ => False
  | .shrink _ newLayout =>
      newLayout.align.toNat = align ∧ align ∣ newLayout.size.toNat ∧ 0 < newLayout.size.toNat

instance (align : Nat) (world : World w) : ∀ call, Decidable (Uniform align world call)
  | .allocate _ => inferInstanceAs (Decidable (_ ∧ _))
  | .deallocate _ => inferInstanceAs (Decidable True)
  | .grow _ _ => inferInstanceAs (Decidable False)
  | .shrink _ _ => inferInstanceAs (Decidable (_ ∧ _))

/-- The operation on the stack a call stands for. `grow` is no call of these
runs; it is sent where every other resizing goes. -/
def toStackOp : Call w → BlockStack.Op
  | .allocate layout => .push layout.size.toNat
  | .deallocate block => .pop block.region
  | .grow block newLayout => .shorten block.region newLayout.size.toNat
  | .shrink block newLayout => .shorten block.region newLayout.size.toNat

/-- A reply and an answer name the same block, or both refuse, or both are done. -/
def Agrees : Reply w → BlockStack.Answer → Prop
  | .block slice, .block region =>
      slice.ptr.toNat = region.start ∧ slice.ptr.toNat + slice.len.toNat = region.stop
  | .allocError, .refused => True
  | .done, .done => True
  | _, _ => False

/-- The empty stack at the first aligned address of the buffer. -/
def emptyStack (align : Nat) (buffer : Buffer w) : BlockStack where
  base := alignUp buffer.start.toNat align
  limit := buffer.stop
  blocks := []
  used := false

/-- The stack a world stands for: contiguous blocks from the first aligned
address, among them the live ones, with `begin` at the end of the top block (at
the start of the buffer until the first block is allocated). -/
structure Represents (align : Nat) (buffer : Buffer w) (world : World w) (stack : BlockStack) :
    Prop where
  base : stack.base = alignUp buffer.start.toNat align
  limit : stack.limit = buffer.stop
  end_ : world.fba.end_.toNat = buffer.stop
  contiguous : Contiguous stack.base stack.blocks
  aligned : ∀ block ∈ stack.blocks, align ∣ block.start ∧ align ∣ block.stop
  begin : world.fba.begin.toNat = if stack.used then stack.top else buffer.start.toNat
  bounded : stack.used = true → stack.top ≤ stack.limit
  unused : stack.used = false → stack.blocks = []
  live : ∀ block ∈ world.live, block.region ∈ stack.blocks ∧ block.layout.align.toNat = align
  nodup : world.live.Nodup

namespace Represents

variable {align : Nat} {buffer : Buffer w} {world : World w} {stack : BlockStack}
  {block : Block w} {layout newLayout : Layout w}

theorem dvd_top (represents : Represents align buffer world stack) : align ∣ stack.top := by
  have aligned := represents.aligned
  have base := represents.base
  unfold BlockStack.top
  cases blocks : stack.blocks with
  | nil => exact base ▸ dvd_alignUp _ _
  | cons head rest => exact (aligned head (blocks ▸ List.mem_cons_self)).2

/-- The next aligned address is the top of the stack. -/
theorem alignUp_begin (represents : Represents align buffer world stack)
    (positive : 0 < align) : alignUp world.fba.begin.toNat align = stack.top := by
  have begin := represents.begin
  cases used : stack.used with
  | true =>
      rw [used, if_pos rfl] at begin
      rw [begin]
      exact alignUp_of_dvd positive represents.dvd_top
  | false =>
      rw [used, if_neg Bool.false_ne_true] at begin
      rw [begin, ← represents.base]
      unfold BlockStack.top
      rw [represents.unused used]
      rfl

theorem begin_le (represents : Represents align buffer world stack) :
    world.fba.begin.toNat ≤ buffer.stop := by
  have begin := represents.begin
  have limit := represents.limit
  cases used : stack.used with
  | true =>
      have bounded := represents.bounded used
      rw [used, if_pos rfl] at begin
      omega
  | false =>
      rw [used, if_neg Bool.false_ne_true] at begin
      unfold Buffer.stop
      omega

theorem start_eq (represents : Represents align buffer world stack) (occupied : stack.blocks ≠ []) :
    world.fba.begin.toNat = stack.top := by
  have begin := represents.begin
  cases used : stack.used with
  | true => rwa [used, if_pos rfl] at begin
  | false => exact absurd (represents.unused used) occupied

/-- For a live block the masked subtraction is the question whether the block
is the top of the stack. -/
theorem isLast_iff_head (represents : Represents align buffer world stack)
    (member : block ∈ world.live) :
    world.fba.IsLast block.ptr block.layout ↔ stack.blocks.head? = some block.region := by
  obtain ⟨onStack, sameAlign⟩ := represents.live block member
  have begin := represents.start_eq (List.ne_nil_of_mem onStack)
  have stop : block.ptr.toNat + block.layout.size.toNat ≤ stack.top :=
    represents.contiguous.stop_le_top onStack
  obtain ⟨dvdStart, dvdStop⟩ : align ∣ block.ptr.toNat ∧
      align ∣ block.ptr.toNat + block.layout.size.toNat := represents.aligned _ onStack
  have dvdTop := represents.dvd_top
  rw [FixedBufferAllocator.isLast_iff (by omega), sameAlign, begin,
    represents.contiguous.head?_eq_some_iff onStack]
  change _ ↔ block.ptr.toNat + block.layout.size.toNat = stack.top
  constructor
  · rintro ⟨_, _, near⟩
    obtain ⟨gap, equal⟩ := Nat.dvd_sub dvdTop dvdStop
    rcases Nat.eq_zero_or_pos gap with rfl | positive
    · rw [Nat.mul_zero] at equal
      omega
    · have far := Nat.le_mul_of_pos_right align positive
      omega
  · intro same
    have positive : 0 < align := sameAlign ▸ block.layout.align_pos
    exact ⟨dvdStart, by omega, by omega⟩

/-- A block put on a part of the stack that all other live blocks are on. -/
theorem put (represents : Represents align buffer world stack) (upper : Block w)
    (fba : FixedBufferAllocator w) (memory : Memory w) {rest : List (Region Nat)}
    {live : List (Block w)}
    (part : ∀ region ∈ rest, region ∈ stack.blocks) (below : Contiguous stack.base rest)
    (start : upper.start = Region.top stack.base rest) (dvdStart : align ∣ upper.start)
    (sameAlign : upper.layout.align.toNat = align) (whole : align ∣ upper.layout.size.toNat)
    (positive : 0 < upper.layout.size.toNat) (end_ : fba.end_ = world.fba.end_)
    (begin : fba.begin.toNat = upper.stop) (bound : upper.stop ≤ stack.limit)
    (onRest : ∀ block ∈ live, block.region ∈ rest ∧ block.layout.align.toNat = align)
    (nodup : live.Nodup) :
    Represents align buffer { world with fba, memory, live := upper :: live }
      { stack with blocks := upper.region :: rest, used := true } where
  base := represents.base
  limit := represents.limit
  end_ := end_ ▸ represents.end_
  contiguous := ⟨start, Nat.lt_add_of_pos_right positive, below⟩
  aligned := List.forall_mem_cons.mpr ⟨⟨dvdStart, Nat.dvd_add dvdStart whole⟩,
    fun region member => represents.aligned region (part region member)⟩
  begin := begin
  bounded _ := bound
  unused unused := by cases unused
  live := List.forall_mem_cons.mpr ⟨⟨List.mem_cons_self, sameAlign⟩, fun block member =>
    ⟨List.mem_cons_of_mem _ (onRest block member).1, (onRest block member).2⟩⟩
  nodup := List.nodup_cons.mpr ⟨fun member => by
    -- the block would end below its own start
    have stop := below.stop_le_top (onRest upper member).1
    change upper.start + upper.layout.size.toNat ≤ _ at stop
    omega, nodup⟩

/-- An allocation pushes its block. -/
theorem allocate (represents : Represents align buffer world stack)
    (low : buffer.stop ≤ 2 ^ (w - 1)) (sameAlign : layout.align.toNat = align)
    (whole : align ∣ layout.size.toNat) (positive : 0 < layout.size.toNat) :
    Agrees ((machine w).out world (.allocate layout))
        (BlockStack.machine.out stack (toStackOp (.allocate layout))) ∧
      Represents align buffer ((machine w).next world (.allocate layout))
        (BlockStack.machine.next stack (toStackOp (.allocate layout))) := by
  have noWrap : world.fba.NoWrap layout := .of_low (represents.begin_le.trans low)
  have top : alignUp world.fba.begin.toNat layout.align.toNat = stack.top :=
    sameAlign ▸ represents.alignUp_begin (sameAlign ▸ layout.align_pos)
  have limit := represents.limit
  have end_ := represents.end_
  simp only [Machine.out, Machine.next, machine, BlockStack.machine, World.step, toStackOp,
    BlockStack.step]
  cases granted : world.fba.allocate layout with
  | none =>
      have full := (FixedBufferAllocator.allocate_eq_none noWrap).mp granted
      rw [if_neg (by omega)]
      exact ⟨trivial, represents⟩
  | some pair =>
      obtain ⟨slice, after⟩ := pair
      have result := FixedBufferAllocator.Granted.of_noWrap granted noWrap
      have ptr := result.ptr.trans top
      have begin := result.begin
      have bound := result.bound
      have region : (⟨slice.ptr, layout⟩ : Block w).region =
          ⟨stack.top, stack.top + layout.size.toNat⟩ := by
        simp only [Block.region, Block.stop, Block.start, Block.size, ptr]
      have dvdStart : align ∣ slice.ptr.toNat := by
        rw [ptr]
        exact represents.dvd_top
      have fits : (⟨slice.ptr, layout⟩ : Block w).stop ≤ stack.limit := by
        change slice.ptr.toNat + layout.size.toNat ≤ _
        omega
      have pushed := represents.put ⟨slice.ptr, layout⟩ after world.memory (fun _ => id)
        represents.contiguous ptr dvdStart sameAlign whole positive result.end_ begin fits
        represents.live represents.nodup
      rw [if_pos (by omega)]
      refine ⟨⟨ptr, by rw [result.len, ptr]⟩, ?_⟩
      rwa [region] at pushed

/-- Live blocks of one alignment are told apart by their addresses. -/
theorem eq_of_region_eq (represents : Represents align buffer world stack) {other : Block w}
    (member : block ∈ world.live) (otherMember : other ∈ world.live)
    (same : other.region = block.region) : other = block := by
  have aligns := (represents.live block member).2.trans (represents.live other otherMember).2.symm
  obtain ⟨ptr, size, align, _, _⟩ := block
  obtain ⟨otherPtr, otherSize, otherAlign, _, _⟩ := other
  simp only [Block.region, Block.stop, Block.start, Block.size, Region.mk.injEq] at same
  obtain rfl : otherPtr = ptr := BitVec.eq_of_toNat_eq same.1
  obtain rfl : otherSize = size := BitVec.eq_of_toNat_eq (by omega)
  obtain rfl : align = otherAlign := BitVec.eq_of_toNat_eq aligns
  rfl

/-- The live blocks below the top block are on the rest of the stack. -/
theorem live_erase (represents : Represents align buffer world stack)
    (member : block ∈ world.live) {rest : List (Region Nat)}
    (blocks : stack.blocks = block.region :: rest) :
    ∀ other ∈ world.live.erase block, other.region ∈ rest ∧ other.layout.align.toNat = align := by
  intro other kept
  obtain ⟨different, old⟩ := (represents.nodup.mem_erase_iff).mp kept
  obtain ⟨onStack, sameAlign⟩ := represents.live other old
  rw [blocks] at onStack
  rcases List.mem_cons.mp onStack with same | below
  · exact absurd (represents.eq_of_region_eq member old same) different
  · exact ⟨below, sameAlign⟩

/-- What lies under the top block. -/
theorem below_top (represents : Represents align buffer world stack)
    (isTop : stack.blocks.head? = some block.region) :
    ∃ rest, stack.blocks = block.region :: rest ∧ block.start = Region.top stack.base rest ∧
      Contiguous stack.base rest ∧ stack.used = true ∧ stack.top = block.stop := by
  obtain ⟨rest, blocks⟩ := List.head?_eq_some_iff.mp isTop
  obtain ⟨start, _, below⟩ := blocks ▸ represents.contiguous
  refine ⟨rest, blocks, start, below, ?_, ?_⟩
  · by_contra unused
    have empty := represents.unused (Bool.eq_false_iff.mpr unused)
    exact List.cons_ne_nil _ _ (blocks.symm.trans empty)
  · unfold BlockStack.top
    rw [blocks]
    rfl

/-- A deallocation pops its block if it is the top one. -/
theorem deallocate (represents : Represents align buffer world stack)
    (member : block ∈ world.live) :
    Agrees ((machine w).out world (.deallocate block))
        (BlockStack.machine.out stack (toStackOp (.deallocate block))) ∧
      Represents align buffer ((machine w).next world (.deallocate block))
        (BlockStack.machine.next stack (toStackOp (.deallocate block))) := by
  have head := represents.isLast_iff_head member
  simp only [Machine.out, Machine.next, machine, BlockStack.machine, World.step, toStackOp,
    BlockStack.step]
  rcases world.fba.deallocate_cases block.ptr block.layout with ⟨last, equal⟩ | ⟨notLast, equal⟩
  · have isTop := head.mp last
    obtain ⟨rest, blocks, start, below, used, stop⟩ := represents.below_top isTop
    have bounded := represents.bounded used
    rw [equal, if_pos isTop, blocks]
    refine ⟨trivial, ?_⟩
    exact {
      base := represents.base
      limit := represents.limit
      end_ := represents.end_
      contiguous := below
      aligned := fun other old =>
        represents.aligned other (blocks ▸ List.mem_cons_of_mem _ old)
      begin := by
        rw [used, if_pos rfl]
        exact start
      bounded := fun _ => by
        change Region.top stack.base rest ≤ stack.limit
        unfold Block.stop at stop
        omega
      unused := fun unused => absurd (used.symm.trans unused) (by decide)
      live := represents.live_erase member blocks
      nodup := represents.nodup.erase block }
  · rw [equal, if_neg (fun isTop => notLast (head.mpr isTop))]
    refine ⟨trivial, ?_⟩
    exact { represents with
      live := fun other kept => represents.live other (List.mem_of_mem_erase kept)
      nodup := represents.nodup.erase block }

/-- A shrinking of the top block shortens it; any other block is refused. -/
theorem shrink (represents : Represents align buffer world stack) (member : block ∈ world.live)
    (smaller : newLayout.size.toNat ≤ block.layout.size.toNat)
    (sameAlign : newLayout.align.toNat = align) (whole : align ∣ newLayout.size.toNat)
    (positive : 0 < newLayout.size.toNat) :
    Agrees ((machine w).out world (.shrink block newLayout))
        (BlockStack.machine.out stack (toStackOp (.shrink block newLayout))) ∧
      Represents align buffer ((machine w).next world (.shrink block newLayout))
        (BlockStack.machine.next stack (toStackOp (.shrink block newLayout))) := by
  have head := represents.isLast_iff_head member
  obtain ⟨onStack, oldAlign⟩ := represents.live block member
  have aligns : block.layout.align = newLayout.align :=
    BitVec.eq_of_toNat_eq (oldAlign.trans sameAlign.symm)
  simp only [Machine.out, Machine.next, machine, BlockStack.machine, World.step, toStackOp,
    BlockStack.step]
  have outcome := @FixedBufferAllocator.shrink_cases w world.fba block.layout newLayout
    world.memory block.ptr aligns
  rcases outcome with ⟨last, equal⟩ | ⟨notLast, equal⟩
  · have isTop := head.mp last
    obtain ⟨rest, blocks, start, below, used, stop⟩ := represents.below_top isTop
    have begin := represents.start_eq (List.ne_nil_of_mem onStack)
    have bounded := represents.bounded used
    have beginBound := world.fba.begin.isLt
    unfold Block.stop Block.size Block.start at stop
    unfold Block.start at start
    have moved := FixedBufferAllocator.toNat_begin_add_sub
      (by omega : block.layout.size.toNat ≤ world.fba.begin.toNat)
      (by omega : world.fba.begin.toNat + newLayout.size.toNat < 2 ^ w + block.layout.size.toNat)
    have dvdStart : align ∣ block.ptr.toNat := (represents.aligned _ onStack).1
    have shortened : (world.fba.begin + (newLayout.size - block.layout.size)).toNat =
        block.ptr.toNat + newLayout.size.toNat := by
      omega
    have fits : block.ptr.toNat + newLayout.size.toNat ≤ stack.limit := by
      omega
    have put := represents.put ⟨block.ptr, newLayout⟩
      ⟨world.fba.begin + (newLayout.size - block.layout.size), world.fba.end_⟩ world.memory
      (fun region old => blocks ▸ List.mem_cons_of_mem _ old) below start dvdStart sameAlign
      whole positive rfl shortened fits (represents.live_erase member blocks)
      (represents.nodup.erase block)
    rw [equal, if_pos isTop, blocks]
    refine ⟨⟨rfl, rfl⟩, ?_⟩
    rwa [← used] at put
  · rw [equal, if_neg (fun isTop => notLast (head.mpr isTop))]
    exact ⟨trivial, represents⟩

/-- One uniform call is one operation of the stack. -/
theorem step (represents : Represents align buffer world stack)
    (low : buffer.stop ≤ 2 ^ (w - 1)) {call : Call w} (admitted : world.Admits call)
    (uniform : Uniform align world call) :
    Agrees ((machine w).out world call) (BlockStack.machine.out stack (toStackOp call)) ∧
      Represents align buffer ((machine w).next world call)
        (BlockStack.machine.next stack (toStackOp call)) := by
  cases call with
  | allocate layout => exact represents.allocate low uniform.1 uniform.2.1 uniform.2.2
  | deallocate block => exact represents.deallocate admitted
  | grow _ _ => exact uniform.elim
  | shrink block newLayout =>
      exact represents.shrink admitted.1 admitted.2 uniform.1 uniform.2.1 uniform.2.2

/-- The live blocks of a represented stack are disjoint and inside the buffer. -/
theorem live_apart (represents : Represents align buffer world stack) (positive : 0 < align) :
    (world.live.Pairwise fun first second =>
        Disjoint first.region.range second.region.range) ∧
      ∀ block ∈ world.live, buffer.start.toNat ≤ block.start ∧ block.stop ≤ buffer.stop := by
  have filled := represents.contiguous.filled
  constructor
  · refine List.Nodup.pairwise_of_forall_ne represents.nodup
      fun first firstLive second secondLive distinct => ?_
    exact filled.disjoint_of_ne (represents.live first firstLive).1
      (represents.live second secondLive).1
      fun same => distinct (represents.eq_of_region_eq secondLive firstLive same)
  · intro block member
    obtain ⟨onStack, _⟩ := represents.live block member
    have lower := represents.contiguous.base_le_start onStack
    have upper := represents.contiguous.stop_le_top onStack
    have base := represents.base
    have above := le_alignUp buffer.start.toNat positive
    have begin := represents.start_eq (List.ne_nil_of_mem onStack)
    have bound := represents.begin_le
    unfold BlockStack.top at begin
    exact ⟨by change _ ≤ block.region.start; omega, by change block.region.stop ≤ _; omega⟩

end Represents

theorem represents_new {align : Nat} (buffer : Buffer w) (memory : Memory w) :
    Represents align buffer (new buffer memory) (emptyStack align buffer) where
  base := rfl
  limit := rfl
  end_ := BitVec.toNat_add_of_lt buffer.no_wrap
  contiguous := trivial
  aligned := nofun
  begin := rfl
  bounded := nofun
  unused := fun _ => rfl
  live := nofun
  nodup := .nil

/-- **Refinement of a stack of blocks.** A run of `allocate`, `deallocate` and
`shrink` with one alignment and sizes that are positive multiples of it, in a
buffer whose addresses do not exceed `isize::MAX`, answers as a plain stack of
contiguous blocks does and ends in the world that stack stands for; its live
blocks are disjoint and inside the buffer. -/
theorem refines_stack {align : Nat} (power : align.isPowerOfTwo) (buffer : Buffer w)
    (low : buffer.stop ≤ 2 ^ (w - 1)) (memory : Memory w) (calls : List (Call w))
    (admitted : (machine w).Along Admits (new buffer memory) calls)
    (uniform : (machine w).Along (Uniform align) (new buffer memory) calls) :
    let world := (machine w).final (new buffer memory) calls
    let stack := BlockStack.machine.final (emptyStack align buffer) (calls.map toStackOp)
    List.Forall₂ Agrees ((machine w).outputs (new buffer memory) calls)
        (BlockStack.machine.outputs (emptyStack align buffer) (calls.map toStackOp)) ∧
      Represents align buffer world stack ∧
      (world.live.Pairwise fun first second =>
        Disjoint first.region.range second.region.range) ∧
      ∀ block ∈ world.live, buffer.start.toNat ≤ block.start ∧ block.stop ≤ buffer.stop := by
  intro world stack
  obtain ⟨outputs, represents⟩ := (admitted.and uniform).refines toStackOp
    (Represents align buffer) Agrees
    (fun world stack call represents step => represents.step low step.1 step.2)
    (represents_new buffer memory)
  exact ⟨outputs, represents, represents.live_apart (Nat.pos_of_isPowerOfTwo power)⟩

/-- Three words of which the middle one is released under the top one, the top
one is shortened as far as it goes, and both are then popped. -/
def uniformCalls : List (Call 64) :=
  [.allocate .word, .allocate .word, .allocate .twoWords, .deallocate ⟨0x1004, .word⟩,
    .shrink ⟨0x1008, .twoWords⟩ .word, .shrink ⟨0x1000, .word⟩ .word, .deallocate ⟨0x1008, .word⟩]

theorem uniformCalls_refines_stack :
    let world := (machine 64).final (new page fun _ => 0) uniformCalls
    let stack := BlockStack.machine.final (emptyStack 4 page) (uniformCalls.map toStackOp)
    List.Forall₂ Agrees ((machine 64).outputs (new page fun _ => 0) uniformCalls)
        (BlockStack.machine.outputs (emptyStack 4 page) (uniformCalls.map toStackOp)) ∧
      Represents 4 page world stack ∧
      (world.live.Pairwise fun first second =>
        Disjoint first.region.range second.region.range) ∧
      ∀ block ∈ world.live, page.start.toNat ≤ block.start ∧ block.stop ≤ page.stop :=
  refines_stack (by decide) page (by decide) (fun _ => 0) uniformCalls (by decide) (by decide)

end World

end Stdx
