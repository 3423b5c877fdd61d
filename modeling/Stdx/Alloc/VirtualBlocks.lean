import Stdx.Alloc.Containment
import Stdx.Alloc.Provided
import Stdx.Alloc.VirtualMemory

/-! # Blocks of reserved memory

`VirtualMemoryAllocator` implements `allocate` and `deallocate` over the fixed buffer
allocator of its range, so it works under a discipline: nothing is released that is taken
for the last block and is not above the other ones. Over every run under this condition the
live blocks are apart, aligned and inside the reserved range, they are isolated from each
other, and the range that `drop` unmaps is the one that was mapped
(`Stdx.VirtualMemoryAllocator.blocks_in_range`). Without writes of the clients the runs are
those of `VirtualWorld` (`Stdx.VirtualMemoryAllocator.runs_virtualWorld`).
-/

namespace Stdx

open Foundation

variable {w : Nat}

/-- The order of the live blocks does not matter. -/
theorem World.Filled.perm {fba : FixedBufferAllocator w} {live other : List (Block w)}
    (filled : World.Filled fba live) (same : live.Perm other) : World.Filled fba other := by
  have symmetric : ∀ {first second : Region Nat},
      Disjoint first.range second.range → Disjoint second.range first.range :=
    fun apart => apart.symm
  have regions := same.map Block.region
  exact ⟨(regions.pairwise_iff symmetric).mp filled.apart,
    fun region member => filled.below region (regions.mem_iff.mpr member)⟩

namespace VirtualMemoryAllocator

/-- The allocator by the methods that it implements. -/
def minimal (w : Nat) : Minimal w (VirtualMemoryAllocator w) where
  allocate self memory layout :=
    match self.allocate layout with
    | none => (none, self, memory)
    | some (slice, after) => (some slice, after, memory)
  deallocate self memory ptr layout := (self.deallocate ptr layout, memory)

/-- The live blocks are disjoint below `begin` and inside the range, which is still known. -/
structure Holds (range : Buffer w) (vma : VirtualMemoryAllocator w) (live : List (Block w)) :
    Prop where
  filled : World.Filled vma.fba live
  contained : World.Contained range vma.fba live
  mapped : vma.addr = range.start ∧ vma.size = range.len

variable {range : Buffer w} {self : VirtualMemoryAllocator w} {live others : List (Block w)}
  {block : Block w} {layout : Layout w}

/-- Everything `allocate` can do. -/
theorem allocate_cases (self : VirtualMemoryAllocator w) (memory : Memory w)
    (layout : Layout w) :
    (self.fba.allocate layout = none ∧
      (minimal w).allocate self memory layout = (none, self, memory)) ∨
    ∃ slice fba, self.fba.allocate layout = some (slice, fba) ∧
      (minimal w).allocate self memory layout = (some slice, { self with fba }, memory) := by
  cases granted : self.fba.allocate layout with
  | none => exact .inl ⟨rfl, by simp only [minimal, allocate, granted, Option.map_none]⟩
  | some pair =>
      exact .inr ⟨pair.1, pair.2, rfl, by simp only [minimal, allocate, granted, Option.map_some]⟩

theorem Holds.apart (holds : Holds range self live) : live.Pairwise Block.Apart :=
  holds.filled.blocksApart

/-- The addresses of the range are low enough for no sum to wrap. -/
theorem Holds.allocatesSoundly (holds : Holds range self live)
    (low : range.stop ≤ 2 ^ (w - 1)) (layout : Layout w) :
    World.AllocatesSoundly self.fba layout := by
  have stop := holds.contained.end_
  have within := holds.contained.range.2
  exact .inl (.of_low (by omega))

theorem Holds.deallocate (holds : Holds range self live) (rest : live.Perm (block :: others))
    (topmost : World.RewindsTopmost self.fba block others) :
    Holds range (self.deallocate block.ptr block.layout) others := by
  have inside := holds.contained.blocks block (rest.mem_iff.mpr List.mem_cons_self)
  have left := holds.filled.perm rest
  have filled : World.Filled self.fba others :=
    Region.Filled.sublist left (List.sublist_cons_self _ _)
  have contained : World.Contained range self.fba others :=
    ⟨holds.contained.end_, holds.contained.range, fun other member =>
      holds.contained.blocks other (rest.mem_iff.mpr (List.mem_cons_of_mem _ member))⟩
  exact ⟨filled.deallocate topmost, contained.deallocate inside, holds.mapped⟩

/-- What the allocator keeps for its clients, in a range in the lower half of the address
space. -/
def discipline (range : Buffer w) (low : range.stop ≤ 2 ^ (w - 1)) :
    (minimal w).Discipline where
  valid := Holds range
  grants _ _ := True
  releases self others block := World.RewindsTopmost self.fba block others
  apart holds := holds.apart
  allocate {self live layout slice after memory later} holds _ granted := by
    rcases allocate_cases self memory layout with ⟨_, equal⟩ | ⟨_, fba, answer, equal⟩
    · rw [equal] at granted
      cases granted
    · rw [equal] at granted
      cases granted
      have sound := holds.allocatesSoundly low layout
      exact ⟨⟨holds.filled.allocate answer sound, (holds.contained.allocate low answer).1,
        holds.mapped⟩, fun block member address inside => rfl⟩
  refuse {self live layout after memory later} holds _ refused := by
    rcases allocate_cases self memory layout with ⟨_, equal⟩ | ⟨_, fba, answer, equal⟩
    · rw [equal] at refused
      cases refused
      exact ⟨holds, fun block member address inside => rfl⟩
    · rw [equal] at refused
      cases refused
  deallocate memory holds rest topmost :=
    ⟨holds.deallocate rest topmost, fun block member address inside => rfl⟩

/-- The blocks that the call releases are above the other ones, if they are taken for the
last one. -/
def ReleasesTopmost (world : Heap w (VirtualMemoryAllocator w)) : HeapCall w → Prop
  | .call (.allocate _) => True
  | .call (.deallocate block) =>
      World.RewindsTopmost world.state.fba block (world.live.erase block)
  | .call (.grow block newLayout) | .call (.shrink block newLayout) =>
      ∀ granted ∈ world.state.fba.allocate newLayout,
        World.RewindsTopmost granted.2 block (⟨granted.1.ptr, newLayout⟩ :: world.live.erase block)
  | .write _ _ _ => True

instance (world : Heap w (VirtualMemoryAllocator w)) :
    ∀ call, Decidable (ReleasesTopmost world call)
  | .call (.allocate _) => inferInstanceAs (Decidable True)
  | .call (.deallocate _) => inferInstanceAs (Decidable (World.RewindsTopmost _ _ _))
  | .call (.grow _ _) => inferInstanceAs (Decidable (∀ _ ∈ _, World.RewindsTopmost _ _ _))
  | .call (.shrink _ _) => inferInstanceAs (Decidable (∀ _ ∈ _, World.RewindsTopmost _ _ _))
  | .write _ _ _ => inferInstanceAs (Decidable True)

/-- What is released during a resizing is released above the others. -/
theorem resizes_of_topmost {world : Heap w (VirtualMemoryAllocator w)} {newLayout : Layout w}
    (low : range.stop ≤ 2 ^ (w - 1))
    (topmost : ∀ granted ∈ world.state.fba.allocate newLayout,
      World.RewindsTopmost granted.2 block
        (⟨granted.1.ptr, newLayout⟩ :: world.live.erase block)) :
    (discipline range low).Resizes world block newLayout := by
  refine ⟨trivial, fun slice granted => ?_⟩
  rcases allocate_cases world.state world.memory newLayout with
    ⟨_, equal⟩ | ⟨other, fba, answer, equal⟩
  · rw [equal] at granted
    cases granted
  · rw [equal] at granted ⊢
    cases granted
    exact topmost (slice, fba) answer

/-- **Blocks in the reserved range.** In every run whose calls respect the trait and which
releases topmost blocks only, for a range in the lower half of the address space. -/
theorem blocks_in_range (range : Buffer w) (low : range.stop ≤ 2 ^ (w - 1)) (memory : Memory w)
    (calls : List (HeapCall w))
    (admitted : (minimal w).machine.Along Minimal.Admits ⟨new range, memory, []⟩ calls)
    (topmost : (minimal w).machine.Along ReleasesTopmost ⟨new range, memory, []⟩ calls) :
    let final := (minimal w).machine.final ⟨new range, memory, []⟩ calls
    Holds range final.state final.live ∧ final.live.Pairwise Block.Apart ∧
      (minimal w).machine.Along (minimal w).Isolated ⟨new range, memory, []⟩ calls := by
  have start : Holds range (new range) [] :=
    ⟨Region.Filled.nil _, World.contained_new range memory, rfl, rfl⟩
  have allowed : (minimal w).machine.Along (discipline range low).Allows
      ⟨new range, memory, []⟩ calls := by
    refine topmost.mono fun world call topmost => ?_
    rcases call with (layout | block | ⟨block, newLayout⟩ | ⟨block, newLayout⟩) |
      ⟨block, index, byte⟩
    · exact trivial
    · exact topmost
    · exact resizes_of_topmost low topmost
    · exact resizes_of_topmost low topmost
    · exact trivial
  obtain ⟨holds, isolated⟩ :=
    (discipline range low).isolates ⟨new range, memory, []⟩ start calls admitted allowed
  exact ⟨holds, holds.apart, isolated⟩

/-- Two words, of which the upper one is freed and the lower one, which is written before,
grows over its place. -/
def regrownCalls : List (HeapCall 64) :=
  [.call (.allocate .word), .write ⟨0x1000, .word⟩ 0 7, .call (.allocate .word),
    .call (.deallocate ⟨0x1004, .word⟩), .call (.grow ⟨0x1000, .word⟩ .twoWords)]

theorem regrownCalls_in_range :
    let final := (minimal 64).machine.final ⟨new World.page, fun _ => 0, []⟩ regrownCalls
    Holds World.page final.state final.live ∧ final.live.Pairwise Block.Apart ∧
      (minimal 64).machine.Along (minimal 64).Isolated ⟨new World.page, fun _ => 0, []⟩
        regrownCalls :=
  blocks_in_range World.page (by decide) (fun _ => 0) regrownCalls (by decide) (by decide)

/-! ## Runs without writes -/

/-- A world of the virtual memory allocator as a heap. -/
def heap (world : VirtualWorld w) : Heap w (VirtualMemoryAllocator w) :=
  ⟨world.vma, world.memory, world.live⟩

/-- A resizing copies the bytes that both blocks have. -/
theorem resized_virtualWorld (world : VirtualWorld w) (block : Block w) (newLayout : Layout w)
    {count : Usize w} (few : count =
      if block.layout.size < newLayout.size then block.layout.size else newLayout.size) :
    (minimal w).resized (heap world) block newLayout count =
      ((world.resized block newLayout).1, heap (world.resized block newLayout).2) := by
  cases granted : world.vma.fba.allocate newLayout with
  | none =>
      simp only [Minimal.resized, minimal, heap, VirtualWorld.resized, reallocate, allocate,
        granted, Option.map_none]
  | some pair =>
      simp only [Minimal.resized, minimal, heap, VirtualWorld.resized, reallocate, allocate,
        granted, Option.map_some, few]

theorem step_virtualWorld (world : VirtualWorld w) (call : Call w)
    (admitted : world.Admits call) :
    (minimal w).machine.step (heap world) (.call call) =
      (((VirtualWorld.machine w).step world call).1,
        heap ((VirtualWorld.machine w).step world call).2) := by
  cases call with
  | allocate layout =>
      cases granted : world.vma.fba.allocate layout with
      | none =>
          simp only [Minimal.machine, Minimal.step, minimal, heap, VirtualWorld.machine,
            VirtualWorld.step, allocate, granted, Option.map_none]
      | some pair =>
          simp only [Minimal.machine, Minimal.step, minimal, heap, VirtualWorld.machine,
            VirtualWorld.step, allocate, granted, Option.map_some]
  | deallocate block => rfl
  | grow block newLayout =>
      apply resized_virtualWorld
      by_cases smaller : block.layout.size < newLayout.size
      · rw [if_pos smaller]
      · rw [if_neg smaller]
        have larger := BitVec.lt_def.not.mp smaller
        exact BitVec.eq_of_toNat_eq (le_antisymm admitted.2 (Nat.le_of_not_lt larger))
  | shrink block newLayout =>
      apply resized_virtualWorld
      rw [if_neg]
      exact fun larger => absurd (BitVec.lt_def.mp larger) (Nat.not_lt.mpr admitted.2)

/-- The runs of the allocator alone are those of `VirtualWorld`. -/
theorem runs_virtualWorld (world : VirtualWorld w) (calls : List (Call w))
    (admitted : (VirtualWorld.machine w).Along VirtualWorld.Admits world calls) :
    (VirtualWorld.machine w).outputs world calls =
        (minimal w).machine.outputs (heap world) (calls.map .call) ∧
      heap ((VirtualWorld.machine w).final world calls) =
        (minimal w).machine.final (heap world) (calls.map .call) := by
  have step (world : VirtualWorld w) (other : Heap w (VirtualMemoryAllocator w)) (call : Call w)
      (same : heap world = other) (admitted : world.Admits call) :
      (VirtualWorld.machine w).out world call = (minimal w).machine.out other (.call call) ∧
        heap ((VirtualWorld.machine w).next world call) =
          (minimal w).machine.next other (.call call) := by
    rw [← same]
    have equal := step_virtualWorld world call admitted
    exact ⟨(congrArg Prod.fst equal).symm, (congrArg Prod.snd equal).symm⟩
  obtain ⟨outputs, final⟩ :=
    admitted.refines HeapCall.call (fun world other => heap world = other) Eq step rfl
  exact ⟨List.forall₂_eq_eq_eq ▸ outputs, final⟩

end VirtualMemoryAllocator

end Stdx
