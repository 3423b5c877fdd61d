import Stdx.Foundation.Descent
import Stdx.Alloc.Client

/-! # Releasing blocks in the reverse order

A deallocation rounds `begin - size` down to the alignment of its own block,
while the padding above the block comes from the alignment of the next one.
Blocks released in the reverse order of their allocation give `begin` back
exactly when the first one needed no padding and every later one starts less
than an alignment above the end of some earlier block, the alignment being the
one of that earlier block; this is so where no sum of addresses wraps
(`Stdx.World.release_returns_iff`).
-/

namespace Stdx

open Foundation

variable {w : Nat}

namespace Block

/-- The masked subtraction leads from any address that is less than an alignment
above the end of the block, with distances that may wrap, to its start. -/
def Meets (block : Block w) (address : Usize w) : Prop :=
  (address - (block.ptr + block.layout.size)).toNat < block.layout.align.toNat

instance (block : Block w) (address : Usize w) : Decidable (block.Meets address) :=
  inferInstanceAs (Decidable (_ < _))

/-- The addresses from which the block is recognised as the last one. -/
def landing (block : Block w) : Landing Nat where
  start := block.start
  stop := block.stop
  limit := block.stop + block.layout.align.toNat
  start_le := Nat.le_add_right _ _
  stop_lt := Nat.lt_add_of_pos_right block.layout.align_pos

end Block

/-- The starts that are left when blocks are released one after the other, the
first of the list first: from an address that a block meets to its start, and
past a block that does not meet it. -/
inductive Unwinds : Usize w → List (Block w) → Usize w → Prop
  | done (address : Usize w) : Unwinds address [] address
  | met {address bottom : Usize w} {block : Block w} {rest : List (Block w)}
      (meets : block.Meets address) (later : Unwinds block.ptr rest bottom) :
      Unwinds address (block :: rest) bottom
  | passed {address bottom : Usize w} {block : Block w} {rest : List (Block w)}
      (misses : ¬ block.Meets address) (later : Unwinds address rest bottom) :
      Unwinds address (block :: rest) bottom

namespace FixedBufferAllocator

/-- Allocations one after the other that all succeed; their blocks, the last one
first. -/
def allocateAll (self : FixedBufferAllocator w) :
    List (Layout w) → Option (List (Block w) × FixedBufferAllocator w)
  | [] => some ([], self)
  | layout :: rest =>
      match self.allocate layout with
      | none => none
      | some (slice, self) =>
          (self.allocateAll rest).map fun result =>
            (result.1 ++ [⟨slice.ptr, layout⟩], result.2)

/-- Deallocations one after the other. -/
def deallocateAll (self : FixedBufferAllocator w) : List (Block w) → FixedBufferAllocator w
  | [] => self
  | block :: rest => (self.deallocate block.ptr block.layout).deallocateAll rest

/-- No sum of addresses wraps in allocations one after the other. -/
def NoWraps (self : FixedBufferAllocator w) : List (Layout w) → Prop
  | [] => True
  | layout :: rest =>
      self.NoWrap layout ∧ ∀ granted ∈ self.allocate layout, granted.2.NoWraps rest

instance NoWraps.decide (self : FixedBufferAllocator w) :
    ∀ layouts, Decidable (self.NoWraps layouts)
  | [] => inferInstanceAs (Decidable True)
  | layout :: rest =>
      have := fun after : FixedBufferAllocator w => NoWraps.decide after rest
      inferInstanceAs (Decidable (self.NoWrap layout ∧
        ∀ granted ∈ self.allocate layout, granted.2.NoWraps rest))

/-- The condition for `begin` to come back. Where a sum wraps, later blocks can start
below earlier ones and be met from below, so that no property of single blocks decides
how far the starts go down: the way down itself is the condition there. -/
structure Returns (before : FixedBufferAllocator w) (layouts : List (Layout w))
    (blocks : List (Block w)) (after : FixedBufferAllocator w) : Prop where
  covered : before.NoWraps layouts →
    Landing.Covered before.begin.toNat after.begin.toNat (blocks.map Block.landing)
  unwinds : ¬ before.NoWraps layouts → Unwinds after.begin blocks before.begin

variable {self after : FixedBufferAllocator w} {layout : Layout w} {layouts : List (Layout w)}
  {block : Block w} {blocks : List (Block w)} {ptr : Usize w}

theorem allocateAll_cons_eq_some :
    self.allocateAll (layout :: layouts) = some (blocks, after) ↔
      ∃ slice middle upper, self.allocate layout = some (slice, middle) ∧
        middle.allocateAll layouts = some (upper, after) ∧
        blocks = upper ++ [⟨slice.ptr, layout⟩] := by
  rw [allocateAll]
  cases granted : self.allocate layout with
  | none => simp
  | some result =>
      obtain ⟨slice, middle⟩ := result
      simp only [Option.map_eq_some_iff, Prod.mk.injEq, Option.some.injEq, Prod.exists]
      constructor
      · rintro ⟨upper, _, later, rfl, rfl⟩
        exact ⟨slice, middle, upper, ⟨rfl, rfl⟩, later, rfl⟩
      · rintro ⟨_, _, upper, ⟨rfl, rfl⟩, later, rfl⟩
        exact ⟨upper, after, later, rfl, rfl⟩

/-- For an aligned block the recognising test is the modular distance. -/
theorem isLast_iff_meets (aligned : block.layout.align.toNat ∣ block.start) :
    self.IsLast block.ptr block.layout ↔ block.Meets self.begin := by
  have distance : self.begin - block.layout.size - block.ptr =
      self.begin - (block.ptr + block.layout.size) := by
    rw [BitVec.sub_sub, BitVec.add_comm]
  unfold IsLast Block.Meets
  rw [eq_comm]
  change maskDown (self.begin - block.layout.size) block.layout.align = _ ↔ _
  rw [maskDown_eq_iff block.layout.powerOfTwo, distance]
  exact and_iff_right aligned

/-- A block that is allocated is aligned, also where a sum wraps. -/
theorem aligned_of_allocate {slice : Slice w}
    (granted : self.allocate layout = some (slice, after)) :
    layout.align.toNat ∣ slice.ptr.toNat := by
  obtain ⟨_, rfl, _⟩ := allocate_eq_some.mp granted
  exact ((maskDown_eq_iff layout.powerOfTwo).mp rfl).1

theorem aligned_of_allocateAll (allocated : self.allocateAll layouts = some (blocks, after)) :
    ∀ block ∈ blocks, block.layout.align.toNat ∣ block.start := by
  induction layouts generalizing self blocks with
  | nil =>
      cases allocated
      exact List.forall_mem_nil _
  | cons layout layouts ih =>
      obtain ⟨slice, middle, upper, granted, later, rfl⟩ := allocateAll_cons_eq_some.mp allocated
      refine List.forall_mem_append.mpr ⟨ih later, fun block member => ?_⟩
      cases List.mem_singleton.mp member
      exact aligned_of_allocate granted

/-- Where the deallocations of aligned blocks lead. -/
theorem deallocateAll_iff_unwinds
    (aligned : ∀ block ∈ blocks, block.layout.align.toNat ∣ block.start)
    (bottom : Usize w) :
    (self.deallocateAll blocks).begin = bottom ↔ Unwinds self.begin blocks bottom := by
  induction blocks generalizing self with
  | nil =>
      constructor
      · rintro rfl
        exact .done _
      · rintro ⟨⟩
        rfl
  | cons block rest ih =>
      obtain ⟨here, others⟩ := List.forall_mem_cons.mp aligned
      unfold deallocateAll
      rw [ih others]
      rcases self.deallocate_cases block.ptr block.layout with ⟨last, equal⟩ | ⟨notLast, equal⟩
      · have meets := (isLast_iff_meets here).mp last
        rw [equal]
        refine ⟨.met meets, fun unwinds => ?_⟩
        cases unwinds with
        | met _ later => exact later
        | passed misses _ => exact absurd meets misses
      · have misses := (isLast_iff_meets here).not.mp notLast
        rw [equal]
        refine ⟨.passed misses, fun unwinds => ?_⟩
        cases unwinds with
        | met meets _ => exact absurd meets misses
        | passed _ later => exact later

/-- Without wrapping sums the blocks lie one above the other, with `begin` at the
end of the last one. -/
theorem rising_of_allocateAll (allocated : self.allocateAll layouts = some (blocks, after))
    (noWraps : self.NoWraps layouts) :
    Landing.Rising self.begin.toNat (blocks.map Block.landing) ∧
      after.begin.toNat = Landing.top self.begin.toNat (blocks.map Block.landing) := by
  induction layouts generalizing self blocks with
  | nil =>
      cases allocated
      exact ⟨trivial, rfl⟩
  | cons layout layouts ih =>
      obtain ⟨slice, middle, upper, granted, later, rfl⟩ := allocateAll_cons_eq_some.mp allocated
      obtain ⟨noWrap, others⟩ := noWraps
      obtain ⟨rising, top⟩ := ih later (others _ granted)
      have result := Granted.of_noWrap granted noWrap
      have above := le_alignUp self.begin.toNat layout.align_pos
      have stop : middle.begin.toNat = (⟨slice.ptr, layout⟩ : Block w).landing.stop := result.begin
      rw [stop] at rising top
      rw [List.map_append, List.map_singleton, Landing.top_concat]
      exact ⟨rising.concat (above.trans result.ptr.ge), top⟩

/-- Where no sum wraps, deallocations are a descent over the blocks. -/
theorem deallocateAll_eq_descend {base : Nat}
    (aligned : ∀ block ∈ blocks, block.layout.align.toNat ∣ block.start)
    (rising : Landing.Rising base (blocks.map Block.landing))
    (above : Landing.top base (blocks.map Block.landing) ≤ self.begin.toNat) :
    (self.deallocateAll blocks).begin.toNat =
      Landing.descend (blocks.map Block.landing) self.begin.toNat := by
  induction blocks generalizing self with
  | nil => rfl
  | cons block rest ih =>
      obtain ⟨here, others⟩ := List.forall_mem_cons.mp aligned
      obtain ⟨under, risingRest⟩ := rising
      have stop : block.ptr.toNat + block.layout.size.toNat ≤ self.begin.toNat := above
      have test : self.IsLast block.ptr block.layout ↔ _ := isLast_iff (by omega)
      rcases self.deallocate_cases block.ptr block.layout with ⟨last, equal⟩ | ⟨notLast, equal⟩
      · have taken : self.begin.toNat < block.landing.limit := (test.mp last).2.2
        unfold deallocateAll
        rw [List.map_cons, Landing.descend, if_pos taken, equal]
        exact ih others risingRest under
      · have missed : ¬ self.begin.toNat < block.landing.limit := fun taken =>
          notLast (test.mpr ⟨here, stop, taken⟩)
        unfold deallocateAll
        rw [List.map_cons, Landing.descend, if_neg missed, equal]
        exact ih others risingRest (under.trans (block.landing.start_le.trans stop))

/-- Blocks released in the reverse order give `begin` back under the condition. -/
theorem deallocateAll_iff_returns (allocated : self.allocateAll layouts = some (blocks, after)) :
    (after.deallocateAll blocks).begin = self.begin ↔ self.Returns layouts blocks after := by
  have aligned := aligned_of_allocateAll allocated
  by_cases noWraps : self.NoWraps layouts
  · obtain ⟨rising, top⟩ := rising_of_allocateAll allocated noWraps
    rw [← BitVec.toNat_inj, deallocateAll_eq_descend aligned rising top.ge,
      Landing.descend_eq_iff rising top.ge]
    exact ⟨fun covered => ⟨fun _ => covered, fun wraps => absurd noWraps wraps⟩,
      fun returns => returns.covered noWraps⟩
  · rw [deallocateAll_iff_unwinds aligned]
    exact ⟨fun unwinds => ⟨fun noWrap => absurd noWrap noWraps, fun _ => unwinds⟩,
      fun returns => returns.unwinds noWraps⟩

end FixedBufferAllocator

namespace World

variable {world : World w} {layouts : List (Layout w)} {blocks : List (Block w)}
  {after : FixedBufferAllocator w}

/-- Successful allocations put their blocks on the live ones. -/
theorem final_allocate (allocated : world.fba.allocateAll layouts = some (blocks, after)) :
    (machine w).Along Admits world (layouts.map .allocate) ∧
      (machine w).final world (layouts.map .allocate) =
        { world with fba := after, live := blocks ++ world.live } := by
  induction layouts generalizing world blocks with
  | nil =>
      cases allocated
      exact ⟨trivial, rfl⟩
  | cons layout layouts ih =>
      obtain ⟨slice, middle, upper, granted, later, rfl⟩ :=
        FixedBufferAllocator.allocateAll_cons_eq_some.mp allocated
      have next : (machine w).next world (.allocate layout) =
          { world with fba := middle, live := ⟨slice.ptr, layout⟩ :: world.live } := by
        simp only [Machine.next, machine, step, granted]
      have following : ((machine w).next world (.allocate layout)).fba.allocateAll layouts =
          some (upper, after) := by
        rw [next]
        exact later
      obtain ⟨admitted, final⟩ := ih following
      refine ⟨⟨trivial, admitted⟩, ?_⟩
      rw [List.map_cons, Machine.final_cons, final, next, List.append_assoc, List.singleton_append]

/-- Deallocations of the latest live blocks. -/
theorem final_deallocate {rest : List (Block w)} (live : world.live = blocks ++ rest) :
    (machine w).Along Admits world (blocks.map .deallocate) ∧
      (machine w).final world (blocks.map .deallocate) =
        { world with fba := world.fba.deallocateAll blocks, live := rest } := by
  induction blocks generalizing world with
  | nil => exact ⟨trivial, by rw [List.nil_append] at live; rw [← live]; rfl⟩
  | cons block blocks ih =>
      have next : ((machine w).next world (.deallocate block)).live = blocks ++ rest := by
        simp only [Machine.next, machine, step, live, List.cons_append, List.erase_cons_head]
      obtain ⟨admitted, final⟩ := ih next
      refine ⟨⟨?_, admitted⟩, final⟩
      change block ∈ world.live
      rw [live, List.cons_append]
      exact List.mem_cons_self

/-- **Release in the reverse order.** The calls respect the trait, and `begin`
comes back exactly under the condition. -/
theorem release_returns_iff (world : World w) (layouts : List (Layout w))
    (blocks : List (Block w)) (after : FixedBufferAllocator w)
    (allocated : world.fba.allocateAll layouts = some (blocks, after)) :
    let calls := layouts.map Call.allocate ++ blocks.map Call.deallocate
    (machine w).Along Admits world calls ∧
      (((machine w).final world calls).fba.begin = world.fba.begin ↔
        world.fba.Returns layouts blocks after) := by
  obtain ⟨allocates, middle⟩ := final_allocate allocated
  have live : ((machine w).final world (layouts.map .allocate)).live = blocks ++ world.live := by
    rw [middle]
  obtain ⟨deallocates, final⟩ := final_deallocate live
  refine ⟨allocates.append deallocates, ?_⟩
  rw [Machine.final_append, final, middle]
  exact FixedBufferAllocator.deallocateAll_iff_returns allocated

/-- A word, a byte above it and two bytes above that. -/
def risingLayouts : List (Layout 64) := [.word, .byte, .twoBytes]

/-- The blocks of these layouts, the last one first. -/
def risingBlocks : List (Block 64) := [⟨0x1005, .twoBytes⟩, ⟨0x1004, .byte⟩, ⟨0x1000, .word⟩]

theorem risingLayouts_return :
    ((machine 64).final (new page fun _ => 0) (risingLayouts.map Call.allocate ++
      risingBlocks.map Call.deallocate)).fba.begin = 0x1000 :=
  (release_returns_iff (new page fun _ => 0) risingLayouts risingBlocks ⟨0x1007, 0x1010⟩ rfl).2.mpr
    ⟨fun _ => by decide, fun wraps => (wraps (by decide)).elim⟩

/-- A byte below an aligned word is not recognised after the word was released. -/
theorem padding_is_lost :
    ¬ ∀ (w : Nat) (buffer : Buffer w) (memory : Memory w) (calls : List (Call w)),
      (machine w).Along Admits (new buffer memory) calls →
        let world := (machine w).final (new buffer memory) calls
        ∀ (layouts : List (Layout w)) (blocks : List (Block w)) (after : FixedBufferAllocator w),
          world.fba.allocateAll layouts = some (blocks, after) →
            ((machine w).final world (layouts.map Call.allocate ++
              blocks.map Call.deallocate)).fba.begin = world.fba.begin := by
  intro claim
  have same := claim 64 page (fun _ => 0) [] trivial [.byte, .word]
    [⟨0x1004, .word⟩, ⟨0x1000, .byte⟩] ⟨0x1008, 0x1010⟩ rfl
  exact absurd same (by decide)

end World

end Stdx
