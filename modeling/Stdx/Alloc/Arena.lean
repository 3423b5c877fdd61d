import Stdx.Alloc.FirstFit
import Stdx.Foundation.Packing

/-! # A series of allocations

Blocks that are allocated one after the other are placed as low as their order allows: below
`isize::MAX` a series of requests is granted exactly when its blocks can be placed in the rest of
the buffer in that order at all, and no such placement puts any of them lower
(`Stdx.World.allocations_granted_iff`). For padded layouts that are requested from the largest
alignment down, from a multiple of it on, the sum of the sizes decides
(`Stdx.World.allocations_gapless_iff`).
-/

namespace Stdx

open Foundation

variable {w : Nat}

/-- A block of the layout, to be placed. -/
def Layout.item (layout : Layout w) : Item where
  size := layout.size.toNat
  align := layout.align.toNat
  align_pos := layout.align_pos

namespace World

/-- The replies to a series of allocations. -/
def allocations (world : World w) (layouts : List (Layout w)) : List (Reply w) :=
  (machine w).outputs world (layouts.map .allocate)

/-- A series of allocations is granted, with the given blocks. -/
def Grants (world : World w) (layouts : List (Layout w)) (slices : List (Slice w)) : Prop :=
  world.allocations layouts = slices.map .block

/-- The blocks of a series are placed in the order of their layouts, and none can be lower. -/
structure Packed (world : World w) (layouts : List (Layout w)) (slices : List (Slice w)) :
    Prop where
  arranged : Arranged world.fba.end_.toNat world.fba.begin.toNat (layouts.map Layout.item)
    (slices.map fun slice => slice.ptr.toNat)
  lowest : ∀ starts, Arranged world.fba.end_.toNat world.fba.begin.toNat
    (layouts.map Layout.item) starts →
      List.Forall₂ (· ≤ ·) (slices.map fun slice => slice.ptr.toNat) starts
  sizes : slices.map Slice.len = layouts.map Layout.size

variable {world : World w} {layout : Layout w} {layouts : List (Layout w)}
  {slice : Slice w} {slices : List (Slice w)}

/-- A series begins with its first request. -/
theorem allocations_cons :
    world.allocations (layout :: layouts) =
      match world.fba.allocate layout with
      | none => .allocError :: world.allocations layouts
      | some (slice, fba) => .block slice ::
          ({ world with fba, live := ⟨slice.ptr, layout⟩ :: world.live } : World w).allocations
            layouts := by
  unfold allocations
  rw [List.map_cons, Machine.outputs]
  cases granted : world.fba.allocate layout with
  | none => simp only [Machine.out, Machine.next, machine, step, granted]
  | some pair => simp only [Machine.out, Machine.next, machine, step, granted]

/-- What a request leaves to the later ones. -/
theorem later_of_granted {fba : FixedBufferAllocator w}
    (ordered : world.fba.begin.toNat ≤ world.fba.end_.toNat)
    (low : world.fba.end_.toNat ≤ isizeMax w)
    (granted : world.fba.allocate layout = some (slice, fba)) :
    world.fba.Granted layout slice fba ∧ fba.begin.toNat ≤ fba.end_.toNat ∧
      fba.end_.toNat ≤ isizeMax w ∧
      fba.begin.toNat =
        alignUp world.fba.begin.toNat layout.item.align + layout.item.size := by
  have noWrap : world.fba.NoWrap layout :=
    .of_low (ordered.trans (low.trans (Nat.sub_le _ _)))
  have result := FixedBufferAllocator.Granted.of_noWrap granted noWrap
  have end_ := congrArg BitVec.toNat result.end_
  exact ⟨result, result.bound.trans_eq end_.symm, end_.trans_le low,
    result.begin.trans (congrArg (· + layout.size.toNat) result.ptr)⟩

/-- A series whose first request is refused does not fit. -/
theorem not_fits_of_refused (ordered : world.fba.begin.toNat ≤ world.fba.end_.toNat)
    (low : world.fba.end_.toNat ≤ isizeMax w) (refused : world.fba.allocate layout = none) :
    ¬ packedEnd world.fba.begin.toNat ((layout :: layouts).map Layout.item) ≤
      world.fba.end_.toNat := by
  intro fits
  have noWrap : world.fba.NoWrap layout :=
    .of_low (ordered.trans (low.trans (Nat.sub_le _ _)))
  have full := (FixedBufferAllocator.allocate_eq_none noWrap).mp refused
  have behind := le_packedEnd (alignUp world.fba.begin.toNat layout.item.align +
    layout.item.size) (layouts.map Layout.item)
  exact absurd (behind.trans fits) (Nat.not_le_of_lt full)

/-- The blocks of a series that is granted are packed. -/
theorem Grants.packed (ordered : world.fba.begin.toNat ≤ world.fba.end_.toNat)
    (low : world.fba.end_.toNat ≤ isizeMax w) (grants : world.Grants layouts slices) :
    (slices.map fun slice => slice.ptr.toNat) =
        pack world.fba.begin.toNat (layouts.map Layout.item) ∧
      slices.map Slice.len = layouts.map Layout.size := by
  induction layouts generalizing world slices with
  | nil =>
      obtain rfl := List.map_eq_nil_iff.mp grants.symm
      exact ⟨rfl, rfl⟩
  | cons layout layouts ih =>
      rw [Grants, allocations_cons] at grants
      cases granted : world.fba.allocate layout with
      | none =>
          rw [granted] at grants
          cases slices with
          | nil => cases grants
          | cons slice slices => cases grants
      | some pair =>
          obtain ⟨first, fba⟩ := pair
          obtain ⟨result, ordered, low, start⟩ := later_of_granted ordered low granted
          rw [granted] at grants
          cases slices with
          | nil => cases grants
          | cons slice slices =>
              obtain ⟨same, later⟩ := List.cons.inj grants
              obtain ⟨starts, sizes⟩ := ih ordered low later
              cases same
              dsimp only at starts
              rw [start] at starts
              exact ⟨congrArg₂ List.cons result.ptr starts, congrArg₂ List.cons result.len sizes⟩

/-- A series is granted when its packed blocks fit. -/
theorem exists_grants_iff (ordered : world.fba.begin.toNat ≤ world.fba.end_.toNat)
    (low : world.fba.end_.toNat ≤ isizeMax w) :
    (∃ slices, world.Grants layouts slices) ↔
      packedEnd world.fba.begin.toNat (layouts.map Layout.item) ≤ world.fba.end_.toNat := by
  induction layouts generalizing world with
  | nil => exact iff_of_true ⟨[], rfl⟩ ordered
  | cons layout layouts ih =>
      simp only [Grants, allocations_cons]
      cases granted : world.fba.allocate layout with
      | none =>
          refine iff_of_false ?_ (not_fits_of_refused ordered low granted)
          rintro ⟨_ | ⟨slice, slices⟩, same⟩
          · cases same
          · cases same
      | some pair =>
          obtain ⟨first, fba⟩ := pair
          obtain ⟨result, ordered, low, start⟩ := later_of_granted ordered low granted
          have later : (∃ slices, ({ world with fba, live := ⟨first.ptr, layout⟩ :: world.live } :
                World w).Grants layouts slices) ↔
              packedEnd fba.begin.toNat (layouts.map Layout.item) ≤ fba.end_.toNat :=
            ih ordered low
          rw [start, result.end_] at later
          rw [List.map_cons, packedEnd, ← later]
          constructor
          · rintro ⟨_ | ⟨slice, slices⟩, same⟩
            · cases same
            · exact ⟨slices, (List.cons.inj same).2⟩
          · rintro ⟨slices, same⟩
            exact ⟨first :: slices, congrArg (.block first :: ·) same⟩

/-- **A series of allocations.** In a buffer that ends at `isize::MAX` at the latest, a series is
granted exactly when its blocks can be placed in their order, and then they are placed as low as
possible. -/
theorem allocations_granted_iff (world : World w) (layouts : List (Layout w))
    (ordered : world.fba.begin.toNat ≤ world.fba.end_.toNat)
    (low : world.fba.end_.toNat ≤ isizeMax w) :
    ((∃ slices, world.Grants layouts slices) ↔
        ∃ starts, Arranged world.fba.end_.toNat world.fba.begin.toNat
          (layouts.map Layout.item) starts) ∧
      ∀ slices, world.Grants layouts slices → world.Packed layouts slices := by
  rw [exists_arranged_iff, exists_grants_iff ordered low]
  refine ⟨Iff.rfl, fun slices grants => ?_⟩
  have fits := (exists_grants_iff ordered low).mp ⟨slices, grants⟩
  obtain ⟨starts, sizes⟩ := grants.packed ordered low
  refine ⟨?_, fun others arranged => ?_, sizes⟩
  · rw [starts]
    exact arranged_pack fits
  · rw [starts]
    exact arranged.pack_le

/-- A word, a byte and a word, placed in twelve bytes. -/
theorem words_packed :
    (new page fun _ => 0).Packed [.word, .byte, .word] [⟨0x1000, 4⟩, ⟨0x1004, 1⟩, ⟨0x1008, 4⟩] :=
  (allocations_granted_iff (new page fun _ => 0) [.word, .byte, .word] (by decide)
    (by decide)).2 _ rfl

/-- **No gaps.** Padded layouts that are requested from the largest alignment down are granted
exactly when the sum of their sizes is free. -/
theorem allocations_gapless_iff (world : World w) (layouts : List (Layout w)) {align : Nat}
    (ordered : world.fba.begin.toNat ≤ world.fba.end_.toNat)
    (low : world.fba.end_.toNat ≤ isizeMax w) (divides : align ∣ world.fba.begin.toNat)
    (nested : Nested align (layouts.map Layout.item)) :
    (∃ slices, world.Grants layouts slices) ↔
      world.fba.begin.toNat + (layouts.map fun layout => layout.size.toNat).sum ≤
        world.fba.end_.toNat := by
  rw [exists_grants_iff ordered low, packedEnd_eq_sum divides nested, List.map_map]
  rfl

/-- Two words and a byte in nine bytes. -/
theorem words_gapless : ∃ slices, (new page fun _ => 0).Grants [.word, .word, .byte] slices :=
  (allocations_gapless_iff (new page fun _ => 0) [.word, .word, .byte] (by decide) (by decide)
    (show 4 ∣ _ by decide) (by decide)).mpr (by decide)

end World

end Stdx
