import Mathlib.Data.List.Pairwise
import Mathlib.Order.CompletePartialOrder
import Mathlib.Order.Interval.Set.Disjoint

/-! # Regions filled from below

Half-open regions of an ordered address space, and the arrangement a bump
allocator maintains: pairwise disjoint regions of which every nonempty one ends
at or below a common top. The arrangement is kept by dropping regions, by
lowering the top to a bound of what remains, and by adding a region at or above
the top. A contiguous stack of occupied regions is such an arrangement.
-/

namespace Foundation

/-- A half-open region of addresses. -/
structure Region (α : Type*) where
  start : α
  stop : α
deriving DecidableEq

namespace Region

variable {α : Type*} [LinearOrder α]

/-- The addresses of a region. -/
def range (region : Region α) : Set α := Set.Ico region.start region.stop

/-- A region with an address in it. -/
def Occupied (region : Region α) : Prop := region.start < region.stop

/-- A region that ends where another one begins, or before, is disjoint from it. -/
theorem disjoint_of_le {first second : Region α} (le : first.stop ≤ second.start) :
    Disjoint first.range second.range := by
  rw [Set.disjoint_left]
  intro address inFirst inSecond
  exact absurd (inFirst.2.trans_le le) (not_lt.mpr inSecond.1)

/-- No occupied region of the list ends above the bound. -/
def Below (top : α) (regions : List (Region α)) : Prop :=
  ∀ region ∈ regions, region.Occupied → region.stop ≤ top

/-- Pairwise disjoint regions below a common top. -/
structure Filled (top : α) (regions : List (Region α)) : Prop where
  apart : regions.Pairwise fun first second => Disjoint first.range second.range
  below : Below top regions

theorem Filled.nil (top : α) : Filled top [] := ⟨.nil, nofun⟩

theorem Below.sublist {top : α} {regions kept : List (Region α)} (below : Below top regions)
    (sub : kept.Sublist regions) : Below top kept :=
  fun region member => below region (sub.subset member)

/-- Dropping regions keeps the arrangement. -/
theorem Filled.sublist {top : α} {regions kept : List (Region α)} (filled : Filled top regions)
    (sub : kept.Sublist regions) : Filled top kept :=
  ⟨filled.apart.sublist sub, filled.below.sublist sub⟩

/-- The top may move to any bound of the regions. -/
theorem Filled.rewind {top lower : α} {regions : List (Region α)} (filled : Filled top regions)
    (below : Below lower regions) : Filled lower regions :=
  ⟨filled.apart, below⟩

/-- A region at or above the top may be added, with the top moved past it. -/
theorem Filled.push {top higher : α} {regions : List (Region α)}
    (filled : Filled top regions) (region : Region α) (above : top ≤ region.start)
    (raised : top ≤ higher) (bounded : region.Occupied → region.stop ≤ higher) :
    Filled higher (region :: regions) := by
  constructor
  · refine List.pairwise_cons.mpr ⟨fun other member => ?_, filled.apart⟩
    rw [Set.disjoint_left]
    intro address inside inOther
    have occupied : other.Occupied := lt_of_le_of_lt inOther.1 inOther.2
    have low := filled.below other member occupied
    exact absurd inside.1 (not_le_of_gt (lt_of_lt_of_le inOther.2 (low.trans above)))
  · intro other member occupied
    rcases List.mem_cons.mp member with rfl | old
    · exact bounded occupied
    · exact (filled.below other old occupied).trans raised

/-- Two different regions of the arrangement are disjoint. -/
theorem Filled.disjoint_of_ne {top : α} {regions : List (Region α)} (filled : Filled top regions)
    {first second : Region α} (firstMember : first ∈ regions) (secondMember : second ∈ regions)
    (different : first ≠ second) : Disjoint first.range second.range := by
  have symmetric : Std.Symm fun first second : Region α => Disjoint first.range second.range :=
    ⟨fun _ _ apart => apart.symm⟩
  exact filled.apart.forall firstMember secondMember different

/-! ## Contiguous stacks -/

/-- The address a stack of regions, top first, ends at. -/
def top (base : α) : List (Region α) → α
  | [] => base
  | region :: _ => region.stop

/-- A stack of occupied regions, top first, each starting where the one below
it ends, the lowest at the base. -/
def Contiguous (base : α) : List (Region α) → Prop
  | [] => True
  | region :: rest => region.start = top base rest ∧ region.Occupied ∧ Contiguous base rest

theorem Contiguous.base_le_top {base : α} {regions : List (Region α)}
    (contiguous : Contiguous base regions) : base ≤ top base regions := by
  induction regions with
  | nil => exact le_rfl
  | cons region rest ih =>
      obtain ⟨start, occupied, below⟩ := contiguous
      exact (ih below).trans (start ▸ occupied.le)

theorem Contiguous.stop_le_top {base : α} {regions : List (Region α)}
    (contiguous : Contiguous base regions) {region : Region α} (member : region ∈ regions) :
    region.stop ≤ top base regions := by
  induction regions with
  | nil => exact absurd member List.not_mem_nil
  | cons head rest ih =>
      obtain ⟨start, occupied, below⟩ := contiguous
      rcases List.mem_cons.mp member with rfl | lower
      · exact le_rfl
      · exact (ih below lower).trans (start ▸ occupied.le)

theorem Contiguous.base_le_start {base : α} {regions : List (Region α)}
    (contiguous : Contiguous base regions) {region : Region α} (member : region ∈ regions) :
    base ≤ region.start := by
  induction regions with
  | nil => exact absurd member List.not_mem_nil
  | cons head rest ih =>
      obtain ⟨start, _, below⟩ := contiguous
      rcases List.mem_cons.mp member with rfl | lower
      · exact start ▸ below.base_le_top
      · exact ih below lower

/-- Only the top region ends where the stack ends. -/
theorem Contiguous.head?_eq_some_iff {base : α} {regions : List (Region α)}
    (contiguous : Contiguous base regions) {region : Region α} (member : region ∈ regions) :
    regions.head? = some region ↔ region.stop = top base regions := by
  cases regions with
  | nil => exact absurd member List.not_mem_nil
  | cons head rest =>
      obtain ⟨start, occupied, below⟩ := contiguous
      constructor
      · rintro ⟨⟩
        rfl
      · intro same
        rcases List.mem_cons.mp member with rfl | lower
        · rfl
        · have strict : region.stop < head.stop :=
            lt_of_le_of_lt (below.stop_le_top lower) (start ▸ occupied)
          exact absurd same strict.ne

/-- A contiguous stack fills the addresses up to its top. -/
theorem Contiguous.filled {base : α} {regions : List (Region α)}
    (contiguous : Contiguous base regions) : Filled (top base regions) regions := by
  induction regions with
  | nil => exact .nil base
  | cons region rest ih =>
      obtain ⟨start, occupied, below⟩ := contiguous
      exact (ih below).push region start.ge (start ▸ occupied.le) fun _ => le_rfl

end Region

end Foundation
