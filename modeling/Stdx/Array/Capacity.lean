import Stdx.Foundation.Machine
import Stdx.Array.Contents

/-! # Capacity and the block of an array

Everything that indexes into the block of an array trusts the capacity as a
number of elements, but `reserve` and `with_capacity` set it to the length of
the block in bytes. Over runs of the safe operations, a capacity stays within
the block exactly when every block obtained has one-byte elements or no bytes
at all, and no `remove` wraps the length of an empty array
(`Stdx.Parts.capacity_within_block_iff`).
-/

namespace Stdx

open Foundation Event

variable {w : Nat} {α σ : Type*} [Element w α]

/-- The ways to build an `Array` without `unsafe`. -/
inductive Origin (w : Nat)
  | new
  | withCapacity (capacity : Usize w)

/-- A safe operation on an `Array`. -/
inductive SafeOp (w : Nat) (α : Type*)
  | reserve (additional : Usize w)
  | push (value : α)
  | pop
  | clear
  | append (other : Parts w α)
  | pushWithinCapacity (value : α)
  | insert (index : Usize w) (value : α)
  | remove (index : Usize w)
  | swapRemove (index : Usize w)
  | truncate (len : Usize w)
  | assign (index : Usize w) (value : α)

/-- The length of a block in bytes is also a number of elements it has room for. -/
def Slice.CountsElements (α : Type*) [Element w α] (slice : Slice w) : Prop :=
  sizeOf w α = 1 ∨ slice.len = 0

instance (slice : Slice w) : Decidable (slice.CountsElements α) :=
  inferInstanceAs (Decidable (_ ∨ _))

namespace Origin

/-- The block that a new array obtains. -/
def granted (α : Type*) [Element w α] (alloc : Allocator w σ) : Origin w → σ → Option (Slice w)
  | .new, _ => none
  | .withCapacity capacity, state =>
      (Layout.fromSizeAlign (sizeOf w α * capacity) (alignOf w α)).bind fun layout =>
        (alloc.allocate state layout).1

/-- The new array, if it can be built. -/
def build (alloc : Allocator w σ) : Origin w → σ → Option (Parts w α × σ)
  | .new, state => some (.new, state)
  | .withCapacity capacity, state =>
      match Parts.withCapacity alloc capacity state with
      | (.error _, _, _) => none
      | (.ok array, state, _) => some (array, state)

end Origin

namespace Parts

namespace Safe

/-- One safe operation, with its events. -/
def step (alloc : Allocator w σ) : Parts w α × σ → SafeOp w α → List (Event α) × Parts w α × σ
  | (array, state), .reserve additional =>
      let reserved := array.reserve alloc additional state
      ([], reserved.2)
  | (array, state), .push value =>
      let pushed := array.push alloc value state
      (pushed.2.2.2, pushed.2.1, pushed.2.2.1)
  | (array, state), .pop =>
      let popped := RawArray.pop array
      (popped.2.2, popped.2.1, state)
  | (array, state), .clear =>
      let cleared := array.clear
      (cleared.2, cleared.1, state)
  | (array, state), .append other =>
      let appended := array.append alloc other state
      (appended.2.2.2, appended.2.1, appended.2.2.1)
  | (array, state), .pushWithinCapacity value =>
      let pushed := array.pushWithinCapacity value
      (pushed.2.2, pushed.2.1, state)
  | (array, state), .insert index value =>
      let inserted := RawArray.insert array alloc index value state
      (inserted.2.2.2, inserted.2.1, inserted.2.2.1)
  | (array, state), .remove index =>
      let removed := RawArray.remove array index
      (removed.2.2, removed.2.1, state)
  | (array, state), .swapRemove index =>
      let removed := RawArray.swapRemove array index
      (removed.2.2, removed.2.1, state)
  | (array, state), .truncate len =>
      let truncated := array.truncate len
      (truncated.2, truncated.1, state)
  | (array, state), .assign index value =>
      let assigned := array.assign index value
      (assigned.2, assigned.1, state)

/-- An array and its allocator, driven by safe operations. -/
def machine (alloc : Allocator w σ) : Machine (Parts w α × σ) (SafeOp w α) (List (Event α)) :=
  ⟨step alloc⟩

/-- How many elements an operation reserves room for. -/
def reserves (array : Parts w α) : SafeOp w α → Option (Usize w)
  | .reserve additional => some additional
  | .push _ => some array.room
  | .append other => some other.length
  | .insert index _ =>
      if array.length.toNat < index.toNat then none
      else if index = array.length then some array.room
      else some 1
  | _ => none

/-- The block that an operation obtains. -/
def obtained (alloc : Allocator w σ) (array : Parts w α) (state : σ) (op : SafeOp w α) :
    Option (Slice w) :=
  (reserves array op).bind fun additional => array.granted alloc additional state

/-- A `remove` whose test for the last element wraps and accepts. -/
def Wraps (array : Parts w α) : SafeOp w α → Prop
  | .remove index => array.length = 0 ∧ index = -1
  | _ => False

instance (array : Parts w α) : ∀ op, Decidable (Wraps array op)
  | .remove _ => inferInstanceAs (Decidable (_ ∧ _))
  | .reserve _ | .push _ | .pop | .clear | .append _ | .pushWithinCapacity _ | .insert _ _
  | .swapRemove _ | .truncate _ | .assign _ _ => inferInstanceAs (Decidable False)

/-- What one step owes: the bounds hold afterwards, `push_within_capacity` writes
inside the block, and the old layout passed to `grow` fits it. -/
structure Keeps (alloc : Allocator w σ) (world : Parts w α × σ) (op : SafeOp w α) : Prop where
  within : ((machine alloc).next world op).1.Within
  writes : ∀ value, op = .pushWithinCapacity value →
    ∀ offset cell, .write offset cell ∈ (machine alloc).out world op →
      offset + (sizeOf w α).toNat ≤ world.1.bytes.toNat
  layouts : ∀ additional ∈ reserves world.1 op, world.1.capacity ≠ 0 →
    ∀ layouts ∈ growLayouts α world.1.capacity additional,
      layouts.1.size.toNat ≤ world.1.bytes.toNat

/-- The condition on one step: the bytes of a block that is obtained count
elements, and the length does not wrap. -/
def Fitting (alloc : Allocator w σ) (world : Parts w α × σ) (op : SafeOp w α) : Prop :=
  (∀ slice ∈ obtained alloc world.1 world.2 op, slice.CountsElements α) ∧ ¬ Wraps world.1 op

instance (alloc : Allocator w σ) (world : Parts w α × σ) (op : SafeOp w α) :
    Decidable (Fitting alloc world op) :=
  inferInstanceAs (Decidable (_ ∧ _))

variable {alloc : Allocator w σ} {array after : Parts w α} {state : σ} {op : SafeOp w α}

/-- An operation that obtained a block leaves the array on it. -/
def Moves (alloc : Allocator w σ) (array : Parts w α) (state : σ) (op : SafeOp w α)
    (after : Parts w α) : Prop :=
  ∃ additional ∈ reserves array op, ∃ slice ∈ array.granted alloc additional state,
    after = { array.enlarged slice with cells := after.cells }

/-- An operation that obtained no block changes the length and the contents only. -/
structure Stays (alloc : Allocator w σ) (array : Parts w α) (state : σ) (op : SafeOp w α)
    (after : Parts w α) : Prop where
  refused : obtained alloc array state op = none
  same : after = { array with length := after.length, cells := after.cells }
  wraps : Wraps array op → after.length = -1
  length : ¬ Wraps array op →
    after.length.toNat ≤ max array.length.toNat array.capacity.toNat

/-- An operation without a reservation that does not wrap. -/
theorem Stays.of_length (none : reserves array op = none) (noWrap : ¬ Wraps array op)
    (same : after = { array with length := after.length, cells := after.cells })
    (length : after.length.toNat ≤ max array.length.toNat array.capacity.toNat) :
    Stays alloc array state op after where
  refused := by rw [obtained, none, Option.bind_none]
  same := same
  wraps wraps := (noWrap wraps).elim
  length _ := length

/-- An operation whose reservation is refused changes nothing. -/
theorem Stays.of_refused {additional : Usize w} (reserved : reserves array op = some additional)
    (refused : array.granted alloc additional state = none) (noWrap : ¬ Wraps array op) :
    Stays alloc array state op array where
  refused := by rw [obtained, reserved, Option.bind_some, refused]
  same := rfl
  wraps wraps := (noWrap wraps).elim
  length _ := le_max_left _ _

theorem reserve_step (additional : Usize w) :
    Moves alloc array state (.reserve additional) (array.reserve alloc additional state).2.1 ∨
      Stays alloc array state (.reserve additional) (array.reserve alloc additional state).2.1 := by
  rcases array.reserve_cases alloc additional state with
    ⟨refused, after, reserved⟩ | ⟨slice, grant, after, reserved⟩
  · rw [reserved]
    exact .inr (.of_refused rfl refused not_false)
  · rw [reserved]
    exact .inl ⟨additional, rfl, slice, grant, rfl⟩

/-- A push keeps the length or, on a first block, clears it. -/
theorem push_step (value : α) :
    Moves alloc array state (.push value) (array.push alloc value state).2.1 ∨
      Stays alloc array state (.push value) (array.push alloc value state).2.1 := by
  rcases array.push_cases alloc value state with
    ⟨refused, after, pushed⟩ | ⟨slice, grant, after, ⟨_, pushed⟩ | ⟨_, pushed⟩⟩
  · rw [pushed]
    exact .inr (.of_refused rfl refused not_false)
  · rw [pushed]
    exact .inl ⟨_, rfl, slice, grant, rfl⟩
  · rw [pushed]
    exact .inl ⟨_, rfl, slice, grant, rfl⟩

theorem append_step (other : Parts w α) :
    Moves alloc array state (.append other) (array.append alloc other state).2.1 ∨
      Stays alloc array state (.append other) (array.append alloc other state).2.1 := by
  unfold append
  rcases array.reserve_cases alloc other.length state with
    ⟨refused, after, reserved⟩ | ⟨slice, grant, after, reserved⟩
  · rw [reserved]
    exact .inr (.of_refused rfl refused not_false)
  · rw [reserved]
    exact .inl ⟨other.length, rfl, slice, grant, moveFrom_same _ _ _⟩

omit [Element w α] in
/-- Taking one from the length of a nonempty array. -/
theorem length_pred_le (occupied : 0 < array.length.toNat) :
    (array.length - 1).toNat ≤ max array.length.toNat array.capacity.toNat := by
  rw [toNat_pred occupied]
  omega

/-- A guarded pop shortens a nonempty array. -/
theorem pop_step (array : Parts w α) :
    (RawArray.pop array).2.1 =
        { array with
          length := (RawArray.pop array).2.1.length
          cells := (RawArray.pop array).2.1.cells } ∧
      (RawArray.pop array).2.1.length.toNat ≤ max array.length.toNat array.capacity.toNat := by
  unfold RawArray.pop
  split
  · exact ⟨rfl, le_max_left _ _⟩
  · rename_i nonempty
    refine ⟨rfl, length_pred_le (Nat.pos_of_ne_zero fun zero => nonempty ?_)⟩
    exact BitVec.eq_of_toNat_eq zero

/-- A push within the capacity makes the array longer by one at most. -/
theorem pushWithinCapacity_step (value : α) :
    Stays alloc array state (.pushWithinCapacity value)
      (array.pushWithinCapacity value).2.1 := by
  unfold pushWithinCapacity
  split
  · exact .of_length rfl not_false rfl (le_max_left _ _)
  · rename_i full
    have room := Nat.lt_of_not_le full
    refine .of_length rfl not_false rfl (le_max_of_le_right ?_)
    change (array.length + 1).toNat ≤ _
    rw [BitVec.toNat_add]
    exact (Nat.mod_le _ _).trans ((Nat.add_le_add_left (Nat.mod_le 1 _) _).trans room)

omit [Element w α] in
/-- What an insertion in bounds reserves. -/
theorem reserves_insert {index : Usize w} (value : α)
    (inside : index.toNat ≤ array.length.toNat) :
    reserves array (.insert index value) = some (array.insertRoom index) := by
  have checked : reserves array (.insert index value) =
      if index = array.length then some array.room else some 1 := if_neg (not_lt.mpr inside)
  rw [checked, insertRoom]
  split
  · rfl
  · rfl

theorem insert_step (index : Usize w) (value : α) :
    Moves alloc array state (.insert index value)
        (RawArray.insert array alloc index value state).2.1 ∨
      Stays alloc array state (.insert index value)
        (RawArray.insert array alloc index value state).2.1 := by
  unfold RawArray.insert
  by_cases outside : array.length.toNat < index.toNat
  · rw [if_pos outside]
    exact .inr (.of_length (if_pos outside) not_false rfl (le_max_left _ _))
  · have room := reserves_insert value (not_lt.mp outside)
    rw [if_neg outside]
    dsimp only
    rcases array.insertUnchecked_cases alloc index value state with
      ⟨refused, after, inserted⟩ | ⟨slice, grant, ⟨_, after, inserted⟩ | ⟨_, _, inserted⟩⟩
    · rw [inserted]
      exact .inr (.of_refused room refused not_false)
    · rw [inserted]
      exact .inl ⟨_, room, slice, grant, rfl⟩
    · exact .inl ⟨_, room, slice, grant, inserted⟩

/-- A `remove` wraps the length exactly when its test for the last element accepts on
an empty array. -/
theorem remove_step (index : Usize w) :
    Stays alloc array state (.remove index) (RawArray.remove array index).2.1 := by
  unfold RawArray.remove
  by_cases last : index = array.length - 1
  · rw [if_pos last]
    refine ⟨rfl, rfl, fun wraps => ?_, fun noWrap => ?_⟩
    · change array.length - 1 = -1
      rw [wraps.1]
      exact BitVec.zero_sub 1
    · apply length_pred_le
      apply Nat.pos_of_ne_zero
      intro zero
      have empty : array.length = 0 := BitVec.eq_of_toNat_eq zero
      exact noWrap ⟨empty, by rw [last, empty]; exact BitVec.zero_sub 1⟩
  · have noWrap : ¬ Wraps array (.remove index : SafeOp w α) := by
      rintro ⟨empty, rfl⟩
      exact last (by rw [empty]; exact (BitVec.zero_sub 1).symm)
    rw [if_neg last]
    split
    · exact .of_length rfl noWrap rfl (le_max_left _ _)
    · exact .of_length rfl noWrap rfl (length_pred_le (by omega))

theorem swapRemove_step (index : Usize w) :
    Stays alloc array state (.swapRemove index) (RawArray.swapRemove array index).2.1 := by
  unfold RawArray.swapRemove
  split
  · exact .of_length rfl not_false (pop_step array).1 (pop_step array).2
  split
  · exact .of_length rfl not_false rfl (le_max_left _ _)
  · exact .of_length rfl not_false rfl (length_pred_le (by omega))

theorem truncate_step (len : Usize w) :
    Stays alloc array state (.truncate len) (array.truncate len).1 := by
  unfold truncate
  split
  · exact .of_length rfl not_false rfl (le_max_left _ _)
  · rename_i longer
    exact .of_length rfl not_false rfl (le_max_of_le_left (Nat.le_of_not_le longer))

theorem assign_step (index : Usize w) (value : α) :
    Stays alloc array state (.assign index value) (array.assign index value).1 := by
  unfold assign
  split
  · exact .of_length rfl not_false rfl (le_max_left _ _)
  · exact .of_length rfl not_false rfl (le_max_left _ _)

/-- What any safe operation does to the length, the capacity and the block. -/
theorem step_cases (alloc : Allocator w σ) (array : Parts w α) (state : σ) (op : SafeOp w α) :
    Moves alloc array state op ((machine alloc).next (array, state) op).1 ∨
      Stays alloc array state op ((machine alloc).next (array, state) op).1 := by
  cases op with
  | reserve additional => exact reserve_step additional
  | push value => exact push_step value
  | pop => exact .inr (.of_length rfl not_false (pop_step array).1 (pop_step array).2)
  | clear => exact .inr (.of_length rfl not_false rfl (Nat.zero_le _))
  | append other => exact append_step other
  | pushWithinCapacity value => exact .inr (pushWithinCapacity_step value)
  | insert index value => exact insert_step index value
  | remove index => exact .inr (remove_step index)
  | swapRemove index => exact .inr (swapRemove_step index)
  | truncate len => exact .inr (truncate_step len)
  | assign index value => exact .inr (assign_step index value)

/-- Within the bounds, what a step writes without allocating is inside the block. -/
theorem write_inside (within : array.Within) {value : α} {offset : Nat} {cell : Cell α}
    (written : .write offset cell ∈ (array.pushWithinCapacity value).2.2) :
    offset + (sizeOf w α).toNat ≤ array.bytes.toNat := by
  by_cases room : array.length.toNat < array.capacity.toNat
  · rw [pushWithinCapacity_of_lt within room] at written
    simp only [List.mem_singleton, Event.write.injEq] at written
    rw [written.1]
    exact within.mul_add_le room
  · rw [pushWithinCapacity_of_le (not_lt.mp room)] at written
    cases written

omit [Element w α] in
theorem reserves_of_wraps (wraps : Wraps array op) : reserves array op = none := by
  cases op with
  | remove index => rfl
  | _ => exact wraps.elim

theorem countsElements_iff (nonzero : sizeOf w α ≠ 0) (slice : Slice w) :
    (sizeOf w α).toNat * slice.len.toNat ≤ slice.len.toNat ↔ slice.CountsElements α := by
  unfold Slice.CountsElements
  rw [BitVec.toNat_eq, BitVec.toNat_eq, toNat_one w α]
  have positive := sizeOf_pos nonzero
  constructor
  · intro bound
    rcases Nat.eq_zero_or_pos slice.len.toNat with empty | occupied
    · exact .inr empty
    · exact .inl (le_antisymm (Nat.le_of_mul_le_mul_right (by omega) occupied) positive)
  · rintro (unit | empty)
    · rw [unit, Nat.one_mul]
    · rw [empty]
      simp

/-- Elements with bytes stay within the capacity. -/
theorem counted_next (honours : alloc.Honours) (counted : array.Counted)
    (noWrap : ¬ Wraps array op) : ((machine alloc).next (array, state) op).1.Counted := by
  intro nonzero
  rcases step_cases alloc array state op with ⟨additional, _, slice, grant, moved⟩ | stays
  · have room := length_enlarged_add_le counted honours nonzero grant
    rw [moved]
    exact (Nat.le_add_right _ _).trans room
  · rw [stays.same]
    exact (stays.length noWrap).trans (max_le (counted nonzero) le_rfl)

/-- A wrapped length is larger than any capacity. -/
theorem not_within_of_wraps (nonzero : sizeOf w α ≠ 0) (owned : array.Owned)
    (stays : Stays alloc array state op after) (wraps : Wraps array op) : ¬ after.Within := by
  intro within
  have positive := sizeOf_pos nonzero
  have largest : after.length.toNat = 2 ^ w - 1 := by
    rw [stays.wraps wraps]
    exact (congrArg BitVec.toNat BitVec.neg_one_eq_allOnes).trans BitVec.toNat_allOnes
  have length := within.length
  rw [largest, stays.same] at length
  have capacity := Nat.le_mul_of_pos_left array.capacity.toNat positive
  have block := owned.block
  have bytes := owned.bytes
  have half := (Element.layout α : Layout w).two_pow_width
  have halfPositive := Nat.two_pow_pos (w - 1)
  unfold isizeMax at bytes
  dsimp only at length
  omega

/-- What a step needs to keep the bounds is exactly the condition. -/
theorem within_iff (honours : alloc.Honours) (nonzero : sizeOf w α ≠ 0) (owned : array.Owned) :
    ((machine alloc).next (array, state) op).1.Within ↔ Fitting alloc (array, state) op := by
  rcases step_cases alloc array state op with
    ⟨additional, reserved, slice, grant, moved⟩ | stays
  · rw [moved]
    have noWrap : ¬ Wraps array op := fun wraps => by simp [reserves_of_wraps wraps] at reserved
    have same : obtained alloc array state op = some slice :=
      Option.bind_eq_some_iff.mpr ⟨additional, reserved, grant⟩
    constructor
    · intro within
      refine ⟨fun other otherSame => ?_, noWrap⟩
      cases Option.mem_unique same otherSame
      exact (countsElements_iff nonzero slice).mp within.block
    · rintro ⟨fitting, _⟩
      have room := length_enlarged_add_le (fun _ => owned.length) honours nonzero grant
      exact ⟨(Nat.le_add_right _ _).trans room,
        (countsElements_iff nonzero slice).mpr (fitting slice same)⟩
  · constructor
    · intro within
      refine ⟨fun slice same => ?_, fun wraps => ?_⟩
      · rw [stays.refused] at same
        cases same
      · exact not_within_of_wraps nonzero owned stays wraps within
    · rintro ⟨_, noWrap⟩
      rw [stays.same]
      exact ⟨(stays.length noWrap).trans (max_le owned.length le_rfl), owned.block⟩

/-- Everything one step owes holds exactly under the condition. -/
theorem keeps_iff (honours : alloc.Honours) (nonzero : sizeOf w α ≠ 0) (owned : array.Owned) :
    Keeps alloc (array, state) op ↔ Fitting alloc (array, state) op := by
  rw [← within_iff honours nonzero owned]
  refine ⟨Keeps.within, fun within => ⟨within, ?_, ?_⟩⟩
  · rintro value rfl offset cell written
    exact write_inside owned.toWithin written
  · rintro additional _ _ ⟨old, new⟩ layouts
    rw [(growLayouts_eq_some layouts).1]
    exact owned.block

/-- A step that keeps the bounds keeps the size limit. -/
theorem owned_next (honours : alloc.Honours) (owned : array.Owned)
    (within : ((machine alloc).next (array, state) op).1.Within) :
    ((machine alloc).next (array, state) op).1.Owned := by
  refine ⟨within, ?_⟩
  rcases step_cases alloc array state op with ⟨_, _, slice, grant, moved⟩ | stays
  · rw [moved]
    exact (granted_len honours grant).2
  · rw [stays.same]
    exact owned.bytes

/-- A new array has no block, or the one it obtained and no elements in it. -/
theorem Origin.build_cases {origin : Origin w} {world : Parts w α × σ}
    (built : origin.build alloc state = some world) :
    origin.granted α alloc state = none ∧ world.1 = new ∨
      ∃ slice, origin.granted α alloc state = some slice ∧
        world.1 = ⟨slice.ptr, 0, slice.len, .fresh, slice.len⟩ := by
  cases origin with
  | new =>
      cases built
      exact .inl ⟨rfl, rfl⟩
  | withCapacity capacity =>
      simp only [Origin.build, withCapacity] at built
      cases valid : Layout.fromSizeAlign (sizeOf w α * capacity) (alignOf w α) with
      | none => simp [valid] at built
      | some layout =>
          rcases answer : alloc.allocate state layout with ⟨_ | slice, after⟩
          · simp [valid, answer] at built
          · simp only [valid, answer, Option.some.injEq] at built
            subst built
            exact .inr ⟨slice, by simp [Origin.granted, valid, answer], rfl⟩

/-- A new block is not longer than an allocation can be. -/
theorem Origin.granted_le (honours : alloc.Honours) {origin : Origin w} {slice : Slice w}
    (granted : origin.granted α alloc state = some slice) : slice.len.toNat ≤ isizeMax w := by
  cases origin with
  | new => cases granted
  | withCapacity capacity =>
      obtain ⟨layout, _, answer⟩ := Option.bind_eq_some_iff.mp granted
      exact (honours.allocate state layout slice answer).2

/-- The bounds of a new array, and its size limit. -/
theorem Origin.within_iff (honours : alloc.Honours) (nonzero : sizeOf w α ≠ 0)
    {origin : Origin w} {world : Parts w α × σ} (built : origin.build alloc state = some world) :
    (world.1.Within ↔ ∀ slice ∈ origin.granted α alloc state, slice.CountsElements α) ∧
      world.1.bytes.toNat ≤ isizeMax w := by
  rcases Origin.build_cases built with ⟨none, same⟩ | ⟨slice, granted, same⟩
  · rw [none, same]
    refine ⟨⟨fun _ _ some => absurd some (Option.not_mem_none _), fun _ => ⟨le_rfl, ?_⟩⟩,
      Nat.zero_le _⟩
    simp [new]
  · have bound := Origin.granted_le honours granted
    rw [granted, same]
    refine ⟨⟨fun within other obtained => ?_, fun counts => ⟨Nat.zero_le _, ?_⟩⟩, bound⟩
    · cases obtained
      exact (countsElements_iff nonzero slice).mp within.block
    · exact (countsElements_iff nonzero slice).mpr (counts slice rfl)

/-- A new array has no elements. -/
theorem Origin.length_eq_zero {origin : Origin w} {world : Parts w α × σ}
    (built : origin.build alloc state = some world) : world.1.length = 0 := by
  rcases Origin.build_cases built with ⟨_, same⟩ | ⟨slice, _, same⟩
  · rw [same]
    rfl
  · rw [same]

end Safe

open Safe in
/-- In every array made by safe operations, none of which wraps the length, elements
with bytes are within the capacity. -/
theorem counted_final (alloc : Allocator w σ) (honours : alloc.Honours) (origin : Origin w)
    (state : σ) (world : Parts w α × σ) (built : origin.build alloc state = some world)
    (ops : List (SafeOp w α))
    (noWraps : (machine alloc).Along (fun world op => ¬ Wraps world.1 op) world ops) :
    ((machine alloc).final world ops).1.Counted := by
  apply noWraps.invariant fun world => world.1.Counted
  · exact fun _ _ counted noWrap => counted_next honours counted noWrap
  · intro _
    rw [Origin.length_eq_zero built]
    exact Nat.zero_le _

open Safe in
/-- **Exactly when capacities count elements.** -/
theorem capacity_within_block_iff (alloc : Allocator w σ) (honours : alloc.Honours)
    (nonzero : sizeOf w α ≠ 0) (origin : Origin w) (state : σ) (world : Parts w α × σ)
    (built : origin.build alloc state = some world) (ops : List (SafeOp w α)) :
    world.1.Within ∧ (machine alloc).Along (Keeps alloc) world ops ↔
      (∀ slice ∈ origin.granted α alloc state, slice.CountsElements α) ∧
        (machine alloc).Along (Fitting alloc) world ops := by
  obtain ⟨start, bytes⟩ := Origin.within_iff honours nonzero built
  rw [← start]
  refine and_congr_right fun within => ?_
  refine Machine.Along.iff_of_invariant (fun world => world.1.Owned)
    (fun world op owned _ => ⟨keeps_iff honours nonzero owned, fun kept => ?_⟩)
    (Machine.Along.of_forall (fun _ _ => trivial) world ops) ⟨within, bytes⟩
  exact owned_next honours owned kept.within

/-- An array on the first eight bytes of the page. -/
def first (α : Type*) : Parts 64 α := ⟨0x1000, 0, 8, .fresh, 8⟩

/-- Bytes pushed, removed and moved to larger blocks. -/
def byteOps : List (SafeOp 64 UInt8) :=
  [.pushWithinCapacity 1, .pushWithinCapacity 2, .remove 0, .reserve 1, .insert 0 3, .swapRemove 0]

open Safe in
theorem byteOps_within_block :
    (first UInt8).Within ∧
      (machine (FixedBufferAllocator.allocator 64)).Along
        (Keeps (FixedBufferAllocator.allocator 64)) (first UInt8, page 8) byteOps :=
  (capacity_within_block_iff (FixedBufferAllocator.allocator 64)
    (FixedBufferAllocator.allocator_honours 64) (by decide) (.withCapacity 8) (page 0)
    (first UInt8, page 8) rfl byteOps).mpr ⟨by decide, by decide⟩

open Safe in
/-- An array for two elements of four bytes takes a third one, which it writes
behind its block of eight bytes. -/
theorem third_element_leaves_block :
    ¬ ∀ (alloc : Allocator 64 (FixedBufferAllocator 64 × Memory 64)), alloc.Honours →
      ∀ (origin : Origin 64) (state : FixedBufferAllocator 64 × Memory 64)
        (world : Parts 64 UInt32 × FixedBufferAllocator 64 × Memory 64),
        origin.build alloc state = some world → ∀ ops : List (SafeOp 64 UInt32),
          world.1.Within ∧ (machine alloc).Along (Keeps alloc) world ops := by
  intro claim
  have run := (claim (FixedBufferAllocator.allocator 64)
    (FixedBufferAllocator.allocator_honours 64) (.withCapacity 2) (page 0)
    (first UInt32, page 8) rfl
    [.pushWithinCapacity 1, .pushWithinCapacity 2, .pushWithinCapacity 3]).2
  have outside := run.2.2.1.writes 3 rfl 8 (.val 3) (by decide)
  exact absurd outside (by decide)

end Parts

end Stdx
