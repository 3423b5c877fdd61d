import Stdx.Array.InPlace
import Stdx.Array.Capacity

/-! # What a reservation is good for

`push` reserves on every call, whatever room there is, so a reservation saves no
call to the allocator; `push_within_capacity` does find the room. A reservation
keeps its promise exactly when there is nothing to push or when even the layout
of a larger block cannot be computed, and the array without capacity has no
elements (`Stdx.Parts.reservation_lasts_iff`).
-/

namespace Stdx

open Foundation

variable {w : Nat} {α σ : Type*}

/-- An allocator that counts the calls made to it. -/
def Allocator.counted (alloc : Allocator w σ) : Allocator w (σ × Nat) where
  allocate state layout :=
    let answer := alloc.allocate state.1 layout
    (answer.1, answer.2, state.2 + 1)
  grow state ptr oldLayout newLayout :=
    let answer := alloc.grow state.1 ptr oldLayout newLayout
    (answer.1, answer.2, state.2 + 1)

namespace Parts

variable [Element w α]

/-- The number of calls to the allocator during a series of pushes. -/
def pushCalls (alloc : Allocator w σ) (array : Parts w α) (state : σ) (values : List α) : Nat :=
  ((Safe.machine alloc.counted).final (array, state, 0) (values.map .push)).2.2

/-- What a series of `push_within_capacity` returns. -/
def pushesWithin (array : Parts w α) (values : List α) : List (InPlaceReply α) :=
  ((InPlace.machine w α).outputs array (values.map .pushWithinCapacity)).map Prod.fst

/-- The promise of `reserve`: it keeps the elements, and makes room for pushes that
succeed and do not allocate. -/
structure Lasts (alloc : Allocator w σ) (array : Parts w α) (additional : Usize w)
    (outcome : Except AllocError Unit × Parts w α × σ) : Prop where
  contents : outcome.1 = .ok () → outcome.2.1.deref = array.deref
  length : outcome.1 = .ok () → outcome.2.1.length = array.length
  room : outcome.1 = .ok () → ∀ values : List α, values.length = additional.toNat →
    ∀ reply ∈ outcome.2.1.pushesWithin values, reply = .pushed (.ok ())
  quiet : outcome.1 = .ok () → ∀ values : List α, values.length = additional.toNat →
    pushCalls alloc outcome.2.1 outcome.2.2 values = 0

/-- The condition on the block that the reservation obtains: there is nothing to
push, or a push fails before it asks for a larger block. -/
def Final (α : Type*) [Element w α] (additional : Usize w) (slice : Slice w) : Prop :=
  additional = 0 ∨ IsEmpty α ∨ growLayouts α slice.len 1 = none

variable {alloc : Allocator w σ} {array : Parts w α} {additional : Usize w} {state : σ}
  {slice : Slice w}

/-- A push within the capacity takes one place. -/
theorem pushWithinCapacity_room (array : Parts w α) (value : α)
    (room : array.length.toNat < array.capacity.toNat) :
    (array.pushWithinCapacity value).1 = .ok () ∧
      (array.pushWithinCapacity value).2.1.length.toNat = array.length.toNat + 1 ∧
      (array.pushWithinCapacity value).2.1.capacity = array.capacity := by
  have bound := array.capacity.isLt
  unfold pushWithinCapacity
  rw [if_neg (not_le.mpr room)]
  exact ⟨rfl, toNat_succ (by omega), rfl⟩

/-- Pushes within the capacity succeed while there is room. -/
theorem pushesWithin_succeed (values : List α)
    (room : array.length.toNat + values.length ≤ array.capacity.toNat) :
    ∀ reply ∈ array.pushesWithin values, reply = .pushed (.ok ()) := by
  induction values generalizing array with
  | nil => exact List.forall_mem_nil _
  | cons value values ih =>
      rw [List.length_cons] at room
      obtain ⟨ok, length, capacity⟩ := pushWithinCapacity_room array value (by omega)
      have later : (array.pushWithinCapacity value).2.1.length.toNat + values.length ≤
          (array.pushWithinCapacity value).2.1.capacity.toNat := by
        rw [length, capacity]
        omega
      intro reply member
      rcases List.mem_cons.mp member with rfl | member
      · exact congrArg InPlaceReply.pushed ok
      · exact ih later reply member

/-- The count of the calls does not go down in a reservation. -/
theorem le_reserve_calls (alloc : Allocator w σ) (array : Parts w α) (additional : Usize w)
    (state : σ × Nat) : state.2 ≤ (array.reserve alloc.counted additional state).2.2.2 := by
  unfold reserve Allocator.counted
  dsimp only
  split
  · cases firstLayout w α additional with
    | none => exact le_rfl
    | some layout =>
        rcases answer : alloc.allocate state.1 layout with ⟨_ | slice, after⟩
        · simp only [answer, Nat.le_succ]
        · simp only [answer, Nat.le_succ]
  · cases growLayouts α array.capacity additional with
    | none => exact le_rfl
    | some layouts =>
        rcases answer : alloc.grow state.1 array.data layouts.1 layouts.2 with ⟨_ | slice, after⟩
        · simp only [answer, Nat.le_succ]
        · simp only [answer, Nat.le_succ]

/-- A reservation that can compute its layouts calls the allocator. -/
theorem reserve_calls_of_some (alloc : Allocator w σ) (occupied : array.capacity ≠ 0)
    {layouts : Layout w × Layout w}
    (computed : growLayouts α array.capacity additional = some layouts) (state : σ × Nat) :
    (array.reserve alloc.counted additional state).2.2.2 = state.2 + 1 := by
  unfold reserve Allocator.counted
  rw [if_neg occupied, computed]
  rcases answer : alloc.grow state.1 array.data layouts.1 layouts.2 with ⟨_ | slice, after⟩
  · simp only [answer]
  · simp only [answer]

/-- A push uses the allocator for its reservation only. -/
theorem push_state (alloc : Allocator w σ) (array : Parts w α) (value : α) (state : σ) :
    (array.push alloc value state).2.2.1 = (array.reserve alloc array.room state).2.2 := by
  unfold push
  rcases array.reserve alloc array.room state with ⟨_ | _, moved, after⟩
  · rfl
  · dsimp only
    split
    · rfl
    split
    · rfl
    · rfl

/-- The count of the calls does not go down in a series of pushes. -/
theorem le_pushes_calls (alloc : Allocator w σ) (world : Parts w α × σ × Nat)
    (values : List α) :
    world.2.2 ≤ ((Safe.machine alloc.counted).final world (values.map .push)).2.2 := by
  induction values generalizing world with
  | nil => exact le_rfl
  | cons value values ih =>
      have first : world.2.2 ≤ ((Safe.machine alloc.counted).next world (.push value)).2.2 := by
        change _ ≤ (world.1.push alloc.counted value world.2).2.2.1.2
        rw [push_state]
        exact le_reserve_calls alloc world.1 _ world.2
      exact first.trans (ih _)

/-- A push that can compute the layout of a larger block calls the allocator. -/
theorem pushCalls_pos (alloc : Allocator w σ) (occupied : array.capacity ≠ 0)
    {layouts : Layout w × Layout w} (computed : growLayouts α array.capacity 1 = some layouts)
    (state : σ) (value : α) (values : List α) :
    0 < pushCalls alloc array state (value :: values) := by
  have first : ((Safe.machine alloc.counted).next (array, state, 0) (.push value)).2.2 = 1 := by
    change (array.push alloc.counted value (state, 0)).2.2.1.2 = 1
    rw [push_state, room, if_neg occupied, reserve_calls_of_some alloc occupied computed]
  have rest := le_pushes_calls alloc
    ((Safe.machine alloc.counted).next (array, state, 0) (.push value)) values
  rw [first] at rest
  exact rest

/-- A push that cannot compute the layout of a larger block changes nothing. -/
theorem pushCalls_of_none (alloc : Allocator w σ) (occupied : array.capacity ≠ 0)
    (blocked : growLayouts α array.capacity 1 = none) (state : σ) (values : List α) :
    pushCalls alloc array state values = 0 := by
  have same (value : α) :
      (Safe.machine alloc.counted).next (array, state, 0) (.push value) = (array, state, 0) := by
    have refused : array.reserve alloc.counted 1 (state, 0) =
        (.error .allocError, array, state, 0) := by
      rw [reserve, if_neg occupied, blocked]
    change ((array.push alloc.counted value (state, 0)).2.1,
      (array.push alloc.counted value (state, 0)).2.2.1) = _
    simp only [push, room, occupied, if_false, refused]
  unfold pushCalls
  induction values with
  | nil => rfl
  | cons value values ih =>
      rw [List.map_cons, Machine.final_cons, same]
      exact ih

/-- The layout of a larger block without bytes can be computed. -/
theorem growLayouts_of_size_eq_zero (zero : sizeOf w α = 0) {capacity : Usize w}
    (bound : capacity.toNat ≤ isizeMax w) : growLayouts α capacity 1 ≠ none := by
  have layout : Layout.fromSizeAlign 0 (alignOf w α) = some (Element.layout α) :=
    Layout.fromSizeAlign_eq_some.mpr ⟨zero, rfl⟩
  have product (count : Usize w) : (0 : Usize w).checkedMul count = some 0 :=
    Usize.checkedMul_eq_some.mpr ⟨by simp, BitVec.zero_mul⟩
  have sum : capacity.checkedAdd 1 = some (capacity + 1) := by
    have unit := toNat_one w α
    have half := (Element.layout α : Layout w).two_pow_width
    have positive := Nat.two_pow_pos (w - 1)
    refine Usize.checkedAdd_eq_some.mpr ⟨?_, rfl⟩
    unfold isizeMax at bound
    omega
  rw [growLayouts, zero]
  simp only [product, sum, layout, Option.bind_eq_bind, Option.bind_some, Option.pure_def]
  exact Option.some_ne_none _

/-- A reservation that fails keeps every promise. -/
theorem Lasts.of_error {outcome : Except AllocError Unit × Parts w α × σ}
    (failed : outcome.1 = .error .allocError) : Lasts alloc array additional outcome := by
  refine ⟨fun ok => ?_, fun ok => ?_, fun ok => ?_, fun ok => ?_⟩
  all_goals exact nomatch failed.symm.trans ok

/-- A block that makes the promise of a reservation true. -/
theorem final_of_lasts {after : σ}
    (lasts : Lasts alloc array additional (.ok (), array.enlarged slice, after)) :
    Final α additional slice := by
  by_cases none : additional = 0
  · exact .inl none
  rcases isEmpty_or_nonempty α with empty | ⟨⟨value⟩⟩
  · exact .inr (.inl empty)
  refine .inr (.inr ?_)
  have capacity : (array.enlarged slice).capacity = slice.len := rfl
  obtain ⟨more, count⟩ := Nat.exists_eq_succ_of_ne_zero
    (show additional.toNat ≠ 0 from fun zero => none (BitVec.eq_of_toNat_eq zero))
  have values : (value :: List.replicate more value).length = additional.toNat := by
    rw [List.length_cons, List.length_replicate, count]
  have occupied : (array.enlarged slice).capacity ≠ 0 := by
    intro empty
    have first := lasts.room rfl _ values _ (List.mem_cons_self ..)
    have full : (array.enlarged slice).pushWithinCapacity value =
        (.error value, array.enlarged slice, []) :=
      pushWithinCapacity_of_le (by rw [empty]; exact Nat.zero_le _)
    change InPlaceReply.pushed ((array.enlarged slice).pushWithinCapacity value).1 = _ at first
    rw [full] at first
    cases first
  by_contra computed
  obtain ⟨layouts, computed⟩ := Option.ne_none_iff_exists'.mp computed
  have calls := pushCalls_pos alloc occupied computed after value (List.replicate more value)
  have quiet := lasts.quiet rfl _ values
  exact absurd quiet (Nat.ne_of_gt calls)

/-- A reservation on a block that meets the condition keeps its promise. -/
theorem lasts_of_final (honours : alloc.Honours) (counted : array.Counted)
    (grant : array.granted alloc additional state = some slice) (carries : array.Carries)
    (final : Final α additional slice) (after : σ) :
    Lasts alloc array additional (.ok (), array.enlarged slice, after) := by
  have contents := (deref_enlarged_iff counted grant).mpr carries
  have length : (array.enlarged slice).length = array.length := length_enlarged_iff.mpr carries
  have nothing (none : additional = 0 ∨ IsEmpty α) {values : List α}
      (count : values.length = additional.toNat) : values = [] := by
    rcases none with rfl | empty
    · exact List.eq_nil_of_length_eq_zero count
    · exact Subsingleton.elim _ _
  by_cases none : additional = 0 ∨ IsEmpty α
  · refine ⟨fun _ => contents, fun _ => length, fun _ values count => ?_,
      fun _ values count => ?_⟩
    · rw [nothing none count]
      exact List.forall_mem_nil _
    · rw [nothing none count]
      rfl
  · have blocked : growLayouts α slice.len 1 = .none := by
      rcases final with zero | empty | blocked
      · exact absurd (.inl zero) none
      · exact absurd (.inr empty) none
      · exact blocked
    have nonzero : sizeOf w α ≠ 0 := fun zero =>
      growLayouts_of_size_eq_zero zero (granted_len honours grant).2 blocked
    have room := length_enlarged_add_le counted honours nonzero grant
    have capacity : (array.enlarged slice).capacity = slice.len := rfl
    refine ⟨fun _ => contents, fun _ => length, fun _ values count => ?_,
      fun _ values count => ?_⟩
    · exact pushesWithin_succeed values (count ▸ room)
    · have occupied : (array.enlarged slice).capacity ≠ 0 := by
        intro empty
        have full : slice.len.toNat = 0 := congrArg BitVec.toNat (capacity.symm.trans empty)
        have gone : additional.toNat = 0 := by omega
        exact none (.inl (BitVec.eq_of_toNat_eq gone))
      exact pushCalls_of_none alloc occupied blocked after values

/-- **Exactly when a reservation keeps its promise.** -/
theorem reservation_lasts_iff (honours : alloc.Honours) (counted : array.Counted)
    (additional : Usize w) (state : σ) :
    Lasts alloc array additional (array.reserve alloc additional state) ↔
      ∀ slice ∈ array.granted alloc additional state,
        array.Carries ∧ Final α additional slice := by
  rcases array.reserve_cases alloc additional state with
    ⟨refused, after, reserved⟩ | ⟨slice, grant, after, reserved⟩
  · rw [refused, reserved]
    exact ⟨fun _ _ some => absurd some (Option.not_mem_none _), fun _ => .of_error rfl⟩
  · rw [reserved]
    constructor
    · intro lasts other granted
      cases Option.mem_unique grant granted
      exact ⟨(deref_enlarged_iff counted grant).mp (lasts.contents rfl), final_of_lasts lasts⟩
    · intro condition
      obtain ⟨carries, final⟩ := condition slice grant
      exact lasts_of_final honours counted grant carries final after

/-- A reservation for nothing keeps two bytes. -/
theorem nothing_reserved :
    Lasts (FixedBufferAllocator.allocator 64) (ofBytes [5, 6]) 0
      ((ofBytes [5, 6]).reserve (FixedBufferAllocator.allocator 64) 0 (page 8)) :=
  (reservation_lasts_iff (FixedBufferAllocator.allocator_honours 64) (fun _ => by decide) 0
    (page 8)).mpr fun _ _ => ⟨by decide, .inl rfl⟩

/-- A push after a reservation for it calls the allocator again. -/
theorem push_allocates_again :
    ¬ ∀ (alloc : Allocator 64 (FixedBufferAllocator 64 × Memory 64)), alloc.Honours →
      ∀ array : Parts 64 UInt8, array.Counted →
        ∀ (additional : Usize 64) (state : FixedBufferAllocator 64 × Memory 64),
          Lasts alloc array additional (array.reserve alloc additional state) := by
  intro claim
  have lasts := claim (FixedBufferAllocator.allocator 64)
    (FixedBufferAllocator.allocator_honours 64) (ofBytes [5, 6]) (fun _ => by decide) 1 (page 8)
  exact absurd (lasts.quiet (by decide) [7] (by decide)) (by decide)

end Parts

end Stdx
