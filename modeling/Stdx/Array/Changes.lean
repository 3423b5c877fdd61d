import Stdx.Array.Insert
import Stdx.Array.Bytes

/-! # What an operation changes

Whether an operation that allocates succeeds is decided by its reservation, and when that is
refused nothing changes. On elements of one byte, what any safe operation writes or drops in
place is in the block, or is the byte behind the block, where a push puts its value
(`Stdx.Parts.Safe.step_changed`).
-/

namespace Stdx

open Foundation Event

variable {w : Nat} {α σ : Type*}

/-- The place in the block that is written or whose contents are dropped. -/
def Event.changed : Event α → Option Nat
  | .write offset _ | .dropInPlace offset _ => some offset
  | .read _ _ | .readOther _ _ | .dropValue _ | .overflow => none

namespace Event

@[simp] theorem changed_ofSub (left right : Usize w) :
    (ofSub left right : List (Event α)).filterMap changed = [] := by
  unfold ofSub
  split <;> rfl

@[simp] theorem changed_ofMul (left right : Usize w) :
    (ofMul left right : List (Event α)).filterMap changed = [] := by
  unfold ofMul
  split <;> rfl

/-- The places that a copy of some elements changes. -/
theorem mem_changed_copies {offset count : Nat} {src dst : Nat → Nat} {cells : Cells α} :
    offset ∈ ((List.range count).flatMap fun step =>
        [.read (src step) (cells (src step)),
          .write (dst step) (cells (src step))]).filterMap changed ↔
      ∃ step < count, offset = dst step := by
  simp only [List.mem_filterMap, List.mem_flatMap, List.mem_range, List.mem_cons,
    List.not_mem_nil, or_false]
  constructor
  · rintro ⟨_, ⟨step, inside, rfl | rfl⟩, same⟩
    · cases same
    · exact ⟨step, inside, (Option.some.inj same).symm⟩
  · rintro ⟨step, inside, rfl⟩
    exact ⟨_, ⟨step, inside, .inr rfl⟩, rfl⟩

end Event

namespace Parts

variable [Element w α] {array : Parts w α} {additional : Usize w}

namespace Safe

/-- Whether an operation that allocates reports success. -/
def succeeds (alloc : Allocator w σ) (array : Parts w α) (state : σ) : SafeOp w α → Bool
  | .reserve additional => (array.reserve alloc additional state).1.isOk
  | .push value => (array.push alloc value state).1.isOk
  | .append other => (array.append alloc other state).1.isOk
  | .insert index value => (RawArray.insert array alloc index value state).1.isOk
  | .pop | .clear | .pushWithinCapacity _ | .remove _ | .swapRemove _ | .truncate _
  | .assign _ _ => true

variable {alloc : Allocator w σ} {state after : σ} {op : SafeOp w α} {slice : Slice w}

/-- An operation without a reservation leaves the allocator alone. -/
theorem next_of_none (alloc : Allocator w σ) (state : σ)
    (none : reserves array op = none) :
    ((machine alloc).next (array, state) op).2 = state := by
  cases op with
  | reserve additional => cases none
  | push value => cases none
  | append other => cases none
  | insert index value =>
      by_cases outside : array.length.toNat < index.toNat
      · change (RawArray.insert array alloc index value state).2.2.1 = state
        rw [(insert_outside alloc value state outside).2]
      · rw [reserves_insert value (not_lt.mp outside)] at none
        cases none
  | pop | clear | pushWithinCapacity value | remove index | swapRemove index | truncate len
  | assign index value => rfl

/-- An insertion whose reservation is refused drops the value. -/
theorem insertUnchecked_of_refused {index : Usize w} {value : α}
    (refused : array.reserve alloc (array.insertRoom index) state =
      (.error .allocError, array, after)) :
    array.insertUnchecked alloc index value state =
      (.error .allocError, array, after, [.dropValue value]) := by
  unfold insertRoom at refused
  unfold insertUnchecked
  by_cases last : index = array.length
  · rw [if_pos last] at refused
    rw [if_pos last]
    simp only [push, refused]
  · rw [if_neg last] at refused
    rw [if_neg last]
    simp only [refused]

/-- An operation whose reservation is refused changes nothing and says so. -/
theorem next_of_refused (reserved : reserves array op = some additional)
    (refused : array.reserve alloc additional state = (.error .allocError, array, after)) :
    succeeds alloc array state op = false ∧
      (machine alloc).next (array, state) op = (array, after) := by
  cases op with
  | reserve count =>
      cases reserved
      change (array.reserve alloc additional state).1.isOk = false ∧
        (array.reserve alloc additional state).2 = (array, after)
      rw [refused]
      exact ⟨rfl, rfl⟩
  | push value =>
      cases reserved
      have pushed : array.push alloc value state =
          (.error .allocError, array, after, [.dropValue value]) := by
        simp only [push, refused]
      change (array.push alloc value state).1.isOk = false ∧
        ((array.push alloc value state).2.1, (array.push alloc value state).2.2.1) =
          (array, after)
      rw [pushed]
      exact ⟨rfl, rfl⟩
  | append other =>
      cases reserved
      have appended : array.append alloc other state = (.error .allocError, array, after, []) := by
        simp only [append, refused]
      change (array.append alloc other state).1.isOk = false ∧
        ((array.append alloc other state).2.1, (array.append alloc other state).2.2.1) =
          (array, after)
      rw [appended]
      exact ⟨rfl, rfl⟩
  | insert index value =>
      by_cases outside : array.length.toNat < index.toNat
      · cases reserved.symm.trans (if_pos outside)
      · have inside := not_lt.mp outside
        rw [reserves_insert value inside] at reserved
        cases reserved
        change (RawArray.insert array alloc index value state).1.isOk = false ∧
          ((RawArray.insert array alloc index value state).2.1,
            (RawArray.insert array alloc index value state).2.2.1) = (array, after)
        rw [(insert_inside alloc value state inside).2, insertUnchecked_of_refused refused]
        exact ⟨rfl, rfl⟩
  | pop | clear | pushWithinCapacity value | remove index | swapRemove index | truncate len
  | assign index value => cases reserved

/-- A push whose reservation is granted writes the element behind the block, if its offset
fits `isize`. -/
theorem push_of_granted {moved : Parts w α} {value : α}
    (granted : array.reserve alloc array.room state = (.ok (), moved, after))
    (fits : (sizeOf w α).toNat * moved.capacity.toNat ≤ isizeMax w) :
    array.push alloc value state =
      let end_ := (sizeOf w α).toNat * moved.capacity.toNat
      (.ok (), { moved with cells := moved.cells.set end_ (.val value) }, after,
        [.dropInPlace end_ (moved.cells end_), .write end_ (.val value)]) := by
  have small := lt_of_le_of_lt fits (isizeMax_lt w)
  have product : (sizeOf w α).checkedMul moved.capacity = some (sizeOf w α * moved.capacity) :=
    Usize.checkedMul_eq_some.mpr ⟨small, rfl⟩
  have offset : (sizeOf w α * moved.capacity).toNat =
      (sizeOf w α).toNat * moved.capacity.toNat := by
    rw [BitVec.toNat_mul, Nat.mod_eq_of_lt small]
  simp only [push, granted, product, offset, not_lt.mpr fits, if_false]

/-- An operation without a reservation does not fail. -/
theorem succeeds_of_none (alloc : Allocator w σ) (state : σ)
    (none : reserves array op = none) :
    succeeds alloc array state op = true := by
  cases op with
  | reserve additional => cases none
  | push value => cases none
  | append other => cases none
  | insert index value =>
      by_cases outside : array.length.toNat < index.toNat
      · change (RawArray.insert array alloc index value state).1.isOk = true
        rw [(insert_outside alloc value state outside).2]
        rfl
      · rw [reserves_insert value (not_lt.mp outside)] at none
        cases none
  | pop | clear | pushWithinCapacity value | remove index | swapRemove index | truncate len
  | assign index value => rfl

/-- An operation whose reservation is granted succeeds, on the block that it obtained, if the
offset of the element behind the block fits `isize`. -/
theorem next_of_granted {moved : Parts w α} (reserved : reserves array op = some additional)
    (granted : array.reserve alloc additional state = (.ok (), moved, after))
    (fits : (sizeOf w α).toNat * moved.capacity.toNat ≤ isizeMax w) :
    succeeds alloc array state op = true ∧
      (machine alloc).next (array, state) op =
        ({ moved with cells := ((machine alloc).next (array, state) op).1.cells }, after) := by
  cases op with
  | reserve count =>
      cases reserved
      change (array.reserve alloc additional state).1.isOk = true ∧
        (array.reserve alloc additional state).2 =
          ({ moved with cells := (array.reserve alloc additional state).2.1.cells }, after)
      rw [granted]
      exact ⟨rfl, rfl⟩
  | push value =>
      cases reserved
      change (array.push alloc value state).1.isOk = true ∧
        ((array.push alloc value state).2.1, (array.push alloc value state).2.2.1) =
          ({ moved with cells := (array.push alloc value state).2.1.cells }, after)
      rw [push_of_granted granted fits]
      exact ⟨rfl, rfl⟩
  | append other =>
      cases reserved
      have appended : array.append alloc other state =
          (.ok (), (moved.moveFrom other (List.range other.length.toNat)).1, after,
            (moved.moveFrom other (List.range other.length.toNat)).2) := by
        simp only [append, granted]
      change (array.append alloc other state).1.isOk = true ∧
        ((array.append alloc other state).2.1, (array.append alloc other state).2.2.1) =
          ({ moved with cells := (array.append alloc other state).2.1.cells }, after)
      rw [appended]
      exact ⟨rfl, Prod.ext (moveFrom_same moved other _) rfl⟩
  | insert index value =>
      by_cases outside : array.length.toNat < index.toNat
      · exact nomatch reserved.symm.trans (if_pos outside)
      · have inside := not_lt.mp outside
        rw [reserves_insert value inside] at reserved
        cases reserved
        change (RawArray.insert array alloc index value state).1.isOk = true ∧
          ((RawArray.insert array alloc index value state).2.1,
            (RawArray.insert array alloc index value state).2.2.1) =
            ({ moved with cells := (RawArray.insert array alloc index value state).2.1.cells },
              after)
        rw [(insert_inside alloc value state inside).2]
        unfold insertRoom at granted
        unfold insertUnchecked
        by_cases last : index = array.length
        · rw [if_pos last] at granted
          rw [if_pos last, push_of_granted granted fits]
          exact ⟨rfl, rfl⟩
        · rw [if_neg last] at granted
          rw [if_neg last, granted]
          exact ⟨rfl, rfl⟩
  | pop | clear | pushWithinCapacity value | remove index | swapRemove index | truncate len
  | assign index value => cases reserved

/-- The place of an element of one byte. -/
theorem offset_of_unit (unit : sizeOf w α = 1) (index : Usize w) :
    offset w α index = index.toNat := by
  rw [offset, sizeOf_mul unit]

/-- The places that moving elements over changes. -/
theorem changed_moveFrom {self other : Parts w α} {indices : List Nat} {place : Nat}
    (member : place ∈ (self.moveFrom other indices).2.filterMap Event.changed) :
    ∃ index ∈ indices, place = offset w α (BitVec.ofNat w index + self.length) := by
  induction indices generalizing self with
  | nil => cases member
  | cons index rest ih =>
      rcases List.mem_cons.mp member with rfl | member
      · exact ⟨index, List.mem_cons_self, rfl⟩
      · obtain ⟨other, inside, same⟩ := ih member
        exact ⟨other, List.mem_cons_of_mem _ inside, same⟩

/-- Bytes that are moved over are written in the room reserved for them. -/
theorem append_changed (unit : sizeOf w α = 1) (honours : alloc.Honours) (owned : array.Owned)
    (other : Parts w α) {place : Nat}
    (member : place ∈ (array.append alloc other state).2.2.2.filterMap Event.changed) :
    place < (array.append alloc other state).2.1.capacity.toNat := by
  unfold append at member ⊢
  rcases array.reserve_cases alloc other.length state with
    ⟨_, after, reserved⟩ | ⟨slice, grant, after, reserved⟩
  · rw [reserved] at member
    cases member
  · rw [reserved] at member ⊢
    dsimp only at member ⊢
    obtain ⟨index, inside, rfl⟩ := changed_moveFrom member
    have room := length_enlarged_add_le (fun _ => owned.length) honours (sizeOf_ne_zero unit) grant
    have below := List.mem_range.mp inside
    have bound := slice.len.isLt
    have small : index % 2 ^ w = index := Nat.mod_eq_of_lt (by omega)
    rw [moveFrom_same, offset_of_unit unit, BitVec.toNat_add, BitVec.toNat_ofNat, small,
      Nat.mod_eq_of_lt (by omega)]
    change _ < slice.len.toNat
    omega

/-- What a push changes is the byte behind the block. -/
theorem push_changed (unit : sizeOf w α = 1) (value : α) {place : Nat}
    (member : place ∈ (array.push alloc value state).2.2.2.filterMap Event.changed) :
    place = (array.push alloc value state).2.1.capacity.toNat ∧
      (array.push alloc value state).1.isOk = true := by
  rcases array.push_cases alloc value state with
    ⟨_, after, pushed⟩ | ⟨slice, _, after, ⟨_, pushed⟩ | ⟨_, pushed⟩⟩
  · rw [pushed] at member
    cases member
  · rw [pushed] at member
    cases member
  · rw [pushed] at member ⊢
    refine ⟨?_, rfl⟩
    rcases List.mem_cons.mp member with rfl | member
    · exact toNat_sizeOf_mul unit _
    · rw [List.mem_singleton.mp member]
      exact toNat_sizeOf_mul unit _

/-- What an insertion in front of an element changes is in the block. -/
theorem insert_changed_of_ne (unit : sizeOf w α = 1) (honours : alloc.Honours)
    (owned : array.Owned) {index : Usize w} (differ : index ≠ array.length) (value : α)
    {place : Nat}
    (member : place ∈
      (RawArray.insert array alloc index value state).2.2.2.filterMap Event.changed) :
    place < (RawArray.insert array alloc index value state).2.1.capacity.toNat := by
  by_cases outside : array.length.toNat < index.toNat
  · rw [(insert_outside alloc value state outside).2] at member
    cases member
  have inside := not_lt.mp outside
  rw [(insert_inside alloc value state inside).2] at member ⊢
  unfold insertUnchecked at member ⊢
  rw [if_neg differ] at member ⊢
  have below : index.toNat < array.length.toNat :=
    lt_of_le_of_ne inside fun same => differ (BitVec.eq_of_toNat_eq same)
  rcases array.reserve_cases alloc 1 state with
    ⟨_, after, reserved⟩ | ⟨slice, grant, after, reserved⟩
  · rw [reserved] at member
    cases member
  · rw [reserved] at member ⊢
    have within := owned.length
    have carries : array.Carries := fun empty => by
      rw [empty] at within
      exact BitVec.eq_of_toNat_eq (Nat.le_zero.mp within)
    have length : (array.enlarged slice).length = array.length :=
      length_enlarged_iff.mpr carries
    have room := (granted_len honours grant).1
    rw [toNat_sizeOf_mul unit, toNat_one w α] at room
    have count : (sizeOf w α * (array.length - index)).toNat =
        array.length.toNat - index.toNat := by
      rw [sizeOf_mul unit, BitVec.toNat_sub_of_le (BitVec.le_def.mpr inside)]
    simp only [length, count, offset_of_unit unit, List.filterMap_append, changed_ofMul,
      changed_ofSub, List.nil_append, List.mem_append, mem_changed_copies] at member
    change place < slice.len.toNat
    have size := toNat_sizeOf unit
    rw [size] at member
    rcases member with ⟨step, few, rfl⟩ | first
    · omega
    · cases List.mem_singleton.mp first
      omega

/-- What an insertion changes is in the block or, at the end, the byte behind it. -/
theorem insert_changed (unit : sizeOf w α = 1) (honours : alloc.Honours) (owned : array.Owned)
    (index : Usize w) (value : α) {place : Nat}
    (member : place ∈
      (RawArray.insert array alloc index value state).2.2.2.filterMap Event.changed) :
    place < (RawArray.insert array alloc index value state).2.1.capacity.toNat ∨
      place = (RawArray.insert array alloc index value state).2.1.capacity.toNat ∧
        (RawArray.insert array alloc index value state).1.isOk = true := by
  by_cases last : index = array.length
  · subst last
    rw [(insert_inside alloc value state (Nat.le_refl _)).2] at member ⊢
    unfold insertUnchecked at member ⊢
    rw [if_pos rfl] at member ⊢
    obtain ⟨same, ok⟩ := push_changed unit value member
    refine .inr ⟨same, ?_⟩
    cases pushed : (array.push alloc value state).1 with
    | error _ =>
        rw [pushed] at ok
        cases ok
    | ok _ => rfl
  · exact .inl (insert_changed_of_ne unit honours owned last value member)

/-- What a removal changes is in the block. -/
theorem remove_changed (unit : sizeOf w α = 1) (owned : array.Owned) (index : Usize w)
    {place : Nat}
    (member : place ∈ (RawArray.remove array index).2.2.filterMap Event.changed) :
    place < array.capacity.toNat := by
  have within := owned.length
  unfold RawArray.remove at member
  split at member
  · simp [Parts.pop, Event.changed] at member
  split at member
  · simp at member
  · rename_i _ inside
    have below := Nat.lt_of_not_le inside
    have count : (array.length - index).toNat = array.length.toNat - index.toNat :=
      BitVec.toNat_sub_of_le (BitVec.le_def.mpr below.le)
    have size := toNat_sizeOf unit
    simp only [removeUnchecked, count, offset_of_unit unit, List.filterMap_append,
      changed_ofMul, changed_ofSub, List.nil_append, List.mem_append, mem_changed_copies,
      size, List.append_nil] at member
    rcases member with first | ⟨step, few, rfl⟩
    · cases first
    · omega

theorem swapRemove_changed (unit : sizeOf w α = 1) (owned : array.Owned) (index : Usize w)
    {place : Nat}
    (member : place ∈ (RawArray.swapRemove array index).2.2.filterMap Event.changed) :
    place < array.capacity.toNat := by
  have within := owned.length
  unfold RawArray.swapRemove at member
  split at member
  · unfold RawArray.pop at member
    split at member
    · simp at member
    · simp [Parts.pop, Event.changed] at member
  split at member
  · simp at member
  · rename_i _ inside
    have below := Nat.lt_of_not_le inside
    simp only [swapRemoveUnchecked, offset_of_unit unit, List.filterMap_append, changed_ofMul,
      changed_ofSub, List.nil_append, List.append_nil] at member
    cases List.mem_singleton.mp member
    omega

theorem truncate_changed (unit : sizeOf w α = 1) (owned : array.Owned) (len : Usize w)
    {place : Nat} (member : place ∈ (array.truncate len).2.filterMap Event.changed) :
    place < array.capacity.toNat := by
  have within := owned.length
  unfold truncate at member
  split at member
  · cases member
  · simp only [List.filterMap_append, changed_ofSub, List.nil_append, List.filterMap_map,
      offset_of_unit unit] at member
    obtain ⟨index, inside, same⟩ := List.mem_filterMap.mp member
    obtain ⟨_, below⟩ := List.mem_range'_1.mp inside
    have bound := array.length.isLt
    have small : index < 2 ^ w := by omega
    rw [← Option.some.inj same, BitVec.toNat_ofNat, Nat.mod_eq_of_lt small]
    omega

/-- **What an operation changes.** A place in the block, or the byte behind it when the
operation puts its value there. -/
theorem step_changed (unit : sizeOf w α = 1) (honours : alloc.Honours) (owned : array.Owned)
    (state : σ) (op : SafeOp w α) {place : Nat}
    (member : place ∈ ((machine alloc).out (array, state) op).filterMap Event.changed) :
    place < ((machine alloc).next (array, state) op).1.capacity.toNat ∨
      place = ((machine alloc).next (array, state) op).1.capacity.toNat ∧
        (reserves array op).isSome ∧ succeeds alloc array state op = true := by
  have within := owned.length
  have scale := toNat_sizeOf_mul (w := w) (α := α) unit
  cases op with
  | reserve additional => cases member
  | push value =>
      obtain ⟨same, ok⟩ := push_changed unit value member
      exact .inr ⟨same, rfl, ok⟩
  | append other => exact .inl (append_changed unit honours owned other member)
  | insert index value =>
      rcases insert_changed unit honours owned index value member with inside | ⟨same, ok⟩
      · exact .inl inside
      · refine .inr ⟨same, ?_, ok⟩
        by_cases outside : array.length.toNat < index.toNat
        · change place ∈ (RawArray.insert array alloc index value state).2.2.2.filterMap
            Event.changed at member
          rw [(insert_outside alloc value state outside).2] at member
          cases member
        · rw [reserves_insert value (not_lt.mp outside)]
          rfl
  | pop =>
      change place ∈ (RawArray.pop array).2.2.filterMap Event.changed at member
      unfold RawArray.pop at member
      split at member
      · cases member
      · simp [Parts.pop, Event.changed] at member
  | clear =>
      obtain ⟨event, dropped, same⟩ := List.mem_filterMap.mp member
      obtain ⟨index, inside, rfl⟩ := List.mem_map.mp dropped
      refine .inl ?_
      rw [← Option.some.inj same, scale]
      exact (List.mem_range.mp inside).trans_le within
  | pushWithinCapacity value =>
      change place ∈ (array.pushWithinCapacity value).2.2.filterMap Event.changed at member
      by_cases room : array.length.toNat < array.capacity.toNat
      · rw [pushWithinCapacity_of_lt owned.toWithin room, scale] at member
        refine .inl ?_
        change place < (array.pushWithinCapacity value).2.1.capacity.toNat
        rw [pushWithinCapacity_of_lt owned.toWithin room, List.mem_singleton.mp member]
        exact room
      · rw [pushWithinCapacity_of_le (not_lt.mp room)] at member
        cases member
  | remove index =>
      have inside := remove_changed unit owned index member
      rcases step_cases alloc array state (.remove index : SafeOp w α) with
        ⟨_, reserved, _⟩ | stays
      · cases reserved
      · rw [stays.same]
        exact .inl inside
  | swapRemove index =>
      have inside := swapRemove_changed unit owned index member
      rcases step_cases alloc array state (.swapRemove index : SafeOp w α) with
        ⟨_, reserved, _⟩ | stays
      · cases reserved
      · rw [stays.same]
        exact .inl inside
  | truncate len =>
      have inside := truncate_changed unit owned len member
      rcases step_cases alloc array state (.truncate len : SafeOp w α) with
        ⟨_, reserved, _⟩ | stays
      · cases reserved
      · rw [stays.same]
        exact .inl inside
  | assign index value =>
      change place ∈ (array.assign index value).2.filterMap Event.changed at member
      change place < (array.assign index value).1.capacity.toNat ∨ _
      unfold assign at member ⊢
      split at member
      · cases member
      · rename_i inside
        rw [if_neg inside]
        refine .inl ?_
        change place < array.capacity.toNat
        rw [scale] at member
        rcases List.mem_cons.mp member with rfl | member
        · omega
        · cases List.mem_singleton.mp member
          omega

end Safe

end Parts

end Stdx
