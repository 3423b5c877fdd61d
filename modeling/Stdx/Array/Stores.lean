import Stdx.Array.Changes

/-! # What an operation stores

The writes of an operation, made one after the other on the block that it works on, leave the
cells that the operation leaves (`Stdx.Parts.Safe.cells_replayed`); copies within the block are
among them. Made in byte memory, they leave there what the cells hold. They are all in the
block, unless the operation puts its value behind it (`Stdx.Parts.Safe.written_inside`).
-/

namespace Stdx

open Foundation Event

variable {w : Nat} {α σ : Type*}

/-- The place that is written, with what is put there. -/
def Event.written : Event α → Option (Nat × Cell α)
  | .write offset cell => some (offset, cell)
  | .read _ _ | .readOther _ _ | .dropInPlace _ _ | .dropValue _ | .overflow => none

namespace Event

@[simp] theorem written_ofSub (left right : Usize w) :
    (ofSub left right : List (Event α)).filterMap written = [] := by
  unfold ofSub
  split <;> rfl

@[simp] theorem written_ofAdd (left right : Usize w) :
    (ofAdd left right : List (Event α)).filterMap written = [] := by
  unfold ofAdd
  split <;> rfl

@[simp] theorem written_ofMul (left right : Usize w) :
    (ofMul left right : List (Event α)).filterMap written = [] := by
  unfold ofMul
  split <;> rfl

/-- What is written is changed. -/
theorem changed_of_written {event : Event α} {place : Nat × Cell α}
    (same : event.written = some place) : event.changed = some place.1 := by
  cases event with
  | write offset cell =>
      cases same
      rfl
  | read | readOther | dropInPlace | dropValue | overflow => cases same

/-- The writes of a copy of elements. -/
theorem written_copies {cells : Cells α} {src dst : Nat → Nat} (count : Nat) :
    ((List.range count).flatMap fun step =>
        [Event.read (src step) (cells (src step)),
          .write (dst step) (cells (src step))]).filterMap written =
      (List.range count).map fun step => (dst step, cells (src step)) := by
  rw [List.filterMap_flatMap, List.map_eq_flatMap]
  rfl

end Event

/-- The cells after writes. -/
def Cells.putAll (cells : Cells α) (writes : List (Nat × Cell α)) : Cells α :=
  writes.foldl (fun cells write => cells.set write.1 write.2) cells

namespace Cells

variable {cells : Cells α}

@[simp] theorem putAll_nil (cells : Cells α) : cells.putAll [] = cells := rfl

@[simp] theorem putAll_cons (cells : Cells α) (write : Nat × Cell α)
    (writes : List (Nat × Cell α)) :
    cells.putAll (write :: writes) = (cells.set write.1 write.2).putAll writes := rfl

theorem putAll_append (cells : Cells α) (first second : List (Nat × Cell α)) :
    cells.putAll (first ++ second) = (cells.putAll first).putAll second :=
  List.foldl_append

/-- A copy of one element more. -/
theorem copy_succ (cells : Cells α) {size : Nat} (positive : 0 < size) (src dst count : Nat) :
    (cells.copy size src dst count).set (dst + size * count) (cells (src + size * count)) =
      cells.copy size src dst (count + 1) := by
  funext offset
  by_cases last : offset = dst + size * count
  · subst last
    have inside : size * count < size * (count + 1) := by
      rw [Nat.mul_succ]
      omega
    rw [set_same]
    unfold copy
    rw [if_pos ⟨Nat.le_add_right _ _, by simp, by simpa using inside⟩, Nat.add_sub_cancel_left]
  · rw [set_of_ne last]
    unfold copy
    have same : dst ≤ offset ∧ size ∣ offset - dst ∧ offset - dst < size * count ↔
        dst ≤ offset ∧ size ∣ offset - dst ∧ offset - dst < size * (count + 1) := by
      refine and_congr_right fun above => and_congr_right fun ⟨steps, product⟩ => ?_
      rw [product, Nat.mul_lt_mul_left positive, Nat.mul_lt_mul_left positive]
      have differ : steps ≠ count := by
        rintro rfl
        omega
      omega
    simp only [same]

/-- A copy is made by writes, one for each element. -/
theorem putAll_copies (cells : Cells α) {size : Nat} (positive : 0 < size)
    (src dst count : Nat) :
    cells.putAll ((List.range count).map fun step =>
        (dst + size * step, cells (src + size * step))) =
      cells.copy size src dst count := by
  induction count with
  | zero =>
      funext offset
      unfold copy
      rw [if_neg fun copied => Nat.not_lt_zero _ copied.2.2]
      rfl
  | succ count ih =>
      rw [List.range_succ, List.map_append, putAll_append, ih]
      exact copy_succ cells positive src dst count

end Cells

/-- The byte in a cell of bytes; one without a value is taken to be zero. -/
def Cell.byte : Cell UInt8 → UInt8
  | .val value => value
  | .uninit => 0

/-- The memory after writes behind a pointer. -/
def storeAll (encode : Cell α → UInt8) (data : Usize w) (memory : Memory w)
    (writes : List (Nat × Cell α)) : Memory w :=
  writes.foldl (fun memory write =>
    Function.update memory (data + BitVec.ofNat w write.1) (encode write.2)) memory

/-- The writes change nothing but the places that are written. -/
theorem storeAll_of_ne {encode : Cell α → UInt8} {data address : Usize w} {memory : Memory w}
    {writes : List (Nat × Cell α)}
    (apart : ∀ write ∈ writes, address ≠ data + BitVec.ofNat w write.1) :
    storeAll encode data memory writes address = memory address := by
  induction writes generalizing memory with
  | nil => rfl
  | cons write writes ih =>
      obtain ⟨here, others⟩ := List.forall_mem_cons.mp apart
      exact (ih others).trans (Function.update_of_ne here _ _)

/-- A value that `grow` keeps was in the old block. -/
theorem Cells.kept_of_val {cells : Cells α} {size oldSize offset : Nat} {value : α}
    (holds : cells.keep size oldSize offset = .val value) :
    offset + size ≤ oldSize ∧ cells offset = .val value := by
  unfold Cells.keep at holds
  split at holds
  · exact ⟨‹_›, holds⟩
  · cases holds

namespace Parts

section

variable {array : Parts w α} {encode : Cell α → UInt8} {memory : Memory w}

/-- An array with a place for an element has a capacity. -/
theorem occupied_of_lt {offset : Nat} (inside : offset < array.capacity.toNat) :
    array.capacity ≠ 0 := by
  intro empty
  rw [empty] at inside
  exact absurd inside (Nat.not_lt_zero offset)

/-- The memory holds the values in the block of an array. -/
def InMemory (encode : Cell α → UInt8) (array : Parts w α) (memory : Memory w) : Prop :=
  ∀ offset < array.capacity.toNat, ∀ value, array.cells offset = .val value →
    memory (array.data + BitVec.ofNat w offset) = encode (.val value)

/-- One write, in the block or behind it. -/
theorem InMemory.set (inMemory : array.InMemory encode memory) {write : Nat × Cell α}
    (small : write.1 < 2 ^ w) :
    ({ array with cells := array.cells.set write.1 write.2 } : Parts w α).InMemory encode
      (Function.update memory (array.data + BitVec.ofNat w write.1) (encode write.2)) := by
  intro offset within value holds
  change offset < array.capacity.toNat at within
  change Function.update memory _ _ (array.data + BitVec.ofNat w offset) = _
  have bound := array.capacity.isLt
  by_cases same : offset = write.1
  · subst same
    rw [Function.update_self]
    have cell : write.2 = .val value := (Cells.set_same _ _ _).symm.trans holds
    rw [cell]
  · have differ : array.data + BitVec.ofNat w offset ≠ array.data + BitVec.ofNat w write.1 := by
      intro equal
      have numbers := congrArg BitVec.toNat ((BitVec.add_right_inj _).mp equal)
      rw [BitVec.toNat_ofNat, BitVec.toNat_ofNat, Nat.mod_eq_of_lt (by omega),
        Nat.mod_eq_of_lt small] at numbers
      exact same numbers
    rw [Function.update_of_ne differ]
    exact inMemory offset within value ((Cells.set_of_ne same).symm.trans holds)

/-- Writes, in the block or behind it. -/
theorem InMemory.putAll (inMemory : array.InMemory encode memory)
    {writes : List (Nat × Cell α)} (small : ∀ write ∈ writes, write.1 < 2 ^ w) :
    ({ array with cells := array.cells.putAll writes } : Parts w α).InMemory encode
      (storeAll encode array.data memory writes) := by
  induction writes generalizing array memory with
  | nil => exact inMemory
  | cons write writes ih =>
      obtain ⟨here, others⟩ := List.forall_mem_cons.mp small
      exact ih (inMemory.set here) others

end

variable [Element w α] {array : Parts w α}

/-- What `grow` keeps of an array of bytes is in its new block, if the bytes of the old block
are. -/
theorem InMemory.keep (unit : sizeOf w α = 1) {encode : Cell α → UInt8} {before after : Memory w}
    (inMemory : array.InMemory encode before) {moved : Parts w α} {oldSize : Nat}
    (size : oldSize = array.capacity.toNat)
    (cells : moved.cells = array.cells.keep (sizeOf w α).toNat oldSize)
    (kept : ∀ offset < array.capacity.toNat,
      after (moved.data + BitVec.ofNat w offset) = before (array.data + BitVec.ofNat w offset)) :
    moved.InMemory encode after := by
  intro offset _ value holds
  rw [cells] at holds
  obtain ⟨inside, cell⟩ := Cells.kept_of_val holds
  rw [toNat_sizeOf unit, size] at inside
  rw [kept offset inside]
  exact inMemory offset inside value cell

namespace Safe

variable {alloc : Allocator w σ} {state : σ} {op : SafeOp w α}

/-- The operation puts its value behind the block: a push, and an insertion at the end. -/
def PutsBehind (array : Parts w α) : SafeOp w α → Prop
  | .push _ => True
  | .insert index _ => index = array.length
  | .reserve _ | .pop | .clear | .append _ | .pushWithinCapacity _ | .remove _ | .swapRemove _
  | .truncate _ | .assign _ _ => False

instance (array : Parts w α) : ∀ op, Decidable (PutsBehind array op)
  | .push _ => inferInstanceAs (Decidable True)
  | .insert _ _ => inferInstanceAs (Decidable (_ = _))
  | .reserve _ | .pop | .clear | .append _ | .pushWithinCapacity _ | .remove _ | .swapRemove _
  | .truncate _ | .assign _ _ => inferInstanceAs (Decidable False)

/-- What an operation works on: the array and the allocator as its reservation leaves them. -/
def base (alloc : Allocator w σ) (array : Parts w α) (state : σ) (op : SafeOp w α) :
    Parts w α × σ :=
  match reserves array op with
  | none => (array, state)
  | some additional => (array.reserve alloc additional state).2

/-- Moving elements over. -/
theorem moveFrom_replayed (self other : Parts w α) (indices : List Nat) :
    (self.moveFrom other indices).1.cells =
      self.cells.putAll ((self.moveFrom other indices).2.filterMap Event.written) := by
  induction indices generalizing self with
  | nil => rfl
  | cons index rest ih => exact ih _

theorem push_replayed (alloc : Allocator w σ) (array : Parts w α) (value : α) (state : σ) :
    (array.push alloc value state).2.1.cells =
      (array.reserve alloc array.room state).2.1.cells.putAll
        ((array.push alloc value state).2.2.2.filterMap Event.written) := by
  unfold push
  rcases array.reserve alloc array.room state with ⟨_ | _, moved, after⟩
  · rfl
  · dsimp only
    split
    · rfl
    · split
      · rfl
      · rfl

/-- An insertion in front of an element copies the ones behind it. -/
theorem insertUnchecked_replayed (unit : sizeOf w α = 1) (alloc : Allocator w σ)
    (array : Parts w α) (index : Usize w) (value : α) (state : σ) :
    (array.insertUnchecked alloc index value state).2.1.cells =
      (array.reserve alloc (array.insertRoom index) state).2.1.cells.putAll
        ((array.insertUnchecked alloc index value state).2.2.2.filterMap Event.written) := by
  have positive : 0 < (sizeOf w α).toNat := by
    rw [toNat_sizeOf unit]
    exact Nat.one_pos
  unfold insertUnchecked insertRoom
  by_cases last : index = array.length
  · rw [if_pos last, if_pos last]
    exact push_replayed alloc array value state
  · rw [if_neg last, if_neg last]
    rcases array.reserve alloc 1 state with ⟨_ | _, moved, after⟩
    · rfl
    · simp only [List.filterMap_append, written_ofMul, written_ofSub, List.nil_append,
        written_copies, Cells.putAll_append, Cells.putAll_copies _ positive]
      rfl

/-- A removal copies the elements behind the index, and the cell behind them. -/
theorem remove_replayed (unit : sizeOf w α = 1) (array : Parts w α) (index : Usize w) :
    (RawArray.remove array index).2.1.cells =
      array.cells.putAll ((RawArray.remove array index).2.2.filterMap Event.written) := by
  have positive : 0 < (sizeOf w α).toNat := by
    rw [toNat_sizeOf unit]
    exact Nat.one_pos
  unfold RawArray.remove
  split
  · simp [Parts.pop, List.filterMap_cons, Event.written]
  · split
    · simp
    · simp only [removeUnchecked, List.filterMap_append, written_ofMul, written_ofSub,
        List.nil_append, List.append_nil, written_copies]
      exact (Cells.putAll_copies array.cells positive _ _ _).symm

theorem swapRemove_replayed (array : Parts w α) (index : Usize w) :
    (RawArray.swapRemove array index).2.1.cells =
      array.cells.putAll ((RawArray.swapRemove array index).2.2.filterMap Event.written) := by
  unfold RawArray.swapRemove
  split
  · unfold RawArray.pop
    split
    · simp
    · simp [Parts.pop, List.filterMap_cons, Event.written]
  · split
    · simp
    · simp [swapRemoveUnchecked, List.filterMap_cons, Event.written]

/-- **The cells after an operation.** -/
theorem cells_replayed (unit : sizeOf w α = 1) (alloc : Allocator w σ) (array : Parts w α)
    (state : σ) (op : SafeOp w α) :
    ((machine alloc).next (array, state) op).1.cells =
      (base alloc array state op).1.cells.putAll
        (((machine alloc).out (array, state) op).filterMap Event.written) := by
  cases op with
  | reserve additional => rfl
  | push value => exact push_replayed alloc array value state
  | append other =>
      change (array.append alloc other state).2.1.cells =
        (array.reserve alloc other.length state).2.1.cells.putAll
          ((array.append alloc other state).2.2.2.filterMap Event.written)
      unfold append
      rcases array.reserve alloc other.length state with ⟨_ | _, moved, after⟩
      · rfl
      · exact moveFrom_replayed moved other _
  | insert index value =>
      by_cases outside : array.length.toNat < index.toNat
      · have none : base alloc array state (.insert index value) = (array, state) := by
          have refused : reserves array (.insert index value) = none := if_pos outside
          unfold base
          rw [refused]
        change (RawArray.insert array alloc index value state).2.1.cells =
          (base alloc array state (.insert index value)).1.cells.putAll
            ((RawArray.insert array alloc index value state).2.2.2.filterMap Event.written)
        rw [none, (insert_outside alloc value state outside).2]
        rfl
      · have inside := not_lt.mp outside
        have reserved : base alloc array state (.insert index value) =
            (array.reserve alloc (array.insertRoom index) state).2 := by
          unfold base
          rw [reserves_insert value inside]
        change (RawArray.insert array alloc index value state).2.1.cells =
          (base alloc array state (.insert index value)).1.cells.putAll
            ((RawArray.insert array alloc index value state).2.2.2.filterMap Event.written)
        rw [reserved, (insert_inside alloc value state inside).2]
        exact insertUnchecked_replayed unit alloc array index value state
  | pop =>
      change (RawArray.pop array).2.1.cells =
        array.cells.putAll ((RawArray.pop array).2.2.filterMap Event.written)
      unfold RawArray.pop
      split
      · rfl
      · simp [Parts.pop, List.filterMap_cons, Event.written]
  | clear =>
      change array.cells = array.cells.putAll (array.clear.2.filterMap Event.written)
      simp [clear, List.filterMap_map, Function.comp_def, Event.written]
  | pushWithinCapacity value =>
      change (array.pushWithinCapacity value).2.1.cells =
        array.cells.putAll ((array.pushWithinCapacity value).2.2.filterMap Event.written)
      unfold pushWithinCapacity
      split
      · rfl
      · simp [Event.written]
  | remove index => exact remove_replayed unit array index
  | swapRemove index => exact swapRemove_replayed array index
  | truncate len =>
      change (array.truncate len).1.cells =
        array.cells.putAll ((array.truncate len).2.filterMap Event.written)
      unfold truncate
      split
      · rfl
      · simp [List.filterMap_map, Function.comp_def, Event.written]
  | assign index value =>
      change (array.assign index value).1.cells =
        array.cells.putAll ((array.assign index value).2.filterMap Event.written)
      unfold assign
      split
      · rfl
      · rfl

/-- After its reservation an operation changes nothing but the length and the cells. -/
theorem next_base (unit : sizeOf w α = 1) (honours : alloc.Honours) (array : Parts w α)
    (state : σ) (op : SafeOp w α) :
    ((machine alloc).next (array, state) op).1 =
        { (base alloc array state op).1 with
          length := ((machine alloc).next (array, state) op).1.length
          cells := ((machine alloc).next (array, state) op).1.cells } ∧
      ((machine alloc).next (array, state) op).2 = (base alloc array state op).2 := by
  unfold base
  cases reserved : reserves array op with
  | none =>
      rcases step_cases alloc array state op with ⟨_, some, _⟩ | stays
      · exact nomatch reserved.symm.trans some
      · exact ⟨stays.same, next_of_none alloc state reserved⟩
  | some additional =>
      rcases array.reserve_cases alloc additional state with
        ⟨_, after, refused⟩ | ⟨slice, grant, after, granted⟩
      · rw [(next_of_refused reserved refused).2]
        simp only [refused, and_self]
      · have fits : (sizeOf w α).toNat * (array.enlarged slice).capacity.toNat ≤ isizeMax w := by
          rw [toNat_sizeOf_mul unit]
          exact (granted_len honours grant).2
        have next := (next_of_granted reserved granted fits).2
        have length := congrArg (fun world => world.1.length) next
        dsimp only at length
        simp only [granted, length]
        exact ⟨congrArg Prod.fst next, congrArg Prod.snd next⟩

/-- The array after an operation, from what the operation writes. -/
theorem next_replayed (unit : sizeOf w α = 1) (honours : alloc.Honours) (array : Parts w α)
    (state : σ) (op : SafeOp w α) :
    ((machine alloc).next (array, state) op).1 =
      { (base alloc array state op).1 with
        length := ((machine alloc).next (array, state) op).1.length
        cells := (base alloc array state op).1.cells.putAll
          (((machine alloc).out (array, state) op).filterMap Event.written) } := by
  rw [← cells_replayed unit alloc array state op]
  exact (next_base unit honours array state op).1

/-- What an operation that puts nothing behind the block changes is in the block. -/
theorem changed_inside (unit : sizeOf w α = 1) (honours : alloc.Honours) (owned : array.Owned)
    (state : σ) (op : SafeOp w α) (within : ¬ PutsBehind array op) {place : Nat}
    (member : place ∈ ((machine alloc).out (array, state) op).filterMap Event.changed) :
    place < ((machine alloc).next (array, state) op).1.capacity.toNat := by
  rcases step_changed unit honours owned state op member with inside | ⟨_, reserved, _⟩
  · exact inside
  cases op with
  | reserve additional => cases member
  | push value => exact absurd trivial within
  | append other => exact append_changed unit honours owned other member
  | insert index value => exact insert_changed_of_ne unit honours owned within value member
  | pop | clear | pushWithinCapacity value | remove index | swapRemove index | truncate len
  | assign index value => cases reserved

/-- **Writes are in the block.** -/
theorem written_inside (unit : sizeOf w α = 1) (honours : alloc.Honours) (owned : array.Owned)
    (state : σ) (op : SafeOp w α) (within : ¬ PutsBehind array op) :
    ∀ write ∈ ((machine alloc).out (array, state) op).filterMap Event.written,
      write.1 < ((machine alloc).next (array, state) op).1.capacity.toNat := by
  intro write member
  obtain ⟨event, happened, same⟩ := List.mem_filterMap.mp member
  exact changed_inside unit honours owned state op within
    (List.mem_filterMap.mpr ⟨event, happened, changed_of_written same⟩)

end Safe

end Parts

end Stdx
