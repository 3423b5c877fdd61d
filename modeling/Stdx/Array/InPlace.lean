import Stdx.Foundation.BoundedList
import Stdx.Array.Contents

/-! # Arrays over memory of their own

An array made from raw parts and used without an allocator simulates a list
bounded by the capacity: every answer is the list's, no access leaves the block
or reads an element that is not there, and each value that was ever put in is in
the array, was returned once, or was dropped once
(`Stdx.Parts.simulates_bounded_list`).
-/

namespace Stdx

open Foundation

variable {w : Nat} {α : Type*} [Element w α]

/-- An operation that works on the block in place. -/
inductive InPlaceOp (w : Nat) (α : Type*)
  | pushWithinCapacity (value : α)
  | pop
  | clear
  | swapRemoveUnchecked (index : Usize w)

/-- What such an operation returns. -/
inductive InPlaceReply (α : Type*)
  | pushed (outcome : Except α Unit)
  | popped (cell : Option (Cell α))
  | cleared
  | removed (cell : Cell α)

namespace Event

/-- The values an event drops. -/
def dropped : Event α → Multiset α
  | .dropInPlace _ cell => cell.contents
  | .dropValue value => {value}
  | .read _ _ | .write _ _ | .readOther _ _ | .overflow => 0

/-- An access to one of the cells of a block, which holds a value when the
access reads it. -/
def InBlock (size capacity : Nat) : Event α → Prop
  | .read offset cell | .dropInPlace offset cell =>
      (∃ index < capacity, offset = size * index) ∧ ∃ value, cell = .val value
  | .write offset _ => ∃ index < capacity, offset = size * index
  | .readOther _ _ | .dropValue _ | .overflow => False

end Event

namespace InPlaceOp

/-- The operation on a list that this one simulates. -/
def onList : InPlaceOp w α → BoundedList.Op α
  | .pushWithinCapacity value => .push value
  | .pop => .pop
  | .clear => .clear
  | .swapRemoveUnchecked index => .swapRemove index.toNat

/-- The values the caller hands over. -/
def given : InPlaceOp w α → Multiset α
  | .pushWithinCapacity value => {value}
  | .pop | .clear | .swapRemoveUnchecked _ => 0

end InPlaceOp

namespace InPlaceReply

/-- The values the caller gets. -/
def returned : InPlaceReply α → Multiset α
  | .pushed (.error value) => {value}
  | .popped (some cell) | .removed cell => cell.contents
  | .pushed (.ok ()) | .popped none | .cleared => 0

/-- The reply is the answer of a list. -/
def Shows : InPlaceReply α → BoundedList.Reply α → Prop
  | .pushed outcome, .pushed expected => outcome = expected
  | .popped cell, .popped value => cell = value.map .val
  | .cleared, .cleared _ => True
  | .removed cell, .removed value => some cell = value.map .val
  | _, _ => False

end InPlaceReply

namespace Parts

/-- The contract of `from_raw_parts`: memory for the elements of the capacity,
the first of which are the given values. -/
structure Holds (array : Parts w α) (values : List α) : Prop extends array.Owned where
  count : array.length.toNat = values.length
  cells : ∀ index, ∀ inside : index < values.length,
    array.cells ((sizeOf w α).toNat * index) = .val values[index]

variable {array : Parts w α} {values : List α}

theorem Holds.deref (holds : array.Holds values) : array.deref = values.map .val :=
  deref_eq_map_iff.mpr ⟨holds.count, holds.cells⟩

/-- The last of the values an array holds. -/
theorem Holds.last {front : List α} {last : α} (holds : array.Holds (front ++ [last])) :
    array.length.toNat = front.length + 1 ∧
      array.cells ((sizeOf w α).toNat * front.length) = .val last := by
  have count := holds.count
  have read := holds.cells front.length (by simp)
  rw [List.getElem_concat_length rfl] at read
  rw [List.length_append, List.length_singleton] at count
  exact ⟨count, read⟩

/-- The values in the slice of an array are the ones it holds. -/
theorem Holds.contents (holds : array.Holds values) :
    (array.deref.map Cell.contents).sum = (values : Multiset α) := by
  rw [holds.deref, List.map_map]
  clear holds
  induction values with
  | nil => rfl
  | cons value rest ih =>
      rw [List.map_cons, List.sum_cons, ih]
      rfl

namespace InPlace

/-- One operation, with its events. -/
def step (array : Parts w α) :
    InPlaceOp w α → (InPlaceReply α × List (Event α)) × Parts w α
  | .pushWithinCapacity value =>
      let pushed := array.pushWithinCapacity value
      ((.pushed pushed.1, pushed.2.2), pushed.2.1)
  | .pop =>
      let popped := RawArray.pop array
      ((.popped popped.1, popped.2.2), popped.2.1)
  | .clear =>
      let cleared := array.clear
      ((.cleared, cleared.2), cleared.1)
  | .swapRemoveUnchecked index =>
      let removed := array.swapRemoveUnchecked index
      ((.removed removed.1, removed.2.2), removed.2.1)

/-- An array driven by operations in place. -/
def machine (w : Nat) (α : Type*) [Element w α] :
    Machine (Parts w α) (InPlaceOp w α) (InPlaceReply α × List (Event α)) := ⟨step⟩

/-- The contract of `swap_remove_unchecked`: the index is in bounds. -/
def Admits (array : Parts w α) : InPlaceOp w α → Prop
  | .swapRemoveUnchecked index => index.toNat < array.length.toNat
  | .pushWithinCapacity _ | .pop | .clear => True

instance (array : Parts w α) : ∀ op, Decidable (Admits array op)
  | .swapRemoveUnchecked _ => inferInstanceAs (Decidable (_ < _))
  | .pushWithinCapacity _ | .pop | .clear => inferInstanceAs (Decidable True)

/-- What an operation returns and does is what the list answers, inside the block. -/
structure Agrees (size capacity : Nat) (out : InPlaceReply α × List (Event α))
    (reply : BoundedList.Reply α) : Prop where
  shows_ : out.1.Shows reply
  dropped : (out.2.map Event.dropped).sum = reply.dropped
  inBlock : ∀ event ∈ out.2, event.InBlock size capacity

variable {data : Usize w} {bound : Nat} {list : BoundedList α bound}

/-- An array at a fixed place and a list of its capacity with the same values. -/
structure Related (data : Usize w) (bound : Nat) (array : Parts w α)
    (list : BoundedList α bound) : Prop extends array.Holds list.values where
  pointer : array.data = data
  capacity : array.capacity.toNat = bound

/-- The two sides of one step agree and stay related. -/
def Simulates (data : Usize w) (bound : Nat) (array : Parts w α) (list : BoundedList α bound)
    (op : InPlaceOp w α) : Prop :=
  Agrees (sizeOf w α).toNat bound ((machine w α).out array op)
      ((BoundedList.machine α bound).out list op.onList) ∧
    Related data bound ((machine w α).next array op)
      ((BoundedList.machine α bound).next list op.onList)

/-- The values of an array may change within its block. -/
theorem Related.update (related : Related data bound array list) {next : BoundedList α bound}
    {length : Usize w} {cells : Cells α} (count : length.toNat = next.values.length)
    (same : ∀ index, ∀ inside : index < next.values.length,
      cells ((sizeOf w α).toNat * index) = .val next.values[index]) :
    Related data bound { array with length, cells } next where
  length := by
    have bounded := next.length_le
    have capacity := related.capacity
    dsimp only
    omega
  block := related.block
  bytes := related.bytes
  count := count
  cells := same
  pointer := related.pointer
  capacity := related.capacity

theorem pushWithinCapacity_step (related : Related data bound array list) (value : α) :
    Simulates data bound array list (.pushWithinCapacity value) := by
  have count := related.count
  have capacity := related.capacity
  unfold Simulates Machine.out Machine.next machine BoundedList.machine step BoundedList.step
  dsimp only [InPlaceOp.onList]
  by_cases room : list.values.length < bound
  · have inside : array.length.toNat < array.capacity.toNat := by omega
    rw [pushWithinCapacity_of_lt related.toWithin inside, dif_pos room]
    refine ⟨⟨rfl, by simp [Event.dropped, BoundedList.Reply.dropped], ?_⟩, related.update ?_ ?_⟩
    · intro event member
      cases List.mem_singleton.mp member
      exact ⟨_, capacity ▸ inside, rfl⟩
    · simp only [List.length_append, List.length_singleton]
      rw [toNat_succ (by have := array.capacity.isLt; omega), count]
    · intro index place
      rw [count]
      by_cases old : index < list.values.length
      · rw [set_at (Nat.ne_of_lt old) (related.cells index old), List.getElem_append_left old]
      · have last : index = list.values.length := by
          simp only [List.length_append, List.length_singleton] at place
          omega
        subst last
        rw [Cells.set_same, List.getElem_concat_length]
        rfl
  · rw [pushWithinCapacity_of_le (by omega), dif_neg room]
    exact ⟨⟨rfl, rfl, List.forall_mem_nil _⟩, related⟩

theorem pop_step (related : Related data bound array list) :
    Simulates data bound array list .pop := by
  have capacity := related.capacity
  obtain ⟨values, bounded⟩ := list
  unfold Simulates Machine.out Machine.next machine BoundedList.machine step BoundedList.step
  dsimp only [InPlaceOp.onList]
  rcases values.eq_nil_or_concat' with rfl | ⟨front, last, rfl⟩
  · have empty : array.length = 0 := BitVec.eq_of_toNat_eq related.count
    have none : RawArray.pop array = (none, array, []) := if_pos empty
    rw [none]
    exact ⟨⟨rfl, rfl, List.forall_mem_nil _⟩, related⟩
  · obtain ⟨count, read⟩ := related.toHolds.last
    have occupied : 0 < array.length.toNat := by omega
    have length : array.length.toNat - 1 = front.length := by omega
    rw [RawArray.pop_of_pos related.toWithin.mul_length_lt occupied, length, read]
    refine ⟨⟨?_, rfl, ?_⟩, related.update ?_ ?_⟩
    · rw [List.getLast?_concat]
      rfl
    · intro event member
      cases List.mem_singleton.mp member
      have bound := related.toOwned.length
      exact ⟨⟨_, by omega, rfl⟩, _, rfl⟩
    · rw [toNat_pred occupied, length]
      simp
    · intro index place
      rw [List.getElem_dropLast]
      exact related.cells index _

theorem clear_step (related : Related data bound array list) :
    Simulates data bound array list .clear := by
  have count := related.count
  have capacity := related.capacity
  have bounded := list.length_le
  refine ⟨⟨trivial, ?_, ?_⟩, related.update rfl nofun⟩
  · change (array.clear.2.map Event.dropped).sum = (list.values : Multiset α)
    rw [← related.contents, clear, deref, List.map_map, List.map_map]
    rfl
  · intro event member
    obtain ⟨index, place, rfl⟩ := List.mem_map.mp member
    have inside : index < list.values.length := by
      rw [← count]
      exact List.mem_range.mp place
    exact ⟨⟨index, by omega, rfl⟩, _, related.cells index inside⟩

theorem swapRemoveUnchecked_step (related : Related data bound array list) {index : Usize w}
    (inside : index.toNat < array.length.toNat) :
    Simulates data bound array list (.swapRemoveUnchecked index) := by
  have capacity := related.capacity
  have within := related.toOwned.length
  obtain ⟨values, bounded⟩ := list
  have count : array.length.toNat = values.length := related.count
  have place : index.toNat < values.length := count ▸ inside
  have last : values.length - 1 < values.length := Nat.sub_lt (by omega) Nat.one_pos
  unfold Simulates Machine.out Machine.next machine BoundedList.machine step BoundedList.step
  dsimp only [InPlaceOp.onList]
  rw [swapRemoveUnchecked_of_lt related.toWithin.mul_length_lt inside, if_pos place]
  dsimp only
  refine ⟨⟨?_, rfl, ?_⟩, related.update ?_ ?_⟩
  · rw [related.cells index.toNat place, List.getElem?_eq_getElem place]
    rfl
  · intro event member
    rcases List.mem_cons.mp member with rfl | member
    · exact ⟨⟨_, by omega, rfl⟩, _, related.cells index.toNat place⟩
    rcases List.mem_cons.mp member with rfl | member
    · rw [count]
      exact ⟨⟨_, by omega, rfl⟩, _, related.cells _ last⟩
    cases List.mem_singleton.mp member
    exact ⟨_, by omega, rfl⟩
  · rw [toNat_pred (Nat.zero_lt_of_lt inside), count, BoundedList.length_fillGap]
  · rw [count]
    exact set_fillGap related.cells index.toNat

/-- One operation simulates the operation on the list. -/
theorem step_simulates (related : Related data bound array list) {op : InPlaceOp w α}
    (admitted : Admits array op) : Simulates data bound array list op := by
  cases op with
  | pushWithinCapacity value => exact pushWithinCapacity_step related value
  | pop => exact pop_step related
  | clear => exact clear_step related
  | swapRemoveUnchecked index => exact swapRemoveUnchecked_step related admitted

/-- A reply that shows the answer of a list hands back the same values. -/
theorem returned_eq {reply : InPlaceReply α} {answer : BoundedList.Reply α}
    (same : reply.Shows answer) : reply.returned = answer.returned := by
  cases reply <;> cases answer <;> try exact same.elim
  case pushed.pushed outcome expected =>
    cases same
    rcases outcome with value | _ <;> rfl
  case popped.popped cell value =>
    cases same
    rcases value with _ | value <;> rfl
  case cleared.cleared => rfl
  case removed.removed cell value =>
    rcases value with _ | value
    · cases same
    · cases same
      rfl

omit [Element w α] in
theorem given_onList (op : InPlaceOp w α) : op.onList.given = op.given := by
  cases op <;> rfl

end InPlace

open InPlace in
/-- **Simulation of a bounded list.** -/
theorem simulates_bounded_list (data capacity length : Usize w) (cells : Cells α)
    (bytes : Usize w) (list : BoundedList α capacity.toNat)
    (contract : (fromRawParts data capacity length cells bytes).Holds list.values)
    (ops : List (InPlaceOp w α))
    (admitted : (machine w α).Along Admits (fromRawParts data capacity length cells bytes) ops) :
    let array := fromRawParts data capacity length cells bytes
    let model := BoundedList.machine α capacity.toNat
    let outs := (machine w α).outputs array ops
    let final := (machine w α).final array ops
    List.Forall₂ (Agrees (sizeOf w α).toNat capacity.toNat) outs
        (model.outputs list (ops.map InPlaceOp.onList)) ∧
      final.deref = (model.final list (ops.map InPlaceOp.onList)).values.map .val ∧
      final.data = data ∧ final.capacity = capacity ∧
      (final.deref.map Cell.contents).sum + (outs.map fun out => out.1.returned).sum +
          (outs.map fun out => (out.2.map Event.dropped).sum).sum =
        (array.deref.map Cell.contents).sum + (ops.map InPlaceOp.given).sum := by
  intro array model outs final
  have simulated : List.Forall₂ (Agrees (sizeOf w α).toNat capacity.toNat) outs
        (model.outputs list (ops.map InPlaceOp.onList)) ∧
      Related data capacity.toNat final (model.final list (ops.map InPlaceOp.onList)) :=
    admitted.refines InPlaceOp.onList (Related data capacity.toNat)
      (Agrees (sizeOf w α).toNat capacity.toNat)
      (fun _ _ _ related admitted => step_simulates related admitted) ⟨contract, rfl, rfl⟩
  obtain ⟨agree, related⟩ := simulated
  refine ⟨agree, related.deref, related.pointer, BitVec.eq_of_toNat_eq related.capacity, ?_⟩
  have returned := map_eq_of_forall₂ (fun _ _ agrees => returned_eq agrees.shows_) agree
  have dropped := map_eq_of_forall₂ (fun _ _ agrees => agrees.dropped) agree
  have given : (ops.map InPlaceOp.onList).map BoundedList.Op.given = ops.map InPlaceOp.given := by
    rw [List.map_map]
    exact List.map_congr_left fun op _ => given_onList op
  have conserved := BoundedList.run_conserves list (ops.map InPlaceOp.onList)
  rw [← returned, ← dropped, given, ← related.contents] at conserved
  rw [conserved, contract.contents]

/-- A block for two elements, the first of which is seven. -/
def sevenCells : Cells UInt32 := fun offset => if offset = 0 then .val 7 else .uninit

/-- Pushes up to the capacity and beyond, and removals. -/
def inPlaceOps : List (InPlaceOp 64 UInt32) :=
  [.pushWithinCapacity 8, .pushWithinCapacity 9, .swapRemoveUnchecked 0, .pushWithinCapacity 9,
    .pop]

open InPlace in
theorem inPlaceOps_simulate :
    ((machine 64 UInt32).final (fromRawParts 0x1000 2 1 sevenCells 8) inPlaceOps).deref =
      [.val 8] := by
  refine (simulates_bounded_list 0x1000 2 1 sevenCells 8 ⟨[7], by decide⟩ ?_ inPlaceOps ?_).2.1
  · refine ⟨⟨⟨by decide, by decide⟩, by decide⟩, rfl, fun index inside => ?_⟩
    obtain rfl : index = 0 := by simpa using inside
    rfl
  · decide

end Parts

end Stdx
