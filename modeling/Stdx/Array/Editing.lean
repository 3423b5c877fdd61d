import Stdx.Array.InPlace
import Stdx.Array.Removal
import Stdx.Array.Changes

/-! # An array as an edited list

The safe operations of an array, with what they return, against the same edits of a list.
Where capacities count elements and no step is one of those that do not keep their promise (a
push, insertion or append that goes through, a `truncate` that shortens, a `remove` that
wraps), an array is an edited list over every run, whatever the allocator answers, and each
value that was ever put in is in the array, was returned once, or was dropped once
(`Stdx.Parts.edits_list`).
-/

namespace Stdx

open Foundation

variable {w : Nat} {α σ : Type*} [Element w α]

/-- What a safe operation returns. -/
inductive SafeReply (α : Type*)
  | allocated (outcome : Except AllocError Unit)
  | inserted (outcome : Except AllocError (Option Unit))
  | pushed (outcome : Except α Unit)
  | taken (cell : Option (Cell α))
  | done

/-- The values that the caller gets. -/
def SafeReply.returned : SafeReply α → Multiset α
  | .pushed (.error value) => {value}
  | .taken (some cell) => cell.contents
  | .allocated _ | .inserted _ | .pushed (.ok ()) | .taken none | .done => 0

/-- The values that the caller hands over. -/
def SafeOp.given : SafeOp w α → Multiset α
  | .push value | .pushWithinCapacity value | .insert _ value | .assign _ value => {value}
  | .reserve _ | .pop | .clear | .append _ | .remove _ | .swapRemove _ | .truncate _ => 0

namespace Parts

namespace Editing

/-- What an operation returns. -/
def reply (alloc : Allocator w σ) : Parts w α × σ → SafeOp w α → SafeReply α
  | (array, state), .reserve additional => .allocated (array.reserve alloc additional state).1
  | (array, state), .push value => .allocated (array.push alloc value state).1
  | (array, _), .pop => .taken (RawArray.pop array).1
  | (_, _), .clear => .done
  | (array, state), .append other => .allocated (array.append alloc other state).1
  | (array, _), .pushWithinCapacity value => .pushed (array.pushWithinCapacity value).1
  | (array, state), .insert index value =>
      .inserted (RawArray.insert array alloc index value state).1
  | (array, _), .remove index => .taken (RawArray.remove array index).1
  | (array, _), .swapRemove index => .taken (RawArray.swapRemove array index).1
  | (_, _), .truncate _ => .done
  | (_, _), .assign _ _ => .done

/-- The safe operations with what they return and do. -/
def machine (alloc : Allocator w σ) :
    Machine (Parts w α × σ) (SafeOp w α) (SafeReply α × List (Event α)) :=
  ⟨fun world op => ((reply alloc world op, (Safe.machine alloc).out world op),
    (Safe.machine alloc).next world op)⟩

/-- The values after an edit of a list for which there is room for a number of values. -/
def edited (values : List α) (room : Nat) : SafeOp w α → List α
  | .pop => values.dropLast
  | .clear => []
  | .pushWithinCapacity value => if values.length < room then values ++ [value] else values
  | .remove index => values.eraseIdx index.toNat
  | .swapRemove index =>
      if index.toNat < values.length then BoundedList.fillGap values index.toNat else values
  | .assign index value => values.set index.toNat value
  | .reserve _ | .push _ | .append _ | .insert _ _ | .truncate _ => values

/-- What an edit of a list answers. -/
def Answers (values : List α) (room : Nat) : SafeOp w α → SafeReply α → Prop
  | .pop, reply => reply = .taken (values.getLast?.map .val)
  | .remove index, reply | .swapRemove index, reply =>
      reply = .taken (values[index.toNat]?.map .val)
  | .pushWithinCapacity value, reply =>
      reply = .pushed (if values.length < room then .ok () else .error value)
  | .push _, reply => reply = .allocated (.error .allocError)
  | .insert index _, reply =>
      reply = .inserted (if values.length < index.toNat then .ok none else .error .allocError)
  | .reserve _, reply | .append _, reply => ∃ outcome, reply = .allocated outcome
  | .clear, reply | .truncate _, reply | .assign _ _, reply => reply = .done

/-- The step keeps its promise: an element is only pushed or inserted, and elements are only
appended, where no block is obtained, no element is cut off, and no length wraps. -/
def Sane (alloc : Allocator w σ) (world : Parts w α × σ) : SafeOp w α → Prop
  | .push value => Safe.obtained alloc world.1 world.2 (.push value) = none
  | .insert index value => Safe.obtained alloc world.1 world.2 (.insert index value) = none
  | .append other =>
      other.length = 0 ∨ Safe.obtained alloc world.1 world.2 (.append other) = none
  | .truncate len => world.1.length.toNat ≤ len.toNat
  | .remove index => ¬ Safe.Wraps world.1 (.remove index)
  | .reserve _ | .pop | .clear | .pushWithinCapacity _ | .swapRemove _ | .assign _ _ => True

instance (alloc : Allocator w σ) (world : Parts w α × σ) : ∀ op, Decidable (Sane alloc world op)
  | .push _ | .insert _ _ => inferInstanceAs (Decidable (_ = none))
  | .append _ => inferInstanceAs (Decidable (_ ∨ _))
  | .truncate _ => inferInstanceAs (Decidable (_ ≤ _))
  | .remove _ => inferInstanceAs (Decidable (¬ _))
  | .reserve _ | .pop | .clear | .pushWithinCapacity _ | .swapRemove _ | .assign _ _ =>
      inferInstanceAs (Decidable True)

/-- A sane step on a block whose bytes count elements. -/
def Admits (alloc : Allocator w σ) (world : Parts w α × σ) (op : SafeOp w α) : Prop :=
  (∀ slice ∈ Safe.obtained alloc world.1 world.2 op, slice.CountsElements α) ∧
    Sane alloc world op

instance (alloc : Allocator w σ) (world : Parts w α × σ) (op : SafeOp w α) :
    Decidable (Admits alloc world op) :=
  inferInstanceAs (Decidable (_ ∧ _))

/-- The edit of the array is the edit of the list, and no value is lost or duplicated. -/
structure Edits (alloc : Allocator w σ) (values : List α) (world : Parts w α × σ)
    (op : SafeOp w α) : Prop where
  answer : Answers values world.1.capacity.toNat op ((machine alloc).out world op).1
  holds : ((machine alloc).next world op).1.Holds (edited values world.1.capacity.toNat op)
  balance : (edited values world.1.capacity.toNat op : Multiset α) +
      (((machine alloc).out world op).1.returned +
        (((machine alloc).out world op).2.map Event.dropped).sum) =
    values + op.given

variable {alloc : Allocator w σ} {array : Parts w α} {values : List α} {state : σ}

/-- A reservation keeps the values, whatever the allocator answers. -/
theorem reserve_holds (honours : alloc.Honours) (nonzero : sizeOf w α ≠ 0)
    (holds : array.Holds values) (additional : Usize w)
    (counts : ∀ slice ∈ array.granted alloc additional state, slice.CountsElements α) :
    (array.reserve alloc additional state).2.1.Holds values := by
  rcases array.reserve_cases alloc additional state with
    ⟨_, _, reserved⟩ | ⟨slice, grant, _, reserved⟩
  · rw [reserved]
    exact holds
  · rw [reserved]
    have within := holds.length
    have counted : array.Counted := fun _ => within
    have room := length_enlarged_add_le counted honours nonzero grant
    have carries : array.Carries := fun empty => by
      rw [empty] at within
      exact BitVec.eq_of_toNat_eq (Nat.le_zero.mp within)
    have same := (deref_enlarged_iff counted grant).mpr carries
    rw [holds.deref] at same
    obtain ⟨count, cells⟩ := deref_eq_map_iff.mp same
    refine ⟨⟨⟨(Nat.le_add_right _ _).trans room, ?_⟩, ?_⟩, count, cells⟩
    · exact (Safe.countsElements_iff nonzero slice).mpr (counts slice grant)
    · exact (granted_len honours grant).2

/-- A list of edits on the same block. -/
theorem holds_of_deref (holds : array.Holds values) {rest : List α} {after : Parts w α}
    (same : after = { array with length := after.length, cells := after.cells })
    (contents : after.deref = rest.map .val) (shorter : rest.length ≤ values.length) :
    after.Holds rest := by
  obtain ⟨count, cells⟩ := deref_eq_map_iff.mp contents
  have within := holds.length
  have before := holds.count
  have length : after.length.toNat ≤ array.capacity.toNat := by omega
  have capacity := congrArg Parts.capacity same
  have bytes := congrArg Parts.bytes same
  dsimp only at capacity bytes
  refine ⟨⟨⟨by rw [capacity]; exact length, ?_⟩, ?_⟩, count, cells⟩
  · rw [capacity, bytes]
    exact holds.block
  · rw [bytes]
    exact holds.toOwned.bytes

/-- An edit that a list in a fixed block makes as well. -/
theorem edits_of_simulates (holds : array.Holds values) {op : SafeOp w α}
    (inPlace : InPlaceOp w α)
    (simulated : InPlace.Simulates array.data array.capacity.toNat array
      ⟨values, holds.count ▸ holds.length⟩ inPlace)
    (next : ((machine alloc).next (array, state) op).1 =
      (InPlace.machine w α).next array inPlace)
    (events : ((machine alloc).out (array, state) op).2 =
      ((InPlace.machine w α).out array inPlace).2)
    (returned : ((machine alloc).out (array, state) op).1.returned =
      ((InPlace.machine w α).out array inPlace).1.returned)
    (given : op.given = inPlace.given)
    (values_eq : ((BoundedList.machine α array.capacity.toNat).next
      ⟨values, holds.count ▸ holds.length⟩ inPlace.onList).values =
        edited values array.capacity.toNat op)
    (answer : Answers values array.capacity.toNat op ((machine alloc).out (array, state) op).1) :
    Edits alloc values (array, state) op := by
  obtain ⟨agrees, related⟩ := simulated
  refine ⟨answer, ?_, ?_⟩
  · rw [next, ← values_eq]
    exact related.toHolds
  · have balance := BoundedList.step_conserves
      (⟨values, holds.count ▸ holds.length⟩ : BoundedList α array.capacity.toNat) inPlace.onList
    rw [InPlace.given_onList] at balance
    rw [events, returned, given, InPlace.returned_eq agrees.shows_, agrees.dropped, ← values_eq]
    exact balance

/-- The same array, and a list to compare it with. -/
theorem related_self (holds : array.Holds values) :
    InPlace.Related array.data array.capacity.toNat array
      ⟨values, holds.count ▸ holds.length⟩ := ⟨holds, rfl, rfl⟩

theorem pop_edits (holds : array.Holds values) : Edits alloc values (array, state) .pop := by
  have simulated := InPlace.pop_step (related_self holds)
  have answer : Answers values array.capacity.toNat (.pop : SafeOp w α)
      ((machine alloc).out (array, state) .pop).1 :=
    congrArg SafeReply.taken simulated.1.shows_
  apply edits_of_simulates holds .pop simulated rfl rfl ?_ rfl rfl answer
  change SafeReply.returned (.taken (RawArray.pop array).1) =
    InPlaceReply.returned (.popped (RawArray.pop array).1)
  cases (RawArray.pop array).1 with
  | none => rfl
  | some cell => rfl

theorem clear_edits (holds : array.Holds values) : Edits alloc values (array, state) .clear :=
  edits_of_simulates holds .clear (InPlace.clear_step (related_self holds)) rfl rfl rfl rfl rfl rfl

theorem pushWithinCapacity_edits (holds : array.Holds values) (value : α) :
    Edits alloc values (array, state) (.pushWithinCapacity value) := by
  have simulated := InPlace.pushWithinCapacity_step (related_self holds) value
  apply edits_of_simulates holds (.pushWithinCapacity value) simulated rfl rfl ?_ rfl
  · unfold Machine.next BoundedList.machine BoundedList.step InPlaceOp.onList edited
    dsimp only
    by_cases room : values.length < array.capacity.toNat
    · rw [dif_pos room, if_pos room]
    · rw [dif_neg room, if_neg room]
  · change SafeReply.pushed (array.pushWithinCapacity value).1 = _
    refine congrArg _ ?_
    by_cases room : array.length.toNat < array.capacity.toNat
    · rw [pushWithinCapacity_of_lt holds.toWithin room, if_pos (holds.count ▸ room)]
    · rw [pushWithinCapacity_of_le (not_lt.mp room), if_neg (holds.count ▸ room)]
  · change SafeReply.returned (.pushed (array.pushWithinCapacity value).1) =
      InPlaceReply.returned (.pushed (array.pushWithinCapacity value).1)
    rcases (array.pushWithinCapacity value).1 with other | _
    · rfl
    · rfl

/-- Events that drop nothing. -/
theorem sum_dropped_eq_zero {events : List (Event α)}
    (none : ∀ event ∈ events, event.dropped = 0) : (events.map Event.dropped).sum = 0 := by
  apply List.sum_eq_zero
  intro amount member
  obtain ⟨event, inside, rfl⟩ := List.mem_map.mp member
  exact none event inside

omit [Element w α] in
theorem dropped_of_mem_ofSub {left right : Usize w} {event : Event α}
    (member : event ∈ Event.ofSub left right) : event.dropped = 0 := by
  unfold Event.ofSub at member
  split at member
  · cases List.mem_singleton.mp member
    rfl
  · cases member

omit [Element w α] in
theorem dropped_of_mem_ofMul {left right : Usize w} {event : Event α}
    (member : event ∈ Event.ofMul left right) : event.dropped = 0 := by
  unfold Event.ofMul at member
  split at member
  · cases member
  · cases List.mem_singleton.mp member
    rfl

/-- Taking the last element moves it out. -/
theorem pop_drops_nothing (array : Parts w α) : ∀ event ∈ array.pop.2.2, event.dropped = 0 := by
  intro event member
  rcases List.mem_append.mp member with arithmetic | last
  · rcases List.mem_append.mp arithmetic with length | offset
    · exact dropped_of_mem_ofSub length
    · exact dropped_of_mem_ofMul offset
  · cases List.mem_singleton.mp last
    rfl

theorem remove_drops_nothing (array : Parts w α) (index : Usize w) :
    ∀ event ∈ (RawArray.remove array index).2.2, event.dropped = 0 := by
  intro event member
  unfold RawArray.remove at member
  split at member
  · rcases List.mem_append.mp member with length | popped
    · exact dropped_of_mem_ofSub length
    · exact pop_drops_nothing array event popped
  split at member
  · exact dropped_of_mem_ofSub member
  · simp only [removeUnchecked, List.mem_append, List.mem_flatMap, List.mem_cons,
      List.not_mem_nil, or_false] at member
    rcases member with length | (((offset | rfl) | count) | ⟨_, _, rfl | rfl⟩) | shorter
    · exact dropped_of_mem_ofSub length
    · exact dropped_of_mem_ofMul offset
    · rfl
    · exact dropped_of_mem_ofSub count
    · rfl
    · rfl
    · exact dropped_of_mem_ofSub shorter

theorem swapRemove_drops_nothing (array : Parts w α) (index : Usize w) :
    ∀ event ∈ (RawArray.swapRemove array index).2.2, event.dropped = 0 := by
  intro event member
  unfold RawArray.swapRemove at member
  split at member
  · rcases List.mem_append.mp member with length | popped
    · exact dropped_of_mem_ofSub length
    · unfold RawArray.pop at popped
      split at popped
      · cases popped
      · exact pop_drops_nothing array event popped
  split at member
  · exact dropped_of_mem_ofSub member
  · simp only [swapRemoveUnchecked, List.mem_append, List.mem_cons, List.not_mem_nil,
      or_false] at member
    rcases member with length | (((offset | shorter) | last) | rfl | rfl | rfl) | less
    · exact dropped_of_mem_ofSub length
    · exact dropped_of_mem_ofMul offset
    · exact dropped_of_mem_ofSub shorter
    · exact dropped_of_mem_ofMul last
    · rfl
    · rfl
    · rfl
    · exact dropped_of_mem_ofSub less

/-- An edit that takes an element out, or refuses the index. -/
theorem taken_edits (holds : array.Holds values) {op : SafeOp w α} (index : Usize w)
    (rest : List α) (outcome : Option (Cell α) × Parts w α × List (Event α))
    (out : (machine alloc).out (array, state) op = (.taken outcome.1, outcome.2.2))
    (next : ((machine alloc).next (array, state) op).1 = outcome.2.1)
    (drops : ∀ event ∈ outcome.2.2, event.dropped = 0)
    (answers : Answers values array.capacity.toNat op (.taken outcome.1) ↔
      outcome.1 = values[index.toNat]?.map .val)
    (given : op.given = 0)
    (after : edited values array.capacity.toNat op =
      if index.toNat < values.length then rest else values)
    (perm : ∀ inside : index.toNat < values.length, (values[index.toNat] :: rest).Perm values)
    (same : outcome.2.1 = { array with
      length := outcome.2.1.length, cells := outcome.2.1.cells })
    (removes : values ≠ [] → Removes array values index.toNat rest outcome)
    (refuses : values = [] → outcome.1 = none ∧ outcome.2.1 = array) :
    Edits alloc values (array, state) op := by
  by_cases inside : index.toNat < values.length
  · have nonempty : values ≠ [] := List.ne_nil_of_length_pos (Nat.zero_lt_of_lt inside)
    obtain ⟨cell, contents⟩ := (removes nonempty).removed inside
    have shown : outcome.1 = values[index.toNat]?.map .val := by
      rw [cell, List.getElem?_eq_getElem inside]
      rfl
    have permuted := perm inside
    have shorter : rest.length ≤ values.length := by
      rw [← permuted.length_eq]
      exact Nat.le_succ _
    rw [if_pos inside] at after
    refine ⟨?_, ?_, ?_⟩
    · rw [out]
      exact answers.mpr shown
    · rw [next, after]
      exact holds_of_deref holds same contents shorter
    · rw [out, after, given, sum_dropped_eq_zero drops, cell, add_zero, add_zero]
      change (rest : Multiset α) + {values[index.toNat]} = values
      rw [add_comm, Multiset.singleton_add, Multiset.cons_coe]
      exact Multiset.coe_eq_coe.mpr permuted
  · have refused : outcome.1 = none ∧ outcome.2.1 = array := by
      by_cases empty : values = []
      · exact refuses empty
      · exact (removes empty).refused.mpr (not_lt.mp inside)
    have shown : outcome.1 = values[index.toNat]?.map .val := by
      rw [refused.1, List.getElem?_eq_none (not_lt.mp inside)]
      rfl
    rw [if_neg inside] at after
    refine ⟨?_, ?_, ?_⟩
    · rw [out]
      exact answers.mpr shown
    · rw [next, after, refused.2]
      exact holds
    · rw [out, after, given, sum_dropped_eq_zero drops, refused.1]
      rfl

/-- An array without elements. -/
theorem length_eq_zero_of_nil (holds : array.Holds []) : array.length = 0 :=
  BitVec.eq_of_toNat_eq holds.count

/-- What the slice of an array with values shows. -/
theorem shows_of_holds (holds : array.Holds values) : array.Shows values :=
  ⟨holds.deref, (Nat.mul_le_mul_left _ holds.length).trans holds.block⟩

theorem remove_edits (holds : array.Holds values) (index : Usize w)
    (noWrap : ¬ Safe.Wraps array (.remove index)) :
    Edits alloc values (array, state) (.remove index) := by
  have kept : Safe.Stays alloc array state (.remove index) (RawArray.remove array index).2.1 :=
    Safe.remove_step index
  apply taken_edits holds index (values.eraseIdx index.toNat) (RawArray.remove array index)
    rfl rfl (remove_drops_nothing array index)
  · exact ⟨SafeReply.taken.inj, congrArg _⟩
  · rfl
  · by_cases inside : index.toNat < values.length
    · rw [if_pos inside]
      rfl
    · rw [if_neg inside]
      exact List.eraseIdx_of_length_le (not_lt.mp inside)
  · exact fun inside => List.getElem_cons_eraseIdx_perm inside
  · exact kept.same
  · exact fun nonempty => removes_remove (shows_of_holds holds) nonempty index
  · rintro rfl
    have empty := length_eq_zero_of_nil holds
    have last : index ≠ array.length - 1 := fun same =>
      noWrap ⟨empty, by rw [same, empty]; exact BitVec.zero_sub 1⟩
    unfold RawArray.remove
    rw [if_neg last, if_pos (by rw [empty]; exact Nat.zero_le _)]
    exact ⟨rfl, rfl⟩

theorem swapRemove_edits (holds : array.Holds values) (index : Usize w) :
    Edits alloc values (array, state) (.swapRemove index) := by
  have kept : Safe.Stays alloc array state (.swapRemove index)
      (RawArray.swapRemove array index).2.1 :=
    Safe.swapRemove_step index
  apply taken_edits holds index (BoundedList.fillGap values index.toNat)
    (RawArray.swapRemove array index) rfl rfl (swapRemove_drops_nothing array index)
  · exact ⟨SafeReply.taken.inj, congrArg _⟩
  · rfl
  · rfl
  · exact fun inside => BoundedList.cons_fillGap_perm inside
  · exact kept.same
  · exact fun nonempty => removes_swapRemove (shows_of_holds holds) nonempty index
  · rintro rfl
    have empty := length_eq_zero_of_nil holds
    unfold RawArray.swapRemove
    by_cases last : index = array.length - 1
    · rw [if_pos last, RawArray.pop, if_pos empty]
      exact ⟨rfl, rfl⟩
    · rw [if_neg last, if_pos (by rw [empty]; exact Nat.zero_le _)]
      exact ⟨rfl, rfl⟩

theorem assign_edits (holds : array.Holds values) (index : Usize w) (value : α) :
    Edits alloc values (array, state) (.assign index value) := by
  have count := holds.count
  by_cases inside : index.toNat < values.length
  · have place := holds.cells index.toNat inside
    have assigned : array.assign index value =
        ({ array with
          cells := array.cells.set ((sizeOf w α).toNat * index.toNat) (.val value) },
          [.dropInPlace ((sizeOf w α).toNat * index.toNat) (.val values[index.toNat]),
            .write ((sizeOf w α).toNat * index.toNat) (.val value)]) := by
      unfold assign
      rw [if_neg (by omega)]
      dsimp only
      rw [place]
    refine ⟨rfl, ?_, ?_⟩
    · change (array.assign index value).1.Holds (values.set index.toNat value)
      rw [assigned]
      refine ⟨⟨⟨holds.length, holds.block⟩, holds.toOwned.bytes⟩, ?_, fun other placed => ?_⟩
      · rw [List.length_set]
        exact count
      · rw [List.length_set] at placed
        dsimp only
        rw [List.getElem_set]
        by_cases same : index.toNat = other
        · rw [if_pos same, same, Cells.set_same]
        · rw [if_neg same, set_at (Ne.symm same) (holds.cells other placed)]
    · change ((values.set index.toNat value : List α) : Multiset α) +
        (0 + ((array.assign index value).2.map Event.dropped).sum) = values + {value}
      rw [assigned]
      have swapped := Multiset.coe_eq_coe.mpr (List.set_perm_cons_eraseIdx inside value)
      have whole := Multiset.coe_eq_coe.mpr (List.getElem_cons_eraseIdx_perm inside)
      rw [swapped, ← whole, ← Multiset.cons_coe, ← Multiset.cons_coe, ← Multiset.singleton_add,
        ← Multiset.singleton_add]
      simp only [List.map_cons, List.map_nil, List.sum_cons, List.sum_nil, Event.dropped,
        Cell.contents]
      abel
  · have outside : array.length.toNat ≤ index.toNat := by omega
    have refused : array.assign index value = (array, [.dropValue value]) := if_pos outside
    have same : values.set index.toNat value = values :=
      List.set_eq_of_length_le (not_lt.mp inside)
    refine ⟨rfl, ?_, ?_⟩
    · change (array.assign index value).1.Holds (values.set index.toNat value)
      rw [refused, same]
      exact holds
    · change ((values.set index.toNat value : List α) : Multiset α) +
        (0 + ((array.assign index value).2.map Event.dropped).sum) = values + {value}
      rw [refused, same]
      simp [Event.dropped]

/-- An edit that leaves the list and the events alone. -/
theorem quiet_edits (op : SafeOp w α) (answer : SafeReply α) {moved : Parts w α} {after : σ}
    (out : (machine alloc).out (array, state) op = (answer, []))
    (next : (machine alloc).next (array, state) op = (moved, after))
    (answers : Answers values array.capacity.toNat op answer)
    (kept : edited values array.capacity.toNat op = values)
    (holds : moved.Holds values) (returned : answer.returned = 0) (given : op.given = 0) :
    Edits alloc values (array, state) op := by
  refine ⟨?_, ?_, ?_⟩
  · rw [out]
    exact answers
  · rw [next, kept]
    exact holds
  · rw [out, kept, given, returned]
    rfl

/-- An operation that obtains no block gives its value back to be dropped. -/
theorem refused_edits (holds : array.Holds values) (op : SafeOp w α) (answer : SafeReply α)
    {value : α} {after : σ}
    (out : (machine alloc).out (array, state) op = (answer, [.dropValue value]))
    (next : (machine alloc).next (array, state) op = (array, after))
    (answers : Answers values array.capacity.toNat op answer)
    (kept : edited values array.capacity.toNat op = values) (returned : answer.returned = 0)
    (given : op.given = {value}) : Edits alloc values (array, state) op := by
  refine ⟨?_, ?_, ?_⟩
  · rw [out]
    exact answers
  · rw [next, kept]
    exact holds
  · rw [out, kept, given, returned]
    simp [Event.dropped]

/-- **One edit.** -/
theorem step_edits (honours : alloc.Honours) (nonzero : sizeOf w α ≠ 0)
    (holds : array.Holds values) {op : SafeOp w α} (admitted : Admits alloc (array, state) op) :
    Edits alloc values (array, state) op := by
  obtain ⟨counts, sane⟩ := admitted
  cases op with
  | reserve additional =>
      exact quiet_edits (.reserve additional) _ rfl rfl ⟨_, rfl⟩ rfl
        (reserve_holds honours nonzero holds additional counts) rfl rfl
  | push value =>
      rcases array.push_cases alloc value state with
        ⟨_, after, pushed⟩ | ⟨slice, grant, _⟩
      · have out : (machine alloc).out (array, state) (.push value) =
            (.allocated (.error .allocError), [.dropValue value]) := by
          change (SafeReply.allocated (array.push alloc value state).1,
            (array.push alloc value state).2.2.2) = _
          rw [pushed]
        have next : (machine alloc).next (array, state) (.push value) = (array, after) := by
          change ((array.push alloc value state).2.1, (array.push alloc value state).2.2.1) = _
          rw [pushed]
        exact refused_edits holds _ _ out next rfl rfl rfl rfl
      · exact nomatch grant.symm.trans sane
  | pop => exact pop_edits holds
  | clear => exact clear_edits holds
  | append other =>
      have reserved : array.append alloc other state =
          ((array.reserve alloc other.length state).1,
            (array.reserve alloc other.length state).2.1,
            (array.reserve alloc other.length state).2.2, []) := by
        unfold append
        rcases array.reserve_cases alloc other.length state with
          ⟨_, after, refused⟩ | ⟨slice, grant, after, granted⟩
        · rw [refused]
        · rw [granted]
          rcases sane with empty | refused
          · rw [empty]
            rfl
          · exact nomatch grant.symm.trans refused
      have out : (machine alloc).out (array, state) (.append other) =
          (.allocated (array.reserve alloc other.length state).1, []) := by
        change (SafeReply.allocated (array.append alloc other state).1,
          (array.append alloc other state).2.2.2) = _
        rw [reserved]
      have next : (machine alloc).next (array, state) (.append other) =
          (array.reserve alloc other.length state).2 := by
        change ((array.append alloc other state).2.1, (array.append alloc other state).2.2.1) = _
        rw [reserved]
      exact quiet_edits _ _ out next ⟨_, rfl⟩ rfl
        (reserve_holds honours nonzero holds other.length counts) rfl rfl
  | pushWithinCapacity value => exact pushWithinCapacity_edits holds value
  | insert index value =>
      have count := holds.count
      have answered (outcome : Except AllocError (Option Unit)) (after : σ)
          (inserted : RawArray.insert array alloc index value state =
            (outcome, array, after, [.dropValue value]))
          (expected : outcome =
            if values.length < index.toNat then .ok none else .error .allocError) :
          Edits alloc values (array, state) (.insert index value) := by
        have out : (machine alloc).out (array, state) (.insert index value) =
            (.inserted outcome, [.dropValue value]) := by
          change (SafeReply.inserted (RawArray.insert array alloc index value state).1,
            (RawArray.insert array alloc index value state).2.2.2) = _
          rw [inserted]
        have next : (machine alloc).next (array, state) (.insert index value) =
            (array, after) := by
          change ((RawArray.insert array alloc index value state).2.1,
            (RawArray.insert array alloc index value state).2.2.1) = _
          rw [inserted]
        exact refused_edits holds _ _ out next (congrArg _ expected) rfl rfl rfl
      by_cases outside : array.length.toNat < index.toNat
      · apply answered _ _ (insert_outside alloc value state outside).2
        rw [if_pos (by omega)]
      · obtain ⟨needed, entered⟩ := insert_inside alloc value state (not_lt.mp outside)
        rcases array.insertUnchecked_cases alloc index value state with
          ⟨_, after, refused⟩ | ⟨slice, grant, _⟩
        · rw [refused] at entered
          apply answered _ _ entered
          rw [if_neg (by omega)]
          rfl
        · exact nomatch grant.symm.trans (needed.symm.trans sane)
  | remove index => exact remove_edits holds index sane
  | swapRemove index => exact swapRemove_edits holds index
  | truncate len =>
      have same : array.truncate len = (array, []) := if_pos sane
      have out : (machine alloc).out (array, state) (.truncate len) = (.done, []) := by
        change (SafeReply.done, (array.truncate len).2) = _
        rw [same]
      have next : (machine alloc).next (array, state) (.truncate len) = (array, state) := by
        change ((array.truncate len).1, state) = _
        rw [same]
      exact quiet_edits _ _ out next rfl rfl holds rfl rfl
  | assign index value => exact assign_edits holds index value

end Editing

open Editing in
/-- **An array is an edited list.** -/
theorem edits_list (alloc : Allocator w σ) (honours : alloc.Honours) (nonzero : sizeOf w α ≠ 0)
    (array : Parts w α) (values : List α) (holds : array.Holds values) (state : σ)
    (ops : List (SafeOp w α))
    (admitted : (machine alloc).Along (Admits alloc) (array, state) ops) :
    (∃ left, ((machine alloc).final (array, state) ops).1.Holds left) ∧
      (machine alloc).Along (fun world op => ∀ values, world.1.deref = values.map .val →
        Edits alloc values world op) (array, state) ops ∧
      ((machine alloc).final (array, state) ops).1.owned +
          (((machine alloc).outputs (array, state) ops).map fun out =>
            out.1.returned + (out.2.map Event.dropped).sum).sum =
        array.owned + (ops.map SafeOp.given).sum := by
  have step (world : Parts w α × σ) (op : SafeOp w α) (valid : ∃ values, world.1.Holds values)
      (admitted : Admits alloc world op) :
      ((∀ values, world.1.deref = values.map .val → Edits alloc values world op) ∧
        ((machine alloc).next world op).1.owned +
            (((machine alloc).out world op).1.returned +
              (((machine alloc).out world op).2.map Event.dropped).sum) =
          world.1.owned + op.given) ∧
        ∃ values, ((machine alloc).next world op).1.Holds values := by
    obtain ⟨values, holds⟩ := valid
    have edits := step_edits honours nonzero holds admitted
    refine ⟨⟨fun other shown => ?_, ?_⟩, _, edits.holds⟩
    · rw [holds.deref] at shown
      rw [List.map_injective_iff.mpr (fun _ _ => Cell.val.inj) shown] at edits
      exact edits
    · have balance := edits.balance
      rw [← holds.contents, ← edits.holds.contents] at balance
      exact balance
  have run := admitted.of_invariant (fun world => ∃ values, world.1.Holds values) step
    ⟨values, holds⟩
  refine ⟨?_, ?_, ?_⟩
  · exact admitted.invariant _ (fun world op valid clear => (step world op valid clear).2)
      ⟨values, holds⟩
  · exact run.mono fun _ _ both => both.1
  · exact (run.mono fun _ _ both => both.2).balance
      (fun world : Parts w α × σ => world.1.owned) SafeOp.given
      fun out : SafeReply α × List (Event α) =>
        out.1.returned + (out.2.map Event.dropped).sum

/-- Bytes put in, taken out, overwritten and moved to a larger block. -/
def byteEdits : List (SafeOp 64 UInt8) :=
  [.pushWithinCapacity 7, .assign 0 4, .swapRemove 0, .remove 5, .reserve 1, .truncate 4, .pop]

open Editing in
theorem byteEdits_balance :
    ((machine (FixedBufferAllocator.allocator 64)).final (ofBytes [5, 6], page 8)
        byteEdits).1.owned +
      (((machine (FixedBufferAllocator.allocator 64)).outputs (ofBytes [5, 6], page 8)
        byteEdits).map fun out => out.1.returned + (out.2.map Event.dropped).sum).sum =
    (ofBytes [5, 6]).owned + (byteEdits.map SafeOp.given).sum := by
  have shown : (ofBytes [5, 6]).Shows [5, 6] := ofBytes_shows (by decide)
  have holds : (ofBytes [5, 6]).Holds [5, 6] :=
    ⟨⟨⟨by decide, by decide⟩, by decide⟩, shown.count, fun _ inside => shown.cell inside⟩
  refine (edits_list (FixedBufferAllocator.allocator 64)
    (FixedBufferAllocator.allocator_honours 64) (by decide) (ofBytes [5, 6]) [5, 6] holds
    (page 8) byteEdits ?_).2.2
  decide

end Parts

end Stdx
