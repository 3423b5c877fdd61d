import Stdx.Foundation.Machine
import Stdx.Soa.RequestSize

/-! # Reserving and pushing

Growing changes the pointer of the emitted type and nothing else: `cap` stays what it was,
whatever capacity the buffer was sized for, and no push is counted in `len`. So over a
run of calls the capacity covers what is asked for exactly when it did so before each
call or the allocator refuses (`Stdx.Soa.reserving_covers_iff`).
-/

namespace Stdx

namespace Soa

open Foundation Rust

variable {w : Nat}

/-- The emitted methods that reserve. -/
inductive Method (w : Nat)
  | tryReserve (additional : Usize w)
  | reserve (additional : Usize w)
  | tryPush
  | push

/-- A call, and what the allocator answers if it is asked. -/
structure Invocation (w : Nat) where
  method : Method w
  granted : Option (Usize w)

/-- The emitted type and the number of elements its buffer was sized for. -/
structure Sized (w : Nat) where
  state : SoaState w
  room : Nat

/-- What a method asks `try_reserve_impl` for. -/
def Method.additional (state : SoaState w) : Method w → Usize w
  | .tryReserve additional | .reserve additional => additional
  | .tryPush | .push => state.len + 1

/-- A call; there is no result on an error. -/
def Method.run (code : Generated) (types : Types w) (answer : Request w → Option (Usize w))
    (state : SoaState w) : Method w → Option (SoaState w × List (Effect w))
  | .tryReserve additional => code.tryReserve types answer state additional
  | .reserve additional => code.reserve types answer state additional
  | .tryPush => code.tryPush types answer state
  | .push => code.push types answer state

/-- `try_reserve_impl` finds room and returns early. -/
def SoaState.Spare (state : SoaState w) (additional : Usize w) : Prop :=
  state.len + additional < state.cap

instance (state : SoaState w) (additional : Usize w) : Decidable (state.Spare additional) :=
  inferInstanceAs (Decidable (_ < _))

/-- The emitted type under calls. A call that grows the buffer sizes it for the capacity
that it chooses. -/
def reserving (code : Generated) (types : Types w) :
    Machine (Sized w) (Invocation w) (Option (List (Effect w))) where
  step sized op :=
    match op.method.run code types (fun _ => op.granted) sized.state with
    | some (later, effects) =>
        (some effects,
          { state := later
            room := if sized.state.Spare (op.method.additional sized.state) then sized.room
              else sized.state.chosenCap.toNat })
    | none => (none, sized)

/-- The promise of a call: on success the capacity covers what was asked for, and the
length stays within the capacity that the buffer was sized for. -/
structure Covers (code : Generated) (types : Types w) (sized : Sized w) (op : Invocation w) :
    Prop where
  capacity : ∀ later effects,
    op.method.run code types (fun _ => op.granted) sized.state = some (later, effects) →
      sized.state.len.toNat + (op.method.additional sized.state).toNat ≤ later.cap.toNat
  length : ((reserving code types).next sized op).state.len.toNat ≤
    ((reserving code types).next sized op).room

/-- The condition of a call: the capacity covers what is asked for and no doubling wraps
below the length, or the allocator is asked and refuses. -/
def Sufficient (sized : Sized w) (op : Invocation w) : Prop :=
  let state := sized.state
  let additional := op.method.additional state
  (state.len.toNat + additional.toNat ≤ state.cap.toNat ∧
      (state.len.toNat + additional.toNat < state.cap.toNat ∨
        state.len.toNat ≤ 2 * state.cap.toNat % 2 ^ w)) ∨
    (¬ state.Spare additional ∧ op.granted = none)

instance (sized : Sized w) (op : Invocation w) : Decidable (Sufficient sized op) :=
  inferInstanceAs (Decidable (_ ∨ _))

variable {code : Generated} {types : Types w} {sized : Sized w} {op : Invocation w}

/-- Every method succeeds if and only if its reservation does. -/
theorem Method.run_eq (code : Generated) (types : Types w)
    (answer : Request w → Option (Usize w)) (state : SoaState w) (method : Method w) :
    (method.run code types answer state).map Prod.fst =
      (code.tryReserveImpl types answer state (method.additional state)).toOption.map
        Prod.fst := by
  cases method with
  | tryReserve | reserve => rfl
  | tryPush | push => exact Option.map_map _ _ _

/-- A reservation leaves the type with another pointer, unless it asks and is refused. -/
theorem reserved_fst (code : Generated) (types : Types w) (state : SoaState w)
    (granted : Option (Usize w)) (additional : Usize w) :
    (code.tryReserveImpl types (fun _ => granted) state additional).toOption.map Prod.fst =
      if state.Spare additional then some state
      else granted.map fun ptr => { state with ptr } := by
  unfold Generated.tryReserveImpl
  by_cases spare : state.Spare additional
  · rw [if_pos (show state.len + additional < state.cap from spare), if_pos spare]
    rfl
  · rw [if_neg (show ¬ state.len + additional < state.cap from spare), if_neg spare]
    cases granted with
    | none => rfl
    | some ptr => rfl

/-- What a call can do: return early, grow the buffer, or be refused. -/
theorem run_cases (code : Generated) (types : Types w) (state : SoaState w)
    (op : Invocation w) :
    (state.Spare (op.method.additional state) ∧ ∃ effects,
        op.method.run code types (fun _ => op.granted) state = some (state, effects)) ∨
      (¬ state.Spare (op.method.additional state) ∧ ∃ ptr effects, op.granted = some ptr ∧
        op.method.run code types (fun _ => op.granted) state =
          some ({ state with ptr }, effects)) ∨
      (¬ state.Spare (op.method.additional state) ∧ op.granted = none ∧
        op.method.run code types (fun _ => op.granted) state = none) := by
  have left := Method.run_eq code types (fun _ => op.granted) state op.method
  rw [reserved_fst] at left
  by_cases spare : state.Spare (op.method.additional state)
  · rw [if_pos spare] at left
    obtain ⟨⟨later, effects⟩, ran, rfl⟩ := Option.map_eq_some_iff.mp left
    exact .inl ⟨spare, effects, ran⟩
  · rw [if_neg spare] at left
    refine .inr ?_
    cases answered : op.granted with
    | none =>
        rw [answered] at left
        exact .inr ⟨spare, rfl, Option.map_eq_none_iff.mp left⟩
    | some ptr =>
        rw [answered] at left
        obtain ⟨⟨later, effects⟩, ran, rfl⟩ := Option.map_eq_some_iff.mp left
        exact .inl ⟨spare, ptr, effects, rfl, ran⟩

/-- A doubled capacity, without a branch for the first block. -/
theorem SoaState.le_chosenCap_iff {state : SoaState w} {additional : Nat}
    (covers : state.len.toNat + additional ≤ state.cap.toNat) :
    state.len.toNat ≤ state.chosenCap.toNat ↔
      state.len.toNat ≤ 2 * state.cap.toNat % 2 ^ w := by
  unfold SoaState.chosenCap
  by_cases zero : state.cap = 0
  · have none : state.len.toNat = 0 := by
      rw [zero] at covers
      exact Nat.eq_zero_of_le_zero ((Nat.le_add_right _ _).trans covers)
    rw [none]
    exact iff_of_true (Nat.zero_le _) (Nat.zero_le _)
  · have two : (2 : Usize w).toNat = 2 % 2 ^ w := rfl
    rw [if_neg zero, BitVec.toNat_mul, two, Nat.mul_mod_mod, Nat.mul_comm]

/-- A sum of words that is below the capacity as a number is so as a word. -/
theorem SoaState.spare_iff {state : SoaState w} {additional : Usize w}
    (covers : state.len.toNat + additional.toNat ≤ state.cap.toNat) :
    state.Spare additional ↔ state.len.toNat + additional.toNat < state.cap.toNat := by
  have bound := state.cap.isLt
  unfold Spare
  rw [BitVec.lt_def, BitVec.toNat_add, Nat.mod_eq_of_lt (by omega)]

/-- A call that succeeds keeps its promise exactly when the capacity sufficed before it and
the length is within the capacity that the buffer is sized for then. -/
theorem covers_of_run {ptr : Usize w} {effects : List (Effect w)} {room : Nat}
    (ran : op.method.run code types (fun _ => op.granted) sized.state =
      some ({ sized.state with ptr }, effects))
    (next : (reserving code types).next sized op = ⟨{ sized.state with ptr }, room⟩) :
    Covers code types sized op ↔
      sized.state.len.toNat + (op.method.additional sized.state).toNat ≤
          sized.state.cap.toNat ∧ sized.state.len.toNat ≤ room := by
  constructor
  · intro promise
    have covers := promise.capacity _ _ ran
    have length := promise.length
    rw [next] at length
    exact ⟨covers, length⟩
  · rintro ⟨covers, within⟩
    refine ⟨fun later _ same => ?_, ?_⟩
    · rw [ran] at same
      cases same
      exact covers
    · rw [next]
      exact within

/-- A call that is refused keeps its promise. -/
theorem covers_of_refused (inside : sized.state.len.toNat ≤ sized.room)
    (ran : op.method.run code types (fun _ => op.granted) sized.state = none) :
    Covers code types sized op := by
  have next : (reserving code types).next sized op = sized := by
    simp only [Machine.next, reserving, ran]
  refine ⟨fun later _ same => ?_, ?_⟩
  · rw [ran] at same
    cases same
  · rw [next]
    exact inside

/-- One call keeps its promise exactly under its condition. -/
theorem covers_iff (code : Generated) (types : Types w) {sized : Sized w}
    (inside : sized.state.len.toNat ≤ sized.room) (op : Invocation w) :
    Covers code types sized op ↔ Sufficient sized op := by
  rcases run_cases code types sized.state op with
    ⟨spare, effects, ran⟩ | ⟨tight, ptr, effects, granted, ran⟩ | ⟨tight, refused, ran⟩
  · have next : (reserving code types).next sized op = sized := by
      simp only [Machine.next, reserving, ran, if_pos spare]
    rw [covers_of_run ran next, and_iff_left inside]
    constructor
    · intro covers
      exact .inl ⟨covers, .inl ((SoaState.spare_iff covers).mp spare)⟩
    · rintro (⟨covers, _⟩ | ⟨tight, _⟩)
      · exact covers
      · exact absurd spare tight
  · have next : (reserving code types).next sized op =
        ⟨{ sized.state with ptr }, sized.state.chosenCap.toNat⟩ := by
      simp only [Machine.next, reserving, ran, if_neg tight]
    rw [covers_of_run ran next]
    constructor
    · rintro ⟨covers, length⟩
      exact .inl ⟨covers, .inr ((SoaState.le_chosenCap_iff covers).mp length)⟩
    · rintro (⟨covers, less | doubled⟩ | ⟨_, refused⟩)
      · exact absurd ((SoaState.spare_iff covers).mpr less) tight
      · exact ⟨covers, (SoaState.le_chosenCap_iff covers).mpr doubled⟩
      · rw [granted] at refused
        cases refused
  · exact iff_of_true (covers_of_refused inside ran) (.inr ⟨tight, refused⟩)

/-- Over a run of calls the length and the capacity stay what they were. -/
theorem final_reserving (code : Generated) (types : Types w) (sized : Sized w)
    (ops : List (Invocation w)) :
    ((reserving code types).final sized ops).state.len = sized.state.len ∧
      ((reserving code types).final sized ops).state.cap = sized.state.cap := by
  induction ops generalizing sized with
  | nil => exact ⟨rfl, rfl⟩
  | cons op ops ih =>
      have kept : ((reserving code types).next sized op).state.len = sized.state.len ∧
          ((reserving code types).next sized op).state.cap = sized.state.cap := by
        unfold Machine.next reserving
        rcases run_cases code types sized.state op with
          ⟨_, _, ran⟩ | ⟨_, _, _, _, ran⟩ | ⟨_, _, ran⟩
        · simp only [ran, and_self]
        · simp only [ran, and_self]
        · simp only [ran, and_self]
      rw [Machine.final_cons, (ih _).1, (ih _).2]
      exact kept

/-- **Reserving and pushing.** From any state whose length is within the capacity that
its buffer was sized for, every call of a run keeps its promise exactly when every call
meets the condition. -/
theorem reserving_covers_iff (types : Types w) (name : String) (fields : List Field)
    {sized : Sized w} (inside : sized.state.len.toNat ≤ sized.room)
    (ops : List (Invocation w)) :
    (reserving (derive name fields) types).Along (Covers (derive name fields) types) sized ops ↔
      (reserving (derive name fields) types).Along Sufficient sized ops := by
  have run : (reserving (derive name fields) types).Along (fun _ _ => True) sized ops :=
    .of_forall (fun _ _ => trivial) sized ops
  refine run.iff_of_invariant (fun sized => sized.state.len.toNat ≤ sized.room) ?_ inside
  intro sized op inside _
  exact ⟨covers_iff _ types inside op, fun promise => promise.length⟩

/-- Two pushes with room to spare. -/
theorem spare_pushes_covered :
    (reserving (derive "One" [⟨"x", "u32"⟩]) wordTypes).Along
      (Covers (derive "One" [⟨"x", "u32"⟩]) wordTypes) ⟨⟨1, 16, 0x1000⟩, 16⟩
      [⟨.push, none⟩, ⟨.tryPush, some 0x2000⟩] :=
  (reserving_covers_iff wordTypes "One" [⟨"x", "u32"⟩] (by decide) _).mpr (by decide)

/-- The first reservation of an empty type succeeds and leaves it without capacity. -/
theorem first_reservation_uncovered :
    ¬ ∀ (types : Types 64) (name : String) (fields : List Field) (sized : Sized 64)
      (ops : List (Invocation 64)), sized.state.len.toNat ≤ sized.room →
        (reserving (derive name fields) types).Along (Covers (derive name fields) types)
          sized ops := by
  intro claim
  have run := claim wordTypes "One" [⟨"x", "u32"⟩] ⟨⟨0, 0, 0x1000⟩, 0⟩
    [⟨.tryReserve 1, some 0x2000⟩] (Nat.le_refl 0)
  exact absurd (run.1.capacity _ _ rfl) (by decide)

end Soa

end Stdx
