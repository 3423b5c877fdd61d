import Stdx.Soa.Growth
import Stdx.Soa.Resize

/-! # A type that starts empty

`new` and `new_in` begin without elements and without a capacity, and no method changes either.
So over every run from there, whatever the allocator answers, every call asks for a new buffer of
one size and never for a larger one, nothing is moved into it, and a push writes every field to
its start (`Stdx.Soa.new_renews`). All buffers but the last are forgotten.
-/

namespace Stdx

namespace Soa

open Foundation Rust

variable {w : Nat}

/-- A call, and what the allocator answers to each request. -/
structure Answered (w : Nat) where
  method : Method w
  answer : Request w → Option (Usize w)

/-- The emitted type under calls. -/
def calling (code : Generated) (types : Types w) :
    Machine (SoaState w) (Answered w) (Option (List (Effect w))) where
  step state call :=
    match call.method.run code types call.answer state with
    | some (later, effects) => (some effects, later)
    | none => (none, state)

/-- `new_in`, and `new` with the global allocator. -/
def SoaState.newIn (dangling : Usize w) : SoaState w where
  len := 0
  cap := 0
  ptr := dangling

/-- What a call does to a new buffer: the copies have no bytes. -/
def renewed (types : Types w) (fields : List Field) (method : Method w) : List (Effect w) :=
  ((cursorsFrom types 16 0 fields).map fun place => .copy 0 place.2 0) ++
    match method with
    | .tryReserve _ | .reserve _ => []
    | .tryPush | .push => fields.map fun field => .write 0 field.name

/-- A type of which only the pointer is left: every call replaces the buffer by a new one. -/
def renewing (types : Types w) (fields : List Field) (layout : LayoutRequest w) :
    Machine (Usize w) (Answered w) (Option (List (Effect w))) where
  step ptr call :=
    match call.answer (.allocate ptr layout) with
    | some granted => (some (renewed types fields call.method), granted)
    | none => (none, ptr)

/-- The layout of one element of every field. -/
def oneElement (types : Types w) (name : String) (fields : List Field) : LayoutRequest w where
  size := BitVec.ofNat w (elementSize types fields)
  align := (derive name fields).bufAlign types

variable {types : Types w} {name : String} {fields : List Field} {ptr : Usize w}

/-- Without elements there are no bytes to copy. -/
theorem copiesFrom_zero (newCap cursor : Usize w) :
    copiesFrom types 0 newCap cursor fields =
      (cursorsFrom types newCap cursor fields).map fun place => .copy 0 place.2 0 := by
  induction fields generalizing cursor with
  | nil => rfl
  | cons field rest ih =>
      rw [copiesFrom, zero_mul, ih]
      rfl

/-- Without a capacity the cursor of the pushes stays where it is. -/
theorem execute_writeFields_newIn {cursors : Cursor → Usize w} (still : cursors .cursor = 0) :
    execute types (.newIn ptr) 0 cursors (fields.flatMap writeField) =
      fields.map fun field => .write 0 field.name := by
  induction fields generalizing cursors with
  | nil => rfl
  | cons field rest ih =>
      have start : alignUp (cursors .cursor) (types.align field.ty) = 0 := by
        rw [still, alignUp_eq_maskUp]
        exact maskUp_zero (types.power field.ty)
      have advanced : (0 : Usize w) + Operand.selfCap.value types (.newIn ptr) 0 *
          types.size field.ty = 0 := by
        rw [zero_add]
        exact zero_mul _
      rw [List.flatMap_cons, writeField]
      simp only [List.cons_append, List.nil_append, execute, Statement.effects, Statement.next,
        start, Function.update_self, advanced]
      rw [ih (Function.update_self _ _ _)]
      rfl

/-- A reservation always allocates. -/
theorem tryReserveImpl_newIn (answer : Request w → Option (Usize w)) (additional : Usize w) :
    (derive name fields).tryReserveImpl types answer (.newIn ptr) additional =
      match answer (.allocate ptr (oneElement types name fields)) with
      | some granted => .ok (.newIn granted, copiesFrom types 0 16 0 fields)
      | none => .error (oneElement types name fields) := by
  have tight : ¬ (SoaState.newIn ptr).len + additional < (SoaState.newIn ptr).cap :=
    BitVec.not_lt_zero
  unfold Generated.tryReserveImpl
  rw [if_neg tight]
  simp only [SoaState.newIn, if_true, requestSize_derive, resize_eq_copies]
  rfl

/-- A call asks for one element of every field. -/
theorem run_newIn (answer : Request w → Option (Usize w)) (method : Method w) :
    method.run (derive name fields) types answer (.newIn ptr) =
      (answer (.allocate ptr (oneElement types name fields))).map fun granted =>
        (.newIn granted, renewed types fields method) := by
  have pushBody : (derive name fields).pushBody = fields.flatMap writeField :=
    writeFieldsFromValue_addField .start fields
  have tryPushBody : (derive name fields).tryPushBody = fields.flatMap writeField :=
    writeFieldsFromValue_addField .start fields
  cases granted : answer (.allocate ptr (oneElement types name fields)) with
  | none =>
      cases method with
      | tryReserve | reserve | tryPush | push =>
          simp only [Method.run, Generated.tryReserve, Generated.reserve, Generated.tryPush,
            Generated.push, tryReserveImpl_newIn, granted, Except.toOption, Option.map_none]
  | some next =>
      cases method with
      | tryReserve | reserve =>
          simp only [Method.run, Generated.tryReserve, Generated.reserve, tryReserveImpl_newIn,
            granted, Except.toOption, Option.map_some, renewed, copiesFrom_zero, List.append_nil]
      | tryPush | push =>
          simp only [Method.run, Generated.tryReserve, Generated.reserve, Generated.tryPush,
            Generated.push, tryReserveImpl_newIn, granted, Except.toOption, Option.map_some,
            renewed, copiesFrom_zero, pushBody, tryPushBody, execute_writeFields_newIn]

/-- **A type that starts empty.** A run from `new` does what a type does that only has a pointer
and replaces its buffer at every call. -/
theorem new_renews (types : Types w) (name : String) (fields : List Field) (dangling : Usize w)
    (calls : List (Answered w)) :
    (calling (derive name fields) types).outputs (.newIn dangling) calls =
        (renewing types fields (oneElement types name fields)).outputs dangling calls ∧
      (calling (derive name fields) types).final (.newIn dangling) calls =
        .newIn ((renewing types fields (oneElement types name fields)).final dangling calls) := by
  have step : ∀ state ptr call, state = .newIn ptr → True →
      (calling (derive name fields) types).out state call =
          (renewing types fields (oneElement types name fields)).out ptr (id call) ∧
        (calling (derive name fields) types).next state call =
          .newIn ((renewing types fields (oneElement types name fields)).next ptr (id call)) := by
    rintro _ ptr call rfl _
    unfold Machine.out Machine.next calling renewing
    dsimp only [id]
    rw [run_newIn]
    cases call.answer (.allocate ptr (oneElement types name fields)) with
    | none => exact ⟨rfl, rfl⟩
    | some granted => exact ⟨rfl, rfl⟩
  have run : (calling (derive name fields) types).Along (fun _ _ => True) (.newIn dangling) calls :=
    .of_forall (fun _ _ => trivial) _ calls
  have both := run.refines id (fun state ptr => state = .newIn ptr) Eq step rfl
  rw [List.map_id, List.forall₂_eq_eq_eq] at both
  exact both

end Soa

end Stdx
