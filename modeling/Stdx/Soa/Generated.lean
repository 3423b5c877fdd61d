import Mathlib.Data.BitVec
import Stdx.Alloc.Layout
import Stdx.Soa.Derive

/-! # What the emitted code does

The meaning of the emitted methods in a world where the types have their sizes
and alignments and an allocator answers the requests. `usize` and `isize` are
the same words; arithmetic on them wraps. The memory the methods work on is not
modelled, only what they do to it: a run of a body is the list of its writes and
copies.

The text does not compile as it is emitted, and is read with these repairs: the
call of `resize` passes its two arguments in the order of the declaration;
`allocate` and `grow` are the requests with the arguments that are written, a
pointer and a layout; the layout is the one in the `Result` of
`Layout::from_size_align`; `new_cursor`, which is not declared, is one more
cursor that begins at 0, and nothing reads it; and a body that ends or returns
without a value where it has to give a `Result` gives `Ok(())`.
-/

namespace Stdx

namespace Soa

open Foundation

variable {w : Nat}

/-- The sizes and alignments of types, by the text of the type. -/
structure Types (w : Nat) where
  size : String → Usize w
  align : String → Usize w
  power : ∀ ty, (align ty).toNat.isPowerOfTwo

/-- The emitted type, without its allocator. -/
structure SoaState (w : Nat) where
  len : Usize w
  cap : Usize w
  ptr : Usize w

/-- The arguments of `Layout::from_size_align`. -/
structure LayoutRequest (w : Nat) where
  size : Usize w
  align : Usize w

/-- What `try_reserve_impl` asks the allocator. -/
inductive Request (w : Nat)
  | allocate (ptr : Usize w) (layout : LayoutRequest w)
  | grow (ptr : Usize w) (layout : LayoutRequest w)

/-- What a body does to memory. -/
inductive Effect (w : Nat)
  | write (offset : Usize w) (field : String)
  | copy (source target bytes : Usize w)

/-- The position a write puts a field at. -/
def Effect.placed : Effect w → Option (String × Usize w)
  | .write offset field => some (field, offset)
  | .copy _ _ _ => none

/-- The positions fields are written at, in order. -/
def placed (effects : List (Effect w)) : List (String × Usize w) :=
  effects.filterMap Effect.placed

/-- `align_up`. -/
def alignUp (x a : Usize w) : Usize w :=
  (x + a - 1) &&& ~~~(a - 1)

theorem alignUp_eq_maskUp (x a : Usize w) : alignUp x a = maskUp x a := by
  rw [alignUp, maskUp, maskDown, BitVec.sub_eq_add_neg, BitVec.add_assoc, ← BitVec.sub_eq_add_neg]

section Bodies

variable (types : Types w) (state : SoaState w) (newCap : Usize w)

/-- The value of an operand. -/
def Operand.value : Operand → Usize w
  | .zero => 0
  | .sizeOf ty => types.size ty
  | .selfLen => state.len
  | .selfCap => state.cap
  | .newCap => newCap

/-- What a statement does to memory. -/
def Statement.effects (cursors : Cursor → Usize w) : Statement → List (Effect w)
  | .write field => [.write (cursors .cursor) field]
  | .copy ty => [.copy (cursors .oldCursor) (cursors .cursor) (state.len * types.size ty)]
  | .align _ _ | .advance _ _ _ => []

/-- What a statement does to the cursors. -/
def Statement.next (cursors : Cursor → Usize w) : Statement → Cursor → Usize w
  | .align target ty =>
      Function.update cursors target (alignUp (cursors target) (types.align ty))
  | .advance target capacity ty =>
      Function.update cursors target
        (cursors target + capacity.value types state newCap * types.size ty)
  | .write _ | .copy _ => cursors

/-- The run of a body. -/
def execute : (Cursor → Usize w) → List Statement → List (Effect w)
  | _, [] => []
  | cursors, statement :: rest =>
      statement.effects types state cursors ++
        execute (statement.next types state newCap cursors) rest

end Bodies

namespace Generated

variable (code : Generated) (types : Types w) (answer : Request w → Option (Usize w))
  (state : SoaState w)

/-- `buf_align`: the greatest alignment. -/
def bufAlign : Usize w :=
  code.aligns.foldl (fun max ty => if max < types.align ty then types.align ty else max) 1

/-- `resize`. -/
def resize (newCap : Usize w) : List (Effect w) :=
  execute types state newCap (fun _ => 0) code.resizeBody

/-- `try_reserve_impl`. -/
def tryReserveImpl (additional : Usize w) :
    Except (LayoutRequest w) (SoaState w × List (Effect w)) :=
  if state.len + additional < state.cap then
    .ok (state, [])
  else
    let newCap := if state.cap = 0 then 16 else state.cap * 2
    let layout := ⟨code.requestSize.value (Operand.value types state newCap), code.bufAlign types⟩
    let request := if state.cap = 0 then Request.allocate state.ptr layout
      else Request.grow state.ptr layout
    match answer request with
    | some ptr => .ok ({ state with ptr }, code.resize types state newCap)
    | none => .error layout

/-- `try_reserve`; there is no result on an error. -/
def tryReserve (additional : Usize w) : Option (SoaState w × List (Effect w)) :=
  (code.tryReserveImpl types answer state additional).toOption

/-- `reserve`; there is no result when it calls `handle_alloc_error`. -/
def reserve (additional : Usize w) : Option (SoaState w × List (Effect w)) :=
  (code.tryReserveImpl types answer state additional).toOption

/-- `try_push`; there is no result on an error. -/
def tryPush : Option (SoaState w × List (Effect w)) :=
  (code.tryReserve types answer state (state.len + 1)).map fun reserved =>
    (reserved.1, reserved.2 ++ execute types reserved.1 0 (fun _ => 0) code.tryPushBody)

/-- `push`; there is no result when it calls `handle_alloc_error`. -/
def push : Option (SoaState w × List (Effect w)) :=
  (code.reserve types answer state (state.len + 1)).map fun reserved =>
    (reserved.1, reserved.2 ++ execute types reserved.1 0 (fun _ => 0) code.pushBody)

/-- The field of each pair of slice methods and where one of the two reads. -/
def sliceOffsets (method : FieldMethods → SliceMethod) : List (String × Usize w) :=
  code.fieldSliceMethods.map fun methods =>
    (methods.field, (method methods).offset.value (Operand.value types state 0))

end Generated

/-- Nothing but the pointer changes when space is reserved. -/
theorem Generated.tryReserveImpl_state {code : Generated} {types : Types w}
    {answer : Request w → Option (Usize w)} {state after : SoaState w} {additional : Usize w}
    {effects : List (Effect w)}
    (reserved : code.tryReserveImpl types answer state additional = .ok (after, effects)) :
    ∃ ptr, after = { state with ptr } := by
  unfold tryReserveImpl at reserved
  split at reserved
  · cases reserved
    exact ⟨_, rfl⟩
  · dsimp only at reserved
    split at reserved
    · cases reserved
      exact ⟨_, rfl⟩
    · cases reserved

end Soa

end Stdx
