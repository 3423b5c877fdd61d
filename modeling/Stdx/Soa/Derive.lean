import Stdx.Foundation.Formula
import Stdx.Rust.Parser

/-! # The code `derive(Soa)` emits

The macro fills templates with the names and the types of the fields of a
struct. A filled template is modelled by the statements and formulas its text
stands for, in the order of the text; `Stdx.Soa.Templates.addField` is one round
of the loop that appends to them.
-/

namespace Stdx

namespace Soa

open Foundation Rust

/-- The operands of the emitted arithmetic; `sizeOf` is `::core::mem::size_of`. -/
inductive Operand
  | zero
  | sizeOf (ty : String)
  | selfLen
  | selfCap
  | newCap
deriving DecidableEq

/-- The variables that run through a buffer. -/
inductive Cursor
  | cursor
  | oldCursor
  | newCursor
deriving DecidableEq

/-- The statements of the emitted bodies. -/
inductive Statement
  /-- `target = align_up(target, ::core::mem::align_of<ty>());` -/
  | align (target : Cursor) (ty : String)
  /-- `target += capacity * ::core::mem::size_of<ty>();` -/
  | advance (target : Cursor) (capacity : Operand) (ty : String)
  /-- `::core::ptr::write(self.ptr.byte_offset(cursor).cast(), value.field);` -/
  | write (field : String)
  /-- `::core::ptr::copy::<u8>` of `self.len*::core::mem::size_of<ty>()` bytes from
  `old_cursor` in `self.ptr` to `cursor` in `new_ptr`. -/
  | copy (ty : String)
deriving DecidableEq

/-- A method that returns `from_raw_parts(self.ptr.byte_offset(offset).cast(), length)`. -/
structure SliceMethod where
  name : String
  offset : Formula Operand
  length : Operand
deriving DecidableEq

/-- The two methods for a field. -/
structure FieldMethods where
  field : String
  slice : SliceMethod
  sliceMut : SliceMethod
deriving DecidableEq

/-- The templates the loop over the fields fills. -/
structure Templates where
  fieldSliceMethods : List FieldMethods
  offsetCalculation : Formula Operand
  singleElementSize : Formula Operand
  alignments : List String
  resizeBody : List Statement
  writeFieldsFromValue : List Statement

/-- The templates before the loop. -/
def Templates.start : Templates where
  fieldSliceMethods := []
  offsetCalculation := ⟨.zero, []⟩
  singleElementSize := ⟨.zero, []⟩
  alignments := []
  resizeBody := []
  writeFieldsFromValue := []

/-- The methods for a field whose slice begins at the given offset. -/
def fieldMethods (offset : Formula Operand) (field : Field) : FieldMethods where
  field := field.name
  slice := ⟨field.name ++ "s", offset, .selfLen⟩
  sliceMut := ⟨field.name ++ "s_mut", offset, .selfLen⟩

/-- What `resize` does for a field. -/
def resizeField (field : Field) : List Statement :=
  [.align .oldCursor field.ty, .align .cursor field.ty, .copy field.ty,
    .advance .cursor .newCap field.ty, .advance .newCursor .selfCap field.ty]

/-- What `push` and `try_push` do for a field. -/
def writeField (field : Field) : List Statement :=
  [.align .cursor field.ty, .write field.name, .advance .cursor .selfCap field.ty]

/-- One round of the loop over the fields. -/
def Templates.addField (templates : Templates) (field : Field) : Templates where
  fieldSliceMethods :=
    templates.fieldSliceMethods ++ [fieldMethods templates.offsetCalculation field]
  offsetCalculation :=
    templates.offsetCalculation.append [(.plus, .sizeOf field.ty), (.times, .selfLen)]
  singleElementSize := templates.singleElementSize.append [(.plus, .sizeOf field.ty)]
  alignments := templates.alignments ++ [field.ty]
  resizeBody := templates.resizeBody ++ resizeField field
  writeFieldsFromValue := templates.writeFieldsFromValue ++ writeField field

/-- The emitted type with the methods whose bodies depend on the fields. -/
structure Generated where
  structName : String
  /-- The size `try_reserve_impl` requests. -/
  requestSize : Formula Operand
  /-- The types `buf_align` looks at. -/
  aligns : List String
  resizeBody : List Statement
  tryPushBody : List Statement
  pushBody : List Statement
  fieldSliceMethods : List FieldMethods

/-- The code for a struct with named fields. -/
def derive (name : String) (fields : List Field) : Generated :=
  let templates := fields.foldl Templates.addField .start
  { structName := "Soa" ++ name
    requestSize := templates.singleElementSize.scale .newCap
    aligns := templates.alignments
    resizeBody := templates.resizeBody
    tryPushBody := templates.writeFieldsFromValue
    pushBody := templates.writeFieldsFromValue
    fieldSliceMethods := templates.fieldSliceMethods }

/-- What the macro answers; an index out of range panics. -/
inductive Expansion
  | compileError (message : String)
  | code (generated : Generated)
  | indexPanic

/-- `soa_derive`. -/
def soaDerive (input : TokenStream) : Expansion :=
  match parseTypeDecls input with
  | .error message => .compileError message
  | .ok decls =>
      if decls.length > 1 then
        .compileError "a derive macro can only be used on a single type definition"
      else
        match decls with
        | [] => .indexPanic
        | .struct name fields :: _ => .code (derive name fields)
        | _ :: _ => .compileError "derive(Soa) is only valid on structs with named fields"

example :
    soaDerive [.ident "struct", .ident "Pair", .group .brace
      [.ident "x", .punct ':', .ident "u32", .punct ',', .ident "y", .punct ':', .ident "u8"]] =
      .code (derive "Pair" [⟨"x", "u32"⟩, ⟨"y", "u8"⟩]) := rfl

end Soa

end Stdx
