import Stdx.Rust.TypeAlias
import Stdx.Soa.Derive

/-! # The items a derive is applied to

The macro takes the first of the declarations that are read without a look at whether
there is one. There is one exactly when some token outside the groups begins a
declaration (`Stdx.Soa.answers_iff`). The keywords of a struct and of an enum do and
that of a union does not (`Stdx.Soa.derive_answers_iff`).
-/

namespace Stdx

namespace Soa

open Foundation Rust

/-- A visibility, as it is written or as a macro passes a fragment on. -/
inductive ItemVis
  | written (vis : Option (Option TokenStream))
  | fragment (stream : TokenStream)

/-- The tokens of the visibility. -/
def ItemVis.tokens : ItemVis → TokenStream
  | .written vis => visTokens vis
  | .fragment stream => [.group .none stream]

/-- What follows the generics of a struct: named fields, those of a tuple, or nothing. -/
inductive StructShape
  | named (stream : TokenStream)
  | tuple (stream : TokenStream)
  | unit

/-- The items with a derive. -/
inductive ItemKind
  | struct (shape : StructShape)
  | enum (variants : TokenStream)
  | union (stream : TokenStream)

namespace ItemKind

/-- The keyword; that of a union is an identifier elsewhere. -/
def keyword : ItemKind → String
  | .struct _ => "struct"
  | .enum _ => "enum"
  | .union _ => "union"

/-- The tokens between the generics and the bounds. -/
def front : ItemKind → TokenStream
  | .struct (.tuple stream) => [.group .parenthesis stream]
  | .struct (.named _) | .struct .unit | .enum _ | .union _ => []

/-- The last token of the item. -/
def last : ItemKind → TokenTree
  | .struct (.named stream) | .enum stream | .union stream => .group .brace stream
  | .struct (.tuple _) | .struct .unit => .punct ';'

/-- The item is a union. -/
def isUnion : ItemKind → Bool
  | .union _ => true
  | .struct _ | .enum _ => false

end ItemKind

/-- An item a derive can be applied to; its name is not a keyword. -/
structure DeriveItem where
  attrs : List TokenStream
  vis : ItemVis
  kind : ItemKind
  name : String
  generics : TokenStream
  whereClause : TokenStream
  name_plain : opensDecl (.ident name) = false

/-- The tokens of the item. -/
def DeriveItem.tokens (item : DeriveItem) : TokenStream :=
  attrTokens item.attrs ++ item.vis.tokens ++ .ident item.kind.keyword :: .ident item.name ::
    (item.generics ++ item.kind.front ++ item.whereClause ++ [item.kind.last])

/-- The promise of the macro: where the input is parsed there is a declaration, and
the first one is not looked up in vain. -/
structure Answers (input : TokenStream) : Prop where
  declared : ∀ decls, parseTypeDecls input = .ok decls → 0 < decls.length
  answered : soaDerive input ≠ .indexPanic

/-- Some token begins a declaration. -/
def Opens (tokens : TokenStream) : Prop := ∃ token ∈ tokens, opensDecl token = true

/-- The visibility is written out, with or without a restriction. -/
def ItemVis.IsPub (vis : ItemVis) : Prop := ∃ restriction, vis = .written (some restriction)

/-- The index is out of range exactly where nothing is declared. -/
theorem soaDerive_eq_indexPanic_iff {input : TokenStream} :
    soaDerive input = .indexPanic ↔ parseTypeDecls input = .ok [] := by
  unfold soaDerive
  cases parseTypeDecls input with
  | error message => exact iff_of_false (fun same => nomatch same) (fun same => nomatch same)
  | ok decls =>
      cases decls with
      | nil => exact iff_of_true rfl rfl
      | cons first rest =>
          refine iff_of_false (fun same => ?_) (fun same => nomatch same)
          dsimp only at same
          split at same
          · cases same
          · split at same
            · rename_i none
              cases none
            · cases same
            · cases same

/-- Nothing is declared exactly where no token begins a declaration. -/
theorem parse_eq_nil_iff {input : TokenStream} :
    parseTypeDecls input = .ok [] ↔ ∀ token ∈ input, opensDecl token = false := by
  refine ⟨no_decl_of_parse_nil, fun plain => ?_⟩
  have skipped := parse_of_no_decl plain []
  rw [List.append_nil] at skipped
  exact skipped

/-- The macro answers exactly where some token begins a declaration. -/
theorem answers_iff (input : TokenStream) : Answers input ↔ Opens input := by
  have some : Opens input ↔ parseTypeDecls input ≠ .ok [] := by
    rw [Ne, parse_eq_nil_iff, Opens]
    push Not
    simp only [Bool.not_eq_false]
  rw [some]
  constructor
  · intro promise none
    exact absurd (promise.declared [] none) (Nat.lt_irrefl 0)
  · intro some
    refine ⟨fun decls parsed => ?_, fun panics => some (soaDerive_eq_indexPanic_iff.mp panics)⟩
    rw [List.length_pos_iff]
    rintro rfl
    exact some parsed

/-! ## The parts of an item -/

theorem opens_append {front back : TokenStream} :
    Opens (front ++ back) ↔ Opens front ∨ Opens back := by
  unfold Opens
  simp only [List.mem_append, or_and_right, exists_or]

theorem opens_cons {token : TokenTree} {rest : TokenStream} :
    Opens (token :: rest) ↔ opensDecl token = true ∨ Opens rest := by
  unfold Opens
  simp only [List.mem_cons, or_and_right, exists_or, exists_eq_left]

theorem not_opens_nil : ¬ Opens [] := fun ⟨_, member, _⟩ => List.not_mem_nil member

theorem not_opens_attrTokens (attrs : List TokenStream) : ¬ Opens (attrTokens attrs) := by
  rintro ⟨token, member, opens⟩
  obtain ⟨stream, _, inside⟩ := List.mem_flatMap.mp member
  rcases List.mem_pair.mp inside with rfl | rfl
  · cases opens
  · cases opens

/-- Only a visibility that is written out begins a declaration. -/
theorem ItemVis.opens_iff (vis : ItemVis) : Opens vis.tokens ↔ vis.IsPub := by
  match vis with
  | .fragment stream =>
      refine iff_of_false ?_ (fun ⟨_, same⟩ => nomatch same)
      rw [ItemVis.tokens, opens_cons]
      exact not_or.mpr ⟨Bool.false_ne_true, not_opens_nil⟩
  | .written none =>
      exact iff_of_false not_opens_nil (fun ⟨_, same⟩ => nomatch same)
  | .written (some none) =>
      exact iff_of_true (opens_cons.mpr (.inl rfl)) ⟨none, rfl⟩
  | .written (some (some restriction)) =>
      exact iff_of_true (opens_cons.mpr (.inl rfl)) ⟨some restriction, rfl⟩

namespace ItemKind

/-- The keyword of a union begins no declaration. -/
theorem opensDecl_keyword (kind : ItemKind) :
    opensDecl (.ident kind.keyword) = true ↔ kind.isUnion = false := by
  cases kind with
  | struct shape => exact iff_of_true rfl rfl
  | enum variants => exact iff_of_true rfl rfl
  | union stream => exact iff_of_false Bool.false_ne_true Bool.false_ne_true.symm

theorem not_opens_front (kind : ItemKind) : ¬ Opens kind.front := by
  match kind with
  | .struct (.tuple stream) =>
      rw [front, opens_cons]
      exact not_or.mpr ⟨Bool.false_ne_true, not_opens_nil⟩
  | .struct (.named _) | .struct .unit | .enum _ | .union _ => exact not_opens_nil

theorem not_opensDecl_last (kind : ItemKind) : ¬ opensDecl kind.last = true := by
  match kind with
  | .struct (.named _) | .enum _ | .union _ => exact Bool.false_ne_true
  | .struct (.tuple _) | .struct .unit => exact Bool.false_ne_true

end ItemKind

/-- **The items a derive is applied to.** The macro answers exactly when the item is no
union, its visibility is written out, or its generics or bounds have a token outside
the groups that begins a declaration. -/
theorem derive_answers_iff (item : DeriveItem) :
    Answers item.tokens ↔
      item.kind.isUnion = false ∨ item.vis.IsPub ∨ Opens (item.generics ++ item.whereClause) := by
  have lead : Opens (attrTokens item.attrs ++ item.vis.tokens) ↔ item.vis.IsPub := by
    rw [opens_append, item.vis.opens_iff, or_iff_right (not_opens_attrTokens _)]
  have rest : Opens (item.generics ++ item.kind.front ++ item.whereClause ++ [item.kind.last]) ↔
      Opens (item.generics ++ item.whereClause) := by
    rw [opens_append, opens_append, opens_append, opens_cons, opens_append,
      or_iff_left item.kind.not_opens_front,
      or_iff_left (not_or.mpr ⟨item.kind.not_opensDecl_last, not_opens_nil⟩)]
  have name : ¬ opensDecl (.ident item.name) = true := by
    rw [item.name_plain]
    exact Bool.false_ne_true
  rw [answers_iff, DeriveItem.tokens, opens_append, lead, opens_cons, opens_cons, rest,
    or_iff_right name, item.kind.opensDecl_keyword]
  exact or_left_comm

/-- A union that is not public. -/
def privateUnion : DeriveItem where
  attrs := []
  vis := .written none
  kind := .union [.ident "a", .punct ':', .ident "u32"]
  name := "U"
  generics := []
  whereClause := []
  name_plain := rfl

/-- `union U { a: u32 }` makes the macro panic. -/
theorem private_union_panics : ¬ ∀ item : DeriveItem, Answers item.tokens := by
  intro claim
  exact (claim privateUnion).answered rfl

end Soa

end Stdx
