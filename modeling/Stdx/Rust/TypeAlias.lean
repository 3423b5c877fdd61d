import Stdx.Rust.Composition
import Stdx.Rust.StructFields

/-! # Type aliases

After the name of an alias the parser goes on with the next token, so the tokens of
the type are looked at as if they began declarations. An alias is read alone exactly
when none of them does (`Stdx.Rust.alias_reads_alone_iff`); `fn` and `const` do, in
the types of functions and raw pointers.
-/

namespace Stdx

namespace Rust

open Foundation

/-- The tokens of `type name = ty;`. -/
def aliasTokens (name : String) (ty : TokenStream) : TokenStream :=
  .ident "type" :: .ident name :: .punct '=' :: (ty ++ [.punct ';'])

/-- The alias is read as the one declaration it is, and whatever follows it is read
as without it. -/
structure AliasReadsAlone (name : String) (ty : TokenStream) : Prop where
  alone : parseTypeDecls (aliasTokens name ty) = .ok [.typeAlias name]
  followed : ∀ items, parseTypeDecls (aliasTokens name ty ++ items) =
    (parseTypeDecls items).map ([.typeAlias name] ++ ·)

variable {tokens rest : TokenStream} {token : TokenTree} {name : String}

/-- Tokens that begin no declaration are skipped. -/
theorem parse_of_no_decl {front : TokenStream}
    (skipped : ∀ token ∈ front, opensDecl token = false) (tokens : TokenStream) :
    parseTypeDecls (front ++ tokens) = parseTypeDecls tokens := by
  induction front with
  | nil => rfl
  | cons token front ih =>
      obtain ⟨here, others⟩ := List.forall_mem_cons.mp skipped
      have step : declRound token (front ++ tokens) = .ok ([], front ++ tokens) :=
        declRound_eq_ok.mpr (.skip here)
      unfold parseTypeDecls at ih ⊢
      rw [List.cons_append, consume_cons declRound_advances step, map_nil_append]
      exact ih others

/-- A round that adds nothing has skipped its token. -/
theorem DeclStep.of_nil {left : TokenStream} (step : DeclStep token rest [] left) :
    opensDecl token = false ∧ left = rest := by
  cases step with
  | skip skipped => exact ⟨skipped, rfl⟩

/-- Where nothing is declared no token begins a declaration. -/
theorem no_decl_of_parse_nil (parsed : parseTypeDecls tokens = .ok []) :
    ∀ token ∈ tokens, opensDecl token = false := by
  have general : ([] : List TypeDecl) = [] → ∀ token ∈ tokens, opensDecl token = false := by
    refine consume_induction declRound_advances (motive := fun tokens decls =>
      decls = [] → ∀ token ∈ tokens, opensDecl token = false)
      (fun _ => List.forall_mem_nil _) ?_ parsed
    intro token rest items left more step _ ih none
    obtain ⟨rfl, rfl⟩ := List.append_eq_nil_iff.mp none
    obtain ⟨here, rfl⟩ := (declRound_eq_ok.mp step).of_nil
    exact List.forall_mem_cons.mpr ⟨here, ih rfl⟩
  exact general rfl

/-- An alias is declared, and its type is read from the sign on. -/
theorem parse_alias (name : String) (ty items : TokenStream) :
    parseTypeDecls (aliasTokens name ty ++ items) =
      (parseTypeDecls (ty ++ .punct ';' :: items)).map ([.typeAlias name] ++ ·) := by
  have step : declRound (.ident "type") (.ident name :: .punct '=' :: (ty ++ .punct ';' :: items)) =
      .ok ([.typeAlias name], .punct '=' :: (ty ++ .punct ';' :: items)) :=
    declRound_eq_ok.mpr .typeAlias
  have shape : aliasTokens name ty ++ items =
      .ident "type" :: .ident name :: .punct '=' :: (ty ++ .punct ';' :: items) := by
    simp [aliasTokens]
  have sign : parseTypeDecls ([.punct '='] ++ (ty ++ .punct ';' :: items)) =
      parseTypeDecls (ty ++ .punct ';' :: items) :=
    parse_of_no_decl (by decide) _
  rw [shape, ← sign]
  exact consume_cons declRound_advances step

/-- **Type aliases.** An alias is read alone exactly when no token of its type begins
a declaration. -/
theorem alias_reads_alone_iff (name : String) (ty : TokenStream) :
    AliasReadsAlone name ty ↔ ∀ token ∈ ty, opensDecl token = false := by
  constructor
  · intro reads
    have alone := reads.alone
    rw [← List.append_nil (aliasTokens name ty), parse_alias] at alone
    obtain ⟨decls, parsed, same⟩ := map_eq_ok.mp alone
    obtain rfl : decls = [] := (List.cons.inj same).2
    exact fun token member => no_decl_of_parse_nil parsed token (List.mem_append_left _ member)
  · intro plain
    have read : ∀ items, parseTypeDecls (aliasTokens name ty ++ items) =
        (parseTypeDecls items).map ([.typeAlias name] ++ ·) := by
      intro items
      have ending : parseTypeDecls ([.punct ';'] ++ items) = parseTypeDecls items :=
        parse_of_no_decl (by decide) items
      rw [parse_alias, parse_of_no_decl plain]
      exact congrArg _ ending
    refine ⟨?_, read⟩
    have last := read []
    rw [List.append_nil] at last
    exact last

/-- `type P = *const u8;` is not accepted. -/
theorem pointer_alias_refused :
    ¬ ∀ (name : String) (ty : TokenStream), AliasReadsAlone name ty := by
  intro claim
  have alone := (claim "P" [.punct '*', .ident "const", .ident "u8"]).alone
  cases alone

end Rust

end Stdx
