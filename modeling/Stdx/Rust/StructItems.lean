import Mathlib.Data.List.Chain
import Stdx.Rust.Composition
import Stdx.Rust.FieldGrammar

/-! # Struct items

After the name of a struct the parser takes the next brace group for the body,
wherever it is. A list of struct items that is accepted is read back exactly
when the first brace group after each name is in that item and holds the fields
of that item (`Stdx.Rust.parseTypeDecls_items_iff`).
-/

namespace Stdx

namespace Rust

open Foundation

/-- The token begins a type declaration. -/
def opensType (token : TokenTree) : Bool :=
  token.isIdent "struct" || token.isIdent "enum" || token.isIdent "type"

/-- The second token is not the name of a function that the first one declares. -/
def NotNamed (first second : TokenTree) : Prop :=
  first.isIdent "fn" = true → second.isName = false

instance (first second : TokenTree) : Decidable (NotNamed first second) :=
  inferInstanceAs (Decidable (_ → _))

/-- What follows the generics of a struct: nothing, the types of a tuple and its
bounds, or named fields. -/
inductive StructBody
  | unit
  | tuple (types bounds : TokenStream)
  | named (trailing : Bool) (decls : List FieldDecl)

namespace StructBody

/-- The tokens of the body before the last one. -/
def front : StructBody → TokenStream
  | .tuple types bounds => .group .parenthesis types :: bounds
  | .unit | .named _ _ => []

/-- The last token of the item. -/
def last : StructBody → TokenTree
  | .named trailing decls => .group .brace (renderFields trailing decls)
  | .unit | .tuple _ _ => .punct ';'

/-- The fields with a name. -/
def fields : StructBody → List Field
  | .named _ decls => decls.map FieldDecl.field
  | .unit | .tuple _ _ => []

end StructBody

/-- A complete struct item. In its generics and bounds no keyword begins an item,
and `fn` only begins the type of a function. -/
structure StructItem where
  attrs : List TokenStream
  vis : Option (Option TokenStream)
  name : String
  generics : TokenStream
  body : StructBody
  name_plain : name ≠ "struct" ∧ name ≠ "fn"
  plain : ∀ token ∈ generics ++ body.front, opensType token = false
  chain : List.IsChain NotNamed (generics ++ body.front)

namespace StructItem

/-- The tokens before the keyword. -/
def lead (item : StructItem) : TokenStream := attrTokens item.attrs ++ visTokens item.vis

/-- The tokens after the name. -/
def rest (item : StructItem) : TokenStream := item.generics ++ item.body.front ++ [item.body.last]

/-- The tokens of the item. -/
def tokens (item : StructItem) : TokenStream :=
  item.lead ++ .ident "struct" :: .ident item.name :: item.rest

/-- The declaration the item is. -/
def decl (item : StructItem) : TypeDecl := .struct item.name item.body.fields

/-- The first brace group after the name is the body and its fields are plain, or
it is in the generics and the grammar of fields derives the fields of the item from it. -/
def OwnBody (item : StructItem) : Prop :=
  match findBrace (item.generics ++ item.body.front) with
  | some (stream, _) => ∃ derivation : Derivation, derivation.tokens = stream ∧
      derivation.fields = item.body.fields
  | none =>
      match item.body with
      | .named _ decls => ∀ decl ∈ decls, decl.Plain
      | .unit | .tuple _ _ => False

end StructItem

/-- The tokens of a list of items. -/
def renderItems (items : List StructItem) : TokenStream := items.flatMap StructItem.tokens

variable {tokens rest left : TokenStream} {token : TokenTree}

/-! ## Where no function has a name -/

theorem takeModifiers_eq (count : Nat) (tokens : TokenStream) :
    (takeModifiers count tokens).1.map TokenTree.ident ++ (takeModifiers count tokens).2 =
      tokens := by
  fun_induction takeModifiers count tokens with
  | case1 count text rest modifier taken ih => exact congrArg (TokenTree.ident text :: ·) ih
  | case2 => rfl
  | case3 => rfl

/-- Modifiers leave the name open where `fn` has none. -/
theorem readModifiers_name {modifiers read : Modifiers} {texts : List String}
    (open_ : modifiers.name = none)
    (chain : List.IsChain NotNamed (texts.map TokenTree.ident ++ tokens))
    (result : readModifiers modifiers texts tokens = .ok (read, left)) : read.name = none := by
  fun_induction readModifiers modifiers texts tokens with
  | case1 => cases result; exact open_
  | case2 _ _ _ ih => exact ih open_ chain.tail result
  | case3 _ _ _ _ ih => exact ih open_ chain.tail result
  | case4 _ _ _ _ _ ih => exact ih open_ chain.tail result
  | case5 _ texts _ _ _ name rest ih =>
      have noName := (List.isChain_cons.mp chain).1
      cases texts with
      | nil => exact absurd (noName _ rfl rfl) (by simp [TokenTree.isName])
      | cons text texts => exact absurd (noName _ rfl rfl) (by simp [TokenTree.isName])
  | case6 => cases result
  | case7 _ _ _ _ _ _ _ _ ih => exact ih open_ chain.tail result

/-- No signature is read where `fn` has no name. -/
theorem parseFunctionSig_ne_ok {text : String}
    (chain : List.IsChain NotNamed (.ident text :: tokens)) (sig : FunctionSig) :
    parseFunctionSig text tokens ≠ .ok (sig, left) := by
  intro result
  obtain ⟨modifiers, rest, name, args, ret, read, named, _⟩ := parseFunctionSig_eq_ok.mp result
  have none := readModifiers_name rfl
    (by rw [List.map_cons, List.cons_append, takeModifiers_eq]; exact chain) read
  rw [none] at named
  cases named

/-- A token that begins no type is skipped, where `fn` has no name. -/
theorem declRound_skip {items : List TypeDecl} (noType : opensType token = false)
    (chain : List.IsChain NotNamed (token :: rest))
    (step : declRound token rest = .ok (items, left)) : items = [] ∧ left = rest := by
  cases declRound_eq_ok.mp step with
  | struct => cases noType
  | enum => cases noType
  | typeAlias => cases noType
  | function _ parsed => exact (parseFunctionSig_ne_ok chain _ parsed).elim
  | skip => exact ⟨rfl, rfl⟩

/-- Tokens that begin no type are skipped, if the parse succeeds at all. -/
theorem parse_skip {front : TokenStream} {decls : List TypeDecl}
    (plain : ∀ token ∈ front, opensType token = false)
    (chain : List.IsChain NotNamed (front ++ tokens))
    (parsed : parseTypeDecls (front ++ tokens) = .ok decls) :
    parseTypeDecls tokens = .ok decls := by
  induction front with
  | nil => exact parsed
  | cons token front ih =>
      obtain ⟨items, left, more, step, later, rfl⟩ :=
        (consume_cons_eq_ok declRound_advances).mp parsed
      obtain ⟨rfl, rfl⟩ := declRound_skip (plain token List.mem_cons_self) chain step
      exact ih (fun other member => plain other (List.mem_cons_of_mem _ member)) chain.tail later

/-! ## One item -/

namespace StructItem

/-- What stands before the keyword of an item. -/
theorem lead_cases {item : StructItem} (member : token ∈ item.lead) :
    token = .punct '#' ∨ (∃ stream, token = .group .bracket stream) ∨ token = .ident "pub" ∨
      ∃ stream, token = .group .parenthesis stream := by
  rcases List.mem_append.mp member with attr | vis
  · obtain ⟨stream, _, inside⟩ := List.mem_flatMap.mp attr
    simp only [List.mem_cons, List.not_mem_nil, or_false] at inside
    rcases inside with rfl | rfl
    · exact .inl rfl
    · exact .inr (.inl ⟨stream, rfl⟩)
  · obtain ⟨attrs, _ | _ | restriction, name, generics, body⟩ := item
    · cases vis
    · exact .inr (.inr (.inl (List.mem_singleton.mp vis)))
    · simp only [visTokens, List.mem_cons, List.not_mem_nil, or_false] at vis
      rcases vis with rfl | rfl
      · exact .inr (.inr (.inl rfl))
      · exact .inr (.inr (.inr ⟨restriction, rfl⟩))

theorem lead_plain (item : StructItem) :
    ∀ token ∈ item.lead, opensType token = false ∧ token.isBrace = false ∧
      token.isIdent "fn" = false := by
  intro token member
  rcases lead_cases member with rfl | ⟨_, rfl⟩ | rfl | ⟨_, rfl⟩ <;> exact ⟨rfl, rfl, rfl⟩

/-- What stands after the name of an item begins no type. -/
theorem rest_plain (item : StructItem) : ∀ token ∈ item.rest, opensType token = false := by
  intro token member
  rcases List.mem_append.mp member with inside | last
  · exact item.plain token inside
  · obtain rfl := List.mem_singleton.mp last
    cases item.body <;> rfl

end StructItem

/-- No function begins in tokens without `fn`. -/
theorem chain_append {front : TokenStream} (noFn : ∀ token ∈ front, token.isIdent "fn" = false)
    (chain : List.IsChain NotNamed tokens) : List.IsChain NotNamed (front ++ tokens) := by
  induction front with
  | nil => exact chain
  | cons token front ih =>
      refine List.isChain_cons.mpr ⟨fun _ _ isFn => ?_, ih fun other member =>
        noFn other (List.mem_cons_of_mem _ member)⟩
      rw [noFn token List.mem_cons_self] at isFn
      cases isFn

/-- No function gets a name in an item. -/
theorem StructItem.chain_tokens (item : StructItem) (chain : List.IsChain NotNamed tokens) :
    List.IsChain NotNamed (item.tokens ++ tokens) := by
  have last : item.body.last.isIdent "fn" = false ∧ item.body.last.isName = false := by
    cases item.body <;> exact ⟨rfl, rfl⟩
  have noFn : (TokenTree.ident item.name).isIdent "fn" = false :=
    decide_eq_false item.name_plain.2
  have after : List.IsChain NotNamed ([item.body.last] ++ tokens) :=
    chain_append (by simpa using last.1) chain
  have middle :
      List.IsChain NotNamed (item.generics ++ item.body.front ++ item.body.last :: tokens) :=
    item.chain.append after fun _ _ second isLast _ => by cases isLast; exact last.2
  have shape : item.tokens ++ tokens =
      item.lead ++ ([.ident "struct", .ident item.name] ++
        (item.generics ++ item.body.front ++ item.body.last :: tokens)) := by
    simp [StructItem.tokens, StructItem.rest]
  rw [shape]
  refine chain_append (fun token member => (item.lead_plain token member).2.2)
    (chain_append ?_ middle)
  intro token member
  rcases List.mem_cons.mp member with rfl | member
  · rfl
  · obtain rfl := List.mem_singleton.mp member
    exact noFn

theorem chain_renderItems (items : List StructItem) :
    List.IsChain NotNamed (renderItems items) := by
  induction items with
  | nil => exact .nil
  | cons item items ih => exact item.chain_tokens ih

/-- The keyword and a name begin a struct and nothing else. -/
theorem declStep_struct {name : String} {items : List TypeDecl}
    (step : DeclStep (.ident "struct") (.ident name :: tokens) items left) :
    ∃ stream fields, findBrace tokens = some (stream, left) ∧
      parseStructFields stream = .ok fields ∧ items = [.struct name fields] := by
  generalize keyword : TokenTree.ident "struct" = token at step
  cases step with
  | struct found parsed => exact ⟨_, _, found, parsed, rfl⟩
  | enum | typeAlias => exact absurd (TokenTree.ident.inj keyword) (by decide)
  | function modifier _ =>
      rw [← TokenTree.ident.inj keyword] at modifier
      exact absurd modifier (by decide)
  | skip skipped =>
      rw [← keyword] at skipped
      exact absurd skipped (by decide)

/-- The parse of an item from its keyword on. -/
theorem parse_item {item : StructItem} {decls : List TypeDecl}
    (chain : List.IsChain NotNamed tokens)
    (parsed : parseTypeDecls (item.tokens ++ tokens) = .ok decls) :
    ∃ stream left fields more, findBrace (item.rest ++ tokens) = some (stream, left) ∧
      parseStructFields stream = .ok fields ∧ parseTypeDecls left = .ok more ∧
        decls = .struct item.name fields :: more := by
  have whole := item.chain_tokens chain
  rw [StructItem.tokens, List.append_assoc, List.cons_append, List.cons_append] at whole parsed
  have keyword := parse_skip (fun token member => (item.lead_plain token member).1) whole parsed
  generalize item.rest ++ tokens = after at keyword ⊢
  obtain ⟨items, left, more, step, later, rfl⟩ :=
    (consume_cons_eq_ok declRound_advances).mp keyword
  obtain ⟨stream, fields, found, own, rfl⟩ := declStep_struct (declRound_eq_ok.mp step)
  exact ⟨stream, left, fields, more, found, own, later, rfl⟩

/-! ## Counting -/

/-- The number of keywords that begin a struct. -/
def structCount (tokens : TokenStream) : Nat := tokens.countP (TokenTree.isIdent "struct")

/-- The declaration is a struct. -/
def TypeDecl.isStruct : TypeDecl → Bool
  | .struct _ _ => true
  | .enum _ _ | .typeAlias _ | .function _ => false

theorem structCount_le_of_suffix (part : left <:+ tokens) : structCount left ≤ structCount tokens :=
  part.sublist.countP_le

/-- Every struct that is returned has a keyword of its own. -/
theorem countP_isStruct_le {decls : List TypeDecl} (parsed : parseTypeDecls tokens = .ok decls) :
    decls.countP TypeDecl.isStruct ≤ structCount tokens := by
  refine consume_induction declRound_advances (motive := fun tokens decls =>
    decls.countP TypeDecl.isStruct ≤ structCount tokens) le_rfl ?_ parsed
  intro token rest items left more step _ ih
  have part := structCount_le_of_suffix (declRound_advances _ _ _ _ step)
  have whole := structCount_le_of_suffix (List.suffix_cons token rest)
  rw [List.countP_append]
  have keyword : structCount (.ident "struct" :: rest) = structCount rest + 1 :=
    List.countP_cons_of_pos rfl
  cases declRound_eq_ok.mp step with
  | struct =>
      change 1 + _ ≤ _
      omega
  | enum | typeAlias | function | skip =>
      exact (Nat.zero_add _).le.trans (ih.trans (part.trans whole))

theorem structCount_item (item : StructItem) (tokens : TokenStream) :
    structCount (item.tokens ++ tokens) = structCount tokens + 1 := by
  have lead : item.lead.countP (TokenTree.isIdent "struct") = 0 := by
    refine List.countP_eq_zero.mpr fun token member => ?_
    have plain := (item.lead_plain token member).1
    simp only [opensType, Bool.or_eq_false_iff] at plain
    simp [plain.1.1]
  have rest : item.rest.countP (TokenTree.isIdent "struct") = 0 := by
    refine List.countP_eq_zero.mpr fun token member => ?_
    have plain := item.rest_plain token member
    simp only [opensType, Bool.or_eq_false_iff] at plain
    simp [plain.1.1]
  have name : (TokenTree.ident item.name).isIdent "struct" = false :=
    decide_eq_false item.name_plain.1
  unfold structCount StructItem.tokens
  rw [List.countP_append, List.countP_append, lead, List.countP_cons_of_pos rfl,
    List.countP_cons_of_neg (by simp [name]), rest]
  omega

theorem structCount_renderItems (items : List StructItem) :
    structCount (renderItems items) = items.length := by
  induction items with
  | nil => rfl
  | cons item items ih =>
      rw [List.length_cons, ← ih]
      exact structCount_item item (renderItems items)

/-! ## The body of an item -/

theorem findBrace_append_none {front : TokenStream} (none : findBrace front = none)
    (tokens : TokenStream) : findBrace (front ++ tokens) = findBrace tokens := by
  fun_induction findBrace front with
  | case1 => rfl
  | case2 => cases none
  | case3 token rest other ih =>
      rw [List.cons_append, findBrace]
      · exact ih none
      · exact other

theorem findBrace_eq_none {front : TokenStream} (noBrace : ∀ token ∈ front, token.isBrace = false) :
    findBrace front = none := by
  fun_induction findBrace front with
  | case1 => rfl
  | case2 => exact absurd (noBrace _ List.mem_cons_self) (by simp [TokenTree.isBrace])
  | case3 token rest other ih =>
      exact ih fun other member => noBrace other (List.mem_cons_of_mem _ member)

/-- The first brace group after the name is in the item and reads as its fields. -/
theorem StructItem.ownBody_iff (item : StructItem) :
    item.OwnBody ↔ ∃ stream left, findBrace item.rest = some (stream, left) ∧
      parseStructFields stream = .ok item.body.fields := by
  unfold StructItem.OwnBody StructItem.rest
  cases header : findBrace (item.generics ++ item.body.front) with
  | some found =>
      obtain ⟨stream, left⟩ := found
      rw [findBrace_append header]
      refine (consume_eq_ok_iff "field").symm.trans ?_
      constructor
      · intro own
        exact ⟨stream, _, rfl, own⟩
      · rintro ⟨_, _, found, own⟩
        cases found
        exact own
  | none =>
      rw [findBrace_append_none header]
      cases item.body with
      | unit => simp [StructBody.last, findBrace]
      | tuple => simp [StructBody.last, findBrace]
      | named trailing decls =>
          refine (consume_render_iff "field" trailing decls).symm.trans ?_
          constructor
          · intro own
            exact ⟨_, [], rfl, own⟩
          · rintro ⟨stream, left, found, own⟩
            cases found
            exact own

/-- A brace group in a list of items has the keyword of its item before it. -/
theorem structCount_lt_of_findBrace {items : List StructItem} {stream : TokenStream}
    (found : findBrace (renderItems items) = some (stream, left)) :
    structCount left < items.length := by
  cases items with
  | nil => cases found
  | cons item items =>
      rw [← structCount_renderItems (item :: items)]
      change findBrace (item.tokens ++ renderItems items) = _ at found
      change _ < structCount (item.tokens ++ renderItems items)
      rw [StructItem.tokens, List.append_assoc, findBrace_append_none
        (findBrace_eq_none fun token member => (item.lead_plain token member).2.1)] at found
      change findBrace (item.rest ++ renderItems items) = _ at found
      calc structCount left ≤ structCount (.ident item.name :: (item.rest ++ renderItems items)) :=
            structCount_le_of_suffix ((findBrace_suffix found).trans (List.suffix_cons _ _))
        _ < structCount (.ident "struct" :: .ident item.name :: (item.rest ++ renderItems items)) :=
            (Nat.lt_succ_self _).trans_eq (List.countP_cons_of_pos rfl).symm
        _ ≤ structCount (item.tokens ++ renderItems items) :=
            structCount_le_of_suffix ⟨item.lead, by simp [StructItem.tokens]⟩

/-- **Items read back.** -/
theorem parseTypeDecls_items_iff (items : List StructItem) (decls : List TypeDecl)
    (parsed : parseTypeDecls (renderItems items) = .ok decls) :
    decls = items.map StructItem.decl ↔ ∀ item ∈ items, item.OwnBody := by
  induction items generalizing decls with
  | nil => cases parsed; exact ⟨fun _ => nofun, fun _ => rfl⟩
  | cons item items ih =>
      obtain ⟨stream, left, fields, more, found, own, later, rfl⟩ :=
        parse_item (chain_renderItems items) parsed
      rw [List.forall_mem_cons, item.ownBody_iff]
      cases inside : findBrace item.rest with
      | some body =>
          obtain ⟨bodyStream, bodyLeft⟩ := body
          rw [findBrace_append inside] at found
          cases found
          have part : bodyLeft ++ renderItems items <:+ item.tokens ++ renderItems items := by
            obtain ⟨before, same⟩ := findBrace_suffix inside
            refine ⟨item.lead ++ .ident "struct" :: .ident item.name :: before, ?_⟩
            simp [StructItem.tokens, ← same]
          have rest : parseTypeDecls (renderItems items) = .ok more :=
            parse_skip
              (fun token member => item.rest_plain token ((findBrace_suffix inside).subset member))
              ((item.chain_tokens (chain_renderItems items)).suffix part) later
          rw [← ih more rest]
          constructor
          · intro same
            obtain ⟨head, tail⟩ := List.cons.inj same
            rw [← (TypeDecl.struct.inj head).2]
            exact ⟨⟨_, _, rfl, own⟩, tail⟩
          · rintro ⟨⟨_, _, here, read⟩, rfl⟩
            cases here
            rw [own] at read
            cases read
            rfl
      | none =>
          rw [findBrace_append_none inside] at found
          have fewer := structCount_lt_of_findBrace found
          have counted := countP_isStruct_le later
          constructor
          · intro same
            have all : more.countP TypeDecl.isStruct = items.length := by
              rw [(List.cons.inj same).2, List.countP_map]
              exact List.countP_eq_length.mpr fun _ _ => rfl
            omega
          · rintro ⟨⟨_, _, impossible, _⟩, _⟩
            cases impossible

/-- `struct Point<T> { x: T, y: T }` and `struct Byte { value: u8, }`. -/
def plainItems : List StructItem :=
  [⟨[], none, "Point", [.punct '<', .ident "T", .punct '>'],
      .named false [⟨[], none, "x", [.ident "T"]⟩, ⟨[], none, "y", [.ident "T"]⟩],
      by decide, by decide, by decide⟩,
    ⟨[[.ident "repr", .group .parenthesis [.ident "C"]]], none, "Byte", [],
      .named true [⟨[], none, "value", [.ident "u8"]⟩], by decide, by decide, by decide⟩]

theorem plainItems_read_back :
    [.struct "Point" [⟨"x", "T"⟩, ⟨"y", "T"⟩], .struct "Byte" [⟨"value", "u8"⟩]] =
      plainItems.map StructItem.decl := by
  refine (parseTypeDecls_items_iff plainItems _ (by decide)).mpr ?_
  intro item member
  simp only [plainItems, List.mem_cons, List.not_mem_nil, or_false] at member
  rcases member with rfl | rfl
  · change ∀ decl ∈ _, FieldDecl.Plain decl
    decide
  · change ∀ decl ∈ _, FieldDecl.Plain decl
    decide

/-- In `struct A; struct B { x: i32 }` the fields of the second struct are
reported under the name of the first, and the second is not reported. -/
theorem unit_struct_takes_fields :
    ¬ ∀ (items : List StructItem) (decls : List TypeDecl),
      parseTypeDecls (renderItems items) = .ok decls → decls = items.map StructItem.decl := by
  intro claim
  have same := claim
    [⟨[], none, "A", [], .unit, by decide, by decide, by decide⟩,
      ⟨[], none, "B", [], .named false [⟨[], none, "x", [.ident "i32"]⟩], by decide, by decide,
        by decide⟩]
    [.struct "A" [⟨"x", "i32"⟩]] (by decide)
  exact absurd same (by decide)

end Rust

end Stdx
