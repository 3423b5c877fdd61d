import Mathlib.Data.List.Infix

/-! # Token streams

The token trees of `proc_macro` as the parser sees them: what its methods read
of a token, without spans and spacing, and the text of a token.
-/

namespace Stdx

namespace Rust

/-- `Delimiter`. -/
inductive Delimiter
  | parenthesis
  | brace
  | bracket
  | none
deriving DecidableEq

/-- `TokenTree`: a group by its delimiter and its stream, an identifier and a
literal by their text, a punctuation by its character. -/
inductive TokenTree
  | group (delimiter : Delimiter) (stream : List TokenTree)
  | ident (text : String)
  | punct (char : Char)
  | literal (text : String)

/-- `TokenStream`, and an iterator over one. -/
abbrev TokenStream := List TokenTree

namespace TokenTree

/-- The token is the given punctuation. -/
def isPunct (char : Char) : TokenTree → Bool
  | .punct other => other = char
  | .group _ _ | .ident _ | .literal _ => false

theorem eq_punct {token : TokenTree} {char : Char} (isPunct : token.isPunct char = true) :
    token = .punct char := by
  cases token with
  | punct other => rw [of_decide_eq_true isPunct]
  | group | ident | literal => cases isPunct

/-- The token is the given identifier. -/
def isIdent (text : String) : TokenTree → Bool
  | .ident other => other = text
  | .group _ _ | .punct _ | .literal _ => false

/-- The token is an identifier. -/
def isName : TokenTree → Bool
  | .ident _ => true
  | .group _ _ | .punct _ | .literal _ => false

/-- The token is a group in braces. -/
def isBrace : TokenTree → Bool
  | .group delimiter _ => delimiter = .brace
  | .ident _ | .punct _ | .literal _ => false

end TokenTree

/-- `token_to_string`. -/
def tokenToString : TokenTree → String
  | .ident text => text
  | .punct char => String.ofList [char]
  | .literal text => text
  | .group _ _ => "<group>"

/-- The text of all tokens of a stream. -/
def textOf (tokens : TokenStream) : String :=
  tokens.foldr (fun token text => tokenToString token ++ text) ""

/-- `char::is_whitespace`: the characters with the property `White_Space`. -/
def isWhitespace (char : Char) : Bool :=
  let code := char.toNat
  (0x9 ≤ code && code ≤ 0xd) || code == 0x20 || code == 0x85 || code == 0xa0 ||
    code == 0x1680 || (0x2000 ≤ code && code ≤ 0x200a) || code == 0x2028 || code == 0x2029 ||
    code == 0x202f || code == 0x205f || code == 0x3000

/-- `str::trim`. -/
def trim (text : String) : String :=
  .ofList ((text.toList.dropWhile isWhitespace).reverse.dropWhile isWhitespace).reverse

end Rust

end Stdx
