import OverDelimited.Chain
import OverDelimited.Text.Quoted

/-!
# Source notation

The text of an expression with backtick delimiters.  A literal shows its raw segments, so a
delimiter chain comes out as the over-delimited literal it was read from (specification,
section 10.12).
-/

namespace OverDelimited

/-- The delimiter of template literals. -/
def delimiter : Char := '\x60'

namespace Expr

mutual
/-- The source characters of an expression. -/
def sourceChars : Expr → List Char
  | identifier name => name.toList
  | string value => Text.quoted value.toList
  | template l => delimiter :: literalChars l ++ [delimiter]
  | tagged tag l => sourceChars tag ++ delimiter :: literalChars l ++ [delimiter]
  | call callee arguments => sourceChars callee ++ '(' :: listChars arguments ++ [')']
  | member object property => sourceChars object ++ '.' :: property.toList
  | array elements => '[' :: listChars elements ++ [']']

/-- What stands between the delimiters of a literal. -/
def literalChars : Literal Expr → List Char
  | .text s => s.raw.toList
  | .hole s p rest =>
    s.raw.toList ++ '$' :: '\x7b' :: sourceChars p ++ '\x7d' :: literalChars rest

/-- Expressions with commas between them. -/
def listChars : List Expr → List Char
  | [] => []
  | [e] => sourceChars e
  | e :: rest => sourceChars e ++ ',' :: ' ' :: listChars rest
end

/-- The source text of an expression. -/
def source (e : Expr) : String :=
  String.ofList e.sourceChars

end Expr

end OverDelimited
