import OverDelimited.Literal

/-!
# Host expressions

The part of a host language that holds or surrounds template literals: names, strings, template
literals with or without a tag, calls, member accesses and arrays.  A program is a list of
expressions.  This is the node model of the specification, section 10.2.
-/

namespace OverDelimited

/-- An expression of the host language. -/
inductive Expr where
  | identifier (name : String)
  | string (value : String)
  | template (literal : Literal Expr)
  /-- A literal with an expression written directly in front of it.  The tag may be a tagged
  literal itself: that is how a host parser reads a run of more than one delimiter. -/
  | tagged (tag : Expr) (literal : Literal Expr)
  | call (callee : Expr) (arguments : List Expr)
  | member (object : Expr) (property : String)
  | array (elements : List Expr)

/-- One unit of code handed over by the host. -/
structure Program where
  body : List Expr

namespace Expr

/-! ### Padding -/

/-- A bare literal without text: a delimiter pair that closed right against itself. -/
def isTrivialLiteral : Expr → Bool
  | template l => l.isTrivial
  | _ => false

/-- A tagged literal without text. -/
def isTriviallyTagged : Expr → Bool
  | tagged _ l => l.isTrivial
  | _ => false

/-- Follows an expression by `n` delimiter pairs that close right against themselves. -/
def close : Nat → Expr → Expr
  | 0, e => e
  | n + 1, e => tagged (close n e) .trivial

/-! ### Equality -/

mutual
/-- Whether two expressions are the same. -/
def same : Expr → Expr → Bool
  | identifier a, identifier b => a == b
  | string a, string b => a == b
  | template l, template m => sameLiteral l m
  | tagged t l, tagged u m => same t u && sameLiteral l m
  | call c as, call d bs => same c d && sameAll as bs
  | member o p, member q r => same o q && p == r
  | array as, array bs => sameAll as bs
  | _, _ => false

/-- Whether two literals have the same segments and placeholders. -/
def sameLiteral : Literal Expr → Literal Expr → Bool
  | .text s, .text t => decide (s = t)
  | .hole s p rest, .hole t q rest' => decide (s = t) && same p q && sameLiteral rest rest'
  | _, _ => false

/-- Whether two lists of expressions are the same, element by element. -/
def sameAll : List Expr → List Expr → Bool
  | [], [] => true
  | a :: as, b :: bs => same a b && sameAll as bs
  | _, _ => false
end

mutual
theorem same_iff : ∀ a b : Expr, same a b = true ↔ a = b
  | identifier a, b => by cases b <;> simp [same]
  | string a, b => by cases b <;> simp [same]
  | template l, b => by cases b <;> simp [same, sameLiteral_iff l]
  | tagged t l, b => by cases b <;> simp [same, same_iff t, sameLiteral_iff l]
  | call c as, b => by cases b <;> simp [same, same_iff c, sameAll_iff as]
  | member o p, b => by cases b <;> simp [same, same_iff o]
  | array as, b => by cases b <;> simp [same, sameAll_iff as]

theorem sameLiteral_iff : ∀ l m : Literal Expr, sameLiteral l m = true ↔ l = m
  | .text s, m => by cases m <;> simp [sameLiteral]
  | .hole s p rest, m => by
    cases m <;> simp [sameLiteral, same_iff p, sameLiteral_iff rest, and_assoc]

theorem sameAll_iff : ∀ as bs : List Expr, sameAll as bs = true ↔ as = bs
  | [], bs => by cases bs <;> simp [sameAll]
  | a :: as, bs => by cases bs <;> simp [sameAll, same_iff a, sameAll_iff as]
end

instance : DecidableEq Expr := fun a b => decidable_of_iff _ (same_iff a b)

end Expr

deriving instance DecidableEq for Program

end OverDelimited
