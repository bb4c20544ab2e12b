import Monkey.Program

/-!
# Levels of binding

How tightly an operator holds its operands.  A token that is no operator binds at the lowest level.
-/

namespace Monkey

inductive Level where
  | lowest
  | equality
  | ordering
  | sum
  | product
  | unary
  | call
  | index
  deriving DecidableEq

/-- The place of a level, counted from the loosest. -/
def Level.rank : Level → Nat
  | lowest => 0
  | equality => 1
  | ordering => 2
  | sum => 3
  | product => 4
  | unary => 5
  | call => 6
  | index => 7

namespace Token.Kind

/-- The level at which a token continues the expression before it. -/
def level : Kind → Level
  | equal | notEqual => .equality
  | lessThan | greaterThan => .ordering
  | plus | minus => .sum
  | slash | asterisk => .product
  | lparen => .call
  | lbracket => .index
  | _ => .lowest

/-- The operator that a token between two operands stands for. -/
def binaryOp? : Kind → Option BinaryOp
  | equal => some .eq
  | notEqual => some .ne
  | lessThan => some .lt
  | greaterThan => some .gt
  | plus => some .add
  | minus => some .sub
  | slash => some .div
  | asterisk => some .mul
  | _ => none

/-- The tokens that may begin an expression. -/
def startsExpr : Kind → Bool
  | ident | int | string | bang | minus | trueWord | falseWord | lparen | ifWord | fnWord
  | lbracket | lbrace => true
  | _ => false

end Token.Kind

end Monkey
