import RadixScript.Tree.Attempt

/-!
# Reading expressions

Expressions are read by precedence. Assignment binds loosest and to the right; then come seven
levels of operators that bind to the left, unary operators and calls. `Kind.precedence?` gives the
level of an operator, zero being the loosest.

Two problems are recorded without giving up: a target of an assignment that is not a name, where
the assignment is dropped and its left side kept, and an argument past the limit.

The functions call each other on ever shorter lists or, on the same list, from the loosest level to
the tightest; the pair in each `termination_by` says so.
-/

namespace RadixScript

/-- How tight an operator between two operands binds. -/
def Kind.precedence? : Kind → Option Nat
  | .logicalOr => some 0
  | .logicalAnd => some 1
  | .bangEqual | .equalEqual => some 2
  | .greater | .greaterEqual | .less | .lessEqual => some 3
  | .bitwiseOr | .bitwiseAnd => some 4
  | .minus | .plus => some 5
  | .slash | .star | .percent => some 6
  | _ => none

/-- The number of levels of operators between two operands. -/
def levelCount : Nat := 7

/-- Whether an operator may skip its right operand. -/
def Kind.isLogical : Kind → Bool
  | .logicalOr | .logicalAnd => true
  | _ => false

/-- Whether an operator stands in front of its operand. -/
def Kind.isUnary : Kind → Bool
  | .bang | .minus => true
  | _ => false

/-- Two operands joined by an operator. -/
def Expr.join {δ : Type} (left : Expr δ) (op : Token) (right : Expr δ) : Expr δ :=
  if op.kind.isLogical then .logical left op right else .binary left op right

/-- The diagnostic for one more element of a list that has `count` already. -/
def crowding (eof : Token) (list : BoundedList) (count : Nat) (ts : List Token) :
    List Diagnostic :=
  if listLimit ≤ count then [complain eof ts (.tooMany list)] else []

mutual

/-- An expression: an assignment, or operators and operands. -/
def parseExpr (eof : Token) (ts : List Token) : Attempt ts.length (Expr Unit) :=
  (parseLevel eof 0 ts).andThen fun left rest h =>
    match rest, h with
    | [], _ => .done left []
    | op :: rest', h =>
      have : rest'.length < ts.length := Nat.lt_of_succ_lt h
      if op.kind = .equal then
        ((parseExpr eof rest').andThen fun value rest'' _ =>
          match left with
          | .reference name _ => .done (.assign name () value) rest''
          | _ => (Attempt.done left rest'').noting [.ofToken op (.grammatical .badTarget)]
        ).behind.behind
      else .done left (op :: rest')
termination_by (ts.length, 11 + levelCount)

/-- Operands joined by the operators of level `l` and tighter ones. -/
def parseLevel (eof : Token) (l : Nat) (ts : List Token) : Attempt ts.length (Expr Unit) :=
  if l < levelCount then
    (parseLevel eof (l + 1) ts).andThen fun left rest _ => parseOperators eof l left rest
  else
    parseUnary eof ts
termination_by (ts.length, 10 + (levelCount - l))

/-- The operators of level `l` after a left operand, each with its right operand. -/
def parseOperators (eof : Token) (l : Nat) (left : Expr Unit) (ts : List Token) :
    Attempt (ts.length + 1) (Expr Unit) :=
  match ts with
  | [] => .done left []
  | op :: rest =>
    if op.kind.precedence? = some l then
      ((parseLevel eof (l + 1) rest).andThen fun right rest' _ =>
        parseOperators eof l (left.join op right) rest').behind.behind
    else .done left (op :: rest)
termination_by (ts.length, 0)

/-- An operand with the operators in front of it. -/
def parseUnary (eof : Token) (ts : List Token) : Attempt ts.length (Expr Unit) :=
  match ts with
  | [] => parseCall eof []
  | op :: rest =>
    if op.kind.isUnary then ((parseUnary eof rest).map (.unary op)).behind
    else parseCall eof (op :: rest)
termination_by (ts.length, 9)

/-- An operand with the calls behind it. -/
def parseCall (eof : Token) (ts : List Token) : Attempt ts.length (Expr Unit) :=
  (parsePrimary eof ts).andThen fun callee rest _ => parseCalls eof callee rest
termination_by (ts.length, 8)

/-- The argument lists behind a callee. -/
def parseCalls (eof : Token) (callee : Expr Unit) (ts : List Token) :
    Attempt (ts.length + 1) (Expr Unit) :=
  match ts with
  | [] => .done callee []
  | t :: rest =>
    if t.kind = .leftParen then
      ((parseArguments eof rest).andThen fun (args, paren) rest' _ =>
        parseCalls eof (.call callee paren args) rest').behind.behind
    else .done callee (t :: rest)
termination_by (ts.length, 0)

/-- The arguments of a call and the parenthesis that closes it. -/
def parseArguments (eof : Token) (ts : List Token) :
    Attempt ts.length (List (Expr Unit) × Token) :=
  match ts with
  | [] => parseArgumentList eof 0 []
  | t :: rest =>
    if t.kind = .rightParen then .done ([], t) rest
    else parseArgumentList eof 0 (t :: rest)
termination_by (ts.length, 13 + levelCount)

/-- One argument and those behind it, when `count` are in front. -/
def parseArgumentList (eof : Token) (count : Nat) (ts : List Token) :
    Attempt ts.length (List (Expr Unit) × Token) :=
  ((parseExpr eof ts).next fun arg rest h =>
    match rest, h with
    | [], _ => (expect eof .parenAfterArguments []).map fun paren => ([arg], paren)
    | t :: rest', h =>
      have : rest'.length < ts.length := Nat.lt_of_succ_lt h
      if t.kind = .comma then
        ((parseArgumentList eof (count + 1) rest').map fun (args, paren) =>
          (arg :: args, paren)).behind
      else
        (expect eof .parenAfterArguments (t :: rest')).map fun paren => ([arg], paren)
  ).noting (crowding eof .arguments count ts)
termination_by (ts.length, 12 + levelCount)

/-- A literal, a name or an expression in parentheses. -/
def parsePrimary (eof : Token) (ts : List Token) : Attempt ts.length (Expr Unit) :=
  match ts with
  | [] => .abandoned [] [complain eof [] .noExpression] (Nat.le_refl _)
  | t :: rest =>
    match t.kind with
    | .falseWord => .done (.literal (.bool false)) rest
    | .trueWord => .done (.literal (.bool true)) rest
    | .nullWord => .done (.literal .null) rest
    | .identifier => .done (.reference t ()) rest
    | .leftParen =>
      ((parseExpr eof rest).next fun inner rest' _ =>
        (expect eof .parenAfterExpression rest').map fun _ => .group inner).behind
    | kind =>
      if kind.isLiteral then
        .done (.literal (t.literal.getD .null)) rest
      else .abandoned (t :: rest) [complain eof (t :: rest) .noExpression] (Nat.le_refl _)
termination_by (ts.length, 7)

end

end RadixScript
