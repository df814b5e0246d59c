import RadixScript.Token.Basic

/-!
# Program trees

Expressions and statements keep the tokens that messages need: operators, names, the word `return`
and the parenthesis that closes a call. A tree has a parameter `δ` for what is known about the
scope of a name. After parsing that is nothing (`Unit`); after resolution it is the number of
scopes between the use of a local name and its declaration (`Option Nat`).
-/

namespace RadixScript

/-- An expression whose uses of names carry a `δ`. -/
inductive Expr (δ : Type) where
  | literal (value : Literal)
  | group (inner : Expr δ)
  | unary (op : Token) (operand : Expr δ)
  | binary (left : Expr δ) (op : Token) (right : Expr δ)
  | logical (left : Expr δ) (op : Token) (right : Expr δ)
  | reference (name : Token) (scope : δ)
  | assign (name : Token) (scope : δ) (value : Expr δ)
  | call (callee : Expr δ) (paren : Token) (arguments : List (Expr δ))

/-- A statement whose uses of names carry a `δ`. -/
inductive Stmt (δ : Type) where
  | expr (e : Expr δ)
  | letDecl (name : Token) (init : Option (Expr δ)) (type : Option Token)
  | block (body : List (Stmt δ))
  | branch (condition : Expr δ) (thenBranch : Stmt δ) (elseBranch : Option (Stmt δ))
  | returnStmt (keyword : Token) (value : Option (Expr δ))
  | functionDecl (name : Token) (params : List Token) (body : List (Stmt δ))
  | namespaceDecl (name : Token) (body : List (Stmt δ))

/-- A program: its statements, in order. -/
abbrev Program (δ : Type) := List (Stmt δ)

/-! ## Changing what is known about names -/

variable {δ ε : Type}

mutual

/-- Changes what every use of a name in an expression carries. -/
def Expr.map (f : δ → ε) : Expr δ → Expr ε
  | .literal v => .literal v
  | .group e => .group (e.map f)
  | .unary op e => .unary op (e.map f)
  | .binary l op r => .binary (l.map f) op (r.map f)
  | .logical l op r => .logical (l.map f) op (r.map f)
  | .reference name s => .reference name (f s)
  | .assign name s e => .assign name (f s) (e.map f)
  | .call callee paren args => .call (callee.map f) paren (Expr.mapAll f args)

/-- Changes what every use of a name in a list of expressions carries. -/
def Expr.mapAll (f : δ → ε) : List (Expr δ) → List (Expr ε)
  | [] => []
  | e :: es => e.map f :: Expr.mapAll f es

end

mutual

/-- Changes what every use of a name in a statement carries. -/
def Stmt.map (f : δ → ε) : Stmt δ → Stmt ε
  | .expr e => .expr (e.map f)
  | .letDecl name init type => .letDecl name (init.map (Expr.map f)) type
  | .block body => .block (Stmt.mapAll f body)
  | .branch c t none => .branch (c.map f) (t.map f) none
  | .branch c t (some e) => .branch (c.map f) (t.map f) (some (e.map f))
  | .returnStmt keyword value => .returnStmt keyword (value.map (Expr.map f))
  | .functionDecl name params body => .functionDecl name params (Stmt.mapAll f body)
  | .namespaceDecl name body => .namespaceDecl name (Stmt.mapAll f body)

/-- Changes what every use of a name in a list of statements carries. -/
def Stmt.mapAll (f : δ → ε) : List (Stmt δ) → List (Stmt ε)
  | [] => []
  | s :: ss => s.map f :: Stmt.mapAll f ss

end

/-- A program in which no use of a name has been resolved. -/
def Program.unresolved (p : Program Unit) : Program (Option Nat) := Stmt.mapAll (fun _ => none) p

end RadixScript
