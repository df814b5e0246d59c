import RadixScript.Diagnostic
import RadixScript.Tree.Basic

/-!
# Resolution of local names

Before a program runs, every use of a local name is tagged with the number of scopes to go outwards
from the use to the scope that declares the name. Blocks and function bodies are scopes; a function
shares one scope between its parameters and the statements of its body. A name is declared from the
end of its `let` on, and a function already inside its own body. Names of the top level have no tag
and are looked up among the globals, and namespaces are not looked into.

Resolution also finds the `return` statements that lie outside of functions.
-/

namespace RadixScript

/-- The names declared so far in the scopes around a place, innermost scope first. At the top level
there is no scope. -/
abbrev LocalScopes := List (List String)

namespace LocalScopes

/-- Declares a name in the innermost scope. -/
def declare (scopes : LocalScopes) (name : String) : LocalScopes :=
  match scopes with
  | [] => []
  | scope :: outer => (name :: scope) :: outer

/-- Declares several names in the innermost scope. -/
def declareAll (scopes : LocalScopes) (names : List String) : LocalScopes :=
  names.foldl declare scopes

/-- How many scopes lie inside the innermost one that declares a name. -/
def distance? (scopes : LocalScopes) (name : String) : Option Nat :=
  scopes.findIdx? (·.contains name)

end LocalScopes

variable {δ : Type}

/-- The names that a statement declares in the scope around it. -/
def Stmt.declaredNames : Stmt δ → List String
  | .letDecl name _ _ => [name.text]
  | .functionDecl name _ _ => [name.text]
  | .branch _ t none => t.declaredNames
  | .branch _ t (some e) => t.declaredNames ++ e.declaredNames
  | _ => []

/-! ## Tagging -/

mutual

/-- Tags the uses of local names in an expression. -/
def Expr.resolve (scopes : LocalScopes) : Expr Unit → Expr (Option Nat)
  | .literal v => .literal v
  | .group e => .group (e.resolve scopes)
  | .unary op e => .unary op (e.resolve scopes)
  | .binary l op r => .binary (l.resolve scopes) op (r.resolve scopes)
  | .logical l op r => .logical (l.resolve scopes) op (r.resolve scopes)
  | .reference name _ => .reference name (scopes.distance? name.text)
  | .assign name _ e => .assign name (scopes.distance? name.text) (e.resolve scopes)
  | .call callee paren args => .call (callee.resolve scopes) paren (Expr.resolveAll scopes args)

/-- Tags the uses of local names in a list of expressions. -/
def Expr.resolveAll (scopes : LocalScopes) : List (Expr Unit) → List (Expr (Option Nat))
  | [] => []
  | e :: es => e.resolve scopes :: Expr.resolveAll scopes es

end

mutual

/-- Tags the uses of local names in a statement. -/
def Stmt.resolve (scopes : LocalScopes) : Stmt Unit → Stmt (Option Nat)
  | .expr e => .expr (e.resolve scopes)
  | .letDecl name init type => .letDecl name (init.map (Expr.resolve scopes)) type
  | .block body => .block (Stmt.resolveAll ([] :: scopes) body)
  | .branch c t none => .branch (c.resolve scopes) (t.resolve scopes) none
  | .branch c t (some e) =>
    .branch (c.resolve scopes) (t.resolve scopes)
      (some (e.resolve (scopes.declareAll t.declaredNames)))
  | .returnStmt keyword value => .returnStmt keyword (value.map (Expr.resolve scopes))
  | .functionDecl name params body =>
    .functionDecl name params
      (Stmt.resolveAll (params.map Token.text :: scopes.declare name.text) body)
  | .namespaceDecl name body => .namespaceDecl name (Stmt.mapAll (fun _ => none) body)

/-- Tags the uses of local names in consecutive statements of one scope. -/
def Stmt.resolveAll (scopes : LocalScopes) : List (Stmt Unit) → List (Stmt (Option Nat))
  | [] => []
  | s :: ss => s.resolve scopes :: Stmt.resolveAll (scopes.declareAll s.declaredNames) ss

end

/-- Tags the uses of local names in a program. -/
def Program.resolve (p : Program Unit) : Program (Option Nat) := Stmt.resolveAll [] p

/-! ## Tagged uses -/

/-- A use of a local name: whether it is assigned, the name and the distance to its scope. -/
structure LocalUse where
  assigned : Bool
  name : Token
  distance : Nat

/-- The use of a name, when it is tagged. -/
def LocalUse.ofTag (assigned : Bool) (name : Token) : Option Nat → List LocalUse
  | none => []
  | some distance => [⟨assigned, name, distance⟩]

mutual

/-- The tagged uses in an expression. An assignment comes after the uses in its value. -/
def Expr.localUses : Expr (Option Nat) → List LocalUse
  | .literal _ => []
  | .group e => e.localUses
  | .unary _ e => e.localUses
  | .binary l _ r => l.localUses ++ r.localUses
  | .logical l _ r => l.localUses ++ r.localUses
  | .reference name tag => LocalUse.ofTag false name tag
  | .assign name tag e => e.localUses ++ LocalUse.ofTag true name tag
  | .call callee _ args => callee.localUses ++ Expr.allLocalUses args

/-- The tagged uses in a list of expressions. -/
def Expr.allLocalUses : List (Expr (Option Nat)) → List LocalUse
  | [] => []
  | e :: es => e.localUses ++ Expr.allLocalUses es

end

mutual

/-- The tagged uses in a statement, namespaces left out. -/
def Stmt.localUses : Stmt (Option Nat) → List LocalUse
  | .expr e => e.localUses
  | .letDecl _ none _ => []
  | .letDecl _ (some e) _ => e.localUses
  | .block body => Stmt.allLocalUses body
  | .branch c t none => c.localUses ++ t.localUses
  | .branch c t (some e) => c.localUses ++ t.localUses ++ e.localUses
  | .returnStmt _ none => []
  | .returnStmt _ (some e) => e.localUses
  | .functionDecl _ _ body => Stmt.allLocalUses body
  | .namespaceDecl _ _ => []

/-- The tagged uses in consecutive statements. -/
def Stmt.allLocalUses : List (Stmt (Option Nat)) → List LocalUse
  | [] => []
  | s :: ss => s.localUses ++ Stmt.allLocalUses ss

end

/-- The tagged uses in a program, in order. -/
def Program.localUses (p : Program (Option Nat)) : List LocalUse := Stmt.allLocalUses p

/-! ## Misplaced returns -/

mutual

/-- The `return` words of a statement that lie in no function and no namespace. -/
def Stmt.strayReturns : Stmt δ → List Token
  | .block body => Stmt.allStrayReturns body
  | .branch _ t none => t.strayReturns
  | .branch _ t (some e) => t.strayReturns ++ e.strayReturns
  | .returnStmt keyword _ => [keyword]
  | _ => []

/-- The `return` words of consecutive statements that lie in no function and no namespace. -/
def Stmt.allStrayReturns : List (Stmt δ) → List Token
  | [] => []
  | s :: ss => s.strayReturns ++ Stmt.allStrayReturns ss

end

/-- The diagnostics of resolution: one for every `return` outside of functions. -/
def Program.scopeProblems (p : Program δ) : List Diagnostic :=
  (Stmt.allStrayReturns p).map fun keyword => .ofToken keyword .misplacedReturn

end RadixScript
