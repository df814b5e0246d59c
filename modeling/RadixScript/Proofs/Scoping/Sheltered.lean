import RadixScript.Proofs.Grammar.Basic
import RadixScript.Proofs.Scoping.Watch

/-!
# Names that are declared later

A closure can be called after the scopes around its declaration have gained more names. This makes
no difference to a function whose body mentions none of them: it is *sheltered* from what the scopes
around it declare later. `Program.Sheltered` asks this of every function of a program.

The module also has what the trees before and after resolution have in common.
-/

namespace RadixScript

variable {δ : Type}

/-! ## Mentioned names -/

mutual

/-- The names that an expression reads or assigns to. -/
def Expr.mentions : Expr δ → List String
  | .literal _ => []
  | .group e => e.mentions
  | .unary _ e => e.mentions
  | .binary l _ r => l.mentions ++ r.mentions
  | .logical l _ r => l.mentions ++ r.mentions
  | .reference name _ => [name.text]
  | .assign name _ e => name.text :: e.mentions
  | .call callee _ args => callee.mentions ++ Expr.allMentions args

/-- The names that some expressions read or assign to. -/
def Expr.allMentions : List (Expr δ) → List String
  | [] => []
  | e :: es => e.mentions ++ Expr.allMentions es

end

/-- The names that an expression mentions, if there is one. -/
def optionMentions : Option (Expr δ) → List String
  | none => []
  | some e => e.mentions

mutual

/-- The names that a statement reads or assigns to. Namespaces are not looked into. -/
def Stmt.mentions : Stmt δ → List String
  | .expr e => e.mentions
  | .letDecl _ init _ => optionMentions init
  | .block body => Stmt.allMentions body
  | .branch c t none => c.mentions ++ t.mentions
  | .branch c t (some e) => c.mentions ++ t.mentions ++ e.mentions
  | .returnStmt _ value => optionMentions value
  | .functionDecl _ _ body => Stmt.allMentions body
  | .namespaceDecl _ _ => []

/-- The names that consecutive statements read or assign to. -/
def Stmt.allMentions : List (Stmt δ) → List String
  | [] => []
  | s :: ss => s.mentions ++ Stmt.allMentions ss

end

/-! ## Sheltered functions -/

/-- The scopes around a place, when the statements after it declare the given names in the innermost
one. -/
def LocalScopes.before : LocalScopes → List String → LocalScopes
  | [], _ => []
  | _ :: outer, later => later :: outer

mutual

/-- No function in the statement mentions a name that is declared after the function in one of the
local scopes around it. `later` has the names that are declared after the statement. -/
def Stmt.Sheltered (later : LocalScopes) : Stmt δ → Prop
  | .block body => Stmt.AllSheltered ([] :: later) body
  | .branch _ t none => t.Sheltered later
  | .branch _ t (some e) => t.Sheltered later ∧ e.Sheltered later
  | .functionDecl _ _ body =>
    (∀ x ∈ Stmt.allMentions body, ∀ names ∈ later, x ∉ names) ∧
      Stmt.AllSheltered ([] :: later) body
  | _ => True

/-- No function in consecutive statements mentions a name that is declared after the function in
one of the local scopes around it. -/
def Stmt.AllSheltered (later : LocalScopes) : List (Stmt δ) → Prop
  | [] => True
  | s :: ss =>
    s.Sheltered (later.before (Stmt.allDeclaredNames ss)) ∧ Stmt.AllSheltered later ss

end

/-- No function of the program mentions a name that is declared after the function in one of the
local scopes around it. -/
def Program.Sheltered (p : Program δ) : Prop := Stmt.AllSheltered [] p

/-! ## Declared names and resolution -/

theorem Stmt.declaredNames_resolve (scopes : LocalScopes) :
    (s : Stmt Unit) → (s.resolve scopes).declaredNames = s.declaredNames
  | .expr _ | .letDecl _ _ _ | .block _ | .returnStmt _ _ | .functionDecl _ _ _
  | .namespaceDecl _ _ => rfl
  | .branch c t none => t.declaredNames_resolve scopes
  | .branch c t (some e) => by
    rw [Stmt.resolve, Stmt.declaredNames, Stmt.declaredNames, t.declaredNames_resolve scopes,
      e.declaredNames_resolve]

theorem Stmt.allDeclaredNames_resolveAll (scopes : LocalScopes) (ss : List (Stmt Unit)) :
    Stmt.allDeclaredNames (Stmt.resolveAll scopes ss) = Stmt.allDeclaredNames ss := by
  induction ss generalizing scopes with
  | nil => rfl
  | cons s ss ih =>
    have hs := ih (scopes.declareAll s.declaredNames)
    simp only [Stmt.allDeclaredNames] at hs ⊢
    rw [Stmt.resolveAll, List.flatMap_cons, List.flatMap_cons, s.declaredNames_resolve scopes, hs]

/-- A branch of an `if` declares nothing around it. -/
theorem Stmt.declaredNames_eq_nil :
    (s : Stmt δ) → s.Grammatical → s.isDeclaration = false → s.declaredNames = []
  | .expr _ => fun _ _ => rfl
  | .block _ => fun _ _ => rfl
  | .returnStmt _ _ => fun _ _ => rfl
  | .branch c t none => by
    intro hg _
    rw [Stmt.Grammatical] at hg
    exact t.declaredNames_eq_nil hg.2.1 hg.2.2
  | .branch c t (some e) => by
    intro hg _
    rw [Stmt.Grammatical] at hg
    obtain ⟨_, ht, htd, _, he, hed⟩ := hg
    rw [Stmt.declaredNames, t.declaredNames_eq_nil ht htd, e.declaredNames_eq_nil he hed]
    rfl
  | .letDecl _ _ _ | .functionDecl _ _ _ | .namespaceDecl _ _ => by
    intro _ hd
    simp [Stmt.isDeclaration] at hd

end RadixScript
