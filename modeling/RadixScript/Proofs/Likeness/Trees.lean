import Mathlib.Data.List.Forall2
import Mathlib.Data.Option.Basic
import Mathlib.Logic.Equiv.Basic
import RadixScript.Tree.Basic

/-!
# Trees that are alike

Two trees are alike when they have the same shape and the same tags, and their tokens correspond.
How tokens correspond is a parameter (`Likeness`): texts and kinds agree, and places need not.

Local names may differ, scope by scope. The names of each block and of each function body have a
renaming, and a use of a name follows the renaming of the scope that its tag leads to. `Renamings`
has them for the scopes around a place, innermost first, so a tag is a position in it.
-/

namespace RadixScript

/-! ## Renamings -/

/-- A renaming of the names of one scope. -/
abbrev Renaming := Equiv.Perm String

/-- The renamings of the scopes around a place, innermost first. -/
abbrev Renamings := Nat → Renaming

namespace Renamings

/-- No name is renamed. -/
def none : Renamings := fun _ => Equiv.refl String

/-- Only the names of the scope at one distance are renamed. -/
def only (k : Nat) (ρ : Renaming) : Renamings := fun d => if d = k then ρ else Equiv.refl String

/-- The renamings inside of one more scope. -/
def enter (σ : Renamings) (ρ : Renaming) : Renamings
  | 0 => ρ
  | d + 1 => σ d

/-- The renaming of the scope that a tag leads to. Names without a tag are not renamed. -/
def ofTag (σ : Renamings) : Option Nat → Renaming
  | Option.none => Equiv.refl String
  | some d => σ d

theorem enter_only (k : Nat) (ρ : Renaming) :
    (only k ρ).enter (Equiv.refl String) = only (k + 1) ρ := by
  funext d
  cases d with
  | zero => exact (if_neg (Nat.succ_ne_zero k).symm).symm
  | succ d => simp [enter, only]

theorem enter_none (ρ : Renaming) : none.enter ρ = only 0 ρ := by
  funext d
  cases d <;> rfl

theorem only_refl (k : Nat) : only k (Equiv.refl String) = none := by
  funext d
  exact ite_self _

end Renamings

/-- The token with a new name in place of its text. -/
def Token.rename (ρ : Renaming) (t : Token) : Token := { t with text := ρ t.text }

@[simp] theorem Token.rename_refl (t : Token) : t.rename (Equiv.refl String) = t := rfl

/-! ## Likeness -/

/-- How the tokens of two trees correspond, and how their parts may differ. -/
structure Likeness where
  /-- The second token may stand where the first one does. -/
  token : Token → Token → Prop
  kind_eq : ∀ {t t'}, token t t' → t'.kind = t.kind
  text_eq : ∀ {t t'}, token t t' → t'.text = t.text
  /-- The renamings that the names of a scope may undergo. -/
  renames : Renaming → Prop
  renames_refl : renames (Equiv.refl String)
  /-- How the types of declarations may differ, which mean nothing to a run. -/
  types : Option Token → Option Token → Prop
  /-- How namespaces may differ, which are not run. -/
  namespaces : Token → List (Stmt (Option Nat)) → Token → List (Stmt (Option Nat)) → Prop

mutual

/-- Two expressions are alike, when the names of the scopes around are renamed. -/
inductive Expr.Alike (L : Likeness) (σ : Renamings) :
    Expr (Option Nat) → Expr (Option Nat) → Prop
  | literal (v : Literal) : Expr.Alike L σ (.literal v) (.literal v)
  | group {e e'} (h : Expr.Alike L σ e e') : Expr.Alike L σ (.group e) (.group e')
  | unary {op op' e e'} (hop : L.token op op') (h : Expr.Alike L σ e e') :
    Expr.Alike L σ (.unary op e) (.unary op' e')
  | binary {l l' op op' r r'} (hl : Expr.Alike L σ l l') (hop : L.token op op')
    (hr : Expr.Alike L σ r r') : Expr.Alike L σ (.binary l op r) (.binary l' op' r')
  | logical {l l' op op' r r'} (hl : Expr.Alike L σ l l') (hop : L.token op op')
    (hr : Expr.Alike L σ r r') : Expr.Alike L σ (.logical l op r) (.logical l' op' r')
  | reference {name name' tag} (h : L.token (name.rename (σ.ofTag tag)) name') :
    Expr.Alike L σ (.reference name tag) (.reference name' tag)
  | assign {name name' tag e e'} (h : L.token (name.rename (σ.ofTag tag)) name')
    (he : Expr.Alike L σ e e') : Expr.Alike L σ (.assign name tag e) (.assign name' tag e')
  | call {callee callee' paren paren' args args'} (hf : Expr.Alike L σ callee callee')
    (hp : L.token paren paren') (hargs : Expr.AllAlike L σ args args') :
    Expr.Alike L σ (.call callee paren args) (.call callee' paren' args')

/-- The expressions of two lists are alike, one by one. -/
inductive Expr.AllAlike (L : Likeness) (σ : Renamings) :
    List (Expr (Option Nat)) → List (Expr (Option Nat)) → Prop
  | nil : Expr.AllAlike L σ [] []
  | cons {e e' es es'} (h : Expr.Alike L σ e e') (hs : Expr.AllAlike L σ es es') :
    Expr.AllAlike L σ (e :: es) (e' :: es')

end

mutual

/-- Two statements are alike, when the names of the scopes around are renamed. The name of a
function keeps its text. -/
inductive Stmt.Alike (L : Likeness) :
    Renamings → Stmt (Option Nat) → Stmt (Option Nat) → Prop
  | expr {σ e e'} (h : e.Alike L σ e') : Stmt.Alike L σ (.expr e) (.expr e')
  | letDecl {σ name name' init init' type type'} (hname : L.token (name.rename (σ 0)) name')
    (hinit : Option.Rel (Expr.Alike L σ) init init') (htype : L.types type type') :
    Stmt.Alike L σ (.letDecl name init type) (.letDecl name' init' type')
  | block {σ body body'} (ρ : Renaming) (hρ : L.renames ρ)
    (h : Stmt.AllAlike L (σ.enter ρ) body body') : Stmt.Alike L σ (.block body) (.block body')
  | branch {σ c c' t t'} (hc : c.Alike L σ c') (ht : Stmt.Alike L σ t t') :
    Stmt.Alike L σ (.branch c t none) (.branch c' t' none)
  | branchElse {σ c c' t t' e e'} (hc : c.Alike L σ c') (ht : Stmt.Alike L σ t t')
    (he : Stmt.Alike L σ e e') :
    Stmt.Alike L σ (.branch c t (some e)) (.branch c' t' (some e'))
  | functionDecl {σ name name' params params' body body'} (ρ : Renaming) (hρ : L.renames ρ)
    (hname : L.token name name') (hfixed : σ 0 name.text = name.text)
    (hparams : List.Forall₂ (fun p p' => L.token (p.rename ρ) p') params params')
    (h : Stmt.AllAlike L (σ.enter ρ) body body') :
    Stmt.Alike L σ (.functionDecl name params body) (.functionDecl name' params' body')
  | returnStmt {σ keyword keyword' value value'} (hkeyword : L.token keyword keyword')
    (h : Option.Rel (Expr.Alike L σ) value value') :
    Stmt.Alike L σ (.returnStmt keyword value) (.returnStmt keyword' value')
  | namespaceDecl {σ name name' body body'} (h : L.namespaces name body name' body') :
    Stmt.Alike L σ (.namespaceDecl name body) (.namespaceDecl name' body')

/-- The statements of two lists are alike, one by one. -/
inductive Stmt.AllAlike (L : Likeness) :
    Renamings → List (Stmt (Option Nat)) → List (Stmt (Option Nat)) → Prop
  | nil {σ} : Stmt.AllAlike L σ [] []
  | cons {σ s s' ss ss'} (h : Stmt.Alike L σ s s') (hs : Stmt.AllAlike L σ ss ss') :
    Stmt.AllAlike L σ (s :: ss) (s' :: ss')

end

end RadixScript
