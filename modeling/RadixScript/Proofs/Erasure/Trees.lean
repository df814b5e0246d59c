import RadixScript.Proofs.Grammar.Basic
import RadixScript.Tree.Resolve

/-!
# Erasing what means nothing

Namespaces are not run, the type of a declaration is not checked, and a group is worth what is in
it. `Stmt.eraseAll` removes all three, wherever they stand. What is left has none of them any more
(`Stmt.allBare_eraseAll`), and the names that are left are resolved as before
(`Stmt.resolveAll_eraseAll`).
-/

namespace RadixScript

variable {δ : Type}

/-! ## Erasure -/

mutual

/-- The expression without its groups. -/
def Expr.erase : Expr δ → Expr δ
  | .literal v => .literal v
  | .group e => e.erase
  | .unary op e => .unary op e.erase
  | .binary l op r => .binary l.erase op r.erase
  | .logical l op r => .logical l.erase op r.erase
  | .reference name s => .reference name s
  | .assign name s e => .assign name s e.erase
  | .call callee paren args => .call callee.erase paren (Expr.eraseAll args)

/-- The expressions without their groups. -/
def Expr.eraseAll : List (Expr δ) → List (Expr δ)
  | [] => []
  | e :: es => e.erase :: Expr.eraseAll es

end

/-- Whether a statement is a namespace. -/
def Stmt.isNamespace : Stmt δ → Bool
  | .namespaceDecl _ _ => true
  | _ => false

mutual

/-- The statement without the namespaces, types and groups in it. A namespace that is one of several
statements is removed by `Stmt.eraseAll`; the branch of an `if` is never one. -/
def Stmt.erase : Stmt δ → Stmt δ
  | .expr e => .expr e.erase
  | .letDecl name init _ => .letDecl name (init.map Expr.erase) none
  | .block body => .block (Stmt.eraseAll body)
  | .branch c t none => .branch c.erase t.erase none
  | .branch c t (some e) => .branch c.erase t.erase (some e.erase)
  | .returnStmt keyword value => .returnStmt keyword (value.map Expr.erase)
  | .functionDecl name params body => .functionDecl name params (Stmt.eraseAll body)
  | .namespaceDecl name _ => .namespaceDecl name []

/-- The statements without the namespaces, types and groups among and in them. -/
def Stmt.eraseAll : List (Stmt δ) → List (Stmt δ)
  | [] => []
  | s :: ss => if s.isNamespace then Stmt.eraseAll ss else s.erase :: Stmt.eraseAll ss

end

/-- The program without namespaces, types and groups. -/
def Program.erase (p : Program δ) : Program δ := Stmt.eraseAll p

theorem Stmt.isNamespace_erase (s : Stmt δ) : s.erase.isNamespace = s.isNamespace := by
  cases s with
  | branch c t e => cases e <;> rfl
  | _ => rfl

theorem Stmt.eraseAll_cons {s : Stmt δ} (h : s.isNamespace = false) (ss : List (Stmt δ)) :
    Stmt.eraseAll (s :: ss) = s.erase :: Stmt.eraseAll ss := by
  rw [Stmt.eraseAll, h]
  rfl

/-! ## What is left -/

mutual

/-- The expression has no groups. -/
def Expr.Bare : Expr δ → Prop
  | .literal _ | .reference _ _ => True
  | .group _ => False
  | .unary _ e | .assign _ _ e => e.Bare
  | .binary l _ r | .logical l _ r => l.Bare ∧ r.Bare
  | .call callee _ args => callee.Bare ∧ Expr.AllBare args

/-- The expressions have no groups. -/
def Expr.AllBare : List (Expr δ) → Prop
  | [] => True
  | e :: es => e.Bare ∧ Expr.AllBare es

end

mutual

/-- The statement has no namespaces, no types and no groups. -/
def Stmt.Bare : Stmt δ → Prop
  | .expr e => e.Bare
  | .letDecl _ init type => (∀ e ∈ init, e.Bare) ∧ type = none
  | .block body => Stmt.AllBare body
  | .branch c t none => c.Bare ∧ t.Bare
  | .branch c t (some e) => c.Bare ∧ t.Bare ∧ e.Bare
  | .returnStmt _ value => ∀ e ∈ value, e.Bare
  | .functionDecl _ _ body => Stmt.AllBare body
  | .namespaceDecl _ _ => False

/-- The statements have no namespaces, no types and no groups. -/
def Stmt.AllBare : List (Stmt δ) → Prop
  | [] => True
  | s :: ss => s.Bare ∧ Stmt.AllBare ss

end

/-- The program has no namespaces, no types and no groups. -/
def Program.Bare (p : Program δ) : Prop := Stmt.AllBare p

mutual

theorem Expr.bare_erase : (e : Expr δ) → e.erase.Bare
  | .literal _ | .reference _ _ => trivial
  | .group e => e.bare_erase
  | .unary _ e | .assign _ _ e => e.bare_erase
  | .binary l _ r | .logical l _ r => ⟨l.bare_erase, r.bare_erase⟩
  | .call callee _ args => ⟨callee.bare_erase, Expr.allBare_eraseAll args⟩

theorem Expr.allBare_eraseAll : (es : List (Expr δ)) → Expr.AllBare (Expr.eraseAll es)
  | [] => trivial
  | e :: es => ⟨e.bare_erase, Expr.allBare_eraseAll es⟩

end

theorem forall_bare_erase (e : Option (Expr δ)) : ∀ x ∈ e.map Expr.erase, x.Bare := by
  cases e with
  | none => simp
  | some e => simpa using e.bare_erase

theorem Stmt.isNamespace_eq_false {s : Stmt δ} (h : s.isDeclaration = false) :
    s.isNamespace = false := by
  cases s <;> first | rfl | cases h

mutual

theorem Stmt.bare_erase : (s : Stmt δ) → s.Grammatical → s.isNamespace = false → s.erase.Bare
  | .expr e, _, _ => e.bare_erase
  | .letDecl _ init _, _, _ => ⟨forall_bare_erase init, rfl⟩
  | .block body, h, _ => Stmt.allBare_eraseAll body h
  | .branch c t none, h, _ => by
    obtain ⟨_, ht, hplain⟩ := h
    exact ⟨c.bare_erase, t.bare_erase ht (Stmt.isNamespace_eq_false hplain)⟩
  | .branch c t (some e), h, _ => by
    obtain ⟨_, ht, hplain, _, he, hplain'⟩ := h
    exact ⟨c.bare_erase, t.bare_erase ht (Stmt.isNamespace_eq_false hplain),
      e.bare_erase he (Stmt.isNamespace_eq_false hplain')⟩
  | .returnStmt _ value, _, _ => forall_bare_erase value
  | .functionDecl _ _ body, h, _ => Stmt.allBare_eraseAll body h.2.2.2

/-- Erasure leaves nothing to erase in statements that can be written. -/
theorem Stmt.allBare_eraseAll : (ss : List (Stmt δ)) → Stmt.AllGrammatical ss →
    Stmt.AllBare (Stmt.eraseAll ss)
  | [], _ => trivial
  | s :: ss, ⟨hs, hss⟩ => by
    rw [Stmt.eraseAll]
    by_cases hn : s.isNamespace
    · rw [if_pos hn]
      exact Stmt.allBare_eraseAll ss hss
    · rw [if_neg hn]
      exact ⟨s.bare_erase hs (eq_false_of_ne_true hn), Stmt.allBare_eraseAll ss hss⟩

end

/-! ## Erasing twice -/

mutual

theorem Expr.erase_erase : (e : Expr δ) → e.erase.erase = e.erase
  | .literal _ | .reference _ _ => rfl
  | .group e => e.erase_erase
  | .unary _ e => by rw [Expr.erase, Expr.erase, e.erase_erase]
  | .binary l _ r => by rw [Expr.erase, Expr.erase, l.erase_erase, r.erase_erase]
  | .logical l _ r => by rw [Expr.erase, Expr.erase, l.erase_erase, r.erase_erase]
  | .assign _ _ e => by rw [Expr.erase, Expr.erase, e.erase_erase]
  | .call callee _ args => by
    rw [Expr.erase, Expr.erase, callee.erase_erase, Expr.eraseAll_eraseAll args]

theorem Expr.eraseAll_eraseAll : (es : List (Expr δ)) →
    Expr.eraseAll (Expr.eraseAll es) = Expr.eraseAll es
  | [] => rfl
  | e :: es => by rw [Expr.eraseAll, Expr.eraseAll, e.erase_erase, Expr.eraseAll_eraseAll es]

end

theorem map_erase_erase (e : Option (Expr δ)) :
    (e.map Expr.erase).map Expr.erase = e.map Expr.erase := by
  cases e with
  | none => rfl
  | some e => exact congrArg some e.erase_erase

mutual

theorem Stmt.erase_erase : (s : Stmt δ) → s.erase.erase = s.erase
  | .expr e => by rw [Stmt.erase, Stmt.erase, e.erase_erase]
  | .letDecl _ init _ => by rw [Stmt.erase, Stmt.erase, map_erase_erase]
  | .block body => by rw [Stmt.erase, Stmt.erase, Stmt.eraseAll_eraseAll body]
  | .branch c t none => by rw [Stmt.erase, Stmt.erase, c.erase_erase, t.erase_erase]
  | .branch c t (some e) => by
    rw [Stmt.erase, Stmt.erase, c.erase_erase, t.erase_erase, e.erase_erase]
  | .returnStmt _ value => by rw [Stmt.erase, Stmt.erase, map_erase_erase]
  | .functionDecl _ _ body => by rw [Stmt.erase, Stmt.erase, Stmt.eraseAll_eraseAll body]
  | .namespaceDecl _ _ => rfl

theorem Stmt.eraseAll_eraseAll : (ss : List (Stmt δ)) →
    Stmt.eraseAll (Stmt.eraseAll ss) = Stmt.eraseAll ss
  | [] => rfl
  | s :: ss => by
    rw [Stmt.eraseAll]
    by_cases hn : s.isNamespace
    · rw [if_pos hn]
      exact Stmt.eraseAll_eraseAll ss
    · have hn' : s.erase.isNamespace = false := by
        rw [Stmt.isNamespace_erase]
        exact eq_false_of_ne_true hn
      rw [if_neg hn, Stmt.eraseAll_cons hn', s.erase_erase, Stmt.eraseAll_eraseAll ss]

end

/-! ## Resolution -/

theorem Stmt.declaredNames_erase : (s : Stmt δ) → s.erase.declaredNames = s.declaredNames
  | .expr _ | .letDecl _ _ _ | .block _ | .returnStmt _ _ | .functionDecl _ _ _
  | .namespaceDecl _ _ => rfl
  | .branch _ t none => t.declaredNames_erase
  | .branch _ t (some e) => by
    rw [Stmt.erase, Stmt.declaredNames, Stmt.declaredNames, t.declaredNames_erase,
      e.declaredNames_erase]

mutual

theorem Expr.resolve_erase (scopes : LocalScopes) : (e : Expr Unit) →
    e.erase.resolve scopes = (e.resolve scopes).erase
  | .literal _ | .reference _ _ => rfl
  | .group e => e.resolve_erase scopes
  | .unary _ e => by
    simp only [Expr.erase, Expr.resolve, e.resolve_erase scopes]
  | .binary l _ r => by
    simp only [Expr.erase, Expr.resolve, l.resolve_erase scopes, r.resolve_erase scopes]
  | .logical l _ r => by
    simp only [Expr.erase, Expr.resolve, l.resolve_erase scopes, r.resolve_erase scopes]
  | .assign _ _ e => by
    simp only [Expr.erase, Expr.resolve, e.resolve_erase scopes]
  | .call callee _ args => by
    simp only [Expr.erase, Expr.resolve, callee.resolve_erase scopes,
      Expr.resolveAll_eraseAll scopes args]

theorem Expr.resolveAll_eraseAll (scopes : LocalScopes) : (es : List (Expr Unit)) →
    Expr.resolveAll scopes (Expr.eraseAll es) = Expr.eraseAll (Expr.resolveAll scopes es)
  | [] => rfl
  | e :: es => by
    simp only [Expr.eraseAll, Expr.resolveAll, e.resolve_erase scopes,
      Expr.resolveAll_eraseAll scopes es]

end

theorem map_resolve_erase (scopes : LocalScopes) (e : Option (Expr Unit)) :
    (e.map Expr.erase).map (Expr.resolve scopes) =
      (e.map (Expr.resolve scopes)).map Expr.erase := by
  cases e with
  | none => rfl
  | some e => exact congrArg some (e.resolve_erase scopes)

theorem Stmt.isNamespace_resolve (scopes : LocalScopes) (s : Stmt Unit) :
    (s.resolve scopes).isNamespace = s.isNamespace := by
  cases s with
  | branch c t e => cases e <;> rfl
  | _ => rfl

mutual

theorem Stmt.resolve_erase : (s : Stmt Unit) → ∀ scopes : LocalScopes,
    s.erase.resolve scopes = (s.resolve scopes).erase
  | .expr e, scopes => by simp only [Stmt.erase, Stmt.resolve, e.resolve_erase scopes]
  | .letDecl _ init _, scopes => by
    simp only [Stmt.erase, Stmt.resolve, map_resolve_erase scopes init]
  | .block body, scopes => by
    simp only [Stmt.erase, Stmt.resolve, Stmt.resolveAll_eraseAll body]
  | .branch c t none, scopes => by
    simp only [Stmt.erase, Stmt.resolve, c.resolve_erase scopes, t.resolve_erase scopes]
  | .branch c t (some e), scopes => by
    simp only [Stmt.erase, Stmt.resolve, c.resolve_erase scopes, t.resolve_erase scopes,
      t.declaredNames_erase, e.resolve_erase]
  | .returnStmt _ value, scopes => by
    simp only [Stmt.erase, Stmt.resolve, map_resolve_erase scopes value]
  | .functionDecl _ _ body, scopes => by
    simp only [Stmt.erase, Stmt.resolve, Stmt.resolveAll_eraseAll body]
  | .namespaceDecl _ _, _ => rfl

/-- Names are resolved as before: a namespace declares no name for what follows it. -/
theorem Stmt.resolveAll_eraseAll : (ss : List (Stmt Unit)) → ∀ scopes : LocalScopes,
    Stmt.resolveAll scopes (Stmt.eraseAll ss) = Stmt.eraseAll (Stmt.resolveAll scopes ss)
  | [], _ => rfl
  | s :: ss, scopes => by
    by_cases hn : s.isNamespace
    · cases s <;> cases hn
      exact Stmt.resolveAll_eraseAll ss scopes
    · have hn := eq_false_of_ne_true hn
      have hn' : (s.resolve scopes).isNamespace = false := (s.isNamespace_resolve scopes).trans hn
      rw [Stmt.resolveAll, Stmt.eraseAll_cons hn, Stmt.eraseAll_cons hn', Stmt.resolveAll,
        s.resolve_erase, s.declaredNames_erase, Stmt.resolveAll_eraseAll ss]

end

mutual

theorem Stmt.strayReturns_erase : (s : Stmt δ) → s.erase.strayReturns = s.strayReturns
  | .expr _ | .letDecl _ _ _ | .returnStmt _ _ | .functionDecl _ _ _ | .namespaceDecl _ _ => rfl
  | .block body => Stmt.allStrayReturns_eraseAll body
  | .branch _ t none => t.strayReturns_erase
  | .branch _ t (some e) => by
    rw [Stmt.erase, Stmt.strayReturns, Stmt.strayReturns, t.strayReturns_erase,
      e.strayReturns_erase]

/-- The same returns are misplaced: those in namespaces never are. -/
theorem Stmt.allStrayReturns_eraseAll : (ss : List (Stmt δ)) →
    Stmt.allStrayReturns (Stmt.eraseAll ss) = Stmt.allStrayReturns ss
  | [] => rfl
  | s :: ss => by
    by_cases hn : s.isNamespace
    · cases s <;> cases hn
      exact Stmt.allStrayReturns_eraseAll ss
    · rw [Stmt.eraseAll_cons (eq_false_of_ne_true hn), Stmt.allStrayReturns,
        Stmt.allStrayReturns, s.strayReturns_erase, Stmt.allStrayReturns_eraseAll ss]

end

end RadixScript
