import RadixScript.Compile
import RadixScript.Proofs.Grammar.Soundness

/-!
# The trees of an accepted text

Resolution changes what the uses of names carry and nothing else: without its tags, a resolved tree
is the tree from before (`Stmt.untag_resolve`). Whether a tree is grammatical does not depend on the
tags, nor how it is written or where it has misplaced returns, so resolution keeps all that the
parser gives.
-/

namespace RadixScript

variable {δ ε : Type}

/-! ## Changing what names carry -/

@[simp] theorem Expr.strength_map (f : δ → ε) (e : Expr δ) : (e.map f).strength = e.strength := by
  cases e <;> rfl

@[simp] theorem Expr.length_mapAll (f : δ → ε) (es : List (Expr δ)) :
    (Expr.mapAll f es).length = es.length := by
  induction es with
  | nil => rfl
  | cons e es ih => rw [Expr.mapAll, List.length_cons, List.length_cons, ih]

mutual

theorem Expr.grammatical_map (f : δ → ε) : (e : Expr δ) → ((e.map f).Grammatical ↔ e.Grammatical)
  | .literal _ | .reference _ _ => Iff.rfl
  | .group e => e.grammatical_map f
  | .unary _ e => by
    simp only [Expr.map, Expr.Grammatical, Expr.strength_map, e.grammatical_map f]
  | .binary l _ r => by
    simp only [Expr.map, Expr.Grammatical, Expr.strength_map, l.grammatical_map f,
      r.grammatical_map f]
  | .logical l _ r => by
    simp only [Expr.map, Expr.Grammatical, Expr.strength_map, l.grammatical_map f,
      r.grammatical_map f]
  | .assign _ _ e => by simp only [Expr.map, Expr.Grammatical, e.grammatical_map f]
  | .call callee _ args => by
    simp only [Expr.map, Expr.Grammatical, Expr.strength_map, Expr.length_mapAll,
      callee.grammatical_map f, Expr.allGrammatical_mapAll f args]

theorem Expr.allGrammatical_mapAll (f : δ → ε) : (es : List (Expr δ)) →
    (Expr.AllGrammatical (Expr.mapAll f es) ↔ Expr.AllGrammatical es)
  | [] => Iff.rfl
  | e :: es => by
    simp only [Expr.mapAll, Expr.AllGrammatical, e.grammatical_map f,
      Expr.allGrammatical_mapAll f es]

end

@[simp] theorem Stmt.isDeclaration_map (f : δ → ε) (s : Stmt δ) :
    (s.map f).isDeclaration = s.isDeclaration := by
  cases s with
  | branch c t e => cases e <;> rfl
  | _ => rfl

@[simp] theorem Stmt.endsOpen_map (f : δ → ε) : (s : Stmt δ) → (s.map f).endsOpen = s.endsOpen
  | .expr _ | .letDecl _ _ _ | .block _ | .branch _ _ none | .returnStmt _ _
  | .functionDecl _ _ _ | .namespaceDecl _ _ => rfl
  | .branch _ _ (some e) => e.endsOpen_map f

theorem forall_grammatical_map (f : δ → ε) (e : Option (Expr δ)) :
    (∀ x ∈ e.map (Expr.map f), x.Grammatical) ↔ ∀ x ∈ e, x.Grammatical := by
  cases e with
  | none => simp
  | some e => simp [e.grammatical_map f]

mutual

/-- Whether a statement is grammatical does not depend on what its names carry. -/
theorem Stmt.grammatical_map (f : δ → ε) : (s : Stmt δ) → ((s.map f).Grammatical ↔ s.Grammatical)
  | .expr e => e.grammatical_map f
  | .letDecl name init type => by
    simp only [Stmt.map, Stmt.Grammatical, forall_grammatical_map f init]
  | .block body => Stmt.allGrammatical_mapAll f body
  | .branch c t none => by
    simp only [Stmt.map, Stmt.Grammatical, c.grammatical_map f, t.grammatical_map f,
      Stmt.isDeclaration_map]
  | .branch c t (some e) => by
    simp only [Stmt.map, Stmt.Grammatical, c.grammatical_map f, t.grammatical_map f,
      e.grammatical_map f, Stmt.isDeclaration_map, Stmt.endsOpen_map]
  | .returnStmt keyword value => by
    simp only [Stmt.map, Stmt.Grammatical, forall_grammatical_map f value]
  | .functionDecl name params body => by
    simp only [Stmt.map, Stmt.Grammatical, Stmt.allGrammatical_mapAll f body]
  | .namespaceDecl name body => by
    simp only [Stmt.map, Stmt.Grammatical, Stmt.allGrammatical_mapAll f body]

theorem Stmt.allGrammatical_mapAll (f : δ → ε) : (ss : List (Stmt δ)) →
    (Stmt.AllGrammatical (Stmt.mapAll f ss) ↔ Stmt.AllGrammatical ss)
  | [] => Iff.rfl
  | s :: ss => by
    simp only [Stmt.mapAll, Stmt.AllGrammatical, s.grammatical_map f,
      Stmt.allGrammatical_mapAll f ss]

end

mutual

theorem Expr.symbols_map (f : δ → ε) : (e : Expr δ) → (e.map f).symbols = e.symbols
  | .literal _ | .reference _ _ => rfl
  | .group e => by simp only [Expr.map, Expr.symbols, e.symbols_map f]
  | .unary _ e => by simp only [Expr.map, Expr.symbols, e.symbols_map f]
  | .binary l _ r => by simp only [Expr.map, Expr.symbols, l.symbols_map f, r.symbols_map f]
  | .logical l _ r => by simp only [Expr.map, Expr.symbols, l.symbols_map f, r.symbols_map f]
  | .assign _ _ e => by simp only [Expr.map, Expr.symbols, e.symbols_map f]
  | .call callee _ args => by
    simp only [Expr.map, Expr.symbols, callee.symbols_map f, Expr.symbolLists_mapAll f args]

theorem Expr.symbolLists_mapAll (f : δ → ε) : (es : List (Expr δ)) →
    Expr.symbolLists (Expr.mapAll f es) = Expr.symbolLists es
  | [] => rfl
  | e :: es => by
    simp only [Expr.mapAll, Expr.symbolLists, e.symbols_map f, Expr.symbolLists_mapAll f es]

end

theorem initSymbols_optionMap (f : δ → ε) (e : Option (Expr δ)) :
    initSymbols (e.map (Expr.map f)) = initSymbols e := by
  cases e with
  | none => rfl
  | some e => simp only [Option.map_some, initSymbols, e.symbols_map f]

theorem optionSymbols_optionMap (f : δ → ε) (e : Option (Expr δ)) :
    optionSymbols (e.map (Expr.map f)) = optionSymbols e := by
  cases e with
  | none => rfl
  | some e => exact e.symbols_map f

mutual

/-- How a statement is written does not depend on what its names carry. -/
theorem Stmt.symbols_map (f : δ → ε) : (s : Stmt δ) → (s.map f).symbols = s.symbols
  | .expr e => by simp only [Stmt.map, Stmt.symbols, e.symbols_map f]
  | .letDecl _ init _ => by simp only [Stmt.map, Stmt.symbols, initSymbols_optionMap f init]
  | .block body => by simp only [Stmt.map, Stmt.symbols, Stmt.allSymbols_mapAll f body]
  | .branch c t none => by
    simp only [Stmt.map, Stmt.symbols, c.symbols_map f, t.symbols_map f]
  | .branch c t (some e) => by
    simp only [Stmt.map, Stmt.symbols, c.symbols_map f, t.symbols_map f, e.symbols_map f]
  | .returnStmt _ value => by simp only [Stmt.map, Stmt.symbols, optionSymbols_optionMap f value]
  | .functionDecl _ _ body => by
    simp only [Stmt.map, Stmt.symbols, Stmt.allSymbols_mapAll f body]
  | .namespaceDecl _ body => by simp only [Stmt.map, Stmt.symbols, Stmt.allSymbols_mapAll f body]

theorem Stmt.allSymbols_mapAll (f : δ → ε) : (ss : List (Stmt δ)) →
    Stmt.allSymbols (Stmt.mapAll f ss) = Stmt.allSymbols ss
  | [] => rfl
  | s :: ss => by
    simp only [Stmt.mapAll, Stmt.allSymbols, s.symbols_map f, Stmt.allSymbols_mapAll f ss]

end

mutual

theorem Stmt.strayReturns_map (f : δ → ε) : (s : Stmt δ) →
    (s.map f).strayReturns = s.strayReturns
  | .expr _ | .letDecl _ _ _ | .returnStmt _ _ | .functionDecl _ _ _ | .namespaceDecl _ _ => rfl
  | .block body => Stmt.allStrayReturns_mapAll f body
  | .branch _ t none => t.strayReturns_map f
  | .branch _ t (some e) => by
    simp only [Stmt.map, Stmt.strayReturns, t.strayReturns_map f, e.strayReturns_map f]

theorem Stmt.allStrayReturns_mapAll (f : δ → ε) : (ss : List (Stmt δ)) →
    Stmt.allStrayReturns (Stmt.mapAll f ss) = Stmt.allStrayReturns ss
  | [] => rfl
  | s :: ss => by
    simp only [Stmt.mapAll, Stmt.allStrayReturns, s.strayReturns_map f,
      Stmt.allStrayReturns_mapAll f ss]

end

/-! ## Forgetting the tags

Without its tags, a resolved tree is the tree from before.
-/

/-- Forgets what a use of a name carries. -/
def untag (_ : δ) : Unit := ()

mutual

theorem Expr.untag_map (f : Unit → ε) : (e : Expr Unit) → (e.map f).map untag = e
  | .literal _ | .reference _ _ => rfl
  | .group e => by simp only [Expr.map, e.untag_map f]
  | .unary _ e => by simp only [Expr.map, e.untag_map f]
  | .binary l _ r => by simp only [Expr.map, l.untag_map f, r.untag_map f]
  | .logical l _ r => by simp only [Expr.map, l.untag_map f, r.untag_map f]
  | .assign _ _ e => by simp only [Expr.map, e.untag_map f, untag]
  | .call callee _ args => by simp only [Expr.map, callee.untag_map f, Expr.untag_mapAll f args]

theorem Expr.untag_mapAll (f : Unit → ε) : (es : List (Expr Unit)) →
    Expr.mapAll untag (Expr.mapAll f es) = es
  | [] => rfl
  | e :: es => by simp only [Expr.mapAll, e.untag_map f, Expr.untag_mapAll f es]

end

theorem optionMap_untag_map (f : Unit → ε) (e : Option (Expr Unit)) :
    (e.map (Expr.map f)).map (Expr.map untag) = e := by
  cases e with
  | none => rfl
  | some e => exact congrArg some (e.untag_map f)

mutual

theorem Stmt.untag_map (f : Unit → ε) : (s : Stmt Unit) → (s.map f).map untag = s
  | .expr e => by simp only [Stmt.map, e.untag_map f]
  | .letDecl _ init _ => by simp only [Stmt.map, optionMap_untag_map f init]
  | .block body => by simp only [Stmt.map, Stmt.untag_mapAll f body]
  | .branch c t none => by simp only [Stmt.map, c.untag_map f, t.untag_map f]
  | .branch c t (some e) => by
    simp only [Stmt.map, c.untag_map f, t.untag_map f, e.untag_map f]
  | .returnStmt _ value => by simp only [Stmt.map, optionMap_untag_map f value]
  | .functionDecl _ _ body => by simp only [Stmt.map, Stmt.untag_mapAll f body]
  | .namespaceDecl _ body => by simp only [Stmt.map, Stmt.untag_mapAll f body]

theorem Stmt.untag_mapAll (f : Unit → ε) : (ss : List (Stmt Unit)) →
    Stmt.mapAll untag (Stmt.mapAll f ss) = ss
  | [] => rfl
  | s :: ss => by simp only [Stmt.mapAll, s.untag_map f, Stmt.untag_mapAll f ss]

end

mutual

theorem Expr.untag_resolve (scopes : LocalScopes) : (e : Expr Unit) →
    (e.resolve scopes).map untag = e
  | .literal _ | .reference _ _ => rfl
  | .group e => by simp only [Expr.resolve, Expr.map, e.untag_resolve scopes]
  | .unary _ e => by simp only [Expr.resolve, Expr.map, e.untag_resolve scopes]
  | .binary l _ r => by
    simp only [Expr.resolve, Expr.map, l.untag_resolve scopes, r.untag_resolve scopes]
  | .logical l _ r => by
    simp only [Expr.resolve, Expr.map, l.untag_resolve scopes, r.untag_resolve scopes]
  | .assign _ _ e => by simp only [Expr.resolve, Expr.map, e.untag_resolve scopes, untag]
  | .call callee _ args => by
    simp only [Expr.resolve, Expr.map, callee.untag_resolve scopes,
      Expr.untag_resolveAll scopes args]

theorem Expr.untag_resolveAll (scopes : LocalScopes) : (es : List (Expr Unit)) →
    Expr.mapAll untag (Expr.resolveAll scopes es) = es
  | [] => rfl
  | e :: es => by
    simp only [Expr.resolveAll, Expr.mapAll, e.untag_resolve scopes,
      Expr.untag_resolveAll scopes es]

end

theorem optionMap_untag_resolve (scopes : LocalScopes) (e : Option (Expr Unit)) :
    (e.map (Expr.resolve scopes)).map (Expr.map untag) = e := by
  cases e with
  | none => rfl
  | some e => exact congrArg some (e.untag_resolve scopes)

mutual

theorem Stmt.untag_resolve : (s : Stmt Unit) → ∀ scopes, (s.resolve scopes).map untag = s
  | .expr e, scopes => by simp only [Stmt.resolve, Stmt.map, e.untag_resolve scopes]
  | .letDecl _ init _, scopes => by
    simp only [Stmt.resolve, Stmt.map, optionMap_untag_resolve scopes init]
  | .block body, scopes => by simp only [Stmt.resolve, Stmt.map, Stmt.untag_resolveAll body]
  | .branch c t none, scopes => by
    simp only [Stmt.resolve, Stmt.map, c.untag_resolve scopes, t.untag_resolve]
  | .branch c t (some e), scopes => by
    simp only [Stmt.resolve, Stmt.map, c.untag_resolve scopes, t.untag_resolve, e.untag_resolve]
  | .returnStmt _ value, scopes => by
    simp only [Stmt.resolve, Stmt.map, optionMap_untag_resolve scopes value]
  | .functionDecl _ _ body, scopes => by
    simp only [Stmt.resolve, Stmt.map, Stmt.untag_resolveAll body]
  | .namespaceDecl _ body, scopes => by
    simp only [Stmt.resolve, Stmt.map, Stmt.untag_mapAll _ body]

theorem Stmt.untag_resolveAll : (ss : List (Stmt Unit)) → ∀ scopes,
    Stmt.mapAll untag (Stmt.resolveAll scopes ss) = ss
  | [], _ => rfl
  | s :: ss, scopes => by
    simp only [Stmt.resolveAll, Stmt.mapAll, s.untag_resolve, Stmt.untag_resolveAll ss]

end

/-! ## Resolution -/

/-- At the top level nothing is declared. -/
theorem LocalScopes.declareAll_nil (names : List String) : declareAll [] names = [] := by
  induction names with
  | nil => rfl
  | cons x names ih => exact ih

theorem Stmt.allGrammatical_resolveAll (ss : List (Stmt Unit)) (scopes : LocalScopes) :
    Stmt.AllGrammatical (Stmt.resolveAll scopes ss) ↔ Stmt.AllGrammatical ss := by
  rw [← Stmt.allGrammatical_mapAll untag, Stmt.untag_resolveAll]

/-- Resolution does not change how a program is written. -/
theorem Stmt.allSymbols_resolveAll (ss : List (Stmt Unit)) (scopes : LocalScopes) :
    Stmt.allSymbols (Stmt.resolveAll scopes ss) = Stmt.allSymbols ss := by
  rw [← Stmt.allSymbols_mapAll untag, Stmt.untag_resolveAll]

/-- Resolution leaves every `return` where it is. -/
theorem Stmt.allStrayReturns_resolveAll (ss : List (Stmt Unit)) (scopes : LocalScopes) :
    Stmt.allStrayReturns (Stmt.resolveAll scopes ss) = Stmt.allStrayReturns ss := by
  rw [← Stmt.allStrayReturns_mapAll untag, Stmt.untag_resolveAll]

/-! ## Accepted texts -/

/-- What is run is the resolution of what has been parsed, which has no misplaced `return`. -/
theorem compileSource_eq_ok_iff {source : String} {p : Program (Option Nat)} :
    compileSource source = .ok p ↔
      ∃ q, parseSource source = .ok q ∧ q.scopeProblems = [] ∧ p = q.resolve := by
  rw [compileSource]
  cases parseSource source with
  | error r => simp [Except.bind]
  | ok q =>
    simp only [Except.bind, Program.compile, Except.ok.injEq, exists_eq_left']
    split
    · next h => simp [h, eq_comm]
    · next d ds h => simp [h]

end RadixScript
