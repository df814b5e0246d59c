import RadixScript.Proofs.Grammar.Tokens
import RadixScript.Proofs.Likeness.Trees

/-!
# Trees that are alike up to their tokens

When is a tree like the same tree with other tokens? `Stmt.places` lists the tokens of a tree and
tells which of them name something of the scope at a given distance. If those of one scope are
renamed, and all others keep their text, the trees are alike (`Stmt.alike_mapTokens`).
-/

namespace RadixScript

variable {L : Likeness} {τ : Token → Token} {ρ : Renaming}

/-! ## Places of names -/

mutual

/-- The tokens of an expression, and whether they name something of the scope at distance `k`. -/
def Expr.places (k : Nat) : Expr (Option Nat) → List (Token × Bool)
  | .literal _ => []
  | .group e => e.places k
  | .unary op e => (op, false) :: e.places k
  | .binary l op r => l.places k ++ (op, false) :: r.places k
  | .logical l op r => l.places k ++ (op, false) :: r.places k
  | .reference name tag => [(name, tag == some k)]
  | .assign name tag e => (name, tag == some k) :: e.places k
  | .call callee paren args => callee.places k ++ (Expr.allPlaces k args ++ [(paren, false)])

/-- The tokens of a list of expressions. -/
def Expr.allPlaces (k : Nat) : List (Expr (Option Nat)) → List (Token × Bool)
  | [] => []
  | e :: es => e.places k ++ Expr.allPlaces k es

end

/-- The tokens of an expression that may be missing. -/
def optionPlaces (k : Nat) : Option (Expr (Option Nat)) → List (Token × Bool)
  | none => []
  | some e => e.places k

/-- Tokens that name nothing. -/
def plainPlaces (ts : List Token) : List (Token × Bool) := ts.map fun t => (t, false)

mutual

/-- The tokens of a statement, and whether they name something of the scope at distance `k`. The
scope at distance 0 is the one that the statement is in. Names of functions do not count, and
neither does anything in a namespace. -/
def Stmt.places (k : Nat) : Stmt (Option Nat) → List (Token × Bool)
  | .expr e => e.places k
  | .letDecl name init type => plainPlaces type.toList ++ (name, k == 0) :: optionPlaces k init
  | .block body => Stmt.allPlaces (k + 1) body
  | .branch c t none => c.places k ++ t.places k
  | .branch c t (some e) => c.places k ++ (t.places k ++ e.places k)
  | .returnStmt keyword value => (keyword, false) :: optionPlaces k value
  | .functionDecl name params body =>
    (name, false) :: (plainPlaces params ++ Stmt.allPlaces (k + 1) body)
  | .namespaceDecl name body => (name, false) :: plainPlaces (Stmt.allTokens body)

/-- The tokens of consecutive statements. -/
def Stmt.allPlaces (k : Nat) : List (Stmt (Option Nat)) → List (Token × Bool)
  | [] => []
  | s :: ss => s.places k ++ Stmt.allPlaces k ss

end

/-! ### All tokens -/

theorem plainPlaces_map_fst (ts : List Token) : (plainPlaces ts).map Prod.fst = ts := by
  simp [plainPlaces, Function.comp_def]

mutual

theorem Expr.places_map_fst (k : Nat) : (e : Expr (Option Nat)) →
    (e.places k).map Prod.fst = e.tokens
  | .literal _ | .reference _ _ => rfl
  | .group e => by
    rw [Expr.places, e.places_map_fst k]
    simp [Expr.tokens, Expr.symbols]
  | .unary _ e => by
    rw [Expr.places, List.map_cons, e.places_map_fst k]
    simp [Expr.tokens, Expr.symbols]
  | .binary l _ r => by
    rw [Expr.places, List.map_append, List.map_cons, l.places_map_fst k, r.places_map_fst k]
    simp [Expr.tokens, Expr.symbols]
  | .logical l _ r => by
    rw [Expr.places, List.map_append, List.map_cons, l.places_map_fst k, r.places_map_fst k]
    simp [Expr.tokens, Expr.symbols]
  | .assign _ _ e => by
    rw [Expr.places, List.map_cons, e.places_map_fst k]
    simp [Expr.tokens, Expr.symbols]
  | .call callee _ args => by
    rw [Expr.places, List.map_append, List.map_append, callee.places_map_fst k,
      Expr.allPlaces_map_fst k args]
    simp [Expr.tokens, Expr.symbols, Symbol.filterMap_token?_commas]

theorem Expr.allPlaces_map_fst (k : Nat) : (es : List (Expr (Option Nat))) →
    (Expr.allPlaces k es).map Prod.fst =
      (Expr.symbolLists es).flatMap (List.filterMap Symbol.token?)
  | [] => rfl
  | e :: es => by
    rw [Expr.allPlaces, List.map_append, e.places_map_fst k, Expr.allPlaces_map_fst k es]
    rfl

end

theorem optionPlaces_map_fst (k : Nat) (e : Option (Expr (Option Nat))) :
    (optionPlaces k e).map Prod.fst = (optionSymbols e).filterMap Symbol.token? := by
  cases e with
  | none => rfl
  | some e => exact e.places_map_fst k

theorem filterMap_initSymbols (e : Option (Expr (Option Nat))) :
    (initSymbols e).filterMap Symbol.token? = (optionSymbols e).filterMap Symbol.token? := by
  cases e <;> rfl

theorem filterMap_paramSymbols (params : List Token) :
    (paramSymbols params).filterMap Symbol.token? = params := by
  rw [paramSymbols, Symbol.filterMap_token?_commas, List.flatMap_map]
  simp

mutual

/-- The places of a tree are those of its tokens, in order. -/
theorem Stmt.places_map_fst (k : Nat) : (s : Stmt (Option Nat)) →
    (s.places k).map Prod.fst = s.tokens
  | .expr e => by
    rw [Stmt.places, e.places_map_fst k]
    simp [Stmt.tokens, Stmt.symbols, Expr.tokens]
  | .letDecl _ init type => by
    rw [Stmt.places, List.map_append, List.map_cons, plainPlaces_map_fst, optionPlaces_map_fst]
    cases type <;> simp [Stmt.tokens, Stmt.symbols, declarationWord,
      filterMap_initSymbols]
  | .block body => by
    rw [Stmt.places, Stmt.allPlaces_map_fst (k + 1) body]
    simp [Stmt.tokens, Stmt.symbols, Stmt.allTokens]
  | .branch c t none => by
    rw [Stmt.places, List.map_append, c.places_map_fst k, t.places_map_fst k]
    simp [Stmt.tokens, Stmt.symbols, Expr.tokens]
  | .branch c t (some e) => by
    rw [Stmt.places, List.map_append, List.map_append, c.places_map_fst k, t.places_map_fst k,
      e.places_map_fst k]
    simp [Stmt.tokens, Stmt.symbols, Expr.tokens]
  | .returnStmt _ value => by
    rw [Stmt.places, List.map_cons, optionPlaces_map_fst]
    simp [Stmt.tokens, Stmt.symbols]
  | .functionDecl _ params body => by
    rw [Stmt.places, List.map_cons, List.map_append, plainPlaces_map_fst,
      Stmt.allPlaces_map_fst (k + 1) body]
    simp [Stmt.tokens, Stmt.symbols, Stmt.allTokens, filterMap_paramSymbols]
  | .namespaceDecl _ body => by
    rw [Stmt.places, List.map_cons, plainPlaces_map_fst]
    simp [Stmt.tokens, Stmt.symbols, Stmt.allTokens]

theorem Stmt.allPlaces_map_fst (k : Nat) : (ss : List (Stmt (Option Nat))) →
    (Stmt.allPlaces k ss).map Prod.fst = Stmt.allTokens ss
  | [] => rfl
  | s :: ss => by
    rw [Stmt.allPlaces, List.map_append, s.places_map_fst k, Stmt.allPlaces_map_fst k ss]
    simp [Stmt.tokens, Stmt.allTokens, Stmt.allSymbols]

end

/-! ## Likeness -/

/-- What stands at a place is renamed, if it names something of the scope, and otherwise keeps its
text. -/
def PlaceAlike (L : Likeness) (ρ : Renaming) (τ : Token → Token) (place : Token × Bool) : Prop :=
  L.token (if place.2 then place.1.rename ρ else place.1) (τ place.1)

/-- Types and namespaces may differ by their tokens. -/
structure Likeness.Follows (L : Likeness) (τ : Token → Token) : Prop where
  types : ∀ type : Option Token, (∀ t ∈ type, L.token t (τ t)) → L.types type (type.map τ)
  namespaces : ∀ name body, L.token name (τ name) → (∀ t ∈ Stmt.allTokens body, L.token t (τ t)) →
    L.namespaces name body (τ name) (Stmt.mapAllTokens τ body)

theorem PlaceAlike.ofTag {k : Nat} {name : Token} {tag : Option Nat}
    (h : PlaceAlike L ρ τ (name, tag == some k)) :
    L.token (name.rename ((Renamings.only k ρ).ofTag tag)) (τ name) := by
  cases tag with
  | none => exact h
  | some d =>
    by_cases hd : d = k
    · subst hd
      simpa [PlaceAlike, Renamings.ofTag, Renamings.only] using h
    · simpa [PlaceAlike, Renamings.ofTag, Renamings.only, hd] using h

theorem forall_plainPlaces {ts : List Token} :
    (∀ place ∈ plainPlaces ts, PlaceAlike L ρ τ place) ↔ ∀ t ∈ ts, L.token t (τ t) := by
  simp [plainPlaces, PlaceAlike]

mutual

theorem Expr.alike_mapTokens (k : Nat) : (e : Expr (Option Nat)) →
    (∀ place ∈ e.places k, PlaceAlike L ρ τ place) →
    e.Alike L (Renamings.only k ρ) (e.mapTokens τ)
  | .literal v, _ => .literal v
  | .group e, h => .group (e.alike_mapTokens k h)
  | .unary op e, h => by
    simp only [Expr.places, List.forall_mem_cons] at h
    exact .unary h.1 (e.alike_mapTokens k h.2)
  | .binary l op r, h => by
    simp only [Expr.places, List.forall_mem_append, List.forall_mem_cons] at h
    exact .binary (l.alike_mapTokens k h.1) h.2.1 (r.alike_mapTokens k h.2.2)
  | .logical l op r, h => by
    simp only [Expr.places, List.forall_mem_append, List.forall_mem_cons] at h
    exact .logical (l.alike_mapTokens k h.1) h.2.1 (r.alike_mapTokens k h.2.2)
  | .reference name tag, h => by
    simp only [Expr.places, List.forall_mem_singleton] at h
    exact .reference h.ofTag
  | .assign name tag e, h => by
    simp only [Expr.places, List.forall_mem_cons] at h
    exact .assign h.1.ofTag (e.alike_mapTokens k h.2)
  | .call callee paren args, h => by
    simp only [Expr.places, List.forall_mem_append, List.forall_mem_singleton] at h
    exact .call (callee.alike_mapTokens k h.1) h.2.2 (Expr.allAlike_mapAllTokens k args h.2.1)

theorem Expr.allAlike_mapAllTokens (k : Nat) : (es : List (Expr (Option Nat))) →
    (∀ place ∈ Expr.allPlaces k es, PlaceAlike L ρ τ place) →
    Expr.AllAlike L (Renamings.only k ρ) es (Expr.mapAllTokens τ es)
  | [], _ => .nil
  | e :: es, h => by
    simp only [Expr.allPlaces, List.forall_mem_append] at h
    exact .cons (e.alike_mapTokens k h.1) (Expr.allAlike_mapAllTokens k es h.2)

end

theorem optionRel_alike_mapTokens {k : Nat} {e : Option (Expr (Option Nat))}
    (h : ∀ place ∈ optionPlaces k e, PlaceAlike L ρ τ place) :
    Option.Rel (Expr.Alike L (Renamings.only k ρ)) e (e.map (Expr.mapTokens τ)) := by
  cases e with
  | none => exact .none
  | some e => exact .some (e.alike_mapTokens k h)

/-- The names of the functions that a statement declares in the scope around it. -/
def Stmt.functionNames {δ : Type} : Stmt δ → List Token
  | .functionDecl name _ _ => [name]
  | .branch _ t none => t.functionNames
  | .branch _ t (some e) => t.functionNames ++ e.functionNames
  | _ => []

/-- The names of the functions that consecutive statements declare in the scope around them. -/
def Stmt.allFunctionNames {δ : Type} (ss : List (Stmt δ)) : List Token :=
  ss.flatMap Stmt.functionNames

mutual

/-- **A statement is like the same one with other tokens**, in which the names of one scope are
renamed and everything else keeps its text. The functions of that scope keep their names. -/
theorem Stmt.alike_mapTokens (hL : L.Follows τ) : (s : Stmt (Option Nat)) → ∀ k,
    (∀ place ∈ s.places k, PlaceAlike L ρ τ place) →
    (k = 0 → ∀ f ∈ s.functionNames, ρ f.text = f.text) →
    s.Alike L (Renamings.only k ρ) (s.mapTokens τ)
  | .expr e, k, h, _ => .expr (e.alike_mapTokens k h)
  | .letDecl name init type, k, h, _ => by
    simp only [Stmt.places, List.forall_mem_append, List.forall_mem_cons, forall_plainPlaces,
      Option.mem_toList] at h
    refine .letDecl ?_ (optionRel_alike_mapTokens h.2.2) (hL.types type h.1)
    have hname : PlaceAlike L ρ τ (name, some 0 == some k) := by
      rw [show (some 0 == some k) = (k == 0) from Bool.beq_comm]
      exact h.2.1
    exact hname.ofTag
  | .block body, k, h, _ => by
    rw [Stmt.places] at h
    refine .block (Equiv.refl String) L.renames_refl ?_
    rw [Renamings.enter_only]
    exact Stmt.allAlike_mapAllTokens hL body (k + 1) h nofun
  | .branch c t none, k, h, hf => by
    simp only [Stmt.places, List.forall_mem_append] at h
    exact .branch (c.alike_mapTokens k h.1) (t.alike_mapTokens hL k h.2 hf)
  | .branch c t (some e), k, h, hf => by
    simp only [Stmt.places, List.forall_mem_append] at h
    simp only [Stmt.functionNames, List.forall_mem_append] at hf
    exact .branchElse (c.alike_mapTokens k h.1) (t.alike_mapTokens hL k h.2.1 fun hk => (hf hk).1)
      (e.alike_mapTokens hL k h.2.2 fun hk => (hf hk).2)
  | .returnStmt keyword value, k, h, _ => by
    simp only [Stmt.places, List.forall_mem_cons] at h
    exact .returnStmt h.1 (optionRel_alike_mapTokens h.2)
  | .functionDecl name params body, k, h, hf => by
    simp only [Stmt.places, List.forall_mem_cons, List.forall_mem_append, forall_plainPlaces] at h
    refine .functionDecl (Equiv.refl String) L.renames_refl h.1 ?_ ?_ ?_
    · cases k with
      | zero => exact hf rfl name (List.mem_singleton_self _)
      | succ k => rfl
    · rw [List.forall₂_map_right_iff, List.forall₂_same]
      exact h.2.1
    · rw [Renamings.enter_only]
      exact Stmt.allAlike_mapAllTokens hL body (k + 1) h.2.2 nofun
  | .namespaceDecl name body, k, h, _ => by
    simp only [Stmt.places, List.forall_mem_cons, forall_plainPlaces] at h
    exact .namespaceDecl (hL.namespaces name body h.1 h.2)

theorem Stmt.allAlike_mapAllTokens (hL : L.Follows τ) : (ss : List (Stmt (Option Nat))) → ∀ k,
    (∀ place ∈ Stmt.allPlaces k ss, PlaceAlike L ρ τ place) →
    (k = 0 → ∀ f ∈ Stmt.allFunctionNames ss, ρ f.text = f.text) →
    Stmt.AllAlike L (Renamings.only k ρ) ss (Stmt.mapAllTokens τ ss)
  | [], _, _, _ => .nil
  | s :: ss, k, h, hf => by
    simp only [Stmt.allPlaces, List.forall_mem_append] at h
    simp only [Stmt.allFunctionNames, List.flatMap_cons, List.forall_mem_append] at hf
    exact .cons (s.alike_mapTokens hL k h.1 fun hk => (hf hk).1)
      (Stmt.allAlike_mapAllTokens hL ss k h.2 fun hk => (hf hk).2)

end

/-! ### Nothing is renamed -/

theorem placeAlike_refl {ts : List Token} {places : List (Token × Bool)}
    (h : ∀ t ∈ ts, L.token t (τ t)) (hplaces : places.map Prod.fst = ts) :
    ∀ place ∈ places, PlaceAlike L (Equiv.refl String) τ place := by
  rintro ⟨t, b⟩ ht
  have hmem : t ∈ ts := by
    rw [← hplaces]
    exact List.mem_map_of_mem ht
  cases b <;> exact h t hmem

theorem Expr.alike_of_tokens (e : Expr (Option Nat)) (h : ∀ t ∈ e.tokens, L.token t (τ t)) :
    e.Alike L Renamings.none (e.mapTokens τ) := by
  have := e.alike_mapTokens 0 (placeAlike_refl h (e.places_map_fst 0))
  rwa [Renamings.only_refl] at this

theorem Stmt.alike_of_tokens (hL : L.Follows τ) (s : Stmt (Option Nat))
    (h : ∀ t ∈ s.tokens, L.token t (τ t)) : s.Alike L Renamings.none (s.mapTokens τ) := by
  have := s.alike_mapTokens hL 0 (placeAlike_refl h (s.places_map_fst 0)) fun _ _ _ => rfl
  rwa [Renamings.only_refl] at this

theorem Stmt.allAlike_of_tokens (hL : L.Follows τ) (ss : List (Stmt (Option Nat)))
    (h : ∀ t ∈ Stmt.allTokens ss, L.token t (τ t)) :
    Stmt.AllAlike L Renamings.none ss (Stmt.mapAllTokens τ ss) := by
  have := Stmt.allAlike_mapAllTokens hL ss 0 (placeAlike_refl h (Stmt.allPlaces_map_fst 0 ss))
    fun _ _ _ => rfl
  rwa [Renamings.only_refl] at this

end RadixScript
