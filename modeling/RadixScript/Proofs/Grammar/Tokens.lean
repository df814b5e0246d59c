import RadixScript.Proofs.Grammar.Basic
import RadixScript.Tree.Resolve

/-!
# The tokens of a tree

`Stmt.tokens` are the tokens that a tree keeps, in source order, and `Stmt.mapTokens` puts other
tokens in their place. The grammar looks at kinds and constants only. So where these stay, a tree
with other tokens is grammatical too (`Stmt.grammatical_mapTokens`), and it is written in the same
way (`Program.WrittenAs.mapTokens`).
-/

namespace RadixScript

variable {δ ε : Type} {τ : Token → Token}

/-! ## Tokens in source order -/

/-- The token that a symbol stands for. -/
def Symbol.token? : Symbol → Option Token
  | token t => some t
  | _ => none

section tokens

variable {k : Kind} {t : Token} {v : Literal} {ss : List Symbol}

@[simp] theorem Symbol.filterMap_token?_mark :
    (mark k :: ss).filterMap token? = ss.filterMap token? := rfl

@[simp] theorem Symbol.filterMap_token?_value :
    (value v :: ss).filterMap token? = ss.filterMap token? := rfl

@[simp] theorem Symbol.filterMap_token?_token :
    (token t :: ss).filterMap token? = t :: ss.filterMap token? := rfl

theorem Symbol.filterMap_token?_commas (parts : List (List Symbol)) :
    (commas parts).filterMap token? = parts.flatMap (List.filterMap token?) := by
  induction parts with
  | nil => rfl
  | cons part rest ih =>
    cases rest with
    | nil => simp [commas]
    | cons next rest =>
      rw [commas_cons (List.cons_ne_nil _ _), List.filterMap_append, filterMap_token?_mark, ih]
      rfl

end tokens

/-- The tokens of an expression. -/
def Expr.tokens (e : Expr δ) : List Token := e.symbols.filterMap Symbol.token?

/-- The tokens of a statement. -/
def Stmt.tokens (s : Stmt δ) : List Token := s.symbols.filterMap Symbol.token?

/-- The tokens of consecutive statements. -/
def Stmt.allTokens (ss : List (Stmt δ)) : List Token := (Stmt.allSymbols ss).filterMap Symbol.token?

/-- The tokens of a tree are among those that it is written as, in the same order. -/
theorem filterMap_token?_sublist {ss : List Symbol} {ts : List Token}
    (h : List.Forall₂ Symbol.Shows ss ts) : List.Sublist (ss.filterMap Symbol.token?) ts := by
  induction h with
  | nil => exact .slnil
  | @cons s t ss ts hs _ ih =>
    cases s with
    | token t' =>
      cases hs
      exact ih.cons_cons _
    | mark | value => exact ih.cons _

/-! ## Other tokens -/

mutual

/-- Puts other tokens into an expression. -/
def Expr.mapTokens (τ : Token → Token) : Expr δ → Expr δ
  | .literal v => .literal v
  | .group e => .group (e.mapTokens τ)
  | .unary op e => .unary (τ op) (e.mapTokens τ)
  | .binary l op r => .binary (l.mapTokens τ) (τ op) (r.mapTokens τ)
  | .logical l op r => .logical (l.mapTokens τ) (τ op) (r.mapTokens τ)
  | .reference name s => .reference (τ name) s
  | .assign name s e => .assign (τ name) s (e.mapTokens τ)
  | .call callee paren args =>
    .call (callee.mapTokens τ) (τ paren) (Expr.mapAllTokens τ args)

/-- Puts other tokens into a list of expressions. -/
def Expr.mapAllTokens (τ : Token → Token) : List (Expr δ) → List (Expr δ)
  | [] => []
  | e :: es => e.mapTokens τ :: Expr.mapAllTokens τ es

end

mutual

/-- Puts other tokens into a statement. -/
def Stmt.mapTokens (τ : Token → Token) : Stmt δ → Stmt δ
  | .expr e => .expr (e.mapTokens τ)
  | .letDecl name init type =>
    .letDecl (τ name) (init.map (Expr.mapTokens τ)) (type.map τ)
  | .block body => .block (Stmt.mapAllTokens τ body)
  | .branch c t none => .branch (c.mapTokens τ) (t.mapTokens τ) none
  | .branch c t (some e) => .branch (c.mapTokens τ) (t.mapTokens τ) (some (e.mapTokens τ))
  | .returnStmt keyword value => .returnStmt (τ keyword) (value.map (Expr.mapTokens τ))
  | .functionDecl name params body =>
    .functionDecl (τ name) (params.map τ) (Stmt.mapAllTokens τ body)
  | .namespaceDecl name body => .namespaceDecl (τ name) (Stmt.mapAllTokens τ body)

/-- Puts other tokens into consecutive statements. -/
def Stmt.mapAllTokens (τ : Token → Token) : List (Stmt δ) → List (Stmt δ)
  | [] => []
  | s :: ss => s.mapTokens τ :: Stmt.mapAllTokens τ ss

end

mutual

theorem Expr.mapTokens_id : (e : Expr δ) → e.mapTokens id = e
  | .literal _ | .reference _ _ => rfl
  | .group e => by rw [Expr.mapTokens, e.mapTokens_id]
  | .unary _ e => by rw [Expr.mapTokens, e.mapTokens_id, id]
  | .binary l _ r => by rw [Expr.mapTokens, l.mapTokens_id, r.mapTokens_id, id]
  | .logical l _ r => by rw [Expr.mapTokens, l.mapTokens_id, r.mapTokens_id, id]
  | .assign _ _ e => by rw [Expr.mapTokens, e.mapTokens_id, id]
  | .call callee _ args => by
    rw [Expr.mapTokens, callee.mapTokens_id, Expr.mapAllTokens_id args, id]

theorem Expr.mapAllTokens_id : (es : List (Expr δ)) → Expr.mapAllTokens id es = es
  | [] => rfl
  | e :: es => by rw [Expr.mapAllTokens, e.mapTokens_id, Expr.mapAllTokens_id es]

end

theorem optionMap_mapTokens_id (e : Option (Expr δ)) : e.map (Expr.mapTokens id) = e := by
  cases e with
  | none => rfl
  | some e => rw [Option.map_some, e.mapTokens_id]

mutual

theorem Stmt.mapTokens_id : (s : Stmt δ) → s.mapTokens id = s
  | .expr e => by rw [Stmt.mapTokens, e.mapTokens_id]
  | .letDecl _ init type => by
    rw [Stmt.mapTokens, optionMap_mapTokens_id, Option.map_id, id, id]
  | .block body => by rw [Stmt.mapTokens, Stmt.mapAllTokens_id body]
  | .branch c t none => by rw [Stmt.mapTokens, c.mapTokens_id, t.mapTokens_id]
  | .branch c t (some e) => by
    rw [Stmt.mapTokens, c.mapTokens_id, t.mapTokens_id, e.mapTokens_id]
  | .returnStmt _ value => by rw [Stmt.mapTokens, optionMap_mapTokens_id, id]
  | .functionDecl _ params body => by
    rw [Stmt.mapTokens, List.map_id, Stmt.mapAllTokens_id body, id]
  | .namespaceDecl _ body => by rw [Stmt.mapTokens, Stmt.mapAllTokens_id body, id]

theorem Stmt.mapAllTokens_id : (ss : List (Stmt δ)) → Stmt.mapAllTokens id ss = ss
  | [] => rfl
  | s :: ss => by rw [Stmt.mapAllTokens, s.mapTokens_id, Stmt.mapAllTokens_id ss]

end

mutual

theorem Expr.map_mapTokens (f : δ → ε) : (e : Expr δ) →
    (e.mapTokens τ).map f = (e.map f).mapTokens τ
  | .literal _ | .reference _ _ => rfl
  | .group e => by simp only [Expr.mapTokens, Expr.map, e.map_mapTokens f]
  | .unary _ e => by simp only [Expr.mapTokens, Expr.map, e.map_mapTokens f]
  | .binary l _ r => by
    simp only [Expr.mapTokens, Expr.map, l.map_mapTokens f, r.map_mapTokens f]
  | .logical l _ r => by
    simp only [Expr.mapTokens, Expr.map, l.map_mapTokens f, r.map_mapTokens f]
  | .assign _ _ e => by simp only [Expr.mapTokens, Expr.map, e.map_mapTokens f]
  | .call callee _ args => by
    simp only [Expr.mapTokens, Expr.map, callee.map_mapTokens f, Expr.mapAll_mapAllTokens f args]

theorem Expr.mapAll_mapAllTokens (f : δ → ε) : (es : List (Expr δ)) →
    Expr.mapAll f (Expr.mapAllTokens τ es) = Expr.mapAllTokens τ (Expr.mapAll f es)
  | [] => rfl
  | e :: es => by
    simp only [Expr.mapAllTokens, Expr.mapAll, e.map_mapTokens f, Expr.mapAll_mapAllTokens f es]

end

theorem optionMap_map_mapTokens (f : δ → ε) (e : Option (Expr δ)) :
    (e.map (Expr.mapTokens τ)).map (Expr.map f) = (e.map (Expr.map f)).map (Expr.mapTokens τ) := by
  cases e with
  | none => rfl
  | some e => simp only [Option.map_some, e.map_mapTokens f]

mutual

theorem Stmt.map_mapTokens (f : δ → ε) : (s : Stmt δ) →
    (s.mapTokens τ).map f = (s.map f).mapTokens τ
  | .expr e => by simp only [Stmt.mapTokens, Stmt.map, e.map_mapTokens f]
  | .letDecl _ init _ => by simp only [Stmt.mapTokens, Stmt.map, optionMap_map_mapTokens f init]
  | .block body => by simp only [Stmt.mapTokens, Stmt.map, Stmt.mapAll_mapAllTokens f body]
  | .branch c t none => by
    simp only [Stmt.mapTokens, Stmt.map, c.map_mapTokens f, t.map_mapTokens f]
  | .branch c t (some e) => by
    simp only [Stmt.mapTokens, Stmt.map, c.map_mapTokens f, t.map_mapTokens f, e.map_mapTokens f]
  | .returnStmt _ value => by
    simp only [Stmt.mapTokens, Stmt.map, optionMap_map_mapTokens f value]
  | .functionDecl _ _ body => by
    simp only [Stmt.mapTokens, Stmt.map, Stmt.mapAll_mapAllTokens f body]
  | .namespaceDecl _ body => by
    simp only [Stmt.mapTokens, Stmt.map, Stmt.mapAll_mapAllTokens f body]

theorem Stmt.mapAll_mapAllTokens (f : δ → ε) : (ss : List (Stmt δ)) →
    Stmt.mapAll f (Stmt.mapAllTokens τ ss) = Stmt.mapAllTokens τ (Stmt.mapAll f ss)
  | [] => rfl
  | s :: ss => by
    simp only [Stmt.mapAllTokens, Stmt.mapAll, s.map_mapTokens f, Stmt.mapAll_mapAllTokens f ss]

end

mutual

theorem Stmt.strayReturns_mapTokens : (s : Stmt δ) →
    (s.mapTokens τ).strayReturns = s.strayReturns.map τ
  | .expr _ | .letDecl _ _ _ | .returnStmt _ _ | .functionDecl _ _ _ | .namespaceDecl _ _ => rfl
  | .block body => Stmt.allStrayReturns_mapAllTokens body
  | .branch _ t none => t.strayReturns_mapTokens
  | .branch _ t (some e) => by
    simp only [Stmt.mapTokens, Stmt.strayReturns, t.strayReturns_mapTokens,
      e.strayReturns_mapTokens, List.map_append]

theorem Stmt.allStrayReturns_mapAllTokens : (ss : List (Stmt δ)) →
    Stmt.allStrayReturns (Stmt.mapAllTokens τ ss) = (Stmt.allStrayReturns ss).map τ
  | [] => rfl
  | s :: ss => by
    simp only [Stmt.mapAllTokens, Stmt.allStrayReturns, s.strayReturns_mapTokens,
      Stmt.allStrayReturns_mapAllTokens ss, List.map_append]

end

/-! ## Written form -/

/-- Puts another token into a symbol. -/
def Symbol.map (τ : Token → Token) : Symbol → Symbol
  | token t => .token (τ t)
  | s => s

theorem Symbol.map_commas (τ : Token → Token) : (parts : List (List Symbol)) →
    (commas parts).map (Symbol.map τ) = commas (parts.map (List.map (Symbol.map τ)))
  | [] | [_] => rfl
  | part :: next :: rest => by
    rw [commas, List.map_append, List.map_cons, Symbol.map_commas τ (next :: rest)]
    rfl

mutual

theorem Expr.symbols_mapTokens : (e : Expr δ) →
    (e.mapTokens τ).symbols = e.symbols.map (Symbol.map τ)
  | .literal _ | .reference _ _ => rfl
  | .group e => by
    simp [Expr.mapTokens, Expr.symbols, e.symbols_mapTokens, Symbol.map]
  | .unary _ e => by simp [Expr.mapTokens, Expr.symbols, e.symbols_mapTokens, Symbol.map]
  | .binary l _ r => by
    simp [Expr.mapTokens, Expr.symbols, l.symbols_mapTokens, r.symbols_mapTokens, Symbol.map]
  | .logical l _ r => by
    simp [Expr.mapTokens, Expr.symbols, l.symbols_mapTokens, r.symbols_mapTokens, Symbol.map]
  | .assign _ _ e => by simp [Expr.mapTokens, Expr.symbols, e.symbols_mapTokens, Symbol.map]
  | .call callee _ args => by
    simp [Expr.mapTokens, Expr.symbols, callee.symbols_mapTokens, Symbol.map, Symbol.map_commas,
      Expr.symbolLists_mapAllTokens args]

theorem Expr.symbolLists_mapAllTokens : (es : List (Expr δ)) →
    Expr.symbolLists (Expr.mapAllTokens τ es) =
      (Expr.symbolLists es).map (List.map (Symbol.map τ))
  | [] => rfl
  | e :: es => by
    simp [Expr.mapAllTokens, Expr.symbolLists, e.symbols_mapTokens,
      Expr.symbolLists_mapAllTokens es]

end

theorem initSymbols_map (e : Option (Expr δ)) :
    initSymbols (e.map (Expr.mapTokens τ)) = (initSymbols e).map (Symbol.map τ) := by
  cases e with
  | none => rfl
  | some e => simp [initSymbols, e.symbols_mapTokens, Symbol.map]

theorem optionSymbols_map (e : Option (Expr δ)) :
    optionSymbols (e.map (Expr.mapTokens τ)) = (optionSymbols e).map (Symbol.map τ) := by
  cases e with
  | none => rfl
  | some e => exact e.symbols_mapTokens

theorem declarationWord_map (type : Option Token) :
    declarationWord (type.map τ) = (declarationWord type).map τ := by
  cases type <;> rfl

theorem paramSymbols_map (params : List Token) :
    paramSymbols (params.map τ) = (paramSymbols params).map (Symbol.map τ) := by
  simp [paramSymbols, Symbol.map_commas, Symbol.map, Function.comp_def]

mutual

/-- With other tokens a tree is written in the same way, with other tokens. -/
theorem Stmt.symbols_mapTokens : (s : Stmt δ) →
    (s.mapTokens τ).symbols = s.symbols.map (Symbol.map τ)
  | .expr e => by simp [Stmt.mapTokens, Stmt.symbols, e.symbols_mapTokens, Symbol.map]
  | .letDecl _ init type => by
    simp [Stmt.mapTokens, Stmt.symbols, initSymbols_map, declarationWord_map, Symbol.map]
  | .block body => by
    simp [Stmt.mapTokens, Stmt.symbols, Stmt.allSymbols_mapAllTokens body, Symbol.map]
  | .branch c t none => by
    simp [Stmt.mapTokens, Stmt.symbols, c.symbols_mapTokens, t.symbols_mapTokens, Symbol.map]
  | .branch c t (some e) => by
    simp [Stmt.mapTokens, Stmt.symbols, c.symbols_mapTokens, t.symbols_mapTokens,
      e.symbols_mapTokens, Symbol.map]
  | .returnStmt _ value => by
    simp [Stmt.mapTokens, Stmt.symbols, optionSymbols_map, Symbol.map]
  | .functionDecl _ params body => by
    simp [Stmt.mapTokens, Stmt.symbols, paramSymbols_map, Stmt.allSymbols_mapAllTokens body,
      Symbol.map]
  | .namespaceDecl _ body => by
    simp [Stmt.mapTokens, Stmt.symbols, Stmt.allSymbols_mapAllTokens body, Symbol.map]

theorem Stmt.allSymbols_mapAllTokens : (ss : List (Stmt δ)) →
    Stmt.allSymbols (Stmt.mapAllTokens τ ss) = (Stmt.allSymbols ss).map (Symbol.map τ)
  | [] => rfl
  | s :: ss => by
    simp [Stmt.mapAllTokens, Stmt.allSymbols, s.symbols_mapTokens,
      Stmt.allSymbols_mapAllTokens ss]

end

/-! ## Grammatical form -/

theorem Expr.strength_mapTokens (hkind : ∀ t, (τ t).kind = t.kind) (e : Expr δ) :
    (e.mapTokens τ).strength = e.strength := by
  cases e <;> simp only [Expr.mapTokens, Expr.strength, hkind]

theorem Expr.length_mapAllTokens (es : List (Expr δ)) :
    (Expr.mapAllTokens τ es).length = es.length := by
  induction es with
  | nil => rfl
  | cons e es ih => rw [Expr.mapAllTokens, List.length_cons, List.length_cons, ih]

mutual

theorem Expr.grammatical_mapTokens (hkind : ∀ t, (τ t).kind = t.kind) : (e : Expr δ) →
    ((e.mapTokens τ).Grammatical ↔ e.Grammatical)
  | .literal _ => Iff.rfl
  | .reference name _ => by simp only [Expr.mapTokens, Expr.Grammatical, hkind]
  | .group e => e.grammatical_mapTokens hkind
  | .unary _ e => by
    simp only [Expr.mapTokens, Expr.Grammatical, hkind, Expr.strength_mapTokens hkind,
      e.grammatical_mapTokens hkind]
  | .binary l _ r => by
    simp only [Expr.mapTokens, Expr.Grammatical, hkind, Expr.strength_mapTokens hkind,
      l.grammatical_mapTokens hkind, r.grammatical_mapTokens hkind]
  | .logical l _ r => by
    simp only [Expr.mapTokens, Expr.Grammatical, hkind, Expr.strength_mapTokens hkind,
      l.grammatical_mapTokens hkind, r.grammatical_mapTokens hkind]
  | .assign _ _ e => by
    simp only [Expr.mapTokens, Expr.Grammatical, hkind, e.grammatical_mapTokens hkind]
  | .call callee _ args => by
    simp only [Expr.mapTokens, Expr.Grammatical, hkind, Expr.strength_mapTokens hkind,
      Expr.length_mapAllTokens, callee.grammatical_mapTokens hkind,
      Expr.allGrammatical_mapAllTokens hkind args]

theorem Expr.allGrammatical_mapAllTokens (hkind : ∀ t, (τ t).kind = t.kind) :
    (es : List (Expr δ)) →
    (Expr.AllGrammatical (Expr.mapAllTokens τ es) ↔ Expr.AllGrammatical es)
  | [] => Iff.rfl
  | e :: es => by
    simp only [Expr.mapAllTokens, Expr.AllGrammatical, e.grammatical_mapTokens hkind,
      Expr.allGrammatical_mapAllTokens hkind es]

end

theorem forall_grammatical_mapTokens (hkind : ∀ t, (τ t).kind = t.kind)
    (e : Option (Expr δ)) :
    (∀ x ∈ e.map (Expr.mapTokens τ), x.Grammatical) ↔ ∀ x ∈ e, x.Grammatical := by
  cases e with
  | none => simp
  | some e => simp [e.grammatical_mapTokens hkind]

theorem Stmt.isDeclaration_mapTokens (s : Stmt δ) :
    (s.mapTokens τ).isDeclaration = s.isDeclaration := by
  cases s with
  | branch c t e => cases e <;> rfl
  | _ => rfl

theorem Stmt.endsOpen_mapTokens : (s : Stmt δ) → (s.mapTokens τ).endsOpen = s.endsOpen
  | .expr _ | .letDecl _ _ _ | .block _ | .branch _ _ none | .returnStmt _ _
  | .functionDecl _ _ _ | .namespaceDecl _ _ => rfl
  | .branch _ _ (some e) => e.endsOpen_mapTokens

mutual

/-- Whether a statement is grammatical depends on the kinds of its tokens only. -/
theorem Stmt.grammatical_mapTokens (hkind : ∀ t, (τ t).kind = t.kind) : (s : Stmt δ) →
    ((s.mapTokens τ).Grammatical ↔ s.Grammatical)
  | .expr e => e.grammatical_mapTokens hkind
  | .letDecl name init type => by
    have htype : (∀ t ∈ type.map τ, t.kind.isTypeWord = true) ↔
        ∀ t ∈ type, t.kind.isTypeWord = true := by
      cases type <;> simp [hkind]
    simp only [Stmt.mapTokens, Stmt.Grammatical, hkind, forall_grammatical_mapTokens hkind init,
      htype]
  | .block body => Stmt.allGrammatical_mapAllTokens hkind body
  | .branch c t none => by
    simp only [Stmt.mapTokens, Stmt.Grammatical, c.grammatical_mapTokens hkind,
      t.grammatical_mapTokens hkind, Stmt.isDeclaration_mapTokens]
  | .branch c t (some e) => by
    simp only [Stmt.mapTokens, Stmt.Grammatical, c.grammatical_mapTokens hkind,
      t.grammatical_mapTokens hkind, e.grammatical_mapTokens hkind, Stmt.isDeclaration_mapTokens,
      Stmt.endsOpen_mapTokens]
  | .returnStmt keyword value => by
    simp only [Stmt.mapTokens, Stmt.Grammatical, hkind, forall_grammatical_mapTokens hkind value]
  | .functionDecl name params body => by
    simp only [Stmt.mapTokens, Stmt.Grammatical, hkind, List.forall_mem_map, List.length_map,
      Stmt.allGrammatical_mapAllTokens hkind body]
  | .namespaceDecl name body => by
    simp only [Stmt.mapTokens, Stmt.Grammatical, hkind, Stmt.allGrammatical_mapAllTokens hkind body]

theorem Stmt.allGrammatical_mapAllTokens (hkind : ∀ t, (τ t).kind = t.kind) :
    (ss : List (Stmt δ)) →
    (Stmt.AllGrammatical (Stmt.mapAllTokens τ ss) ↔ Stmt.AllGrammatical ss)
  | [] => Iff.rfl
  | s :: ss => by
    simp only [Stmt.mapAllTokens, Stmt.AllGrammatical, s.grammatical_mapTokens hkind,
      Stmt.allGrammatical_mapAllTokens hkind ss]

end

/-! ## Other tokens written out -/

section written

variable (hkind : ∀ t, (τ t).kind = t.kind) (hliteral : ∀ t, (τ t).literal = t.literal)

include hkind hliteral

theorem Symbol.shows_map {s : Symbol} {t : Token} (h : s.Shows t) : (s.map τ).Shows (τ t) := by
  cases s with
  | mark kind => exact (hkind t).trans h
  | token t' => exact congrArg τ h
  | value v =>
    have hvalue : (τ t).value? = t.value? := by rw [Token.value?, Token.value?, hkind, hliteral]
    exact hvalue.trans h

/-- **With other tokens of the same kinds and constants, a program is written as the same tokens
replaced by the others.** -/
theorem Program.WrittenAs.mapTokens {p : Program δ} {ts : List Token} (h : p.WrittenAs ts) :
    Program.WrittenAs (Stmt.mapAllTokens τ p) (ts.map τ) := by
  rw [Program.WrittenAs, Stmt.allSymbols_mapAllTokens, List.forall₂_map_left_iff,
    List.forall₂_map_right_iff]
  exact h.imp fun _ _ => Symbol.shows_map hkind hliteral

end written

end RadixScript
