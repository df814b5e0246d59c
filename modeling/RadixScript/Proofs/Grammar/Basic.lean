import Mathlib.Data.List.Forall2
import RadixScript.Tree.ExprParser

/-!
# Written form and grammatical form of trees

The two halves of the grammar, said without the parser.

* **Written form**: `Expr.symbols` and `Stmt.symbols` write a tree out in source order. A tree does
  not keep all of its tokens, so what is written is a list of `Symbol`s: of a mark or a keyword only
  the kind is fixed, of a literal only the value, and every token that the tree keeps stands for
  itself. `Spells` says that a token list begins with tokens that show such symbols.
* **Grammatical form**: `Expr.Grammatical` and `Stmt.Grammatical` say which trees need no more
  parentheses than they have. `Expr.strength` orders expressions from the loosest (assignment) to
  the tightest, along `Kind.precedence?`.
-/

namespace RadixScript

variable {δ : Type}

/-! ## Symbols -/

/-- What a tree fixes about a token of its written form. -/
inductive Symbol where
  /-- Any token of a kind. -/
  | mark (kind : Kind)
  /-- One given token. -/
  | token (t : Token)
  /-- Any token that stands for a constant. -/
  | value (v : Literal)

/-- The constant that a token stands for. -/
def Token.value? (t : Token) : Option Literal :=
  match t.kind with
  | .falseWord => some (.bool false)
  | .trueWord => some (.bool true)
  | .nullWord => some .null
  | kind => if kind.isLiteral then some (t.literal.getD .null) else none

namespace Symbol

/-- A token is one that the symbol allows. -/
def Shows : Symbol → Token → Prop
  | mark kind, t => t.kind = kind
  | token t', t => t' = t
  | value v, t => t.value? = some v

/-- Lists of symbols with commas between them. -/
def commas : List (List Symbol) → List Symbol
  | [] => []
  | [part] => part
  | part :: next :: rest => part ++ mark .comma :: commas (next :: rest)

theorem commas_cons {part : List Symbol} {rest : List (List Symbol)} (h : rest ≠ []) :
    commas (part :: rest) = part ++ mark .comma :: commas rest := by
  cases rest with
  | nil => exact absurd rfl h
  | cons next rest => rfl

end Symbol

/-! ## Written form -/

mutual

/-- The written form of an expression. -/
def Expr.symbols : Expr δ → List Symbol
  | .literal v => [.value v]
  | .group e => .mark .leftParen :: (e.symbols ++ [.mark .rightParen])
  | .unary op e => .token op :: e.symbols
  | .binary l op r => l.symbols ++ .token op :: r.symbols
  | .logical l op r => l.symbols ++ .token op :: r.symbols
  | .reference name _ => [.token name]
  | .assign name _ e => .token name :: .mark .equal :: e.symbols
  | .call callee paren args =>
    callee.symbols ++ .mark .leftParen :: (Symbol.commas (Expr.symbolLists args) ++ [.token paren])

/-- The written form of each expression of a list. -/
def Expr.symbolLists : List (Expr δ) → List (List Symbol)
  | [] => []
  | e :: es => e.symbols :: Expr.symbolLists es

end

/-- The written form of an initial value with the mark in front of it, or nothing. -/
def initSymbols : Option (Expr δ) → List Symbol
  | none => []
  | some e => .mark .equal :: e.symbols

/-- The written form of an expression that may be missing. -/
def optionSymbols : Option (Expr δ) → List Symbol
  | none => []
  | some e => e.symbols

/-- The word that a variable declaration begins with. -/
def declarationWord : Option Token → Symbol
  | none => .mark .letWord
  | some type => .token type

/-- The written form of a parameter list without its parentheses. -/
def paramSymbols (params : List Token) : List Symbol :=
  Symbol.commas (params.map fun p => [.token p])

mutual

/-- The written form of a statement. -/
def Stmt.symbols : Stmt δ → List Symbol
  | .expr e => e.symbols ++ [.mark .semicolon]
  | .letDecl name init type =>
    declarationWord type :: .token name :: (initSymbols init ++ [.mark .semicolon])
  | .block body => .mark .leftBrace :: (Stmt.allSymbols body ++ [.mark .rightBrace])
  | .branch c t none =>
    .mark .ifWord :: .mark .leftParen :: (c.symbols ++ .mark .rightParen :: t.symbols)
  | .branch c t (some e) =>
    .mark .ifWord :: .mark .leftParen ::
      (c.symbols ++ .mark .rightParen :: (t.symbols ++ .mark .elseWord :: e.symbols))
  | .returnStmt keyword value => .token keyword :: (optionSymbols value ++ [.mark .semicolon])
  | .functionDecl name params body =>
    .mark .doWord :: .token name :: .mark .leftParen :: (paramSymbols params ++
      .mark .rightParen :: .mark .leftBrace :: (Stmt.allSymbols body ++ [.mark .rightBrace]))
  | .namespaceDecl name body =>
    .mark .namespaceWord :: .token name :: .mark .leftBrace ::
      (Stmt.allSymbols body ++ [.mark .rightBrace])

/-- The written form of consecutive statements. -/
def Stmt.allSymbols : List (Stmt δ) → List Symbol
  | [] => []
  | s :: ss => s.symbols ++ Stmt.allSymbols ss

end

/-! ## Grammatical form -/

/-- How tight an expression holds together: assignment is the loosest, then come the levels of
operators, unary operators, calls, and what is a single operand. -/
def Expr.strength : Expr δ → Nat
  | .assign _ _ _ => 0
  | .binary _ op _ | .logical _ op _ => op.kind.precedence?.getD 0 + 1
  | .unary _ _ => levelCount + 1
  | .call _ _ _ => levelCount + 2
  | .literal _ | .group _ | .reference _ _ => levelCount + 3

mutual

/-- Every operand holds together tighter than its operator asks for. Operators of one level lean
to the left: the left operand may be of the same level, the right one is tighter. -/
def Expr.Grammatical : Expr δ → Prop
  | .literal _ => True
  | .group e => e.Grammatical
  | .unary op e => op.kind.isUnary = true ∧ e.Grammatical ∧ levelCount + 1 ≤ e.strength
  | .binary l op r =>
    ∃ level, op.kind.precedence? = some level ∧ op.kind.isLogical = false ∧
      l.Grammatical ∧ level + 1 ≤ l.strength ∧ r.Grammatical ∧ level + 1 < r.strength
  | .logical l op r =>
    ∃ level, op.kind.precedence? = some level ∧ op.kind.isLogical = true ∧
      l.Grammatical ∧ level + 1 ≤ l.strength ∧ r.Grammatical ∧ level + 1 < r.strength
  | .reference name _ => name.kind = .identifier
  | .assign name _ e => name.kind = .identifier ∧ e.Grammatical
  | .call callee paren args =>
    callee.Grammatical ∧ levelCount + 2 ≤ callee.strength ∧ paren.kind = .rightParen ∧
      args.length ≤ listLimit ∧ Expr.AllGrammatical args

/-- Every expression of a list is grammatical. -/
def Expr.AllGrammatical : List (Expr δ) → Prop
  | [] => True
  | e :: es => e.Grammatical ∧ Expr.AllGrammatical es

end

/-- Whether a statement declares a name, or is a namespace. -/
def Stmt.isDeclaration : Stmt δ → Bool
  | .letDecl _ _ _ | .functionDecl _ _ _ | .namespaceDecl _ _ => true
  | _ => false

/-- Whether a statement ends in an `if` without an `else`, so that a following `else` would belong
to that. -/
def Stmt.endsOpen : Stmt δ → Bool
  | .branch _ _ none => true
  | .branch _ _ (some e) => e.endsOpen
  | _ => false

mutual

/-- The parts of a statement are grammatical, no branch of an `if` is a declaration, and every
`else` belongs to the nearest `if` that is open. -/
def Stmt.Grammatical : Stmt δ → Prop
  | .expr e => e.Grammatical
  | .letDecl name init type =>
    name.kind = .identifier ∧ (∀ e ∈ init, e.Grammatical) ∧ ∀ t ∈ type, t.kind.isTypeWord = true
  | .block body => Stmt.AllGrammatical body
  | .branch c t none => c.Grammatical ∧ t.Grammatical ∧ t.isDeclaration = false
  | .branch c t (some e) =>
    c.Grammatical ∧ t.Grammatical ∧ t.isDeclaration = false ∧ t.endsOpen = false ∧
      e.Grammatical ∧ e.isDeclaration = false
  | .returnStmt keyword value => keyword.kind = .returnWord ∧ ∀ e ∈ value, e.Grammatical
  | .functionDecl name params body =>
    name.kind = .identifier ∧ (∀ p ∈ params, p.kind = .identifier) ∧ params.length ≤ listLimit ∧
      Stmt.AllGrammatical body
  | .namespaceDecl name body => name.kind = .identifier ∧ Stmt.AllGrammatical body

/-- Every statement of a list is grammatical. -/
def Stmt.AllGrammatical : List (Stmt δ) → Prop
  | [] => True
  | s :: ss => s.Grammatical ∧ Stmt.AllGrammatical ss

end

/-- Every statement of a program is grammatical. -/
def Program.Grammatical (p : Program δ) : Prop := Stmt.AllGrammatical p

/-- A program is written out as a token list. -/
def Program.WrittenAs (p : Program δ) (ts : List Token) : Prop :=
  List.Forall₂ Symbol.Shows (Stmt.allSymbols p) ts

/-! ## Spelling at the front of a token list -/

/-- A token list begins with tokens that show the symbols, and goes on with `rest`. -/
def Spells (symbols : List Symbol) (ts rest : List Token) : Prop :=
  ∃ front, List.Forall₂ Symbol.Shows symbols front ∧ ts = front ++ rest

theorem program_writtenAs_iff {p : Program δ} {ts : List Token} :
    p.WrittenAs ts ↔ Spells (Stmt.allSymbols p) ts [] := by
  constructor
  · intro h
    exact ⟨ts, h, by simp⟩
  · rintro ⟨front, h, rfl⟩
    rw [List.append_nil]
    exact h

@[simp] theorem spells_nil {ts rest : List Token} : Spells [] ts rest ↔ ts = rest := by
  constructor
  · rintro ⟨front, h, rfl⟩
    cases h
    rfl
  · rintro rfl
    exact ⟨[], .nil, rfl⟩

theorem spells_cons {s : Symbol} {ss : List Symbol} {ts rest : List Token} :
    Spells (s :: ss) ts rest ↔ ∃ t ts', ts = t :: ts' ∧ s.Shows t ∧ Spells ss ts' rest := by
  constructor
  · rintro ⟨front, h, rfl⟩
    obtain _ | ⟨hs, hss⟩ := h
    exact ⟨_, _, rfl, hs, _, hss, rfl⟩
  · rintro ⟨t, ts', rfl, hs, front, hss, rfl⟩
    exact ⟨t :: front, .cons hs hss, rfl⟩

@[simp] theorem spells_mark {k : Kind} {ss : List Symbol} {ts rest : List Token} :
    Spells (.mark k :: ss) ts rest ↔ ∃ t ts', ts = t :: ts' ∧ t.kind = k ∧ Spells ss ts' rest :=
  spells_cons

@[simp] theorem spells_token {t : Token} {ss : List Symbol} {ts rest : List Token} :
    Spells (.token t :: ss) ts rest ↔ ∃ ts', ts = t :: ts' ∧ Spells ss ts' rest := by
  rw [spells_cons]
  constructor
  · rintro ⟨_, ts', hts, rfl, h⟩
    exact ⟨ts', hts, h⟩
  · rintro ⟨ts', hts, h⟩
    exact ⟨t, ts', hts, rfl, h⟩

@[simp] theorem spells_value {v : Literal} {ss : List Symbol} {ts rest : List Token} :
    Spells (.value v :: ss) ts rest ↔
      ∃ t ts', ts = t :: ts' ∧ t.value? = some v ∧ Spells ss ts' rest :=
  spells_cons

@[simp] theorem spells_append {ss ss' : List Symbol} {ts rest : List Token} :
    Spells (ss ++ ss') ts rest ↔ ∃ mid, Spells ss ts mid ∧ Spells ss' mid rest := by
  induction ss generalizing ts with
  | nil => simp
  | cons s ss ih =>
    simp only [List.cons_append, spells_cons, ih]
    constructor
    · rintro ⟨t, ts', hts, hs, mid, h, h'⟩
      exact ⟨mid, ⟨t, ts', hts, hs, h⟩, h'⟩
    · rintro ⟨mid, ⟨t, ts', hts, hs, h⟩, h'⟩
      exact ⟨t, ts', hts, hs, mid, h, h'⟩

/-! ## Joined operands -/

theorem Expr.symbols_join (l : Expr δ) (op : Token) (r : Expr δ) :
    (l.join op r).symbols = l.symbols ++ .token op :: r.symbols := by
  unfold Expr.join
  split <;> rfl

theorem Expr.strength_join (l : Expr δ) {op : Token} (r : Expr δ) {level : Nat}
    (h : op.kind.precedence? = some level) : (l.join op r).strength = level + 1 := by
  unfold Expr.join
  split <;> simp [Expr.strength, h]

theorem Expr.grammatical_join {l r : Expr δ} {op : Token} {level : Nat}
    (h : op.kind.precedence? = some level) (hl : l.Grammatical) (hls : level + 1 ≤ l.strength)
    (hr : r.Grammatical) (hrs : level + 1 < r.strength) : (l.join op r).Grammatical := by
  unfold Expr.join
  split
  · next hop => exact ⟨level, h, hop, hl, hls, hr, hrs⟩
  · next hop => exact ⟨level, h, by simpa using hop, hl, hls, hr, hrs⟩

/-! ## Heads of statements

The parser reads a statement in the parts that these equations show.
-/

theorem Stmt.symbols_functionDecl (name : Token) (params : List Token) (body : List (Stmt δ)) :
    (Stmt.functionDecl name params body).symbols = .mark .doWord ::
      ((.token name :: .mark .leftParen :: (paramSymbols params ++
          [.mark .rightParen, .mark .leftBrace])) ++
        (Stmt.allSymbols body ++ [.mark .rightBrace])) := by
  simp [Stmt.symbols]

theorem Stmt.symbols_namespaceDecl (name : Token) (body : List (Stmt δ)) :
    (Stmt.namespaceDecl name body).symbols = .mark .namespaceWord ::
      ([.token name, .mark .leftBrace] ++ (Stmt.allSymbols body ++ [.mark .rightBrace])) := rfl

theorem Stmt.symbols_branch (c : Expr δ) (s : Stmt δ) :
    (Stmt.branch c s none).symbols = .mark .ifWord ::
      ((.mark .leftParen :: (c.symbols ++ [.mark .rightParen])) ++ s.symbols) := by
  simp [Stmt.symbols]

theorem Stmt.symbols_branch_else (c : Expr δ) (s s' : Stmt δ) :
    (Stmt.branch c s (some s')).symbols = .mark .ifWord ::
      ((.mark .leftParen :: (c.symbols ++ [.mark .rightParen])) ++
        (s.symbols ++ .mark .elseWord :: s'.symbols)) := by
  simp [Stmt.symbols]

end RadixScript
