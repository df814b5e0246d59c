import Mathlib.Data.List.Chain
import RadixScript.Proofs.Grammar.Basic

/-!
# What stands next to each other

In the written form of a grammatical program, a name never comes right behind a constant: constants
are operands, and behind an operand there is an operator, a mark or the end
(`Program.WrittenAs.isChain`). Names and numbers are the lexemes that could run together. So other
names can be put into a text, and it is still cut in the same places.
-/

namespace RadixScript

variable {δ : Type}

namespace Symbol

/-- A constant may stand here. -/
def IsConstant : Symbol → Prop
  | mark kind => kind.isLiteral = true
  | token t => t.kind.isLiteral = true
  | value _ => True

/-- A name may stand here. -/
def IsName : Symbol → Prop
  | mark kind => kind = .identifier
  | token t => t.kind = .identifier
  | value _ => False

/-- The second symbol may come right behind the first one. -/
def MayPrecede (s s' : Symbol) : Prop := s.IsConstant → ¬ s'.IsName

end Symbol

open RadixScript.Symbol

/-! ## Chains of symbols -/

section chains

variable {s : Symbol} {l l' : List Symbol}

theorem isChain_cons_of_not_isConstant (hs : ¬ s.IsConstant) (hl : l.IsChain MayPrecede) :
    (s :: l).IsChain MayPrecede :=
  List.isChain_cons.mpr ⟨fun _ _ hc => absurd hc hs, hl⟩

/-- Anything may stand in front of what does not begin with a name. -/
theorem isChain_append_cons (hl : l.IsChain MayPrecede) (hl' : (s :: l').IsChain MayPrecede)
    (hs : ¬ s.IsName) : (l ++ s :: l').IsChain MayPrecede := by
  refine List.isChain_append.mpr ⟨hl, hl', ?_⟩
  rintro x _ _ ⟨⟩ _
  exact hs

theorem isChain_commas {parts : List (List Symbol)} (h : ∀ part ∈ parts, part.IsChain MayPrecede) :
    (commas parts).IsChain MayPrecede := by
  induction parts with
  | nil => exact .nil
  | cons part parts ih =>
    rw [List.forall_mem_cons] at h
    cases parts with
    | nil => exact h.1
    | cons next rest =>
      refine isChain_append_cons h.1 (isChain_cons_of_not_isConstant ?_ (ih h.2)) ?_
      · exact Bool.false_ne_true
      · exact Kind.noConfusion

end chains

/-! ## Expressions -/

theorem Kind.not_isLiteral_of_precedence? {k : Kind} {level : Nat}
    (h : k.precedence? = some level) : k.isLiteral = false ∧ k ≠ .identifier := by
  cases k <;> simp_all [Kind.precedence?, Kind.isLiteral]

theorem Kind.not_isLiteral_of_isUnary {k : Kind} (h : k.isUnary = true) : k.isLiteral = false := by
  cases k <;> simp_all [Kind.isUnary, Kind.isLiteral]

mutual

theorem Expr.isChain_symbols : (e : Expr δ) → e.Grammatical → e.symbols.IsChain MayPrecede
  | .literal _, _ => .singleton _
  | .group e, h =>
    isChain_cons_of_not_isConstant Bool.false_ne_true
      (isChain_append_cons (e.isChain_symbols h) (.singleton _) nofun)
  | .unary op e, h => by
    refine isChain_cons_of_not_isConstant ?_ (e.isChain_symbols h.2.1)
    exact ne_true_of_eq_false (Kind.not_isLiteral_of_isUnary h.1)
  | .binary l op r, h => by
    obtain ⟨level, hop, _, hl, _, hr, _⟩ := h
    obtain ⟨hconstant, hname⟩ := Kind.not_isLiteral_of_precedence? hop
    refine isChain_append_cons (l.isChain_symbols hl) ?_ hname
    exact isChain_cons_of_not_isConstant (ne_true_of_eq_false hconstant) (r.isChain_symbols hr)
  | .logical l op r, h => by
    obtain ⟨level, hop, _, hl, _, hr, _⟩ := h
    obtain ⟨hconstant, hname⟩ := Kind.not_isLiteral_of_precedence? hop
    refine isChain_append_cons (l.isChain_symbols hl) ?_ hname
    exact isChain_cons_of_not_isConstant (ne_true_of_eq_false hconstant) (r.isChain_symbols hr)
  | .reference _ _, _ => .singleton _
  | .assign name _ e, h => by
    refine isChain_cons_of_not_isConstant ?_
      (isChain_cons_of_not_isConstant Bool.false_ne_true (e.isChain_symbols h.2))
    simp [IsConstant, h.1, Kind.isLiteral]
  | .call callee paren args, h => by
    obtain ⟨hcallee, _, hparen, _, hargs⟩ := h
    refine isChain_append_cons (callee.isChain_symbols hcallee)
      (isChain_cons_of_not_isConstant Bool.false_ne_true (isChain_append_cons
        (isChain_commas (Expr.isChain_symbolLists args hargs)) (.singleton _) ?_)) nofun
    simp [IsName, hparen]

theorem Expr.isChain_symbolLists : (es : List (Expr δ)) → Expr.AllGrammatical es →
    ∀ part ∈ Expr.symbolLists es, part.IsChain MayPrecede
  | [], _ => List.forall_mem_nil _
  | e :: es, h => by
    rw [Expr.symbolLists, List.forall_mem_cons]
    exact ⟨e.isChain_symbols h.1, Expr.isChain_symbolLists es h.2⟩

end

theorem isChain_optionSymbols {e : Option (Expr δ)} (h : ∀ x ∈ e, x.Grammatical) :
    (optionSymbols e).IsChain MayPrecede := by
  cases e with
  | none => exact .nil
  | some e => exact e.isChain_symbols (h e rfl)

theorem isChain_initSymbols {e : Option (Expr δ)} (h : ∀ x ∈ e, x.Grammatical) :
    (initSymbols e).IsChain MayPrecede := by
  cases e with
  | none => exact .nil
  | some e => exact isChain_cons_of_not_isConstant Bool.false_ne_true (e.isChain_symbols (h e rfl))

/-! ## Statements -/

/-- The symbols are a chain that anything may follow on. -/
structure Closed (l : List Symbol) : Prop where
  chain : l.IsChain MayPrecede
  last : ∀ s ∈ l.getLast?, ¬ s.IsConstant

section closed

variable {s : Symbol} {l l' : List Symbol}

theorem Closed.nil : Closed [] := ⟨.nil, fun s h => absurd h (Option.not_mem_none s)⟩

theorem Closed.append (h : Closed l) (h' : Closed l') : Closed (l ++ l') where
  chain := List.isChain_append.mpr
    ⟨h.chain, h'.chain, fun x hx _ _ hc => absurd hc (h.last x hx)⟩
  last := by
    cases l' with
    | nil => simpa using h.last
    | cons s l' =>
      rw [List.getLast?_append_of_ne_nil _ (List.cons_ne_nil s l')]
      exact h'.last

theorem Closed.cons (hs : ¬ s.IsConstant) (h : Closed l) : Closed (s :: l) := by
  have hsingle : Closed [s] := by
    refine ⟨.singleton s, ?_⟩
    rintro _ ⟨⟩
    exact hs
  exact hsingle.append h

/-- What is no operand closes any chain. -/
theorem Closed.chain_cons (hl : l.IsChain MayPrecede) (hname : ¬ s.IsName) (hs : ¬ s.IsConstant)
    (h : Closed l') : Closed (l ++ s :: l') where
  chain := isChain_append_cons hl (h.cons hs).chain hname
  last := by
    rw [List.getLast?_append_of_ne_nil _ (List.cons_ne_nil s l')]
    exact (h.cons hs).last

end closed

theorem not_isConstant_of_identifier {t : Token} (h : t.kind = .identifier) :
    ¬ (Symbol.token t).IsConstant := by
  simp [IsConstant, h, Kind.isLiteral]

theorem not_isConstant_declarationWord {type : Option Token}
    (h : ∀ t ∈ type, t.kind.isTypeWord = true) : ¬ (declarationWord type).IsConstant := by
  cases type with
  | none => exact Bool.false_ne_true
  | some t =>
    have ht := h t rfl
    show ¬ t.kind.isLiteral = true
    cases hk : t.kind <;> simp_all [Kind.isTypeWord, Kind.isLiteral]

theorem isChain_paramSymbols (params : List Token) : (paramSymbols params).IsChain MayPrecede := by
  refine isChain_commas ?_
  rw [List.forall_mem_map]
  exact fun p _ => .singleton _

mutual

theorem Stmt.closed_symbols : (s : Stmt δ) → s.Grammatical → Closed s.symbols
  | .expr e, h => .chain_cons (e.isChain_symbols h) nofun Bool.false_ne_true .nil
  | .letDecl name init type, h => by
    obtain ⟨hname, hinit, htype⟩ := h
    refine .cons (not_isConstant_declarationWord htype)
      (.cons (not_isConstant_of_identifier hname) ?_)
    exact .chain_cons (isChain_initSymbols hinit) nofun Bool.false_ne_true .nil
  | .block body, h =>
    .cons Bool.false_ne_true
      ((Stmt.closed_allSymbols body h).append (.cons Bool.false_ne_true .nil))
  | .branch c t none, h => by
    obtain ⟨hc, ht, _⟩ := h
    refine .cons Bool.false_ne_true (.cons Bool.false_ne_true ?_)
    exact .chain_cons (c.isChain_symbols hc) nofun Bool.false_ne_true (t.closed_symbols ht)
  | .branch c t (some e), h => by
    obtain ⟨hc, ht, _, _, he, _⟩ := h
    refine .cons Bool.false_ne_true (.cons Bool.false_ne_true ?_)
    refine .chain_cons (c.isChain_symbols hc) nofun Bool.false_ne_true ?_
    exact (t.closed_symbols ht).append (.cons Bool.false_ne_true (e.closed_symbols he))
  | .returnStmt keyword e, h => by
    obtain ⟨hkeyword, hvalue⟩ := h
    refine .cons ?_ (.chain_cons (isChain_optionSymbols hvalue) nofun Bool.false_ne_true .nil)
    simp [IsConstant, hkeyword, Kind.isLiteral]
  | .functionDecl name params body, h => by
    obtain ⟨hname, _, _, hbody⟩ := h
    refine .cons Bool.false_ne_true (.cons (not_isConstant_of_identifier hname)
      (.cons Bool.false_ne_true ?_))
    refine .chain_cons (isChain_paramSymbols params) nofun Bool.false_ne_true
      (.cons Bool.false_ne_true ?_)
    exact (Stmt.closed_allSymbols body hbody).append (.cons Bool.false_ne_true .nil)
  | .namespaceDecl name body, h => by
    obtain ⟨hname, hbody⟩ := h
    refine .cons Bool.false_ne_true (.cons (not_isConstant_of_identifier hname)
      (.cons Bool.false_ne_true ?_))
    exact (Stmt.closed_allSymbols body hbody).append (.cons Bool.false_ne_true .nil)

theorem Stmt.closed_allSymbols : (ss : List (Stmt δ)) → Stmt.AllGrammatical ss →
    Closed (Stmt.allSymbols ss)
  | [], _ => .nil
  | s :: ss, h => (s.closed_symbols h.1).append (Stmt.closed_allSymbols ss h.2)

end

/-! ## Tokens -/

/-- The second token is not a name right behind a constant. -/
def Token.MayPrecede (t t' : Token) : Prop := t.kind.isLiteral = true → t'.kind ≠ .identifier

theorem Symbol.Shows.isConstant {s : Symbol} {t : Token} (h : s.Shows t)
    (ht : t.kind.isLiteral = true) : s.IsConstant := by
  cases s with
  | mark kind => exact h ▸ ht
  | token t' => exact h ▸ ht
  | value v => trivial

theorem Symbol.Shows.isName {s : Symbol} {t : Token} (h : s.Shows t) (ht : t.kind = .identifier) :
    s.IsName := by
  cases s with
  | mark kind => exact h ▸ ht
  | token t' => exact h ▸ ht
  | value v =>
    have hnone : t.value? = none := by simp [Token.value?, ht, Kind.isLiteral]
    cases hnone.symm.trans h

theorem isChain_of_shows {ss : List Symbol} {ts : List Token} (h : List.Forall₂ Shows ss ts)
    (hc : ss.IsChain MayPrecede) : ts.IsChain Token.MayPrecede := by
  induction h with
  | nil => exact .nil
  | @cons s t ss ts hs hss ih =>
    rw [List.isChain_cons] at hc ⊢
    refine ⟨fun t' ht' hconstant hname => ?_, ih hc.2⟩
    obtain ⟨us, rfl⟩ := List.head?_eq_some_iff.mp ht'
    cases hss with
    | cons hs' _ => exact hc.1 _ rfl (hs.isConstant hconstant) (hs'.isName hname)

/-- **In the tokens of a grammatical program no name comes right behind a constant.** -/
theorem Program.WrittenAs.isChain {p : Program δ} {ts : List Token} (h : p.WrittenAs ts)
    (hp : p.Grammatical) : ts.IsChain Token.MayPrecede :=
  isChain_of_shows h (Stmt.closed_allSymbols p hp).chain

end RadixScript
