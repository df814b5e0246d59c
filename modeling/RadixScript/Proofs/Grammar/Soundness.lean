import RadixScript.Proofs.Grammar.Basic
import RadixScript.Tree.StmtParser

/-!
# What is read is written there

Whatever the parser reads without a diagnostic is grammatical, and is written in the tokens that it
took, without a gap.

An attempt is judged by `Attempt.Ensures`: a value that was read without a diagnostic has a
property, and an attempt is never abandoned without one. The second half is what ties an empty list
of diagnostics to the trees: it excludes that a declaration was dropped silently.

The loops (`parseOperators`, `parseCalls`) extend a tree that was read before. They are judged by
the symbols that they add to it.
-/

namespace RadixScript

/-! ## Judging attempts -/

namespace Attempt

variable {n m : Nat} {α β : Type}

/-- A value that was read without a diagnostic has the property `P`, together with the tokens left,
and an abandoned attempt has a diagnostic. -/
def Ensures (a : Attempt n α) (P : α → List Token → Prop) : Prop :=
  match a with
  | parsed value rest errors _ => errors = [] → P value rest
  | abandoned _ errors _ => errors ≠ []

theorem Ensures.mono {a : Attempt n α} {P Q : α → List Token → Prop} (h : a.Ensures P)
    (hpq : ∀ v rest, P v rest → Q v rest) : a.Ensures Q := by
  cases a with
  | parsed v rest errors hr => exact fun he => hpq v rest (h he)
  | abandoned rest errors hr => exact h

theorem ensures_done {v : α} {rest : List Token} {P : α → List Token → Prop} (h : P v rest) :
    (done v rest).Ensures P := fun _ => h

theorem Ensures.relax {a : Attempt n α} {P : α → List Token → Prop} (h : a.Ensures P)
    (hle : n ≤ m) : (a.relax hle).Ensures P := by
  cases a <;> exact h

theorem Ensures.behind {a : Attempt n α} {P : α → List Token → Prop} (h : a.Ensures P) :
    a.behind.Ensures P := h.relax (Nat.le_succ n)

theorem Ensures.map {a : Attempt n α} {f : α → β} {P : β → List Token → Prop}
    (h : a.Ensures fun v rest => P (f v) rest) : (a.map f).Ensures P := by
  cases a <;> exact h

/-- Behind a diagnostic nothing is asked of an attempt. -/
theorem ensures_noting_cons (d : Diagnostic) (ds : List Diagnostic) (a : Attempt n α)
    (P : α → List Token → Prop) : (a.noting (d :: ds)).Ensures P := by
  cases a with
  | parsed v rest errors hr => exact fun he => absurd he (List.cons_ne_nil _ _)
  | abandoned rest errors hr => exact List.cons_ne_nil _ _

theorem ensures_noting {a : Attempt n α} {P : α → List Token → Prop} {ds : List Diagnostic}
    (h : ds = [] → a.Ensures P) : (a.noting ds).Ensures P := by
  cases ds with
  | nil =>
    have ha := h rfl
    cases a <;> exact ha
  | cons d ds => exact ensures_noting_cons d ds a P

theorem Ensures.andThen {a : Attempt n α} {P : α → List Token → Prop}
    {Q : β → List Token → Prop}
    {k : (value : α) → (rest : List Token) → rest.length < n → Attempt (rest.length + 1) β}
    (h : a.Ensures P) (hk : ∀ v rest hr, P v rest → (k v rest hr).Ensures Q) :
    (a.andThen k).Ensures Q := by
  cases a with
  | parsed v rest errors hr => exact ensures_noting fun he => (hk v rest hr (h he)).relax hr
  | abandoned rest errors hr => exact h

theorem Ensures.next {a : Attempt n α} {P : α → List Token → Prop} {Q : β → List Token → Prop}
    {k : (value : α) → (rest : List Token) → rest.length < n → Attempt rest.length β}
    (h : a.Ensures P) (hk : ∀ v rest hr, P v rest → (k v rest hr).Ensures Q) :
    (a.next k).Ensures Q :=
  h.andThen fun v rest hr hp => (hk v rest hr hp).behind

end Attempt

open Attempt

theorem expect_ensures (eof : Token) (what : Expected) (ts : List Token) :
    (expect eof what ts).Ensures fun t rest => t.kind = what.kind ∧ ts = t :: rest := by
  cases ts with
  | nil => exact List.cons_ne_nil _ _
  | cons t rest =>
    rw [expect]
    split
    · next h => exact ensures_done ⟨h, rfl⟩
    · exact List.cons_ne_nil _ _

/-- Where a token of a kind has to stand, its symbol is spelled. -/
theorem expect_spells (eof : Token) (what : Expected) (ts : List Token) :
    (expect eof what ts).Ensures fun _ rest => Spells [.mark what.kind] ts rest := by
  refine (expect_ensures eof what ts).mono ?_
  rintro t rest ⟨hk, rfl⟩
  simp [hk]

/-! ## Expressions -/

/-- The expression is grammatical, at least as tight as asked for, and spelled in front of the
rest. -/
def ExprSpelled (strength : Nat) (ts : List Token) (e : Expr Unit) (rest : List Token) : Prop :=
  e.Grammatical ∧ strength ≤ e.strength ∧ Spells e.symbols ts rest

/-- The expression extends `left` by symbols that are spelled in front of the rest. -/
def ExprExtended (strength : Nat) (left : Expr Unit) (ts : List Token) (e : Expr Unit)
    (rest : List Token) : Prop :=
  e.Grammatical ∧ strength ≤ e.strength ∧
    ∃ more, e.symbols = left.symbols ++ more ∧ Spells more ts rest

/-- The arguments are grammatical, not too many when `count` are in front of them, and spelled with
the parenthesis that closes them. -/
def ArgumentsSpelled (count : Nat) (ts : List Token) (r : List (Expr Unit) × Token)
    (rest : List Token) : Prop :=
  Expr.AllGrammatical r.1 ∧ count + r.1.length ≤ listLimit ∧ r.2.kind = .rightParen ∧
    Spells (Symbol.commas (Expr.symbolLists r.1) ++ [.token r.2]) ts rest

theorem ExprSpelled.weaken {s s' : Nat} {ts rest : List Token} {e : Expr Unit} (hle : s' ≤ s)
    (h : ExprSpelled s ts e rest) : ExprSpelled s' ts e rest :=
  ⟨h.1, Nat.le_trans hle h.2.1, h.2.2⟩

theorem exprExtended_refl {s : Nat} {e : Expr Unit} (hg : e.Grammatical) (hs : s ≤ e.strength)
    (ts : List Token) : ExprExtended s e ts e ts :=
  ⟨hg, hs, [], by simp, by simp⟩

/-- An extension of an expression that is spelled in front is spelled as a whole. -/
theorem ExprExtended.spelled {s : Nat} {left e : Expr Unit} {ts mid rest : List Token}
    (hl : Spells left.symbols ts mid) (h : ExprExtended s left mid e rest) :
    ExprSpelled s ts e rest := by
  obtain ⟨hg, hs, more, hmore, hspell⟩ := h
  refine ⟨hg, hs, ?_⟩
  rw [hmore, spells_append]
  exact ⟨mid, hl, hspell⟩

theorem listLimit_of_crowding {eof : Token} {list : BoundedList} {count : Nat} {ts : List Token}
    (h : crowding eof list count ts = []) : count < listLimit := by
  unfold crowding at h
  split at h
  · exact absurd h (List.cons_ne_nil _ _)
  · next hlt => exact Nat.lt_of_not_le hlt

theorem Kind.precedence?_lt {k : Kind} {level : Nat} (h : k.precedence? = some level) :
    level < levelCount := by
  cases k <;> simp_all [Kind.precedence?, levelCount] <;> omega

theorem exprSpelled_constant {t : Token} {v : Literal} {rest : List Token}
    (h : t.value? = some v) : ExprSpelled (levelCount + 3) (t :: rest) (.literal v) rest := by
  refine ⟨trivial, Nat.le_refl _, ?_⟩
  rw [Expr.symbols, spells_value]
  exact ⟨t, rest, rfl, h, by simp⟩

theorem argumentsSpelled_single {count : Nat} {ts rest : List Token} {arg : Expr Unit}
    {paren : Token} (hc : count < listLimit) (hg : arg.Grammatical)
    (hsp : Spells arg.symbols ts (paren :: rest)) (hk : paren.kind = .rightParen) :
    ArgumentsSpelled count ts ([arg], paren) rest := by
  refine ⟨⟨hg, trivial⟩, hc, hk, ?_⟩
  rw [spells_append]
  exact ⟨paren :: rest, hsp, by simp⟩

theorem argumentsSpelled_cons {count : Nat} {ts mid rest : List Token} {arg : Expr Unit}
    {args : List (Expr Unit)} {comma paren : Token} (hg : arg.Grammatical)
    (hsp : Spells arg.symbols ts (comma :: mid)) (hk : comma.kind = .comma) (hne : args ≠ [])
    (h : ArgumentsSpelled (count + 1) mid (args, paren) rest) :
    ArgumentsSpelled count ts (arg :: args, paren) rest := by
  obtain ⟨hag, hc, hparen, hmore⟩ := h
  refine ⟨⟨hg, hag⟩, ?_, hparen, ?_⟩
  · simp only [List.length_cons] at hc ⊢
    omega
  · rw [Expr.symbolLists, Symbol.commas_cons (by cases args <;> simp_all [Expr.symbolLists]),
      List.append_assoc, List.cons_append, spells_append]
    refine ⟨comma :: mid, hsp, ?_⟩
    rw [spells_mark]
    exact ⟨comma, mid, rfl, hk, hmore⟩

mutual

theorem parseExpr_ensures (eof : Token) (ts : List Token) :
    (parseExpr eof ts).Ensures (ExprSpelled 0 ts) := by
  rw [parseExpr]
  refine (parseLevel_ensures eof 0 ts).andThen ?_
  rintro left rest hr ⟨hg, _, hsp⟩
  match rest, hr with
  | [], _ => exact ensures_done ⟨hg, Nat.zero_le _, hsp⟩
  | op :: rest', hr =>
    have hlt : rest'.length < ts.length := Nat.lt_of_succ_lt hr
    dsimp only
    split
    · next hop =>
      refine ((parseExpr_ensures eof rest').andThen ?_).behind.behind
      rintro value rest'' _ ⟨hvg, _, hvs⟩
      cases left with
      | reference name u =>
        refine ensures_done ⟨⟨hg, hvg⟩, Nat.zero_le _, ?_⟩
        simp only [Expr.symbols, spells_token, spells_mark, spells_nil] at hsp ⊢
        obtain ⟨_, rfl, rfl⟩ := hsp
        exact ⟨_, rfl, op, rest', rfl, hop, hvs⟩
      -- any other target keeps its tree, but leaves a diagnostic behind
      | _ => exact ensures_noting_cons _ _ _ _
    · exact ensures_done ⟨hg, Nat.zero_le _, hsp⟩
termination_by (ts.length, 11 + levelCount)

theorem parseLevel_ensures (eof : Token) (l : Nat) (ts : List Token) :
    (parseLevel eof l ts).Ensures (ExprSpelled (min l levelCount + 1) ts) := by
  rw [parseLevel]
  split
  · next hl =>
    refine (parseLevel_ensures eof (l + 1) ts).andThen ?_
    rintro left rest hr ⟨hg, hs, hsp⟩
    have hlong : rest.length < ts.length := hr
    refine (parseOperators_ensures eof l left rest hg (by omega)).mono ?_
    intro e rest' h
    exact (h.spelled hsp).weaken (by omega)
  · next hl =>
    refine (parseUnary_ensures eof ts).mono ?_
    intro e rest h
    exact h.weaken (by omega)
termination_by (ts.length, 10 + (levelCount - l))

theorem parseOperators_ensures (eof : Token) (l : Nat) (left : Expr Unit) (ts : List Token)
    (hg : left.Grammatical) (hs : l + 1 ≤ left.strength) :
    (parseOperators eof l left ts).Ensures (ExprExtended (l + 1) left ts) := by
  match ts with
  | [] =>
    rw [parseOperators]
    exact ensures_done (exprExtended_refl hg hs [])
  | op :: rest =>
    rw [parseOperators]
    split
    · next hop =>
      refine ((parseLevel_ensures eof (l + 1) rest).andThen ?_).behind.behind
      rintro right rest' hr ⟨hrg, hrs, hrsp⟩
      have hl := Kind.precedence?_lt hop
      have hjoin := Expr.grammatical_join hop hg hs hrg (by omega)
      have hstr := Expr.strength_join left right hop
      have hlt : rest'.length < rest.length := hr
      -- the join is the left operand of what follows, as operators associate to the left
      refine (parseOperators_ensures eof l (left.join op right) rest' hjoin (by omega)).mono ?_
      rintro e rest'' ⟨heg, hes, more, hmore, hsp⟩
      refine ⟨heg, hes, .token op :: (right.symbols ++ more), ?_, ?_⟩
      · rw [hmore, Expr.symbols_join]
        simp
      · rw [spells_token]
        exact ⟨rest, rfl, spells_append.mpr ⟨rest', hrsp, hsp⟩⟩
    · exact ensures_done (exprExtended_refl hg hs _)
termination_by (ts.length, 0)

theorem parseUnary_ensures (eof : Token) (ts : List Token) :
    (parseUnary eof ts).Ensures (ExprSpelled (levelCount + 1) ts) := by
  match ts with
  | [] =>
    rw [parseUnary]
    exact (parseCall_ensures eof []).mono fun e rest h => h.weaken (by omega)
  | op :: rest =>
    rw [parseUnary]
    split
    · next hop =>
      refine Ensures.behind (Ensures.map ((parseUnary_ensures eof rest).mono ?_))
      rintro e rest' ⟨hg, hs, hsp⟩
      refine ⟨⟨hop, hg, hs⟩, Nat.le_refl _, ?_⟩
      rw [Expr.symbols, spells_token]
      exact ⟨rest, rfl, hsp⟩
    · exact (parseCall_ensures eof (op :: rest)).mono fun e rest h => h.weaken (by omega)
termination_by (ts.length, 9)

theorem parseCall_ensures (eof : Token) (ts : List Token) :
    (parseCall eof ts).Ensures (ExprSpelled (levelCount + 2) ts) := by
  rw [parseCall]
  refine (parsePrimary_ensures eof ts).andThen ?_
  rintro callee rest hr ⟨hg, hs, hsp⟩
  refine (parseCalls_ensures eof callee rest hg (by omega)).mono ?_
  intro e rest' h
  exact h.spelled hsp
termination_by (ts.length, 8)

theorem parseCalls_ensures (eof : Token) (callee : Expr Unit) (ts : List Token)
    (hg : callee.Grammatical) (hs : levelCount + 2 ≤ callee.strength) :
    (parseCalls eof callee ts).Ensures (ExprExtended (levelCount + 2) callee ts) := by
  match ts with
  | [] =>
    rw [parseCalls]
    exact ensures_done (exprExtended_refl hg hs [])
  | t :: rest =>
    rw [parseCalls]
    split
    · next ht =>
      refine ((parseArguments_ensures eof rest).andThen ?_).behind.behind
      rintro ⟨args, paren⟩ rest' hr ⟨hag, hcount, hparen, hsp⟩
      have hcall : (Expr.call callee paren args).Grammatical :=
        ⟨hg, hs, hparen, by simpa using hcount, hag⟩
      have hlt : rest'.length < rest.length := hr
      refine (parseCalls_ensures eof _ rest' hcall (Nat.le_refl _)).mono ?_
      rintro e rest'' ⟨heg, hes, more, hmore, hspell⟩
      refine ⟨heg, hes, .mark .leftParen ::
        ((Symbol.commas (Expr.symbolLists args) ++ [.token paren]) ++ more), ?_, ?_⟩
      · rw [hmore, Expr.symbols]
        simp
      · rw [spells_mark]
        exact ⟨t, rest, rfl, ht, spells_append.mpr ⟨rest', hsp, hspell⟩⟩
    · exact ensures_done (exprExtended_refl hg hs _)
termination_by (ts.length, 0)

theorem parseArguments_ensures (eof : Token) (ts : List Token) :
    (parseArguments eof ts).Ensures (ArgumentsSpelled 0 ts) := by
  match ts with
  | [] =>
    rw [parseArguments]
    exact (parseArgumentList_ensures eof 0 []).mono fun r rest h => h.2
  | t :: rest =>
    rw [parseArguments]
    split
    · next ht =>
      refine ensures_done ⟨trivial, Nat.zero_le _, ht, ?_⟩
      simp [Expr.symbolLists, Symbol.commas]
    · exact (parseArgumentList_ensures eof 0 (t :: rest)).mono fun r rest h => h.2
termination_by (ts.length, 13 + levelCount)

theorem parseArgumentList_ensures (eof : Token) (count : Nat) (ts : List Token) :
    (parseArgumentList eof count ts).Ensures fun r rest =>
      r.1 ≠ [] ∧ ArgumentsSpelled count ts r rest := by
  rw [parseArgumentList]
  refine ensures_noting fun hcrowd => ?_
  have hcount := listLimit_of_crowding hcrowd
  refine (parseExpr_ensures eof ts).next ?_
  rintro arg rest hr ⟨hg, _, hsp⟩
  match rest, hr with
  | [], _ =>
    dsimp only
    exact Ensures.map ((expect_ensures eof .parenAfterArguments []).mono
      fun paren rest h => absurd h.2 (by simp))
  | t :: rest', hr =>
    have hlt : rest'.length < ts.length := Nat.lt_of_succ_lt hr
    dsimp only
    split
    · next ht =>
      refine Ensures.behind
        (Ensures.map ((parseArgumentList_ensures eof (count + 1) rest').mono ?_))
      rintro ⟨args, paren⟩ rest'' ⟨hne, hag, hc, hparen, hmore⟩
      exact ⟨List.cons_ne_nil _ _, argumentsSpelled_cons hg hsp ht hne ⟨hag, hc, hparen, hmore⟩⟩
    · refine Ensures.map ((expect_ensures eof .parenAfterArguments (t :: rest')).mono ?_)
      rintro paren rest'' ⟨hk, heq⟩
      rw [heq] at hsp
      exact ⟨List.cons_ne_nil _ _, argumentsSpelled_single hcount hg hsp hk⟩
termination_by (ts.length, 12 + levelCount)

theorem parsePrimary_ensures (eof : Token) (ts : List Token) :
    (parsePrimary eof ts).Ensures (ExprSpelled (levelCount + 3) ts) := by
  match ts with
  | [] =>
    rw [parsePrimary]
    exact List.cons_ne_nil _ _
  | t :: rest =>
    rw [parsePrimary]
    split
    · next hk => exact ensures_done (exprSpelled_constant (by simp [Token.value?, hk]))
    · next hk => exact ensures_done (exprSpelled_constant (by simp [Token.value?, hk]))
    · next hk => exact ensures_done (exprSpelled_constant (by simp [Token.value?, hk]))
    · next hk =>
      refine ensures_done ⟨hk, Nat.le_refl _, ?_⟩
      simp [Expr.symbols]
    · next hk =>
      refine Ensures.behind ((parseExpr_ensures eof rest).next ?_)
      rintro inner rest' hr ⟨hg, _, hsp⟩
      refine Ensures.map ((expect_spells eof .parenAfterExpression rest').mono ?_)
      intro _ rest'' hparen
      refine ⟨hg, Nat.le_refl _, ?_⟩
      rw [Expr.symbols, spells_mark]
      exact ⟨t, rest, rfl, hk, spells_append.mpr ⟨rest', hsp, hparen⟩⟩
    · next hfalse htrue hnull _ _ =>
      split
      · next hlit => exact ensures_done (exprSpelled_constant (by simp [Token.value?, hlit]))
      · exact List.cons_ne_nil _ _
termination_by (ts.length, 7)

end

/-! ## Parts of statements -/

/-- The parameters are names, not too many when `count` are in front of them, and spelled with the
parenthesis behind them. -/
def ParametersSpelled (count : Nat) (ts : List Token) (params : List Token) (rest : List Token) :
    Prop :=
  (∀ p ∈ params, p.kind = .identifier) ∧ count + params.length ≤ listLimit ∧
    Spells (paramSymbols params ++ [.mark .rightParen]) ts rest

theorem paramSymbols_cons {name : Token} {params : List Token} (h : params ≠ []) :
    paramSymbols (name :: params) = .token name :: .mark .comma :: paramSymbols params := by
  unfold paramSymbols
  rw [List.map_cons, Symbol.commas_cons (by simpa using h)]
  rfl

theorem parseParameterList_ensures (eof : Token) (count : Nat) (ts : List Token) :
    (parseParameterList eof count ts).Ensures fun params rest =>
      params ≠ [] ∧ ParametersSpelled count ts params rest := by
  rw [parseParameterList]
  refine ensures_noting fun hcrowd => ?_
  have hcount := listLimit_of_crowding hcrowd
  refine (expect_ensures eof .parameterName ts).next ?_
  rintro name rest hr ⟨hk, hts⟩
  match rest, hr with
  | [], _ =>
    dsimp only
    exact Ensures.map ((expect_ensures eof .parenAfterParameters []).mono
      fun paren rest h => absurd h.2 (by simp))
  | t :: rest', hr =>
    have hlt : rest'.length < ts.length := Nat.lt_of_succ_lt hr
    dsimp only
    split
    · next ht =>
      refine Ensures.behind (Ensures.map
        ((parseParameterList_ensures eof (count + 1) rest').mono ?_))
      rintro params rest'' ⟨hne, hall, hc, hsp⟩
      refine ⟨List.cons_ne_nil _ _, ?_, ?_, ?_⟩
      · rintro p (_ | ⟨_, hp⟩)
        · exact hk
        · exact hall p hp
      · rw [List.length_cons]
        omega
      · rw [paramSymbols_cons hne]
        simp only [List.cons_append, spells_token, spells_mark]
        exact ⟨_, hts, t, rest', rfl, ht, hsp⟩
    · refine Ensures.map ((expect_spells eof .parenAfterParameters (t :: rest')).mono ?_)
      intro _ rest'' hsp
      refine ⟨List.cons_ne_nil _ _, ?_, hcount, ?_⟩
      · rintro p (_ | ⟨_, hp⟩)
        · exact hk
        · exact absurd hp List.not_mem_nil
      show Spells (.token name :: [.mark .rightParen]) _ _
      rw [spells_token]
      exact ⟨_, hts, hsp⟩
termination_by ts.length

theorem parseParameters_ensures (eof : Token) (ts : List Token) :
    (parseParameters eof ts).Ensures (ParametersSpelled 0 ts) := by
  match ts with
  | [] => exact (parseParameterList_ensures eof 0 []).mono fun params rest h => h.2
  | t :: rest =>
    rw [parseParameters]
    split
    · next ht =>
      refine ensures_done ⟨by simp, Nat.zero_le _, ?_⟩
      simp [paramSymbols, Symbol.commas, ht]
    · exact (parseParameterList_ensures eof 0 (t :: rest)).mono fun params rest h => h.2

theorem parseInitializer_ensures (eof : Token) (ts : List Token) :
    (parseInitializer eof ts).Ensures fun init rest =>
      (∀ e ∈ init, e.Grammatical) ∧ Spells (initSymbols init ++ [.mark .semicolon]) ts rest := by
  have hnone : ∀ us : List Token,
      ((expect eof .semicolonAfterDeclaration us).map fun _ => (none : Option (Expr Unit))).Ensures
        fun init rest => (∀ e ∈ init, e.Grammatical) ∧
          Spells (initSymbols init ++ [.mark .semicolon]) us rest := by
    intro us
    exact Ensures.map ((expect_spells eof .semicolonAfterDeclaration us).mono
      fun _ rest h => ⟨by simp, h⟩)
  match ts with
  | [] => exact hnone []
  | t :: rest =>
    rw [parseInitializer]
    split
    · next ht =>
      refine Ensures.behind ((parseExpr_ensures eof rest).next ?_)
      rintro e rest' hr ⟨hg, _, hsp⟩
      refine Ensures.map ((expect_spells eof .semicolonAfterDeclaration rest').mono ?_)
      intro _ rest'' hsemi
      refine ⟨by simpa using hg, ?_⟩
      rw [initSymbols, List.cons_append, spells_mark]
      exact ⟨t, rest, rfl, ht, spells_append.mpr ⟨rest', hsp, hsemi⟩⟩
    · exact hnone (t :: rest)

/-- The statement is grammatical, closed for an `else`, and spelled behind a given first symbol. -/
def SpelledBehind (first : Symbol) (ts : List Token) (s : Stmt Unit) (rest : List Token) : Prop :=
  s.Grammatical ∧ s.endsOpen = false ∧ ∃ more, s.symbols = first :: more ∧ Spells more ts rest

theorem parseLet_ensures (eof : Token) (type : Option Token) (ts : List Token)
    (htype : ∀ t ∈ type, t.kind.isTypeWord = true) :
    (parseLet eof type ts).Ensures (SpelledBehind (declarationWord type) ts) := by
  rw [parseLet]
  refine (expect_ensures eof .variableName ts).next ?_
  rintro name rest hr ⟨hk, rfl⟩
  refine Ensures.map ((parseInitializer_ensures eof rest).mono ?_)
  rintro init rest' ⟨hg, hsp⟩
  refine ⟨⟨hk, hg, htype⟩, rfl, _, rfl, ?_⟩
  rw [spells_token]
  exact ⟨rest, rfl, hsp⟩

/-- An expression and the semicolon behind it. -/
theorem parseTerminated_ensures (eof : Token) (what : Expected) (hw : what.kind = .semicolon)
    (ts : List Token) {α : Type} (f : Expr Unit → α) :
    ((parseExpr eof ts).next fun e rest _ => (expect eof what rest).map fun _ => f e).Ensures
      fun v rest => ∃ e, v = f e ∧ e.Grammatical ∧
        Spells (e.symbols ++ [.mark .semicolon]) ts rest := by
  refine (parseExpr_ensures eof ts).next ?_
  rintro e rest hr ⟨hg, _, hsp⟩
  refine Ensures.map ((expect_spells eof what rest).mono ?_)
  intro _ rest' hsemi
  rw [hw] at hsemi
  exact ⟨e, rfl, hg, spells_append.mpr ⟨rest, hsp, hsemi⟩⟩

theorem parseReturn_ensures (eof keyword : Token) (ts : List Token)
    (hk : keyword.kind = .returnWord) :
    (parseReturn eof keyword ts).Ensures fun s rest =>
      s.isDeclaration = false ∧ SpelledBehind (.token keyword) ts s rest := by
  have hvalue : ∀ us : List Token,
      ((parseReturnValue eof us).map fun value => Stmt.returnStmt keyword (some value)).Ensures
        fun s rest => s.isDeclaration = false ∧ SpelledBehind (.token keyword) us s rest := by
    intro us
    refine Ensures.map ((parseTerminated_ensures eof .semicolonAfterReturn rfl us id).mono ?_)
    rintro _ rest ⟨e, rfl, hg, hsp⟩
    exact ⟨rfl, ⟨hk, by simpa using hg⟩, rfl, _, rfl, hsp⟩
  match ts with
  | [] => exact hvalue []
  | t :: rest =>
    rw [parseReturn]
    split
    · next ht =>
      refine ensures_done ⟨rfl, ⟨hk, by simp⟩, rfl, _, rfl, ?_⟩
      simp [optionSymbols, ht]
    · exact hvalue (t :: rest)

theorem parseExprStmt_ensures (eof : Token) (ts : List Token) :
    (parseExprStmt eof ts).Ensures fun s rest => ∃ e, s = .expr e ∧ e.Grammatical ∧
      Spells (e.symbols ++ [.mark .semicolon]) ts rest :=
  parseTerminated_ensures eof .semicolonAfterExpression rfl ts Stmt.expr

theorem parseCondition_ensures (eof : Token) (ts : List Token) :
    (parseCondition eof ts).Ensures fun c rest => c.Grammatical ∧
      Spells (.mark .leftParen :: (c.symbols ++ [.mark .rightParen])) ts rest := by
  rw [parseCondition]
  refine (expect_ensures eof .parenAfterIf ts).next ?_
  rintro open' rest hr ⟨hk, rfl⟩
  refine (parseExpr_ensures eof rest).next ?_
  rintro c rest' hr' ⟨hg, _, hsp⟩
  refine Ensures.map ((expect_spells eof .parenAfterCondition rest').mono ?_)
  intro _ rest'' hparen
  refine ⟨hg, ?_⟩
  rw [spells_mark]
  exact ⟨open', rest, rfl, hk, spells_append.mpr ⟨rest', hsp, hparen⟩⟩

theorem parseSignature_ensures (eof : Token) (ts : List Token) :
    (parseSignature eof ts).Ensures fun r rest => r.1.kind = .identifier ∧
      (∀ p ∈ r.2, p.kind = .identifier) ∧ r.2.length ≤ listLimit ∧
      Spells (.token r.1 :: .mark .leftParen :: (paramSymbols r.2 ++
        [.mark .rightParen, .mark .leftBrace])) ts rest := by
  rw [parseSignature]
  refine (expect_ensures eof .functionName ts).next ?_
  rintro name rest hr ⟨hk, rfl⟩
  refine (expect_ensures eof .parenAfterFunctionName rest).next ?_
  rintro open' rest' hr' ⟨hopen, rfl⟩
  refine (parseParameters_ensures eof rest').next ?_
  rintro params rest'' hr'' ⟨hall, hlen, hsp⟩
  refine Ensures.map ((expect_spells eof .braceBeforeFunctionBody rest'').mono ?_)
  intro _ rest₃ hbrace
  refine ⟨hk, hall, by simpa using hlen, ?_⟩
  obtain ⟨mid, hparams, hparen⟩ := spells_append.mp hsp
  simp only [spells_token, spells_mark, spells_append]
  refine ⟨_, rfl, open', rest', rfl, hopen, mid, hparams, ?_⟩
  simp only [spells_mark, spells_nil] at hparen hbrace ⊢
  obtain ⟨t, _, hmid, ht, rfl⟩ := hparen
  exact ⟨t, _, hmid, ht, hbrace⟩

theorem parseNamespaceHead_ensures (eof : Token) (ts : List Token) :
    (parseNamespaceHead eof ts).Ensures fun name rest => name.kind = .identifier ∧
      Spells [.token name, .mark .leftBrace] ts rest := by
  rw [parseNamespaceHead]
  refine (expect_ensures eof .namespaceName ts).next ?_
  rintro name rest hr ⟨hk, rfl⟩
  refine Ensures.map ((expect_spells eof .braceBeforeNamespaceBody rest).mono ?_)
  intro _ rest' hbrace
  refine ⟨hk, ?_⟩
  rw [spells_token]
  exact ⟨rest, rfl, hbrace⟩

/-! ## Statements -/

/-- The token list does not go on with an `else`. -/
def NoElse (ts : List Token) : Prop := ∀ t ∈ ts.head?, t.kind ≠ .elseWord

/-- The statement is grammatical, spelled in front of the rest, and complete there: it is not open
for an `else` that follows. -/
def StmtSpelled (ts : List Token) (s : Stmt Unit) (rest : List Token) : Prop :=
  s.Grammatical ∧ Spells s.symbols ts rest ∧ (s.endsOpen = true → NoElse rest)

theorem SpelledBehind.stmtSpelled {first : Symbol} {t : Token} {ts rest : List Token}
    {s : Stmt Unit} (h : SpelledBehind first ts s rest) (ht : first.Shows t) :
    StmtSpelled (t :: ts) s rest := by
  obtain ⟨hg, hs, more, hmore, hsp⟩ := h
  refine ⟨hg, ?_, fun ho => absurd ho (by simp [hs])⟩
  rw [hmore, spells_cons]
  exact ⟨t, ts, rfl, ht, hsp⟩

/-- What holds of a declaration that was read without a diagnostic. It was not dropped. -/
def Declared.Ensures {n : Nat} (d : Declared n) (P : Stmt Unit → List Token → Prop) : Prop :=
  d.errors = [] → ∃ s, d.stmt? = some s ∧ P s d.rest

theorem Attempt.Ensures.declared {n : Nat} {a : Attempt n (Stmt Unit)}
    {P : Stmt Unit → List Token → Prop} (hn : 0 < n) (h : a.Ensures P) :
    (a.declared hn).Ensures P := by
  cases a with
  | parsed s rest errors hr => exact fun he => ⟨s, rfl, h he⟩
  | abandoned rest errors hr => exact fun he => absurd he h

/-- A body up to its closing brace, with its parts. -/
def BodySpelled (ts : List Token) (body : List (Stmt Unit)) (rest : List Token) : Prop :=
  Stmt.AllGrammatical body ∧ Spells (Stmt.allSymbols body ++ [.mark .rightBrace]) ts rest

mutual

theorem parseDeclaration_ensures (eof t : Token) (ts : List Token) :
    (parseDeclaration eof t ts).Ensures (StmtSpelled (t :: ts)) := by
  rw [parseDeclaration]
  refine Ensures.declared _ ?_
  split
  · next hk =>
    refine Ensures.behind ((parseLet_ensures eof none ts (by simp)).mono ?_)
    exact fun s rest h => h.stmtSpelled hk
  · next hk =>
    refine Ensures.behind ((parseSignature_ensures eof ts).next ?_)
    rintro ⟨name, params⟩ rest hr ⟨hname, hall, hlen, hsp⟩
    have hlt : rest.length < ts.length := hr
    refine Ensures.map ((parseBlock_ensures eof .braceAfterBlock rfl rest).mono ?_)
    rintro body rest' ⟨hg, hbody⟩
    suffices h : SpelledBehind (.mark .doWord) ts (.functionDecl name params body) rest' from
      h.stmtSpelled hk
    refine ⟨⟨hname, hall, hlen, hg⟩, rfl, _, Stmt.symbols_functionDecl name params body, ?_⟩
    exact spells_append.mpr ⟨rest, hsp, hbody⟩
  · next hk =>
    refine Ensures.behind ((parseNamespaceHead_ensures eof ts).next ?_)
    rintro name rest hr ⟨hname, hsp⟩
    have hlt : rest.length < ts.length := hr
    refine Ensures.map ((parseBlock_ensures eof .braceAfterNamespaceBody rfl rest).mono ?_)
    rintro body rest' ⟨hg, hbody⟩
    suffices h : SpelledBehind (.mark .namespaceWord) ts (.namespaceDecl name body) rest' from
      h.stmtSpelled hk
    refine ⟨⟨hname, hg⟩, rfl, _, Stmt.symbols_namespaceDecl name body, ?_⟩
    exact spells_append.mpr ⟨rest, hsp, hbody⟩
  · split
    · next htype =>
      refine Ensures.behind ((parseLet_ensures eof (some t) ts (by simpa using htype)).mono ?_)
      exact fun s rest h => h.stmtSpelled rfl
    · exact (parseStatement_ensures eof (t :: ts)).mono fun s rest h => h.2
termination_by (ts.length + 1, 1)

theorem parseStatement_ensures (eof : Token) (ts : List Token) :
    (parseStatement eof ts).Ensures fun s rest =>
      s.isDeclaration = false ∧ StmtSpelled ts s rest := by
  match ts with
  | [] =>
    rw [parseStatement]
    refine (parseExprStmt_ensures eof []).mono ?_
    rintro _ rest ⟨e, rfl, hg, hsp⟩
    exact ⟨rfl, hg, hsp, by simp [Stmt.endsOpen]⟩
  | t :: rest =>
    rw [parseStatement]
    split
    · next hk =>
      refine Ensures.behind ((parseCondition_ensures eof rest).next ?_)
      rintro c rest₁ hr₁ ⟨hc, hcsp⟩
      have hlt₁ : rest₁.length < rest.length := hr₁
      refine (parseStatement_ensures eof rest₁).andThen ?_
      rintro s rest₂ hr₂ ⟨hdecl, hg, hsp, hopen⟩
      match rest₂, hr₂ with
      | [], _ =>
        refine ensures_done ⟨rfl, ⟨hc, hg, hdecl⟩, ?_, by simp [NoElse]⟩
        rw [Stmt.symbols_branch, spells_mark]
        exact ⟨t, rest, rfl, hk, spells_append.mpr ⟨rest₁, hcsp, hsp⟩⟩
      | word :: rest₃, hr₂ =>
        have hlt₃ : rest₃.length < rest₁.length := Nat.lt_of_succ_lt hr₂
        dsimp only
        split
        · next hword =>
          refine Ensures.behind (Ensures.behind (Ensures.map
            ((parseStatement_ensures eof rest₃).mono ?_)))
          rintro s' rest₄ ⟨hdecl', hg', hsp', hopen'⟩
          -- an open `if` at the end of `s` would have taken the `else` itself
          have hclosed : s.endsOpen = false := by
            cases hs : s.endsOpen with
            | false => rfl
            | true => exact absurd hword (hopen hs word rfl)
          refine ⟨rfl, ⟨hc, hg, hdecl, hclosed, hg', hdecl'⟩, ?_, hopen'⟩
          rw [Stmt.symbols_branch_else, spells_mark]
          refine ⟨t, rest, rfl, hk, spells_append.mpr ⟨rest₁, hcsp, ?_⟩⟩
          rw [spells_append]
          exact ⟨_, hsp, spells_mark.mpr ⟨word, rest₃, rfl, hword, hsp'⟩⟩
        · next hword =>
          refine ensures_done ⟨rfl, ⟨hc, hg, hdecl⟩, ?_, ?_⟩
          · rw [Stmt.symbols_branch, spells_mark]
            exact ⟨t, rest, rfl, hk, spells_append.mpr ⟨rest₁, hcsp, hsp⟩⟩
          · rintro _ w hw
            cases hw
            exact hword
    · next hk =>
      refine Ensures.behind ((parseReturn_ensures eof t rest hk).mono ?_)
      exact fun s rest h => ⟨h.1, h.2.stmtSpelled rfl⟩
    · next hk =>
      refine Ensures.behind
        (Ensures.map ((parseBlock_ensures eof .braceAfterBlock rfl rest).mono ?_))
      rintro body rest' ⟨hg, hsp⟩
      have h : SpelledBehind (.mark .leftBrace) rest (.block body) rest' := ⟨hg, rfl, _, rfl, hsp⟩
      exact ⟨rfl, h.stmtSpelled hk⟩
    · refine (parseExprStmt_ensures eof (t :: rest)).mono ?_
      rintro _ rest' ⟨e, rfl, hg, hsp⟩
      exact ⟨rfl, hg, hsp, by simp [Stmt.endsOpen]⟩
termination_by (ts.length, 0)

theorem parseBlock_ensures (eof : Token) (closing : Expected) (hc : closing.kind = .rightBrace)
    (ts : List Token) : (parseBlock eof closing ts).Ensures (BodySpelled ts) := by
  match ts with
  | [] =>
    rw [parseBlock]
    exact List.cons_ne_nil _ _
  | t :: rest =>
    rw [parseBlock]
    split
    · next hk =>
      refine ensures_done ⟨trivial, ?_⟩
      simp [Stmt.allSymbols, hk]
    · -- a dropped declaration leaves a diagnostic, so this one was kept
      have hlt := (parseDeclaration eof t rest).shorter
      refine Ensures.relax (ensures_noting fun herr => Ensures.map ?_) _
      obtain ⟨s, hstmt, hg, hsp, _⟩ := parseDeclaration_ensures eof t rest herr
      refine (parseBlock_ensures eof closing hc (parseDeclaration eof t rest).rest).mono ?_
      rintro body rest' ⟨hbody, hbsp⟩
      rw [hstmt]
      refine ⟨⟨hg, hbody⟩, ?_⟩
      show Spells ((s.symbols ++ Stmt.allSymbols body) ++ [.mark .rightBrace]) _ _
      rw [List.append_assoc, spells_append]
      exact ⟨_, hsp, hbsp⟩
termination_by (ts.length, 2)

end

/-- **A program that is read without a diagnostic is grammatical and written in its tokens.** -/
theorem parseProgram_spells (eof : Token) (ts : List Token) (h : (parseProgram eof ts).2 = []) :
    Stmt.AllGrammatical (parseProgram eof ts).1 ∧
      Spells (Stmt.allSymbols (parseProgram eof ts).1) ts [] := by
  match ts with
  | [] =>
    rw [parseProgram]
    exact ⟨trivial, by simp [Stmt.allSymbols]⟩
  | t :: rest =>
    rw [parseProgram] at h ⊢
    dsimp only at h ⊢
    obtain ⟨herr, hmore⟩ := List.append_eq_nil_iff.mp h
    have hlt := (parseDeclaration eof t rest).shorter
    obtain ⟨s, hstmt, hg, hsp, _⟩ := parseDeclaration_ensures eof t rest herr
    obtain ⟨hall, hall'⟩ := parseProgram_spells eof (parseDeclaration eof t rest).rest hmore
    rw [hstmt]
    refine ⟨⟨hg, hall⟩, ?_⟩
    show Spells (s.symbols ++ Stmt.allSymbols _) _ _
    rw [spells_append]
    exact ⟨_, hsp, hall'⟩
termination_by ts.length

end RadixScript
