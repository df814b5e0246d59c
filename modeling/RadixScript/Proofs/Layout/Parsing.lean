import RadixScript.Proofs.Likeness.Moves
import RadixScript.Tree.StmtParser

/-!
# Parsing tokens that are moved

The parser looks at kinds and values of tokens, and never at their places. So if the tokens of a
list are moved, what is read off its front is the same tree with the tokens moved, or the attempt is
abandoned at the same token; and the same problems are recorded, each at the same token
(`parseProgram_moved`).

There is one lemma for each function of the parser. They follow its recursion, on ever fewer tokens
and tighter levels, and how attempts are put together is dealt with once (`Attempt.Moved`).
-/

namespace RadixScript

variable {τ : Move} {origin : Token → Prop} {α β : Type} {n n' m m' : Nat}

/-! ## Moved tokens and diagnostics -/

/-- The second token is the first one, which is of the given origin, moved. -/
def Token.Moved (τ : Move) (origin : Token → Prop) (t t' : Token) : Prop :=
  origin t ∧ t' = τ.move t

theorem Token.Moved.kind_eq {t t' : Token} (h : t.Moved τ origin t') : t'.kind = t.kind := by
  rw [h.2, τ.kind_eq]

theorem Token.Moved.literal_eq {t t' : Token} (h : t.Moved τ origin t') :
    t'.literal = t.literal := by
  rw [h.2, τ.literal_eq]

/-- The tokens of the second list are those of the first one, moved. -/
abbrev TokensMoved (τ : Move) (origin : Token → Prop) : List Token → List Token → Prop :=
  List.Forall₂ (Token.Moved τ origin)

theorem tokensMoved_iff {ts ts' : List Token} :
    TokensMoved τ origin ts ts' ↔ (∀ t ∈ ts, origin t) ∧ ts' = ts.map τ.move := by
  constructor
  · intro h
    induction h with
    | nil => exact ⟨List.forall_mem_nil _, rfl⟩
    | cons ht _ ih =>
      rw [ht.2, ih.2, List.forall_mem_cons]
      exact ⟨⟨ht.1, ih.1⟩, rfl⟩
  · rintro ⟨h, rfl⟩
    rw [TokensMoved, List.forall₂_map_right_iff, List.forall₂_same]
    exact fun t ht => ⟨h t ht, rfl⟩

/-- The same problem, at a token that is moved. -/
def Diagnostic.Moved (τ : Move) (origin : Token → Prop) (d d' : Diagnostic) : Prop :=
  ∃ t p, origin t ∧ d = .ofToken t p ∧ d' = .ofToken (τ.move t) p

theorem Token.Moved.ofToken {t t' : Token} (h : t.Moved τ origin t') (p : Problem) :
    Diagnostic.Moved τ origin (.ofToken t p) (.ofToken t' p) :=
  ⟨t, p, h.1, rfl, by rw [h.2]⟩

/-! ## Attempts -/

/-- The attempts end in the same way: with corresponding values, in front of tokens that are moved,
and with diagnostics at tokens that are moved. -/
inductive Attempt.Moved (τ : Move) (origin : Token → Prop) (same : α → α → Prop) :
    Attempt n α → Attempt n' α → Prop
  | parsed {x x' : α} {rest rest' : List Token} {errors errors' : List Diagnostic}
      {h : rest.length < n} {h' : rest'.length < n'} (hx : same x x')
      (hrest : TokensMoved τ origin rest rest')
      (herrors : List.Forall₂ (Diagnostic.Moved τ origin) errors errors') :
      Attempt.Moved τ origin same (.parsed x rest errors h) (.parsed x' rest' errors' h')
  | abandoned {rest rest' : List Token} {errors errors' : List Diagnostic}
      {h : rest.length ≤ n} {h' : rest'.length ≤ n'} (hrest : TokensMoved τ origin rest rest')
      (herrors : List.Forall₂ (Diagnostic.Moved τ origin) errors errors') :
      Attempt.Moved τ origin same (.abandoned rest errors h) (.abandoned rest' errors' h')

namespace Attempt

variable {same : α → α → Prop} {same' : β → β → Prop} {a : Attempt n α} {a' : Attempt n' α}

theorem moved_done {x x' : α} {rest rest' : List Token} (hx : same x x')
    (hrest : TokensMoved τ origin rest rest') :
    Attempt.Moved τ origin same (.done x rest) (.done x' rest') :=
  .parsed hx hrest .nil

/-- Both attempts take the same branch. -/
theorem moved_ite {c : Prop} [Decidable c] {b : Attempt n α} {b' : Attempt n' α}
    (ha : a.Moved τ origin same a') (hb : b.Moved τ origin same b') :
    Attempt.Moved τ origin same (if c then a else b) (if c then a' else b') := by
  by_cases hc : c
  · rw [if_pos hc, if_pos hc]
    exact ha
  · rw [if_neg hc, if_neg hc]
    exact hb

theorem Moved.relax (h : a.Moved τ origin same a') (hm : n ≤ m) (hm' : n' ≤ m') :
    (a.relax hm).Moved τ origin same (a'.relax hm') := by
  cases h with
  | parsed hx hrest herrors => exact .parsed hx hrest herrors
  | abandoned hrest herrors => exact .abandoned hrest herrors

theorem Moved.behind (h : a.Moved τ origin same a') : a.behind.Moved τ origin same a'.behind :=
  h.relax _ _

theorem Moved.map (h : a.Moved τ origin same a') {f f' : α → β}
    (hf : ∀ x x', same x x' → same' (f x) (f' x')) :
    (a.map f).Moved τ origin same' (a'.map f') := by
  cases h with
  | parsed hx hrest herrors => exact .parsed (hf _ _ hx) hrest herrors
  | abandoned hrest herrors => exact .abandoned hrest herrors

theorem Moved.noting (h : a.Moved τ origin same a') {ds ds' : List Diagnostic}
    (hds : List.Forall₂ (Diagnostic.Moved τ origin) ds ds') :
    (a.noting ds).Moved τ origin same (a'.noting ds') := by
  cases h with
  | parsed hx hrest herrors => exact .parsed hx hrest (List.rel_append hds herrors)
  | abandoned hrest herrors => exact .abandoned hrest (List.rel_append hds herrors)

theorem Moved.andThen (h : a.Moved τ origin same a')
    {k : (x : α) → (rest : List Token) → rest.length < n → Attempt (rest.length + 1) β}
    {k' : (x : α) → (rest : List Token) → rest.length < n' → Attempt (rest.length + 1) β}
    (hk : ∀ x x' rest rest' hr hr', same x x' → TokensMoved τ origin rest rest' →
      (k x rest hr).Moved τ origin same' (k' x' rest' hr')) :
    (a.andThen k).Moved τ origin same' (a'.andThen k') := by
  cases h with
  | parsed hx hrest herrors => exact ((hk _ _ _ _ _ _ hx hrest).relax _ _).noting herrors
  | abandoned hrest herrors => exact .abandoned hrest herrors

theorem Moved.next (h : a.Moved τ origin same a')
    {k : (x : α) → (rest : List Token) → rest.length < n → Attempt rest.length β}
    {k' : (x : α) → (rest : List Token) → rest.length < n' → Attempt rest.length β}
    (hk : ∀ x x' rest rest' hr hr', same x x' → TokensMoved τ origin rest rest' →
      (k x rest hr).Moved τ origin same' (k' x' rest' hr')) :
    (a.next k).Moved τ origin same' (a'.next k') :=
  h.andThen fun x x' rest rest' hr hr' hx hrest => (hk x x' rest rest' hr hr' hx hrest).behind

end Attempt

section parser

variable {eof eof' : Token} {ts ts' : List Token}

theorem complain_moved (heof : eof.Moved τ origin eof') (hts : TokensMoved τ origin ts ts')
    (p : GrammarProblem) : (complain eof ts p).Moved τ origin (complain eof' ts' p) := by
  cases hts with
  | nil => exact heof.ofToken _
  | cons ht _ => exact ht.ofToken _

theorem crowding_moved (heof : eof.Moved τ origin eof') (hts : TokensMoved τ origin ts ts')
    (list : BoundedList) (count : Nat) :
    List.Forall₂ (Diagnostic.Moved τ origin) (crowding eof list count ts)
      (crowding eof' list count ts') := by
  unfold crowding
  split
  · exact .cons (complain_moved heof hts _) .nil
  · exact .nil

theorem abandoned_moved (heof : eof.Moved τ origin eof') (hts : TokensMoved τ origin ts ts')
    (same : α → α → Prop) (p : GrammarProblem) (h : ts.length ≤ n) (h' : ts'.length ≤ n') :
    Attempt.Moved τ origin same (.abandoned ts [complain eof ts p] h)
      (.abandoned ts' [complain eof' ts' p] h') :=
  .abandoned hts (.cons (complain_moved heof hts p) .nil)

theorem expect_moved (heof : eof.Moved τ origin eof') (hts : TokensMoved τ origin ts ts')
    (what : Expected) :
    (expect eof what ts).Moved τ origin (Token.Moved τ origin) (expect eof' what ts') := by
  cases hts with
  | nil => exact abandoned_moved heof .nil _ _ _ _
  | @cons t t' rest rest' ht hrest =>
    rw [expect, expect, ht.kind_eq]
    refine Attempt.moved_ite ?_ ?_
    · exact Attempt.moved_done ht hrest
    · exact abandoned_moved heof (.cons ht hrest) _ _ _ _

/-! ## Expressions -/

/-- The second expression is the first one with its tokens moved. -/
abbrev ExprMoved (τ : Move) (e e' : Expr Unit) : Prop := e' = e.mapTokens τ.move

/-- Arguments and the parenthesis behind them, moved. -/
def ArgumentsMoved (τ : Move) (a a' : List (Expr Unit) × Token) : Prop :=
  a'.1 = Expr.mapAllTokens τ.move a.1 ∧ a'.2 = τ.move a.2

theorem Expr.mapTokens_join (τ : Move) (l r : Expr Unit) (op : Token) :
    (l.join op r).mapTokens τ.move =
      (l.mapTokens τ.move).join (τ.move op) (r.mapTokens τ.move) := by
  rw [Expr.join, Expr.join, τ.kind_eq]
  split <;> rfl

mutual

theorem parseExpr_moved (heof : eof.Moved τ origin eof') (ts ts' : List Token)
    (h : TokensMoved τ origin ts ts') :
    (parseExpr eof ts).Moved τ origin (ExprMoved τ) (parseExpr eof' ts') := by
  rw [parseExpr.eq_def eof ts, parseExpr.eq_def eof' ts']
  refine (parseLevel_moved heof 0 ts ts' h).andThen ?_
  rintro left _ rest rest' hr hr' rfl hrest
  cases hrest with
  | nil => exact Attempt.moved_done rfl .nil
  | @cons op op' rest rest' hop hrest =>
    have hlt : rest.length < ts.length := Nat.lt_of_succ_lt hr
    dsimp only
    rw [hop.kind_eq]
    refine Attempt.moved_ite ?_ ?_
    · refine ((parseExpr_moved heof rest rest' hrest).andThen ?_).behind.behind
      rintro value _ rest₁ rest₁' _ _ rfl hrest₁
      -- what stands on the left decides whether there is a problem, and moving does not change that
      cases left with
      | reference name u => exact Attempt.moved_done rfl hrest₁
      | _ =>
        refine Attempt.Moved.noting ?_ (.cons (hop.ofToken _) .nil)
        exact Attempt.moved_done rfl hrest₁
    · exact Attempt.moved_done rfl (.cons hop hrest)
termination_by (ts.length, 11 + levelCount)

theorem parseLevel_moved (heof : eof.Moved τ origin eof') (l : Nat) (ts ts' : List Token)
    (h : TokensMoved τ origin ts ts') :
    (parseLevel eof l ts).Moved τ origin (ExprMoved τ) (parseLevel eof' l ts') := by
  rw [parseLevel.eq_def eof l ts, parseLevel.eq_def eof' l ts']
  by_cases hl : l < levelCount
  · rw [if_pos hl, if_pos hl]
    refine (parseLevel_moved heof (l + 1) ts ts' h).andThen ?_
    rintro left _ rest rest' hr _ rfl hrest
    have hlt : rest.length < ts.length := hr
    exact parseOperators_moved heof l left rest rest' hrest
  · rw [if_neg hl, if_neg hl]
    exact parseUnary_moved heof ts ts' h
termination_by (ts.length, 10 + (levelCount - l))

theorem parseOperators_moved (heof : eof.Moved τ origin eof') (l : Nat) (left : Expr Unit)
    (ts ts' : List Token) (h : TokensMoved τ origin ts ts') :
    (parseOperators eof l left ts).Moved τ origin (ExprMoved τ)
      (parseOperators eof' l (left.mapTokens τ.move) ts') := by
  rw [parseOperators.eq_def eof l left ts, parseOperators.eq_def eof' l _ ts']
  cases h with
  | nil => exact Attempt.moved_done rfl .nil
  | @cons op op' rest rest' hop hrest =>
    dsimp only
    rw [hop.kind_eq]
    refine Attempt.moved_ite ?_ ?_
    · refine ((parseLevel_moved heof (l + 1) rest rest' hrest).andThen ?_).behind.behind
      rintro right _ rest₁ rest₁' hr _ rfl hrest₁
      have hlt : rest₁.length < rest.length := hr
      rw [hop.2, ← Expr.mapTokens_join]
      exact parseOperators_moved heof l (left.join op right) rest₁ rest₁' hrest₁
    · exact Attempt.moved_done rfl (.cons hop hrest)
termination_by (ts.length, 0)

theorem parseUnary_moved (heof : eof.Moved τ origin eof') (ts ts' : List Token)
    (h : TokensMoved τ origin ts ts') :
    (parseUnary eof ts).Moved τ origin (ExprMoved τ) (parseUnary eof' ts') := by
  rw [parseUnary.eq_def eof ts, parseUnary.eq_def eof' ts']
  cases h with
  | nil => exact parseCall_moved heof [] [] .nil
  | @cons op op' rest rest' hop hrest =>
    dsimp only
    rw [hop.kind_eq]
    refine Attempt.moved_ite ?_ ?_
    · refine Attempt.Moved.behind ((parseUnary_moved heof rest rest' hrest).map ?_)
      rintro e _ rfl
      rw [hop.2]
      rfl
    · exact parseCall_moved heof (op :: rest) (op' :: rest') (.cons hop hrest)
termination_by (ts.length, 9)

theorem parseCall_moved (heof : eof.Moved τ origin eof') (ts ts' : List Token)
    (h : TokensMoved τ origin ts ts') :
    (parseCall eof ts).Moved τ origin (ExprMoved τ) (parseCall eof' ts') := by
  rw [parseCall.eq_def eof ts, parseCall.eq_def eof' ts']
  refine (parsePrimary_moved heof ts ts' h).andThen ?_
  rintro callee _ rest rest' hr _ rfl hrest
  exact parseCalls_moved heof callee rest rest' hrest
termination_by (ts.length, 8)

theorem parseCalls_moved (heof : eof.Moved τ origin eof') (callee : Expr Unit)
    (ts ts' : List Token) (h : TokensMoved τ origin ts ts') :
    (parseCalls eof callee ts).Moved τ origin (ExprMoved τ)
      (parseCalls eof' (callee.mapTokens τ.move) ts') := by
  rw [parseCalls.eq_def eof callee ts, parseCalls.eq_def eof' _ ts']
  cases h with
  | nil => exact Attempt.moved_done rfl .nil
  | @cons t t' rest rest' ht hrest =>
    dsimp only
    rw [ht.kind_eq]
    refine Attempt.moved_ite ?_ ?_
    · refine ((parseArguments_moved heof rest rest' hrest).andThen ?_).behind.behind
      rintro ⟨args, paren⟩ ⟨_, _⟩ rest₁ rest₁' hr _ ⟨rfl, rfl⟩ hrest₁
      have hlt : rest₁.length < rest.length := hr
      exact parseCalls_moved heof (.call callee paren args) rest₁ rest₁' hrest₁
    · exact Attempt.moved_done rfl (.cons ht hrest)
termination_by (ts.length, 0)

theorem parseArguments_moved (heof : eof.Moved τ origin eof') (ts ts' : List Token)
    (h : TokensMoved τ origin ts ts') :
    (parseArguments eof ts).Moved τ origin (ArgumentsMoved τ) (parseArguments eof' ts') := by
  rw [parseArguments.eq_def eof ts, parseArguments.eq_def eof' ts']
  cases h with
  | nil => exact parseArgumentList_moved heof 0 [] [] .nil
  | @cons t t' rest rest' ht hrest =>
    dsimp only
    rw [ht.kind_eq]
    refine Attempt.moved_ite ?_ ?_
    · exact Attempt.moved_done ⟨rfl, ht.2⟩ hrest
    · exact parseArgumentList_moved heof 0 (t :: rest) (t' :: rest') (.cons ht hrest)
termination_by (ts.length, 13 + levelCount)

theorem parseArgumentList_moved (heof : eof.Moved τ origin eof') (count : Nat)
    (ts ts' : List Token) (h : TokensMoved τ origin ts ts') :
    (parseArgumentList eof count ts).Moved τ origin (ArgumentsMoved τ)
      (parseArgumentList eof' count ts') := by
  rw [parseArgumentList.eq_def eof count ts, parseArgumentList.eq_def eof' count ts']
  refine Attempt.Moved.noting ?_ (crowding_moved heof h _ _)
  refine (parseExpr_moved heof ts ts' h).next ?_
  rintro arg _ rest rest' hr hr' rfl hrest
  have hlast : ∀ {rest rest' : List Token}, TokensMoved τ origin rest rest' →
      ((expect eof .parenAfterArguments rest).map fun paren => ([arg], paren)).Moved τ origin
        (ArgumentsMoved τ)
        ((expect eof' .parenAfterArguments rest').map fun paren =>
          ([arg.mapTokens τ.move], paren)) :=
    fun hrest => (expect_moved heof hrest _).map fun _ _ ht => ⟨rfl, ht.2⟩
  cases hrest with
  | nil => exact hlast .nil
  | @cons t t' rest rest' ht hrest =>
    have hlt : rest.length < ts.length := Nat.lt_of_succ_lt hr
    dsimp only
    rw [ht.kind_eq]
    refine Attempt.moved_ite ?_ ?_
    · have hmore := parseArgumentList_moved heof (count + 1) rest rest' hrest
      refine Attempt.Moved.behind (hmore.map ?_)
      rintro ⟨args, paren⟩ ⟨_, _⟩ ⟨rfl, rfl⟩
      exact ⟨rfl, rfl⟩
    · exact hlast (.cons ht hrest)
termination_by (ts.length, 12 + levelCount)

theorem parsePrimary_moved (heof : eof.Moved τ origin eof') (ts ts' : List Token)
    (h : TokensMoved τ origin ts ts') :
    (parsePrimary eof ts).Moved τ origin (ExprMoved τ) (parsePrimary eof' ts') := by
  rw [parsePrimary.eq_def eof ts, parsePrimary.eq_def eof' ts']
  cases h with
  | nil => exact abandoned_moved heof .nil _ _ _ _
  | @cons t t' rest rest' ht hrest =>
    dsimp only
    rw [ht.kind_eq, ht.literal_eq]
    -- the kinds of tokens that have no case of their own
    have hother : ∀ kind : Kind, Attempt.Moved τ origin (ExprMoved τ)
        (if kind.isLiteral then .done (.literal (t.literal.getD .null)) rest
          else .abandoned (t :: rest) [complain eof (t :: rest) .noExpression] (Nat.le_refl _))
        (if kind.isLiteral then .done (.literal (t.literal.getD .null)) rest'
          else .abandoned (t' :: rest') [complain eof' (t' :: rest') .noExpression]
            (Nat.le_refl _)) := by
      intro kind
      refine Attempt.moved_ite ?_ ?_
      · exact Attempt.moved_done rfl hrest
      · exact abandoned_moved heof (.cons ht hrest) _ _ _ _
    cases t.kind <;> dsimp only
    case falseWord | trueWord | nullWord => exact Attempt.moved_done rfl hrest
    case identifier => exact Attempt.moved_done (by rw [ht.2]; rfl) hrest
    case leftParen =>
      refine Attempt.Moved.behind ((parseExpr_moved heof rest rest' hrest).next ?_)
      rintro inner _ rest₁ rest₁' _ _ rfl hrest₁
      exact (expect_moved heof hrest₁ _).map fun _ _ _ => rfl
    all_goals exact hother _
termination_by (ts.length, 7)

end

/-! ## Parts of statements -/

theorem recover_moved (h : TokensMoved τ origin ts ts') :
    TokensMoved τ origin (recover ts) (recover ts') := by
  induction h with
  | nil => exact .nil
  | @cons t t' rest rest' ht hrest ih =>
    rw [recover.eq_def (t :: rest), recover.eq_def (t' :: rest')]
    dsimp only
    rw [ht.kind_eq]
    by_cases hk : t.kind = .semicolon
    · rw [if_pos hk, if_pos hk]
      exact hrest
    · rw [if_neg hk, if_neg hk]
      cases hrest with
      | nil => exact .nil
      | @cons next next' rest rest' hnext hrest =>
        dsimp only
        rw [hnext.kind_eq]
        by_cases hs : next.kind.startsStatement = true
        · rw [if_pos hs, if_pos hs]
          exact .cons hnext hrest
        · rw [if_neg hs, if_neg hs]
          exact ih

/-- The second statement is the first one with its tokens moved. -/
abbrev StmtMoved (τ : Move) (s s' : Stmt Unit) : Prop := s' = s.mapTokens τ.move

theorem parseParameterList_moved (heof : eof.Moved τ origin eof') (count : Nat)
    (ts ts' : List Token) (h : TokensMoved τ origin ts ts') :
    (parseParameterList eof count ts).Moved τ origin
      (fun params params' => params' = params.map τ.move) (parseParameterList eof' count ts') := by
  rw [parseParameterList.eq_def eof count ts, parseParameterList.eq_def eof' count ts']
  refine Attempt.Moved.noting ?_ (crowding_moved heof h _ _)
  refine (expect_moved heof h _).next ?_
  rintro name _ rest rest' hr hr' ⟨_, rfl⟩ hrest
  cases hrest with
  | nil => exact (expect_moved heof .nil _).map fun _ _ _ => rfl
  | @cons t t' rest rest' ht hrest =>
    have hlt : rest.length < ts.length := Nat.lt_of_succ_lt hr
    dsimp only
    rw [ht.kind_eq]
    refine Attempt.moved_ite ?_ ?_
    · have hmore := parseParameterList_moved heof (count + 1) rest rest' hrest
      refine Attempt.Moved.behind (hmore.map ?_)
      rintro params _ rfl
      rfl
    · exact (expect_moved heof (.cons ht hrest) _).map fun _ _ _ => rfl
termination_by ts.length

theorem parseParameters_moved (heof : eof.Moved τ origin eof') (h : TokensMoved τ origin ts ts') :
    (parseParameters eof ts).Moved τ origin (fun params params' => params' = params.map τ.move)
      (parseParameters eof' ts') := by
  cases h with
  | nil => exact parseParameterList_moved heof 0 [] [] .nil
  | @cons t t' rest rest' ht hrest =>
    rw [parseParameters, parseParameters, ht.kind_eq]
    refine Attempt.moved_ite ?_ ?_
    · exact Attempt.moved_done rfl hrest
    · exact parseParameterList_moved heof 0 _ _ (.cons ht hrest)

theorem parseInitializer_moved (heof : eof.Moved τ origin eof') (h : TokensMoved τ origin ts ts') :
    (parseInitializer eof ts).Moved τ origin (fun e e' => e' = e.map (Expr.mapTokens τ.move))
      (parseInitializer eof' ts') := by
  cases h with
  | nil =>
    rw [parseInitializer, parseInitializer]
    exact (expect_moved heof .nil _).map fun _ _ _ => rfl
  | @cons t t' rest rest' ht hrest =>
    rw [parseInitializer, parseInitializer, ht.kind_eq]
    refine Attempt.moved_ite ?_ ?_
    · refine Attempt.Moved.behind ((parseExpr_moved heof rest rest' hrest).next ?_)
      rintro init _ rest₁ rest₁' _ _ rfl hrest₁
      exact (expect_moved heof hrest₁ _).map fun _ _ _ => rfl
    · exact (expect_moved heof (.cons ht hrest) _).map fun _ _ _ => rfl

theorem parseLet_moved (heof : eof.Moved τ origin eof') (type : Option Token)
    (h : TokensMoved τ origin ts ts') :
    (parseLet eof type ts).Moved τ origin (StmtMoved τ) (parseLet eof' (type.map τ.move) ts') := by
  refine (expect_moved heof h _).next ?_
  rintro name _ rest rest' _ _ ⟨_, rfl⟩ hrest
  refine (parseInitializer_moved heof hrest).map ?_
  rintro init _ rfl
  rfl

theorem parseReturnValue_moved (heof : eof.Moved τ origin eof') (h : TokensMoved τ origin ts ts') :
    (parseReturnValue eof ts).Moved τ origin (ExprMoved τ) (parseReturnValue eof' ts') := by
  refine (parseExpr_moved heof ts ts' h).next ?_
  rintro value _ rest rest' _ _ rfl hrest
  exact (expect_moved heof hrest _).map fun _ _ _ => rfl

theorem parseReturn_moved (heof : eof.Moved τ origin eof') (keyword : Token)
    (h : TokensMoved τ origin ts ts') :
    (parseReturn eof keyword ts).Moved τ origin (StmtMoved τ)
      (parseReturn eof' (τ.move keyword) ts') := by
  have hvalue : ∀ {e e'}, ExprMoved τ e e' → StmtMoved τ (.returnStmt keyword (some e))
      (.returnStmt (τ.move keyword) (some e')) := by
    rintro e _ rfl
    rfl
  cases h with
  | nil => exact (parseReturnValue_moved heof .nil).map fun _ _ => hvalue
  | @cons t t' rest rest' ht hrest =>
    rw [parseReturn, parseReturn, ht.kind_eq]
    refine Attempt.moved_ite ?_ ?_
    · exact Attempt.moved_done rfl hrest
    · exact (parseReturnValue_moved heof (.cons ht hrest)).map fun _ _ => hvalue

theorem parseExprStmt_moved (heof : eof.Moved τ origin eof') (h : TokensMoved τ origin ts ts') :
    (parseExprStmt eof ts).Moved τ origin (StmtMoved τ) (parseExprStmt eof' ts') := by
  refine (parseExpr_moved heof ts ts' h).next ?_
  rintro e _ rest rest' _ _ rfl hrest
  exact (expect_moved heof hrest _).map fun _ _ _ => rfl

theorem parseCondition_moved (heof : eof.Moved τ origin eof') (h : TokensMoved τ origin ts ts') :
    (parseCondition eof ts).Moved τ origin (ExprMoved τ) (parseCondition eof' ts') := by
  refine (expect_moved heof h _).next fun _ _ rest rest' _ _ _ hrest => ?_
  refine (parseExpr_moved heof rest rest' hrest).next ?_
  rintro condition _ rest₁ rest₁' _ _ rfl hrest₁
  exact (expect_moved heof hrest₁ _).map fun _ _ _ => rfl

theorem parseSignature_moved (heof : eof.Moved τ origin eof') (h : TokensMoved τ origin ts ts') :
    (parseSignature eof ts).Moved τ origin
      (fun head head' => head' = (τ.move head.1, head.2.map τ.move)) (parseSignature eof' ts') := by
  refine (expect_moved heof h _).next ?_
  rintro name _ rest rest' _ _ ⟨_, rfl⟩ hrest
  refine (expect_moved heof hrest _).next fun _ _ rest₁ rest₁' _ _ _ hrest₁ => ?_
  refine (parseParameters_moved heof hrest₁).next ?_
  rintro params _ rest₂ rest₂' _ _ rfl hrest₂
  exact (expect_moved heof hrest₂ _).map fun _ _ _ => rfl

theorem parseNamespaceHead_moved (heof : eof.Moved τ origin eof')
    (h : TokensMoved τ origin ts ts') :
    (parseNamespaceHead eof ts).Moved τ origin (fun name name' => name' = τ.move name)
      (parseNamespaceHead eof' ts') := by
  refine (expect_moved heof h _).next fun _ _ rest rest' _ _ hname hrest => ?_
  exact (expect_moved heof hrest _).map fun _ _ _ => hname.2

/-! ## Statements -/

/-- The declarations end in the same way, with their tokens moved. -/
structure Declared.Moved (τ : Move) (origin : Token → Prop) (d : Declared n) (d' : Declared n') :
    Prop where
  stmt : d'.stmt? = d.stmt?.map (Stmt.mapTokens τ.move)
  rest : TokensMoved τ origin d.rest d'.rest
  errors : List.Forall₂ (Diagnostic.Moved τ origin) d.errors d'.errors

theorem Attempt.Moved.declared {a : Attempt n (Stmt Unit)} {a' : Attempt n' (Stmt Unit)}
    (h : a.Moved τ origin (StmtMoved τ) a') (hn : 0 < n) (hn' : 0 < n') :
    (a.declared hn).Moved τ origin (a'.declared hn') := by
  cases h with
  | parsed hx hrest herrors => exact ⟨congrArg some hx, hrest, herrors⟩
  | abandoned hrest herrors => exact ⟨rfl, recover_moved hrest, herrors⟩

theorem Stmt.mapAllTokens_toList_append (τ : Token → Token) (s : Option (Stmt Unit))
    (ss : List (Stmt Unit)) : Stmt.mapAllTokens τ (s.toList ++ ss) =
      (s.map (Stmt.mapTokens τ)).toList ++ Stmt.mapAllTokens τ ss := by
  cases s <;> rfl

mutual

theorem parseDeclaration_moved (heof : eof.Moved τ origin eof') {t t' : Token}
    (ht : t.Moved τ origin t') (ts ts' : List Token) (h : TokensMoved τ origin ts ts') :
    (parseDeclaration eof t ts).Moved τ origin (parseDeclaration eof' t' ts') := by
  rw [parseDeclaration.eq_def eof t ts, parseDeclaration.eq_def eof' t' ts', ht.kind_eq]
  refine Attempt.Moved.declared ?_ _ _
  -- the kinds of tokens that have no case of their own
  have hother : ∀ kind : Kind, Attempt.Moved τ origin (StmtMoved τ)
      (if kind.isTypeWord then (parseLet eof (some t) ts).behind else parseStatement eof (t :: ts))
      (if kind.isTypeWord then (parseLet eof' (some t') ts').behind
        else parseStatement eof' (t' :: ts')) := by
    intro kind
    refine Attempt.moved_ite ?_ ?_
    · rw [ht.2]
      exact (parseLet_moved heof (some t) h).behind
    · exact parseStatement_moved heof (t :: ts) (t' :: ts') (.cons ht h)
  cases t.kind <;> dsimp only
  case letWord => exact (parseLet_moved heof none h).behind
  case doWord =>
    refine Attempt.Moved.behind ((parseSignature_moved heof h).next ?_)
    rintro ⟨name, params⟩ _ rest rest' hr _ rfl hrest
    refine (parseBlock_moved heof .braceAfterBlock rest rest' hrest).map ?_
    rintro body _ rfl
    rfl
  case namespaceWord =>
    refine Attempt.Moved.behind ((parseNamespaceHead_moved heof h).next ?_)
    rintro name _ rest rest' hr _ rfl hrest
    refine (parseBlock_moved heof .braceAfterNamespaceBody rest rest' hrest).map ?_
    rintro body _ rfl
    rfl
  all_goals exact hother _
termination_by (ts.length + 1, 1)

theorem parseStatement_moved (heof : eof.Moved τ origin eof') (ts ts' : List Token)
    (h : TokensMoved τ origin ts ts') :
    (parseStatement eof ts).Moved τ origin (StmtMoved τ) (parseStatement eof' ts') := by
  rw [parseStatement.eq_def eof ts, parseStatement.eq_def eof' ts']
  cases h with
  | nil => exact parseExprStmt_moved heof .nil
  | @cons t t' rest rest' ht hrest =>
    dsimp only
    rw [ht.kind_eq]
    cases t.kind <;> dsimp only
    case ifWord =>
      refine Attempt.Moved.behind ((parseCondition_moved heof hrest).next ?_)
      rintro condition _ rest₁ rest₁' hr₁ _ rfl hrest₁
      have hlt₁ : rest₁.length < rest.length := hr₁
      refine (parseStatement_moved heof rest₁ rest₁' hrest₁).andThen ?_
      rintro thenBranch _ rest₂ rest₂' hr₂ _ rfl hrest₂
      cases hrest₂ with
      | nil => exact Attempt.moved_done rfl .nil
      | @cons word word' rest₃ rest₃' hword hrest₃ =>
        have hlt₃ : rest₃.length < rest₁.length := Nat.lt_of_succ_lt hr₂
        dsimp only
        rw [hword.kind_eq]
        refine Attempt.moved_ite ?_ ?_
        · refine ((parseStatement_moved heof rest₃ rest₃' hrest₃).map ?_).behind.behind
          rintro elseBranch _ rfl
          rfl
        · exact Attempt.moved_done rfl (.cons hword hrest₃)
    case returnWord =>
      rw [ht.2]
      exact (parseReturn_moved heof t hrest).behind
    case leftBrace =>
      refine Attempt.Moved.behind ((parseBlock_moved heof .braceAfterBlock rest rest' hrest).map ?_)
      rintro body _ rfl
      rfl
    all_goals exact parseExprStmt_moved heof (.cons ht hrest)
termination_by (ts.length, 0)

theorem parseBlock_moved (heof : eof.Moved τ origin eof') (closing : Expected)
    (ts ts' : List Token) (h : TokensMoved τ origin ts ts') :
    (parseBlock eof closing ts).Moved τ origin
      (fun body body' => body' = Stmt.mapAllTokens τ.move body) (parseBlock eof' closing ts') := by
  rw [parseBlock.eq_def eof closing ts, parseBlock.eq_def eof' closing ts']
  cases h with
  | nil => exact abandoned_moved heof .nil _ _ _ _
  | @cons t t' rest rest' ht hrest =>
    dsimp only
    rw [ht.kind_eq]
    refine Attempt.moved_ite ?_ ?_
    · exact Attempt.moved_done rfl hrest
    · have hd := parseDeclaration_moved heof ht rest rest' hrest
      have hlt : (parseDeclaration eof t rest).rest.length < rest.length + 1 :=
        (parseDeclaration eof t rest).shorter
      have hblock := parseBlock_moved heof closing _ _ hd.rest
      refine ((hblock.map ?_).noting hd.errors).relax _ _
      rintro body _ rfl
      rw [Stmt.mapAllTokens_toList_append, hd.stmt]
termination_by (ts.length, 2)

end

/-- **The parser does not look at places**: if the tokens are moved, the tree that is read is the
same with its tokens moved, and the same problems are recorded at the same tokens. -/
theorem parseProgram_moved (heof : eof.Moved τ origin eof') (ts ts' : List Token)
    (h : TokensMoved τ origin ts ts') :
    (parseProgram eof' ts').1 = Stmt.mapAllTokens τ.move (parseProgram eof ts).1 ∧
      List.Forall₂ (Diagnostic.Moved τ origin) (parseProgram eof ts).2
        (parseProgram eof' ts').2 := by
  cases h with
  | nil =>
    rw [parseProgram, parseProgram]
    exact ⟨rfl, .nil⟩
  | @cons t t' rest rest' ht hrest =>
    have hd := parseDeclaration_moved heof ht rest rest' hrest
    have hlt : (parseDeclaration eof t rest).rest.length < rest.length + 1 :=
      (parseDeclaration eof t rest).shorter
    obtain ⟨htree, herrors⟩ := parseProgram_moved heof _ _ hd.rest
    rw [parseProgram, parseProgram]
    refine ⟨?_, List.rel_append hd.errors herrors⟩
    dsimp only
    rw [Stmt.mapAllTokens_toList_append, htree, hd.stmt]
termination_by ts.length

end parser

end RadixScript
