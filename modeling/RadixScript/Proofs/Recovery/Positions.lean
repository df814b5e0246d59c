import RadixScript.Tree.StmtParser

/-!
# Where the parser stands

Whatever the tokens are, the parser stands in front of some end of the token list: what an attempt
leaves is a suffix of what it began with, and every problem that it records is at a token of the
list, or at the end of input. When an attempt is abandoned, the last problem is at the token where
the parser stands, which is called the offence (`Attempt.Within`).

There is one lemma for each function of the parser, along its recursion. How attempts are put
together is dealt with once.
-/

namespace RadixScript

variable {n m : Nat} {α β : Type} {eof : Token} {ts us : List Token}

/-- The diagnostic is a problem of grammar at one of the tokens, or at the end of input. -/
def Diagnostic.IsAt (eof : Token) (ts : List Token) (d : Diagnostic) : Prop :=
  ∃ t ∈ ts ++ [eof], ∃ p, d = .ofToken t (.grammatical p)

theorem Diagnostic.IsAt.mono {d : Diagnostic} (h : d.IsAt eof us) (hus : us <:+ ts) :
    d.IsAt eof ts := by
  obtain ⟨t, ht, p, rfl⟩ := h
  refine ⟨t, ?_, p, rfl⟩
  rw [List.mem_append] at ht ⊢
  exact ht.imp_left fun hmem => hus.subset hmem

theorem complain_isAt (eof : Token) (ts : List Token) (p : GrammarProblem) :
    (complain eof ts p).IsAt eof ts := by
  cases ts with
  | nil => exact ⟨eof, by simp, p, rfl⟩
  | cons t rest => exact ⟨t, by simp, p, rfl⟩

theorem crowding_isAt (eof : Token) (list : BoundedList) (count : Nat) (ts : List Token) :
    ∀ d ∈ crowding eof list count ts, d.IsAt eof ts := by
  unfold crowding
  split
  · intro d hd
    rw [List.mem_singleton.mp hd]
    exact complain_isAt eof ts _
  · nofun

namespace Attempt

/-- The attempt leaves an end of `ts`, all problems are at its tokens, and an abandoned attempt ends
with a problem at the first token that is left. -/
def Within (eof : Token) (ts : List Token) : Attempt n α → Prop
  | parsed _ rest errors _ => rest <:+ ts ∧ ∀ d ∈ errors, d.IsAt eof ts
  | abandoned rest errors _ =>
    rest <:+ ts ∧ (∀ d ∈ errors, d.IsAt eof ts) ∧
      ∃ before p, errors = before ++ [complain eof rest p]

variable {a : Attempt n α}

theorem within_done {v : α} {rest : List Token} (h : rest <:+ ts) : (done v rest).Within eof ts :=
  ⟨h, nofun⟩

theorem within_abandoned (eof : Token) (ts : List Token) (p : GrammarProblem) (h : ts.length ≤ n) :
    (abandoned ts [complain eof ts p] h : Attempt n α).Within eof ts := by
  refine ⟨List.suffix_rfl, ?_, [], p, rfl⟩
  intro d hd
  rw [List.mem_singleton.mp hd]
  exact complain_isAt eof ts p

theorem Within.mono (h : a.Within eof us) (hus : us <:+ ts) : a.Within eof ts := by
  cases a with
  | parsed v rest errors hr => exact ⟨h.1.trans hus, fun d hd => (h.2 d hd).mono hus⟩
  | abandoned rest errors hr =>
    exact ⟨h.1.trans hus, fun d hd => (h.2.1 d hd).mono hus, h.2.2⟩

theorem Within.relax (h : a.Within eof ts) (hle : n ≤ m) : (a.relax hle).Within eof ts := by
  cases a <;> exact h

theorem Within.behind (h : a.Within eof ts) : a.behind.Within eof ts := h.relax _

theorem Within.map (h : a.Within eof ts) (f : α → β) : (a.map f).Within eof ts := by
  cases a <;> exact h

theorem Within.noting (h : a.Within eof ts) {ds : List Diagnostic}
    (hds : ∀ d ∈ ds, d.IsAt eof ts) : (a.noting ds).Within eof ts := by
  cases a with
  | parsed v rest errors hr => exact ⟨h.1, List.forall_mem_append.mpr ⟨hds, h.2⟩⟩
  | abandoned rest errors hr =>
    obtain ⟨hrest, herrors, before, p, rfl⟩ := h
    exact ⟨hrest, List.forall_mem_append.mpr ⟨hds, herrors⟩, ds ++ before, p,
      (List.append_assoc _ _ _).symm⟩

theorem Within.andThen (h : a.Within eof ts)
    {k : (value : α) → (rest : List Token) → rest.length < n → Attempt (rest.length + 1) β}
    (hk : ∀ v rest hr, rest <:+ ts → (k v rest hr).Within eof ts) :
    (a.andThen k).Within eof ts := by
  cases a with
  | parsed v rest errors hr => exact ((hk v rest hr h.1).relax hr).noting h.2
  | abandoned rest errors hr => exact h

theorem Within.next (h : a.Within eof ts)
    {k : (value : α) → (rest : List Token) → rest.length < n → Attempt rest.length β}
    (hk : ∀ v rest hr, rest <:+ ts → (k v rest hr).Within eof ts) :
    (a.next k).Within eof ts :=
  h.andThen fun v rest hr hrest => (hk v rest hr hrest).behind

end Attempt

open Attempt

theorem expect_within (eof : Token) (what : Expected) (ts : List Token) :
    (expect eof what ts).Within eof ts := by
  cases ts with
  | nil => exact within_abandoned eof [] _ _
  | cons t rest =>
    rw [expect]
    split
    · exact within_done (List.suffix_cons t rest)
    · exact within_abandoned eof (t :: rest) _ _

/-- What comes behind a part is expected within the whole. -/
theorem expect_within_of_suffix (what : Expected) (h : us <:+ ts) (f : Token → α) :
    ((expect eof what us).map f).Within eof ts :=
  ((expect_within eof what us).mono h).map f

/-! ## Expressions -/

mutual

theorem parseExpr_within (eof : Token) (ts : List Token) : (parseExpr eof ts).Within eof ts := by
  rw [parseExpr]
  refine (parseLevel_within eof 0 ts).andThen ?_
  intro left rest hr hrest
  match rest, hr with
  | [], _ => exact within_done hrest
  | op :: rest', hr =>
    have hlt : rest'.length < ts.length := Nat.lt_of_succ_lt hr
    have hrest' : rest' <:+ ts := (List.suffix_cons op rest').trans hrest
    have hop : op ∈ ts ++ [eof] := List.mem_append_left _ (hrest.subset List.mem_cons_self)
    dsimp only
    split
    · refine (((parseExpr_within eof rest').mono hrest').andThen ?_).behind.behind
      intro value rest'' _ hrest''
      -- a target that is no name is reported at the mark of the assignment
      have hbad : ∀ d ∈ [Diagnostic.ofToken op (.grammatical .badTarget)], d.IsAt eof ts := by
        intro d hd
        exact ⟨op, hop, .badTarget, List.mem_singleton.mp hd⟩
      cases left with
      | reference name u => exact within_done hrest''
      | _ => exact (within_done hrest'').noting hbad
    · exact within_done hrest
termination_by (ts.length, 11 + levelCount)

theorem parseLevel_within (eof : Token) (l : Nat) (ts : List Token) :
    (parseLevel eof l ts).Within eof ts := by
  rw [parseLevel]
  split
  · refine (parseLevel_within eof (l + 1) ts).andThen ?_
    intro left rest hr hrest
    exact (parseOperators_within eof l left rest).mono hrest
  · exact parseUnary_within eof ts
termination_by (ts.length, 10 + (levelCount - l))

theorem parseOperators_within (eof : Token) (l : Nat) (left : Expr Unit) (ts : List Token) :
    (parseOperators eof l left ts).Within eof ts := by
  match ts with
  | [] =>
    rw [parseOperators]
    exact within_done List.suffix_rfl
  | op :: rest =>
    rw [parseOperators]
    split
    · have hright := (parseLevel_within eof (l + 1) rest).mono (List.suffix_cons op rest)
      refine (hright.andThen ?_).behind.behind
      intro right rest' hr hrest'
      exact (parseOperators_within eof l (left.join op right) rest').mono hrest'
    · exact within_done List.suffix_rfl
termination_by (ts.length, 0)

theorem parseUnary_within (eof : Token) (ts : List Token) : (parseUnary eof ts).Within eof ts := by
  match ts with
  | [] =>
    rw [parseUnary]
    exact parseCall_within eof []
  | op :: rest =>
    rw [parseUnary]
    split
    · exact (((parseUnary_within eof rest).mono (List.suffix_cons op rest)).map _).behind
    · exact parseCall_within eof (op :: rest)
termination_by (ts.length, 9)

theorem parseCall_within (eof : Token) (ts : List Token) : (parseCall eof ts).Within eof ts := by
  rw [parseCall]
  refine (parsePrimary_within eof ts).andThen ?_
  intro callee rest hr hrest
  exact (parseCalls_within eof callee rest).mono hrest
termination_by (ts.length, 8)

theorem parseCalls_within (eof : Token) (callee : Expr Unit) (ts : List Token) :
    (parseCalls eof callee ts).Within eof ts := by
  match ts with
  | [] =>
    rw [parseCalls]
    exact within_done List.suffix_rfl
  | t :: rest =>
    rw [parseCalls]
    split
    · have hargs := (parseArguments_within eof rest).mono (List.suffix_cons t rest)
      refine (hargs.andThen ?_).behind.behind
      rintro ⟨args, paren⟩ rest' hr hrest'
      exact (parseCalls_within eof (.call callee paren args) rest').mono hrest'
    · exact within_done List.suffix_rfl
termination_by (ts.length, 0)

theorem parseArguments_within (eof : Token) (ts : List Token) :
    (parseArguments eof ts).Within eof ts := by
  match ts with
  | [] =>
    rw [parseArguments]
    exact parseArgumentList_within eof 0 []
  | t :: rest =>
    rw [parseArguments]
    split
    · exact within_done (List.suffix_cons t rest)
    · exact parseArgumentList_within eof 0 (t :: rest)
termination_by (ts.length, 13 + levelCount)

theorem parseArgumentList_within (eof : Token) (count : Nat) (ts : List Token) :
    (parseArgumentList eof count ts).Within eof ts := by
  rw [parseArgumentList]
  refine Within.noting ?_ (crowding_isAt eof _ count ts)
  refine (parseExpr_within eof ts).next ?_
  intro arg rest hr hrest
  match rest, hr with
  | [], _ => exact expect_within_of_suffix _ hrest _
  | t :: rest', hr =>
    have hlt : rest'.length < ts.length := Nat.lt_of_succ_lt hr
    have hrest' : rest' <:+ ts := (List.suffix_cons t rest').trans hrest
    dsimp only
    split
    · exact (((parseArgumentList_within eof (count + 1) rest').mono hrest').map _).behind
    · exact expect_within_of_suffix _ hrest _
termination_by (ts.length, 12 + levelCount)

theorem parsePrimary_within (eof : Token) (ts : List Token) :
    (parsePrimary eof ts).Within eof ts := by
  match ts with
  | [] =>
    rw [parsePrimary]
    exact within_abandoned eof [] _ _
  | t :: rest =>
    have hrest := List.suffix_cons t rest
    rw [parsePrimary]
    split
    · exact within_done hrest
    · exact within_done hrest
    · exact within_done hrest
    · exact within_done hrest
    · refine (((parseExpr_within eof rest).mono hrest).next ?_).behind
      intro inner rest' _ hrest'
      exact expect_within_of_suffix _ hrest' _
    · split
      · exact within_done hrest
      · exact within_abandoned eof (t :: rest) _ _
termination_by (ts.length, 7)

end

/-! ## Parts of statements -/

theorem parseParameterList_within (eof : Token) (count : Nat) (ts : List Token) :
    (parseParameterList eof count ts).Within eof ts := by
  rw [parseParameterList]
  refine Within.noting ?_ (crowding_isAt eof _ count ts)
  refine (expect_within eof _ ts).next ?_
  intro name rest hr hrest
  match rest, hr with
  | [], _ => exact expect_within_of_suffix _ hrest _
  | t :: rest', hr =>
    have hlt : rest'.length < ts.length := Nat.lt_of_succ_lt hr
    have hrest' : rest' <:+ ts := (List.suffix_cons t rest').trans hrest
    dsimp only
    split
    · exact (((parseParameterList_within eof (count + 1) rest').mono hrest').map _).behind
    · exact expect_within_of_suffix _ hrest _
termination_by ts.length

theorem parseParameters_within (eof : Token) (ts : List Token) :
    (parseParameters eof ts).Within eof ts := by
  cases ts with
  | nil => exact parseParameterList_within eof 0 []
  | cons t rest =>
    rw [parseParameters]
    split
    · exact within_done (List.suffix_cons t rest)
    · exact parseParameterList_within eof 0 (t :: rest)

theorem parseInitializer_within (eof : Token) (ts : List Token) :
    (parseInitializer eof ts).Within eof ts := by
  cases ts with
  | nil => exact expect_within_of_suffix .semicolonAfterDeclaration List.suffix_rfl fun _ => none
  | cons t rest =>
    rw [parseInitializer]
    split
    · have hinit := (parseExpr_within eof rest).mono (List.suffix_cons t rest)
      refine (hinit.next ?_).behind
      intro init rest' _ hrest'
      exact expect_within_of_suffix _ hrest' _
    · exact expect_within_of_suffix _ List.suffix_rfl _

theorem parseLet_within (eof : Token) (type : Option Token) (ts : List Token) :
    (parseLet eof type ts).Within eof ts := by
  refine (expect_within eof _ ts).next ?_
  intro name rest _ hrest
  exact ((parseInitializer_within eof rest).mono hrest).map _

theorem parseReturnValue_within (eof : Token) (ts : List Token) :
    (parseReturnValue eof ts).Within eof ts := by
  refine (parseExpr_within eof ts).next ?_
  intro value rest _ hrest
  exact expect_within_of_suffix _ hrest _

theorem parseReturn_within (eof : Token) (keyword : Token) (ts : List Token) :
    (parseReturn eof keyword ts).Within eof ts := by
  cases ts with
  | nil => exact (parseReturnValue_within eof []).map _
  | cons t rest =>
    rw [parseReturn]
    split
    · exact within_done (List.suffix_cons t rest)
    · exact (parseReturnValue_within eof (t :: rest)).map _

theorem parseExprStmt_within (eof : Token) (ts : List Token) :
    (parseExprStmt eof ts).Within eof ts := by
  refine (parseExpr_within eof ts).next ?_
  intro e rest _ hrest
  exact expect_within_of_suffix _ hrest _

theorem parseCondition_within (eof : Token) (ts : List Token) :
    (parseCondition eof ts).Within eof ts := by
  refine (expect_within eof _ ts).next ?_
  intro _ rest _ hrest
  refine ((parseExpr_within eof rest).mono hrest).next ?_
  intro condition rest' _ hrest'
  exact expect_within_of_suffix _ hrest' _

theorem parseSignature_within (eof : Token) (ts : List Token) :
    (parseSignature eof ts).Within eof ts := by
  refine (expect_within eof _ ts).next ?_
  intro name rest _ hrest
  refine ((expect_within eof _ rest).mono hrest).next ?_
  intro _ rest₁ _ hrest₁
  refine ((parseParameters_within eof rest₁).mono hrest₁).next ?_
  intro params rest₂ _ hrest₂
  exact expect_within_of_suffix _ hrest₂ _

theorem parseNamespaceHead_within (eof : Token) (ts : List Token) :
    (parseNamespaceHead eof ts).Within eof ts := by
  refine (expect_within eof _ ts).next ?_
  intro name rest _ hrest
  exact expect_within_of_suffix _ hrest _

/-! ## Statements -/

theorem recover_suffix (ts : List Token) : recover ts <:+ ts := by
  induction ts with
  | nil => exact List.suffix_rfl
  | cons t rest ih =>
    unfold recover
    split
    · exact List.suffix_cons t rest
    · split
      · exact List.nil_suffix
      · split
        · exact List.suffix_cons t _
        · exact ih.trans (List.suffix_cons t _)

/-- The attempt of a declaration that begins with `t`, without what comes after an abandoned one. -/
def attemptDeclaration (eof : Token) (t : Token) (ts : List Token) :
    Attempt (ts.length + 1) (Stmt Unit) :=
  match t.kind with
  | .letWord => (parseLet eof none ts).behind
  | .doWord =>
    ((parseSignature eof ts).next fun (name, params) rest _ =>
      (parseBlock eof .braceAfterBlock rest).map fun body =>
        .functionDecl name params body).behind
  | .namespaceWord =>
    ((parseNamespaceHead eof ts).next fun name rest _ =>
      (parseBlock eof .braceAfterNamespaceBody rest).map fun body =>
        .namespaceDecl name body).behind
  | kind =>
    if kind.isTypeWord then (parseLet eof (some t) ts).behind
    else parseStatement eof (t :: ts)

theorem parseDeclaration_eq (eof t : Token) (ts : List Token) :
    parseDeclaration eof t ts = (attemptDeclaration eof t ts).declared (Nat.succ_pos _) := by
  rw [parseDeclaration]
  rfl

/-- Reading goes on within `ts`, and all problems are at its tokens. -/
structure Declared.Within (eof : Token) (ts : List Token) (d : Declared n) : Prop where
  rest_suffix : d.rest <:+ ts
  errors_isAt : ∀ e ∈ d.errors, e.IsAt eof ts

theorem Attempt.Within.declared {a : Attempt n (Stmt Unit)} (h : a.Within eof ts) (hn : 0 < n) :
    (a.declared hn).Within eof ts := by
  cases a with
  | parsed s rest errors hr => exact ⟨h.1, h.2⟩
  | abandoned rest errors hr => exact ⟨(recover_suffix rest).trans h.1, h.2.1⟩

mutual

theorem attemptDeclaration_within (eof t : Token) (ts : List Token) :
    (attemptDeclaration eof t ts).Within eof (t :: ts) := by
  have hts := List.suffix_cons t ts
  unfold attemptDeclaration
  split
  · exact ((parseLet_within eof none ts).mono hts).behind
  · refine (((parseSignature_within eof ts).mono hts).next ?_).behind
    rintro ⟨name, params⟩ rest hr hrest
    exact ((parseBlock_within eof _ rest).mono hrest).map _
  · refine (((parseNamespaceHead_within eof ts).mono hts).next ?_).behind
    intro name rest hr hrest
    exact ((parseBlock_within eof _ rest).mono hrest).map _
  · split
    · exact ((parseLet_within eof (some t) ts).mono hts).behind
    · exact parseStatement_within eof (t :: ts)
termination_by (ts.length + 1, 1)

theorem parseStatement_within (eof : Token) (ts : List Token) :
    (parseStatement eof ts).Within eof ts := by
  match ts with
  | [] =>
    rw [parseStatement]
    exact parseExprStmt_within eof []
  | t :: rest =>
    have hts := List.suffix_cons t rest
    rw [parseStatement]
    split
    · refine (((parseCondition_within eof rest).mono hts).next ?_).behind
      intro condition rest₁ h₁ hrest₁
      refine ((parseStatement_within eof rest₁).mono hrest₁).andThen ?_
      intro thenBranch rest₂ h₂ hrest₂
      match rest₂, h₂ with
      | [], _ => exact within_done hrest₂
      | word :: rest₃, h₂ =>
        have hlt : rest₃.length < rest₁.length := Nat.lt_of_succ_lt h₂
        have hrest₃ := (List.suffix_cons word rest₃).trans hrest₂
        dsimp only
        split
        · exact (((parseStatement_within eof rest₃).mono hrest₃).map _).behind.behind
        · exact within_done hrest₂
    · exact ((parseReturn_within eof t rest).mono hts).behind
    · exact (((parseBlock_within eof _ rest).mono hts).map _).behind
    · exact parseExprStmt_within eof (t :: rest)
termination_by (ts.length, 0)

theorem parseBlock_within (eof : Token) (closing : Expected) (ts : List Token) :
    (parseBlock eof closing ts).Within eof ts := by
  match ts with
  | [] =>
    rw [parseBlock]
    exact within_abandoned eof [] _ _
  | t :: rest =>
    rw [parseBlock]
    split
    · exact within_done (List.suffix_cons t rest)
    · have hd : (parseDeclaration eof t rest).Within eof (t :: rest) := by
        rw [parseDeclaration_eq]
        exact (attemptDeclaration_within eof t rest).declared _
      have hshorter := (parseDeclaration eof t rest).shorter
      have hblock := (parseBlock_within eof closing _).mono hd.rest_suffix
      exact ((hblock.map _).noting hd.errors_isAt).relax _
termination_by (ts.length, 2)

end

theorem parseDeclaration_within (eof t : Token) (ts : List Token) :
    (parseDeclaration eof t ts).Within eof (t :: ts) := by
  rw [parseDeclaration_eq]
  exact (attemptDeclaration_within eof t ts).declared _

/-- A declaration that is abandoned ends with a problem at the offence. -/
theorem exists_offence {t : Token} (h : (parseDeclaration eof t ts).stmt? = none) :
    ∃ offence before p hle, offence <:+ t :: ts ∧ attemptDeclaration eof t ts =
      .abandoned offence (before ++ [complain eof offence p]) hle := by
  have hwithin := attemptDeclaration_within eof t ts
  rw [parseDeclaration_eq] at h
  cases ha : attemptDeclaration eof t ts with
  | parsed s rest errors hr =>
    rw [ha] at h
    cases h
  | abandoned rest errors hr =>
    rw [ha] at hwithin
    obtain ⟨hrest, -, before, p, rfl⟩ := hwithin
    exact ⟨rest, before, p, hr, hrest, rfl⟩

end RadixScript
