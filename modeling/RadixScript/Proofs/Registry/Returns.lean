import RadixScript.Proofs.Concatenation.Runs
import RadixScript.Proofs.Registry.Walk

/-!
# Misplaced returns

A `return` is misplaced when it lies in no function and in no namespace. `Stmt.returns` lists every
`return` of a tree with what is around it, in source order: the keywords are the `return` words of
the text (`Program.map_keyword_returns`). The resolver, which counts functions on its walk, reports
the misplaced ones and no other (`Stmt.allStrayReturns_eq`).

A program without misplaced returns is run to its end. No statement of its top level returns, so
executing them up to a `return` is executing all of them (`Stmt.execAll_eq_mapM`).
-/

namespace RadixScript

variable {δ : Type}

/-! ## Where returns stand -/

/-- A `return` of a tree, and what is around it. -/
structure ReturnSite where
  keyword : Token
  inFunction : Bool
  inNamespace : Bool

namespace ReturnSite

/-- The `return` lies in no function and in no namespace. -/
def isMisplaced (r : ReturnSite) : Bool := !r.inFunction && !r.inNamespace

/-- What there is to say about a misplaced `return`. -/
def problem (r : ReturnSite) : Diagnostic := .ofToken r.keyword .misplacedReturn

end ReturnSite

mutual

/-- The returns of a statement, given what is around it. -/
def Stmt.returns (inFunction inNamespace : Bool) : Stmt δ → List ReturnSite
  | .expr _ | .letDecl _ _ _ => []
  | .block body => Stmt.allReturns inFunction inNamespace body
  | .branch _ t none => t.returns inFunction inNamespace
  | .branch _ t (some e) => t.returns inFunction inNamespace ++ e.returns inFunction inNamespace
  | .returnStmt keyword _ => [⟨keyword, inFunction, inNamespace⟩]
  | .functionDecl _ _ body => Stmt.allReturns true inNamespace body
  | .namespaceDecl _ body => Stmt.allReturns inFunction true body

/-- The returns of consecutive statements, given what is around them. -/
def Stmt.allReturns (inFunction inNamespace : Bool) : List (Stmt δ) → List ReturnSite
  | [] => []
  | s :: ss => s.returns inFunction inNamespace ++ Stmt.allReturns inFunction inNamespace ss

end

/-- The returns of a program, in source order. -/
def Program.returns (p : Program δ) : List ReturnSite := Stmt.allReturns false false p

/-- The returns of a program that are misplaced. -/
def Program.misplacedReturns (p : Program δ) : List ReturnSite :=
  p.returns.filter ReturnSite.isMisplaced

/-! ## The misplaced ones -/

mutual

/-- Inside of a function or a namespace nothing is misplaced. -/
theorem Stmt.filter_isMisplaced_returns {f n : Bool} (h : (f || n) = true) : (s : Stmt δ) →
    (s.returns f n).filter ReturnSite.isMisplaced = []
  | .expr _ | .letDecl _ _ _ => rfl
  | .block body => Stmt.filter_isMisplaced_allReturns h body
  | .branch _ t none => t.filter_isMisplaced_returns h
  | .branch _ t (some e) => by
    rw [Stmt.returns, List.filter_append, t.filter_isMisplaced_returns h,
      e.filter_isMisplaced_returns h, List.append_nil]
  | .returnStmt keyword _ => by
    have hplace : (!f && !n) = false := by rw [← Bool.not_or, h, Bool.not_true]
    exact List.filter_cons_of_neg (by simp [ReturnSite.isMisplaced, hplace])
  | .functionDecl _ _ body => Stmt.filter_isMisplaced_allReturns (Bool.true_or n) body
  | .namespaceDecl _ body => Stmt.filter_isMisplaced_allReturns (Bool.or_true f) body

theorem Stmt.filter_isMisplaced_allReturns {f n : Bool} (h : (f || n) = true) :
    (ss : List (Stmt δ)) → (Stmt.allReturns f n ss).filter ReturnSite.isMisplaced = []
  | [] => rfl
  | s :: ss => by
    rw [Stmt.allReturns, List.filter_append, s.filter_isMisplaced_returns h,
      Stmt.filter_isMisplaced_allReturns h ss, List.append_nil]

end

mutual

theorem Stmt.strayReturns_eq : (s : Stmt δ) →
    s.strayReturns = ((s.returns false false).filter ReturnSite.isMisplaced).map ReturnSite.keyword
  | .expr _ | .letDecl _ _ _ | .returnStmt _ _ => rfl
  | .block body => Stmt.allStrayReturns_eq body
  | .branch _ t none => t.strayReturns_eq
  | .branch _ t (some e) => by
    rw [Stmt.strayReturns, t.strayReturns_eq, e.strayReturns_eq, Stmt.returns, List.filter_append,
      List.map_append]
  | .functionDecl _ _ body => by
    rw [Stmt.returns, Stmt.filter_isMisplaced_allReturns rfl body]
    rfl
  | .namespaceDecl _ body => by
    rw [Stmt.returns, Stmt.filter_isMisplaced_allReturns rfl body]
    rfl

/-- **Resolution finds the misplaced returns**, in source order. -/
theorem Stmt.allStrayReturns_eq : (ss : List (Stmt δ)) → Stmt.allStrayReturns ss =
    ((Stmt.allReturns false false ss).filter ReturnSite.isMisplaced).map ReturnSite.keyword
  | [] => rfl
  | s :: ss => by
    rw [Stmt.allStrayReturns, s.strayReturns_eq, Stmt.allStrayReturns_eq ss, Stmt.allReturns,
      List.filter_append, List.map_append]

end

theorem Program.scopeProblems_eq (p : Program δ) :
    p.scopeProblems = p.misplacedReturns.map ReturnSite.problem := by
  rw [Program.scopeProblems, Stmt.allStrayReturns_eq, List.map_map]
  rfl

/-! ## The `return` words of a text -/

/-- Whether the token is the word `return`. -/
def Token.isReturnWord (t : Token) : Bool := t.kind == .returnWord

/-- Tokens that show the symbols have the given `return` words, in this order. -/
def Symbol.HaveReturns (ss : List Symbol) (keywords : List Token) : Prop :=
  ∀ ts rest, Spells ss ts rest →
    ts.filter Token.isReturnWord = keywords ++ rest.filter Token.isReturnWord

namespace Symbol

variable {ss ss' : List Symbol} {ks ks' : List Token} {t : Token}

theorem haveReturns_nil : HaveReturns [] [] := by
  intro ts rest h
  rw [spells_nil.mp h]
  rfl

theorem HaveReturns.append (h : HaveReturns ss ks) (h' : HaveReturns ss' ks') :
    HaveReturns (ss ++ ss') (ks ++ ks') := by
  intro ts rest hts
  obtain ⟨mid, hmid, hrest⟩ := spells_append.mp hts
  rw [h ts mid hmid, h' mid rest hrest, List.append_assoc]

/-- A symbol whose tokens are no `return` changes nothing. -/
theorem HaveReturns.cons {s : Symbol} (h : HaveReturns ss ks)
    (hs : ∀ t, s.Shows t → t.kind ≠ .returnWord) : HaveReturns (s :: ss) ks := by
  intro ts rest hts
  obtain ⟨t, ts', rfl, ht, hts'⟩ := spells_cons.mp hts
  have hfirst : t.isReturnWord = false := beq_eq_false_iff_ne.mpr (hs t ht)
  rw [List.filter_cons_of_neg (by simp [hfirst]), h ts' rest hts']

theorem HaveReturns.mark (h : HaveReturns ss ks) (kind : Kind)
    (hkind : kind ≠ .returnWord := by decide) : HaveReturns (.mark kind :: ss) ks := by
  refine h.cons ?_
  rintro t rfl
  exact hkind

/-- A mark at the end changes nothing either. -/
theorem HaveReturns.endMark (h : HaveReturns ss ks) (kind : Kind)
    (hkind : kind ≠ .returnWord := by decide) : HaveReturns (ss ++ [.mark kind]) ks := by
  have hend := h.append (haveReturns_nil.mark kind hkind)
  rwa [List.append_nil] at hend

theorem HaveReturns.token (h : HaveReturns ss ks) (ht : t.kind ≠ .returnWord) :
    HaveReturns (.token t :: ss) ks := by
  refine h.cons ?_
  rintro _ rfl
  exact ht

theorem HaveReturns.identifier (h : HaveReturns ss ks) (ht : t.kind = .identifier) :
    HaveReturns (.token t :: ss) ks :=
  h.token (by rw [ht]; decide)

theorem HaveReturns.value {v : Literal} (h : HaveReturns ss ks) :
    HaveReturns (.value v :: ss) ks := by
  refine h.cons fun t ht hkind => ?_
  have hnone : t.value? = none := by
    rw [Token.value?, hkind]
    rfl
  have hsome : t.value? = some v := ht
  rw [hnone] at hsome
  cases hsome

theorem HaveReturns.returnWord (h : HaveReturns ss ks) (ht : t.kind = .returnWord) :
    HaveReturns (.token t :: ss) (t :: ks) := by
  intro ts rest hts
  obtain ⟨ts', rfl, hts'⟩ := spells_token.mp hts
  have hfirst : t.isReturnWord = true := beq_iff_eq.mpr ht
  rw [List.filter_cons_of_pos hfirst, h ts' rest hts']
  rfl

theorem haveReturns_commas {parts : List (List Symbol)} (h : ∀ part ∈ parts, HaveReturns part []) :
    HaveReturns (commas parts) [] := by
  induction parts with
  | nil => exact haveReturns_nil
  | cons part rest ih =>
    obtain ⟨hpart, hrest⟩ := List.forall_mem_cons.mp h
    cases rest with
    | nil => exact hpart
    | cons next rest => exact hpart.append ((ih hrest).mark .comma)

end Symbol

open RadixScript.Symbol

theorem Kind.ne_returnWord_of_precedence? {k : Kind} {level : Nat}
    (h : k.precedence? = some level) : k ≠ .returnWord := by
  rintro rfl
  cases h

theorem Kind.ne_returnWord_of_isUnary {k : Kind} (h : k.isUnary = true) : k ≠ .returnWord := by
  rintro rfl
  cases h

mutual

/-- There is no `return` in an expression. -/
theorem Expr.haveReturns_symbols : (e : Expr δ) → e.Grammatical → HaveReturns e.symbols []
  | .literal _, _ => haveReturns_nil.value
  | .group e, h =>
    ((e.haveReturns_symbols h).endMark .rightParen).mark .leftParen
  | .unary _ e, h =>
    (e.haveReturns_symbols h.2.1).token (Kind.ne_returnWord_of_isUnary h.1)
  | .binary l _ r, h | .logical l _ r, h => by
    obtain ⟨level, hop, -, hl, -, hr, -⟩ := h
    exact (l.haveReturns_symbols hl).append
      ((r.haveReturns_symbols hr).token (Kind.ne_returnWord_of_precedence? hop))
  | .reference _ _, h => haveReturns_nil.identifier h
  | .assign _ _ e, h => ((e.haveReturns_symbols h.2).mark .equal).identifier h.1
  | .call callee paren args, h => by
    obtain ⟨hcallee, -, hparen, -, hargs⟩ := h
    have hclose : HaveReturns [.token paren] [] :=
      haveReturns_nil.token (by rw [hparen]; decide)
    have hinside := (haveReturns_commas (Expr.haveReturns_symbolLists args hargs)).append hclose
    exact (callee.haveReturns_symbols hcallee).append (hinside.mark .leftParen)

theorem Expr.haveReturns_symbolLists : (es : List (Expr δ)) → Expr.AllGrammatical es →
    ∀ part ∈ Expr.symbolLists es, HaveReturns part []
  | [], _ => List.forall_mem_nil _
  | e :: es, h =>
    List.forall_mem_cons.mpr ⟨e.haveReturns_symbols h.1, Expr.haveReturns_symbolLists es h.2⟩

end

theorem haveReturns_initSymbols {e : Option (Expr δ)} (h : ∀ x ∈ e, x.Grammatical) :
    HaveReturns (initSymbols e) [] := by
  cases e with
  | none => exact haveReturns_nil
  | some e => exact (e.haveReturns_symbols (h e rfl)).mark .equal

theorem haveReturns_optionSymbols {e : Option (Expr δ)} (h : ∀ x ∈ e, x.Grammatical) :
    HaveReturns (optionSymbols e) [] := by
  cases e with
  | none => exact haveReturns_nil
  | some e => exact e.haveReturns_symbols (h e rfl)

theorem haveReturns_paramSymbols {params : List Token} (h : ∀ p ∈ params, p.kind = .identifier) :
    HaveReturns (paramSymbols params) [] := by
  refine haveReturns_commas ?_
  rw [List.forall_mem_map]
  exact fun p hp => haveReturns_nil.identifier (h p hp)

theorem haveReturns_declarationWord {type : Option Token} {ss : List Symbol} {ks : List Token}
    (h : HaveReturns ss ks) (htype : ∀ t ∈ type, t.kind.isTypeWord = true) :
    HaveReturns (declarationWord type :: ss) ks := by
  cases type with
  | none => exact h.mark .letWord
  | some t =>
    refine h.token fun hkind => ?_
    have := htype t rfl
    rw [hkind] at this
    cases this

mutual

theorem Stmt.haveReturns_symbols (f n : Bool) : (s : Stmt δ) → s.Grammatical →
    HaveReturns s.symbols ((s.returns f n).map ReturnSite.keyword)
  | .expr e, h => (e.haveReturns_symbols h).endMark .semicolon
  | .letDecl name init type, h => by
    obtain ⟨hname, hinit, htype⟩ := h
    have htail := (haveReturns_initSymbols hinit).endMark .semicolon
    exact haveReturns_declarationWord (htail.identifier hname) htype
  | .block body, h =>
    ((Stmt.haveReturns_allSymbols f n body h).endMark .rightBrace).mark .leftBrace
  | .branch c t none, h => by
    obtain ⟨hc, ht, -⟩ := h
    have hbranch := (t.haveReturns_symbols f n ht).mark .rightParen
    exact (((c.haveReturns_symbols hc).append hbranch).mark .leftParen).mark .ifWord
  | .branch c t (some e), h => by
    obtain ⟨hc, ht, -, -, he, -⟩ := h
    have helse := (e.haveReturns_symbols f n he).mark .elseWord
    have hbranches := ((t.haveReturns_symbols f n ht).append helse).mark .rightParen
    rw [Stmt.returns, List.map_append]
    exact (((c.haveReturns_symbols hc).append hbranches).mark .leftParen).mark .ifWord
  | .returnStmt _ _, h =>
    ((haveReturns_optionSymbols h.2).endMark .semicolon).returnWord h.1
  | .functionDecl name params body, h => by
    obtain ⟨hname, hparams, -, hbody⟩ := h
    have hinside := (Stmt.haveReturns_allSymbols true n body hbody).endMark .rightBrace
    have hparams := (haveReturns_paramSymbols hparams).append
      ((hinside.mark .leftBrace).mark .rightParen)
    exact ((hparams.mark .leftParen).identifier hname).mark .doWord
  | .namespaceDecl name body, h => by
    have hinside := (Stmt.haveReturns_allSymbols f true body h.2).endMark .rightBrace
    exact ((hinside.mark .leftBrace).identifier h.1).mark .namespaceWord

theorem Stmt.haveReturns_allSymbols (f n : Bool) : (ss : List (Stmt δ)) → Stmt.AllGrammatical ss →
    HaveReturns (Stmt.allSymbols ss) ((Stmt.allReturns f n ss).map ReturnSite.keyword)
  | [], _ => haveReturns_nil
  | s :: ss, h => by
    rw [Stmt.allReturns, List.map_append]
    exact (s.haveReturns_symbols f n h.1).append (Stmt.haveReturns_allSymbols f n ss h.2)

end

/-- **The returns of a program are the `return` words of its text**, in the same order. -/
theorem Program.map_keyword_returns {p : Program δ} {ts : List Token} (hg : p.Grammatical)
    (hw : p.WrittenAs ts) :
    p.returns.map ReturnSite.keyword = ts.filter Token.isReturnWord := by
  have h := Stmt.haveReturns_allSymbols false false p hg ts [] (program_writtenAs_iff.mp hw)
  rw [h, List.filter_nil, List.append_nil]
  rfl

/-! ## Programs that are run to their end -/

theorem Stmt.length_resolveAll (ss : List (Stmt Unit)) (scopes : LocalScopes) :
    (Stmt.resolveAll scopes ss).length = ss.length := by
  induction ss generalizing scopes with
  | nil => rfl
  | cons s ss ih => rw [Stmt.resolveAll, List.length_cons, List.length_cons, ih]

theorem Stmt.strayReturns_eq_nil_of_mem {s : Stmt δ} {ss : List (Stmt δ)}
    (h : Stmt.allStrayReturns ss = []) (hs : s ∈ ss) : s.strayReturns = [] := by
  induction ss with
  | nil => cases hs
  | cons first ss ih =>
    obtain ⟨hfirst, hss⟩ := List.append_eq_nil_iff.mp h
    rcases List.mem_cons.mp hs with rfl | hs
    · exact hfirst
    · exact ih hss hs

section runs

variable (names : Names) (call : Caller) (env : ScopeId)

/-- **Statements that do not return are all executed**, until one of them stops with a fault. -/
theorem Stmt.execAll_eq_mapM {ss : List (Stmt (Option Nat))} (h : Stmt.allStrayReturns ss = [])
    (m : Machine) :
    match ss.mapM (Stmt.exec names call env) m with
    | .ok cs m' => cs = List.replicate ss.length .normal ∧
      Stmt.execAll names call env ss m = .ok .normal m'
    | .error f m' => Stmt.execAll names call env ss m = .error f m' := by
  induction ss generalizing m with
  | nil => exact ⟨rfl, rfl⟩
  | cons s ss ih =>
    obtain ⟨hs, hss⟩ := List.append_eq_nil_iff.mp h
    rw [List.mapM_cons, Stmt.execAll]
    simp only [bind, EStateM.bind]
    cases hfirst : s.exec names call env m with
    | error f m₁ => rfl
    | ok c m₁ =>
      obtain rfl := s.exec_endsNormally hs env m c m₁ hfirst
      have hrest := ih hss m₁
      dsimp only
      cases hmap : ss.mapM (Stmt.exec names call env) m₁ with
      | error f m₂ =>
        rw [hmap] at hrest
        exact hrest
      | ok cs m₂ =>
        rw [hmap] at hrest
        obtain ⟨rfl, hexec⟩ := hrest
        exact ⟨rfl, hexec⟩

end runs

/-- **The check of returns is exact, and what passes it is run to its end.** Let a text be a
program.

* Its returns, in the order in which the tree has them, are the `return` words of the text.
* The resolver reports one problem for each `return` that lies in no function and in no namespace,
  in this order, and nothing else.
* If there is none, the program is ready to run. In every state, a statement of its top level that
  comes to an end has not returned. To interpret the program is to execute every one of them, unless
  a fault stops one. -/
theorem misplaced_returns {source : String} {p : Program Unit} (hp : parseSource source = .ok p) :
    (∃ ts eof, scan source = some ⟨ts, eof, []⟩ ∧
      p.returns.map ReturnSite.keyword = ts.filter (·.kind == .returnWord)) ∧
    p.register.problems = p.misplacedReturns.map ReturnSite.problem ∧
    p.scopeProblems = p.misplacedReturns.map ReturnSite.problem ∧
    (p.misplacedReturns = [] → p.compile = .ok p.resolve ∧ ∀ (depth : Nat) (m : Machine),
      let exec := Stmt.exec .tagged (Caller.ofDepth .tagged depth) globalScope
      (∀ s ∈ p.resolve, ∀ c m', exec s m = .ok c m' → c = .normal) ∧
      match p.resolve.mapM exec m with
      | .ok cs m' => cs = List.replicate p.length .normal ∧
        p.resolve.interpret .tagged depth m = .ok none m'
      | .error (.error e) m' => p.resolve.interpret .tagged depth m = .ok (some e) m'
      | .error f m' => p.resolve.interpret .tagged depth m = .error f m') := by
  obtain ⟨hclean, hg, hw⟩ := parseSource_eq_ok_iff.mp hp
  refine ⟨?_, ?_, p.scopeProblems_eq, ?_⟩
  · obtain ⟨eof, hscan⟩ := scan_eq_some_iff.mpr ⟨hclean, rfl⟩
    exact ⟨tokensOf source, eof, hscan, Program.map_keyword_returns hg hw⟩
  · rw [Program.register_eq]
    exact p.scopeProblems_eq
  · intro hnone
    have hproblems : p.scopeProblems = [] := by
      rw [p.scopeProblems_eq, hnone]
      rfl
    have hstray : Stmt.allStrayReturns p.resolve = [] := by
      rw [Program.resolve, Stmt.allStrayReturns_resolveAll]
      exact List.map_eq_nil_iff.mp hproblems
    refine ⟨?_, ?_⟩
    · rw [Program.compile, hproblems]
    · intro depth m exec
      constructor
      · intro s hs c m' hrun
        have hs' := Stmt.strayReturns_eq_nil_of_mem hstray hs
        exact s.exec_endsNormally hs' globalScope m c m' hrun
      · have h := Stmt.execAll_eq_mapM (Names.tagged) (Caller.ofDepth .tagged depth) globalScope
          hstray m
        rw [Program.resolve, Stmt.length_resolveAll, ← Program.resolve] at h
        simp only [Program.interpret]
        cases hmap : p.resolve.mapM exec m with
        | ok cs m' =>
          rw [hmap] at h
          rw [h.2]
          exact ⟨h.1, rfl⟩
        | error f m' =>
          rw [hmap] at h
          rw [h]
          cases f <;> rfl

/-! ### Samples

In the text `do f(){return;}{return;}` the second `return` is misplaced. In `do f(){return;}f();`
none is, although the function returns when it is called.
-/

namespace Stray

open Captured (tok)

/-- The tokens of `do f(){return;}`. -/
def functionTokens : List Token :=
  [tok .doWord "do" 0, tok .identifier "f" 3, tok .leftParen "(" 4, tok .rightParen ")" 5,
    tok .leftBrace "\x7b" 6, tok .returnWord "return" 7, tok .semicolon ";" 13,
    tok .rightBrace "\x7d" 14]

def function : Stmt Unit :=
  .functionDecl (tok .identifier "f" 3) [] [.returnStmt (tok .returnWord "return" 7) none]

def misplaced : String := "do f()\x7breturn;\x7d\x7breturn;\x7d"

def misplacedProgram : Program Unit :=
  [function, .block [.returnStmt (tok .returnWord "return" 16) none]]

def called : String := "do f()\x7breturn;\x7df();"

def calledProgram : Program Unit :=
  [function, .expr (.call (.reference (tok .identifier "f" 15) ()) (tok .rightParen ")" 17) [])]

/-- Whether all statements have been executed. -/
def comesToEnd : EStateM.Result Fault Machine (List Completion) → Bool
  | .ok _ _ => true
  | .error _ _ => false

theorem parseSource_misplaced : parseSource misplaced = .ok misplacedProgram := by
  have hscan : scan misplaced = some ⟨functionTokens ++ [tok .leftBrace "\x7b" 15,
      tok .returnWord "return" 16, tok .semicolon ";" 22, tok .rightBrace "\x7d" 23],
      .atEnd 1 24, []⟩ := by cbv
  obtain ⟨hclean, htokens⟩ := scan_eq_some_iff.mp ⟨_, hscan⟩
  refine parseSource_eq_ok_iff.mpr ⟨hclean, ?_, ?_⟩
  · simp [Program.Grammatical, misplacedProgram, function, Stmt.AllGrammatical, Stmt.Grammatical,
      tok, listLimit]
  · rw [← htokens]
    simp [Program.WrittenAs, misplacedProgram, function, functionTokens, Stmt.allSymbols,
      Stmt.symbols, optionSymbols, commas, paramSymbols, Symbol.Shows, tok]

theorem parseSource_called : parseSource called = .ok calledProgram := by
  have hscan : scan called = some ⟨functionTokens ++ [tok .identifier "f" 15,
      tok .leftParen "(" 16, tok .rightParen ")" 17, tok .semicolon ";" 18],
      .atEnd 1 19, []⟩ := by cbv
  obtain ⟨hclean, htokens⟩ := scan_eq_some_iff.mp ⟨_, hscan⟩
  refine parseSource_eq_ok_iff.mpr ⟨hclean, ?_, ?_⟩
  · simp [Program.Grammatical, calledProgram, function, Stmt.AllGrammatical, Stmt.Grammatical,
      Expr.Grammatical, Expr.AllGrammatical, Expr.strength, tok, listLimit]
  · rw [← htokens]
    simp [Program.WrittenAs, calledProgram, function, functionTokens, Stmt.allSymbols, Stmt.symbols,
      Expr.symbols, Expr.symbolLists, optionSymbols, commas, paramSymbols, Symbol.Shows, tok]

end Stray

set_option maxRecDepth 10000 in
theorem stray_misplaced_returns :
    (parseSource Stray.misplaced = .ok Stray.misplacedProgram ∧
      Stray.misplacedProgram.returns = [⟨Captured.tok .returnWord "return" 7, true, false⟩,
        ⟨Captured.tok .returnWord "return" 16, false, false⟩] ∧
      Stray.misplacedProgram.register.problems = [⟨.misplacedReturn, 1, .atText "return"⟩]) ∧
    parseSource Stray.called = .ok Stray.calledProgram ∧
      Stray.calledProgram.compile = .ok Stray.calledProgram.resolve ∧
      ∃ m, Stray.calledProgram.resolve.interpret .tagged 1 (.initial .awaiting) = .ok none m := by
  obtain ⟨_, hproblems, _⟩ := misplaced_returns Stray.parseSource_misplaced
  obtain ⟨_, _, _, hrun⟩ := misplaced_returns Stray.parseSource_called
  obtain ⟨hcompile, hrun⟩ := hrun rfl
  refine ⟨⟨Stray.parseSource_misplaced, rfl, hproblems⟩, Stray.parseSource_called, hcompile, ?_⟩
  have hend := (hrun 1 (.initial .awaiting)).2
  have hok : Stray.comesToEnd (Stray.calledProgram.resolve.mapM
      (Stmt.exec .tagged (Caller.ofDepth .tagged 1) globalScope) (.initial .awaiting)) = true := by
    decide +kernel
  cases hmap : Stray.calledProgram.resolve.mapM
      (Stmt.exec .tagged (Caller.ofDepth .tagged 1) globalScope) (.initial .awaiting) with
  | ok cs m =>
    rw [hmap] at hend
    exact ⟨m, hend.2⟩
  | error f m =>
    rw [hmap] at hok
    cases hok

end RadixScript
