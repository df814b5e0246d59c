import RadixScript.Proofs.Erasure.Trees
import RadixScript.Proofs.Recasting.Runs
import RadixScript.Proofs.Renaming.Runs

/-!
# Runs without what means nothing

A program from which namespaces, types and groups are erased is accepted when the program is, and it
ends as the program does, in whatever state it is run (`run_erase`). Afterwards the machines differ
in the bodies of functions only, of which one is the erased other.

The two runs start in one state, whose functions are as they were declared. So erasure is compared
with a third run: that of the erased program on the machine in which all functions are erased.
-/

namespace RadixScript

/-! ## Trees -/

mutual

theorem Expr.becomes_erase : (e : Expr (Option Nat)) → e.Becomes Eq e.erase
  | .literal v => .literal v
  | .group e => .ungroup e.becomes_erase
  | .unary _ e => .unary e.becomes_erase
  | .binary l _ r => .binary l.becomes_erase r.becomes_erase
  | .logical l _ r => .logical l.becomes_erase r.becomes_erase
  | .reference _ _ => .reference rfl
  | .assign _ _ e => .assign rfl e.becomes_erase
  | .call callee _ args => .call callee.becomes_erase (Expr.allBecomes_eraseAll args)

theorem Expr.allBecomes_eraseAll : (es : List (Expr (Option Nat))) →
    Expr.AllBecomes Eq es (Expr.eraseAll es)
  | [] => .nil
  | e :: es => .cons e.becomes_erase (Expr.allBecomes_eraseAll es)

end

theorem rel_becomes_erase (e : Option (Expr (Option Nat))) :
    Option.Rel (Expr.Becomes Eq) e (e.map Expr.erase) := by
  cases e with
  | none => exact .none
  | some e => exact .some e.becomes_erase

mutual

theorem Stmt.becomes_erase : (s : Stmt (Option Nat)) → s.Becomes Stmt.eraseAll Eq s.erase
  | .expr e => .expr e.becomes_erase
  | .letDecl _ init _ => .letDecl (rel_becomes_erase init)
  | .block body => .block (Stmt.allBecomes_eraseAll body)
  | .branch c t none => .branch c.becomes_erase t.becomes_erase
  | .branch c t (some e) => .branchElse c.becomes_erase t.becomes_erase e.becomes_erase
  | .returnStmt _ value => .returnStmt (rel_becomes_erase value)
  | .functionDecl _ _ _ => .functionDecl
  | .namespaceDecl _ _ => .namespaceDecl

theorem Stmt.allBecomes_eraseAll : (ss : List (Stmt (Option Nat))) →
    Stmt.AllBecomes Stmt.eraseAll Eq ss (Stmt.eraseAll ss)
  | [] => .nil
  | s :: ss => by
    by_cases hn : s.isNamespace
    · cases s <;> cases hn
      exact .skip (Stmt.allBecomes_eraseAll ss)
    · rw [Stmt.eraseAll_cons (eq_false_of_ne_true hn)]
      exact .cons s.becomes_erase (Stmt.allBecomes_eraseAll ss)

end

/-- Erasure, of programs and of functions. -/
def Recasting.erasure : Recasting where
  before := .tagged
  after := .tagged
  body := Stmt.eraseAll
  tag := Eq
  lookUp := by
    rintro env name t _ rfl
    exact lookUp_recasts env name t
  assign := by
    rintro env name v t _ rfl
    exact assignName_recasts env name v t
  bodies := Stmt.allBecomes_eraseAll

/-! ## What can be seen -/

section looks

variable {f : Recast} {m m' : Machine}

theorem Scopes.bindings_recast (s : Scopes) (i : ScopeId) :
    (s.recast f).bindings i = recastBindings f (s.bindings i) := by
  rw [bindings, scope?_recast, bindings]
  cases s.scope? i <;> rfl

theorem Scopes.items_recast (s : Scopes) :
    (s.recast f).items globalScope = recastBindings f (s.items globalScope) := by
  have hfst : (recastBindings f (s.bindings globalScope)).map Prod.fst =
      (s.bindings globalScope).map Prod.fst := List.map_map
  simp only [items_globalScope, bindings_recast, lookup_recastBindings, hfst]
  rw [recastBindings, List.map_filterMap]
  congr 1
  funext x
  cases (s.bindings globalScope).lookup x <;> rfl

/-- Values that are the same up to the bodies of functions. -/
theorem Value.sameSignature_of_recast {v v' : Value} (h : v'.recast f = v.recast f) :
    v.SameSignature v' := by
  cases v <;> cases v' <;> simp_all [Value.recast, Value.SameSignature, Closure.recast]

/-- Machines that are the same up to the bodies of functions look alike. -/
theorem Machine.looksLike_of_recast (h : m'.recast f = m.recast f) :
    m.LooksLike Value.SameSignature m' := by
  have hitems := congrArg (fun m : Machine => m.scopes.items globalScope) h
  dsimp only [Machine.recast] at hitems
  rw [Scopes.items_recast, Scopes.items_recast, recastBindings, recastBindings,
    ← List.forall₂_eq_eq_eq, List.forall₂_map_left_iff, List.forall₂_map_right_iff] at hitems
  have hconsole : (m'.recast f).console = (m.recast f).console := congrArg Machine.console h
  refine ⟨hconsole, hitems.flip.imp ?_⟩
  rintro ⟨x, v⟩ ⟨x', v'⟩ hb
  obtain ⟨hx, hv⟩ := Prod.mk.inj hb
  exact ⟨hx, Value.sameSignature_of_recast hv⟩

theorem Fault.alike_refl (e : Fault) : e.Alike Eq e := by
  cases e
  case error e =>
    obtain ⟨cause, token?⟩ := e
    cases token? with
    | none => exact .error .none
    | some t => exact .error (.some rfl)
  all_goals exact .limit trivial

theorem endsLike_of_recastResult {r r' : EStateM.Result Fault Machine Completion}
    {g : Completion → Completion} (h : recastResult f g r' = recastResult f g r) :
    EndsLike Eq Value.SameSignature (Session.ofEnd r) (Session.ofEnd r') := by
  cases r <;> cases r'
  case ok.ok =>
    injection h with _ hm
    exact Machine.looksLike_of_recast hm
  case error.error e m e' m' =>
    injection h with he hm
    obtain rfl : e' = e := he
    exact ⟨e'.alike_refl, Machine.looksLike_of_recast hm⟩
  all_goals cases h

end looks

/-! ## Runs -/

/-- Resolves a program and runs it. -/
def Session.runProgram (depth : Nat) (p : Program Unit) : Session Unit := do
  let ready ← accept p.compile
  match ← ofRun (ready.interpret .tagged depth) with
  | none => pure ()
  | some e => throw (.fault (.error e))

namespace Session

theorem run_of_parsed {source : String} {p : Program Unit} (h : parseSource source = .ok p)
    (depth : Nat) (m : Machine) : run depth source m = runProgram depth p m := by
  have hcompile : compileSource source = p.compile := by rw [compileSource, h, Except.bind]
  rw [run, runWith, compile, hcompile]
  rfl

theorem runProgram_of_rejected {p : Program Unit} {r : Rejection} (h : p.compile = .error r)
    (depth : Nat) (m : Machine) : runProgram depth p m = .error (.rejected r) m := by
  simp only [runProgram, bind, EStateM.bind, h]
  rfl

theorem runProgram_of_compiled {p : Program Unit} {q : Program (Option Nat)}
    (h : p.compile = .ok q) (depth : Nat) (m : Machine) :
    runProgram depth p m =
      ofEnd (Stmt.execAll .tagged (Caller.ofDepth .tagged depth) globalScope q m) := by
  simp only [runProgram, bind, EStateM.bind, h, accept, pure, EStateM.pure, ofRun,
    Program.interpret, ofEnd]
  cases Stmt.execAll .tagged (Caller.ofDepth .tagged depth) globalScope q m with
  | ok c m' => rfl
  | error f m' => cases f <;> rfl

end Session

/-- Erasure and resolution can be done in either order, and the same programs are rejected, for the
same reasons. -/
theorem Program.compile_erase (p : Program Unit) :
    p.erase.compile = p.compile.map Stmt.eraseAll := by
  have hproblems : p.erase.scopeProblems = p.scopeProblems := by
    rw [scopeProblems, erase, Stmt.allStrayReturns_eraseAll, scopeProblems]
  rw [compile, compile, hproblems]
  cases p.scopeProblems with
  | nil => exact congrArg Except.ok (Stmt.resolveAll_eraseAll p [])
  | cons d ds => rfl

/-- The erased program, run in the same state, ends in the same way up to the bodies of
functions. -/
theorem recastResult_eraseAll (q : Program (Option Nat)) (depth : Nat) (m : Machine) :
    let run := fun q => Stmt.execAll .tagged (Caller.ofDepth .tagged depth) globalScope q m
    recastResult Stmt.eraseAll (Completion.recast Stmt.eraseAll) (run (Stmt.eraseAll q)) =
      recastResult Stmt.eraseAll (Completion.recast Stmt.eraseAll) (run q) := by
  -- both sides are the run of the erased program on the erased machine
  have hprogram := Recasting.erasure.program (Stmt.allBecomes_eraseAll q) depth m
  have herased := Recasting.erasure.program (Stmt.allBecomes_eraseAll (Stmt.eraseAll q)) depth m
  rw [Stmt.eraseAll_eraseAll] at herased
  exact herased.symm.trans hprogram

/-- **Namespaces, types and groups mean nothing.** Let a text be a program, and let all namespaces,
all types of declarations and all groups be erased from its tree, so that none is left. Then the
tree is accepted if the text is, and otherwise it is rejected with the same diagnostics. Run in the
same state, it ends as the text does: with the same console, the same globals and the same fault at
the same token. -/
theorem run_erase {source : String} {p : Program Unit} (hp : parseSource source = .ok p) :
    p.erase.Bare ∧ p.erase.compile = p.compile.map Stmt.eraseAll ∧
      ∀ (depth : Nat) (m : Machine),
        match p.compile with
        | .error r => Session.run depth source m = .error (.rejected r) m ∧
          Session.runProgram depth p.erase m = .error (.rejected r) m
        | .ok _ => EndsLike Eq Value.SameSignature (Session.run depth source m)
          (Session.runProgram depth p.erase m) := by
  have hcompile := p.compile_erase
  refine ⟨Stmt.allBare_eraseAll p (grammatical_of_parseSource hp), hcompile, ?_⟩
  intro depth m
  rw [Session.run_of_parsed hp]
  cases hq : p.compile with
  | error r =>
    rw [hq] at hcompile
    exact ⟨Session.runProgram_of_rejected hq depth m,
      Session.runProgram_of_rejected hcompile depth m⟩
  | ok q =>
    rw [hq] at hcompile
    rw [Session.runProgram_of_compiled hq, Session.runProgram_of_compiled hcompile]
    exact endsLike_of_recastResult (recastResult_eraseAll q depth m)

/-! ### A sample

In `namespace n{return;}do f(){int a=(1);return a;}f();` a namespace holds a `return`, and the
function has a typed variable whose value is a group.
-/

namespace Adorned

open Captured (tok)

def source : String := "namespace n\x7breturn;\x7ddo f()\x7bint a=(1);return a;\x7df();"

def tokens : List Token :=
  [tok .namespaceWord "namespace" 0, tok .identifier "n" 10, tok .leftBrace "\x7b" 11,
    tok .returnWord "return" 12, tok .semicolon ";" 18, tok .rightBrace "\x7d" 19,
    tok .doWord "do" 20, tok .identifier "f" 23, tok .leftParen "(" 24, tok .rightParen ")" 25,
    tok .leftBrace "\x7b" 26, tok .intType "int" 27, tok .identifier "a" 31, tok .equal "=" 32,
    tok .leftParen "(" 33, ⟨.intLiteral, "1", some (.int 1), 1, 34, 35⟩, tok .rightParen ")" 35,
    tok .semicolon ";" 36, tok .returnWord "return" 37, tok .identifier "a" 44,
    tok .semicolon ";" 45, tok .rightBrace "\x7d" 46, tok .identifier "f" 47,
    tok .leftParen "(" 48, tok .rightParen ")" 49, tok .semicolon ";" 50]

def program : Program Unit :=
  [.namespaceDecl (tok .identifier "n" 10) [.returnStmt (tok .returnWord "return" 12) none],
    .functionDecl (tok .identifier "f" 23) []
      [.letDecl (tok .identifier "a" 31) (some (.group (.literal (.int 1))))
          (some (tok .intType "int" 27)),
        .returnStmt (tok .returnWord "return" 37) (some (.reference (tok .identifier "a" 44) ()))],
    .expr (.call (.reference (tok .identifier "f" 47) ()) (tok .rightParen ")" 49) [])]

def erased : Program Unit :=
  [.functionDecl (tok .identifier "f" 23) []
      [.letDecl (tok .identifier "a" 31) (some (.literal (.int 1))) none,
        .returnStmt (tok .returnWord "return" 37) (some (.reference (tok .identifier "a" 44) ()))],
    .expr (.call (.reference (tok .identifier "f" 47) ()) (tok .rightParen ")" 49) [])]

theorem scan_source : scan source = some ⟨tokens, .atEnd 1 51, []⟩ := by cbv

theorem parseSource_source : parseSource source = .ok program := by
  obtain ⟨hclean, htokens⟩ := scan_eq_some_iff.mp ⟨_, scan_source⟩
  refine parseSource_eq_ok_iff.mpr ⟨hclean, ?_, ?_⟩
  · simp [Program.Grammatical, program, Stmt.AllGrammatical, Stmt.Grammatical, Expr.Grammatical,
      Expr.AllGrammatical, Expr.strength, tok, listLimit, Kind.isTypeWord]
  · rw [← htokens]
    simp [Program.WrittenAs, program, tokens, Stmt.allSymbols, Stmt.symbols, Expr.symbols,
      Expr.symbolLists, Symbol.commas, paramSymbols, initSymbols, optionSymbols, declarationWord,
      Symbol.Shows, Token.value?, Kind.isLiteral, tok]

end Adorned

theorem adorned_run_erase :
    parseSource Adorned.source = .ok Adorned.program ∧ Adorned.program.erase = Adorned.erased ∧
      Adorned.erased.Bare ∧
      EndsLike Eq Value.SameSignature (Session.run 1 Adorned.source (.initial .awaiting))
        (Session.runProgram 1 Adorned.erased (.initial .awaiting)) := by
  have hcompile : Adorned.program.compile = .ok Adorned.program.resolve := rfl
  obtain ⟨hbare, _, hrun⟩ := run_erase Adorned.parseSource_source
  have hends := hrun 1 (.initial .awaiting)
  rw [hcompile] at hends
  exact ⟨Adorned.parseSource_source, rfl, hbare, hends⟩

end RadixScript
