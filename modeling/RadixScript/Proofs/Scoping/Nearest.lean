import Mathlib.Data.List.Permutation
import RadixScript.Proofs.Grammar.Completeness
import RadixScript.Proofs.Scoping.Sessions

/-!
# Tags and the nearest scope

Names could also be found without tags, by going outwards from the scope of their use to the nearest
scope that binds them. This is not the same: a closure that is called after a scope around its
declaration has gained a name would find that name, although it was declared later. It is the only
way to make a difference. If all functions are sheltered from what is declared after them, then
programs run alike either way (`outcomes_nearest_eq`).
-/

namespace RadixScript

/-- Names are found from the scope of their use outwards, whatever their tags are. -/
def Names.nearest : Names where
  lookUp := fun env name _ => Run.read (·.get env (.ofToken name))
  assign := fun env name v _ => Run.store (·.assignee env (.ofToken name)) name.text v

/-! ## The nearest scope -/

section nearest

variable {s : Scopes} {frames : Frames} {x : String}

/-- The nearest scope that binds a clear name is the scope of the innermost frame that declares it,
or lies outside of all frames. -/
theorem Frames.Linked.owner?_eq (h : frames.Linked s) (hc : frames.Clear s x) :
    s.owner? frames.env x =
      match frames.locals.distance? x with
      | some d => s.ancestor? frames.env d
      | none => s.owner? globalScope x := by
  induction frames with
  | nil => rfl
  | cons frame outer ih =>
    obtain ⟨⟨hp, hparent⟩, hnames, houter⟩ := h
    have hco : Frames.Clear s outer x := fun f hf => hc f (List.mem_cons_of_mem _ hf)
    rw [Frames.distance?_cons]
    show s.owner? frame.scope x = _
    by_cases hx : x ∈ frame.names
    · obtain ⟨v, hv⟩ := Option.isSome_iff_exists.mp (hnames x hx)
      rw [if_pos hx, Scopes.owner?, hv]
      rfl
    · -- the scope does not bind what its frame does not declare, so the search goes on
      have hv : s.own? frame.scope x = none := by
        rw [← Option.not_isSome_iff_eq_none]
        intro hb
        exact hx (hc frame (List.mem_cons_self ..) hb)
      rw [if_neg hx, Scopes.owner?, hv, hparent]
      dsimp only
      rw [ih houter hco]
      cases (Frames.locals outer).distance? x with
      | none => rfl
      | some d =>
        show s.ancestor? (Frames.env outer) d = s.ancestor? frame.scope (d + 1)
        rw [Scopes.ancestor?, hparent]

end nearest

/-! ## Visits -/

/-- At a use of a clear name, the nearest scope that binds it is the one that its tag leads to. -/
theorem Visit.Right.owner?_eq {v : Visit} (h : v.Right True) :
    v.machine.scopes.owner? v.env v.name.text =
      match v.tag with
      | some d => v.machine.scopes.ancestor? v.env d
      | none => v.machine.scopes.owner? globalScope v.name.text := by
  rw [h.tag]
  exact h.linked.owner?_eq (h.clear trivial)

theorem Run.read_congr {α : Type} {f g : Scopes → Except Fault α} {m : Machine}
    (h : f m.scopes = g m.scopes) : Run.read f m = Run.read g m := by
  show Run.lift (f m.scopes) m = Run.lift (g m.scopes) m
  rw [h]

theorem Run.store_congr {f g : Scopes → Except Fault ScopeId} {x : String} {a : Value}
    {m : Machine} (h : f m.scopes = g m.scopes) : Run.store f x a m = Run.store g x a m := by
  simp only [Run.store, bind, EStateM.bind, Run.read_congr h]

/-- Going outwards to the nearest scope agrees with the tag. -/
theorem Visit.Right.agrees_nearest {v : Visit} (h : v.Right True) : v.Agrees .nearest := by
  have howner := h.owner?_eq
  cases hd : v.tag with
  | none =>
    rw [hd] at howner
    have hget : v.machine.scopes.get v.env (.ofToken v.name) =
        v.machine.scopes.get globalScope (.ofToken v.name) := by
      simp only [Scopes.get, Scopes.get?_eq_owner?, Name.ofToken, howner]
    have hassignee : v.machine.scopes.assignee v.env (.ofToken v.name) =
        v.machine.scopes.assignee globalScope (.ofToken v.name) := by
      simp only [Scopes.assignee, Name.ofToken, howner]
    rw [Visit.Agrees, hd]
    split
    · show Run.read (·.get v.env (.ofToken v.name)) v.machine =
        Run.read (·.get globalScope (.ofToken v.name)) v.machine
      exact Run.read_congr hget
    · exact Run.store_congr hassignee
  | some d =>
    obtain ⟨frame, a, _, _, _, ha, hv⟩ := h.exists_frame hd
    rw [hd] at howner
    have hscope := howner.trans ha
    have hget : v.machine.scopes.get v.env (.ofToken v.name) =
        v.machine.scopes.getAt v.env d (.ofToken v.name) := by
      rw [Scopes.getAt_eq_ok ha hv]
      simp only [Scopes.get, Scopes.get?_eq_owner?, Name.ofToken, hscope, Option.bind_some, hv]
    have hassignee : v.machine.scopes.assignee v.env (.ofToken v.name) =
        v.machine.scopes.assigneeAt v.env d (.ofToken v.name) := by
      rw [Scopes.assigneeAt_eq_ok ha hv]
      simp only [Scopes.assignee, Name.ofToken, hscope]
    rw [Visit.Agrees, hd]
    split
    · show Run.read (·.get v.env (.ofToken v.name)) v.machine =
        Run.read (·.getAt v.env d (.ofToken v.name)) v.machine
      exact Run.read_congr hget
    · exact Run.store_congr hassignee

/-! ## Sessions -/

/-- **Programs run alike with tags and without them**, if no function mentions a name that is
declared after it in one of the local scopes around it: all outcomes of a session are the same, and
so are the output, what is left of the input, the globals and the rest of the machine. -/
theorem outcomes_nearest_eq (console : Console) (steps : List (Nat × String))
    (hs : ∀ step ∈ steps, ∀ p, parseSource step.2 = .ok p → p.Sheltered) :
    outcomes (Session.runWith .nearest) steps (.initial console) =
      outcomes Session.run steps (.initial console) := by
  have hsheltered : ∀ step ∈ steps, SourceSheltered True step.2 := fun step h _ => hs step h
  obtain ⟨hsound, _⟩ := Watched.outcomes_sound (Watched.initial_sound console) hsheltered
  have ha : ∀ v ∈ (outcomes Watched.run steps (.initial console)).2.visits, v.Agrees .nearest :=
    fun v hv => (hsound.visits v hv).agrees_nearest
  have hrun := outcomes_run_eq steps (.initial console)
  exact (outcomes_eq_of_agrees steps (.initial console) ha).trans hrun.symm

/-! ### Samples

The text `{let a;do f(){a;}f();}` has a function that reads a name of the scope around it. The
name is declared before the function, so the function is sheltered.
-/

namespace Captured

/-- A token without a value, in the first line. -/
def tok (k : Kind) (text : String) (start : Nat) : Token :=
  ⟨k, text, none, 1, start, start + text.length⟩

def source : String := "\x7blet a;do f()\x7ba;\x7df();\x7d"

def tokens : List Token :=
  [tok .leftBrace "\x7b" 0, tok .letWord "let" 1, tok .identifier "a" 5, tok .semicolon ";" 6,
    tok .doWord "do" 7, tok .identifier "f" 10, tok .leftParen "(" 11, tok .rightParen ")" 12,
    tok .leftBrace "\x7b" 13, tok .identifier "a" 14, tok .semicolon ";" 15,
    tok .rightBrace "\x7d" 16, tok .identifier "f" 17, tok .leftParen "(" 18,
    tok .rightParen ")" 19, tok .semicolon ";" 20, tok .rightBrace "\x7d" 21]

def program : Program Unit :=
  [.block [.letDecl (tok .identifier "a" 5) none none,
    .functionDecl (tok .identifier "f" 10) [] [.expr (.reference (tok .identifier "a" 14) ())],
    .expr (.call (.reference (tok .identifier "f" 17) ()) (tok .rightParen ")" 19) [])]]

theorem scan_source : scan source = some ⟨tokens, .atEnd 1 22, []⟩ := by cbv

theorem parseSource_source : parseSource source = .ok program := by
  have hg : Stmt.AllGrammatical program := by
    simp [program, Stmt.AllGrammatical, Stmt.Grammatical, Expr.Grammatical, Expr.AllGrammatical,
      Expr.strength, tok, listLimit]
  have hw : program.WrittenAs tokens := by
    simp [Program.WrittenAs, program, tokens, Stmt.allSymbols, Stmt.symbols, Expr.symbols,
      Expr.symbolLists, Symbol.commas, paramSymbols, initSymbols, declarationWord, Symbol.Shows,
      tok]
  rw [parseSource, scan_source]
  dsimp only
  rw [parseProgram_reads hg (program_writtenAs_iff.mp hw)]
  rfl

theorem program_sheltered : program.Sheltered := by
  simp [Program.Sheltered, program, Stmt.AllSheltered, Stmt.Sheltered, LocalScopes.before,
    Stmt.allDeclaredNames, Stmt.declaredNames]

/-- A program whose function mentions a name that is declared after it:
`let a = true; let r; { do f() { return a; } let a = false; r = f(); }` -/
def unsheltered : Program Unit :=
  [.letDecl (tok .identifier "a" 0) (some (.literal (.bool true))) none,
    .letDecl (tok .identifier "r" 0) none none,
    .block [
      .functionDecl (tok .identifier "f" 0) []
        [.returnStmt (tok .returnWord "return" 0) (some (.reference (tok .identifier "a" 0) ()))],
      .letDecl (tok .identifier "a" 0) (some (.literal (.bool false))) none,
      .expr (.assign (tok .identifier "r" 0) ()
        (.call (.reference (tok .identifier "f" 0) ()) (tok .rightParen ")" 0) []))]]

/-- The global `r` after the program. -/
def result? (names : Names) : Option Value :=
  let r := unsheltered.resolve.interpret names 1 (.initial .awaiting)
  (machineAfter r).scopes.own? globalScope "r"

-- the two ways differ when the function is not sheltered
set_option maxRecDepth 10000 in
example : result? .tagged = some (.bool true) ∧ result? .nearest = some (.bool false) := by
  constructor
  · cbv
  · cbv

end Captured

theorem captured_nearest_eq :
    outcomes (Session.runWith .nearest) [(1, Captured.source)] (.initial .awaiting) =
      outcomes Session.run [(1, Captured.source)] (.initial .awaiting) := by
  refine outcomes_nearest_eq .awaiting [(1, Captured.source)] ?_
  intro step hstep p hp
  obtain rfl := List.mem_singleton.mp hstep
  rw [Captured.parseSource_source] at hp
  cases hp
  exact Captured.program_sheltered

end RadixScript
