import RadixScript.Proofs.Concatenation.Texts
import RadixScript.Proofs.Likeness.Sessions

/-!
# Two programs in one text are run one after the other

The statements of the top level are executed in order, and none of them returns. So a text of two
programs is run like the first program and then the second one, in the state that the first has left
(`run_concatenate`). Only the tokens of the second program stand at other places: those of its
functions, and the one at fault if it fails.
-/

namespace RadixScript

variable {names : Names} {call : Caller} {env : ScopeId}

/-! ## Statements that do not return -/

/-- The statements come to their end, or stop with a fault. -/
def Run.EndsNormally (x : Run Completion) : Prop := ∀ m c m', x m = .ok c m' → c = .normal

theorem Run.endsNormally_pure : (pure .normal : Run Completion).EndsNormally := by
  intro m c m' h
  cases h
  rfl

theorem Run.endsNormally_bind {α : Type} {x : Run α} {g : α → Run Completion}
    (h : ∀ a, (g a).EndsNormally) : (x >>= g).EndsNormally := by
  intro m c m' hr
  simp only [bind, EStateM.bind] at hr
  split at hr
  · exact h _ _ _ _ hr
  · cases hr

mutual

/-- A statement in which no `return` is misplaced does not return. -/
theorem Stmt.exec_endsNormally : (s : Stmt (Option Nat)) → s.strayReturns = [] → ∀ env,
    (s.exec names call env).EndsNormally
  | .expr _, _, env => by
    rw [Stmt.exec]
    exact Run.endsNormally_bind fun _ => Run.endsNormally_pure
  | .letDecl _ _ _, _, env => by
    rw [Stmt.exec]
    exact Run.endsNormally_bind fun _ => Run.endsNormally_bind fun _ => Run.endsNormally_pure
  | .block body, h, env => by
    rw [Stmt.exec]
    exact Run.endsNormally_bind fun inner => Stmt.execAll_endsNormally body h inner
  | .branch c t none, h, env => by
    rw [Stmt.exec]
    refine Run.endsNormally_bind fun v => ?_
    split
    · exact t.exec_endsNormally h env
    · exact Run.endsNormally_pure
  | .branch c t (some e), h, env => by
    obtain ⟨ht, he⟩ := List.append_eq_nil_iff.mp h
    rw [Stmt.exec]
    refine Run.endsNormally_bind fun v => ?_
    split
    · exact t.exec_endsNormally ht env
    · exact e.exec_endsNormally he env
  | .functionDecl _ _ _, _, env => by
    rw [Stmt.exec]
    exact Run.endsNormally_bind fun _ => Run.endsNormally_bind fun _ => Run.endsNormally_pure
  | .returnStmt _ _, h, _ => by cases h
  | .namespaceDecl _ _, _, _ => by
    rw [Stmt.exec]
    exact Run.endsNormally_pure

theorem Stmt.execAll_endsNormally : (ss : List (Stmt (Option Nat))) → Stmt.allStrayReturns ss = [] →
    ∀ env, (Stmt.execAll names call env ss).EndsNormally
  | [], _, env => by
    rw [Stmt.execAll]
    exact Run.endsNormally_pure
  | s :: ss, h, env => by
    obtain ⟨hs, hss⟩ := List.append_eq_nil_iff.mp h
    intro m c m' hr
    rw [Stmt.execAll] at hr
    simp only [bind, EStateM.bind] at hr
    cases hfirst : s.exec names call env m with
    | error f m₁ =>
      rw [hfirst] at hr
      cases hr
    | ok c₁ m₁ =>
      rw [hfirst] at hr
      obtain rfl := s.exec_endsNormally hs env m c₁ m₁ hfirst
      exact Stmt.execAll_endsNormally ss hss env m₁ c m' hr

end

/-- What follows on statements that do not return is executed in the state that they have left. -/
theorem Stmt.execAll_append {ss ss' : List (Stmt (Option Nat))} (h : Stmt.allStrayReturns ss = [])
    (m : Machine) :
    Stmt.execAll names call env (ss ++ ss') m =
      match Stmt.execAll names call env ss m with
      | .ok _ m₁ => Stmt.execAll names call env ss' m₁
      | .error f m₁ => .error f m₁ := by
  induction ss generalizing m with
  | nil => rfl
  | cons s ss ih =>
    obtain ⟨hs, hss⟩ := List.append_eq_nil_iff.mp h
    rw [List.cons_append, Stmt.execAll, Stmt.execAll]
    simp only [bind, EStateM.bind]
    cases hfirst : s.exec names call env m with
    | error f m₁ => rfl
    | ok c m₁ =>
      obtain rfl := s.exec_endsNormally hs env m c m₁ hfirst
      exact ih hss m₁

/-! ## What is the same behind another text -/

/-- The function with its tokens moved. -/
def Closure.move (τ : Move) (f : Closure) : Closure :=
  { f with
    name := τ.move f.name
    params := f.params.map τ.move
    body := Stmt.mapAllTokens τ.move f.body }

/-- The value with the tokens of a function moved. -/
def Value.move (τ : Move) : Value → Value
  | .closure f => .closure (f.move τ)
  | v => v

/-- The tokens of a value: only functions have some. -/
def Value.tokens : Value → List Token
  | .closure f => f.tokens
  | _ => []

/-- The token is one of a function that the state has. -/
def Machine.HasToken (m : Machine) (t : Token) : Prop :=
  ∃ i x v, m.scopes.own? i x = some v ∧ t ∈ v.tokens

/-- A token of a function of the state `m`, which stays, or a token of `q`, which is moved behind
`p`. -/
def SameToken (m : Machine) (p q : String) (t t' : Token) : Prop :=
  m.HasToken t ∧ t' = t ∨ t ∈ tokensOf q ∧ t' = (Move.behind p).move t

/-- A value that stays, in which case a function has tokens of the state `m` only, or a function of
`q`, which is moved behind `p`. -/
def SameValue (m : Machine) (p q : String) (v v' : Value) : Prop :=
  (∀ t ∈ v.tokens, m.HasToken t) ∧ v' = v ∨
    (∀ t ∈ v.tokens, t ∈ tokensOf q) ∧ v' = v.move (.behind p)

/-- Whether code is from `q`, or was there before in the state `m`. -/
def concatenationLikeness (m : Machine) (p q : String) : Bool → Likeness
  | false => .moved .stay m.HasToken
  | true => .moved (.behind p) (· ∈ tokensOf q)

theorem sameToken_of_token {m : Machine} {p q : String} {t t' : Token} (k : Bool)
    (h : (concatenationLikeness m p q k).token t t') : SameToken m p q t t' := by
  cases k with
  | false => exact .inl h
  | true => exact .inr h

theorem Closure.eq_move {τ : Move} {origin : Token → Prop} {n : Nat} {f f' : Closure}
    (h : f.Alike (.moved τ origin) (fun _ => Renamings.none) n f') :
    (∀ t ∈ f.tokens, origin t) ∧ f' = f.move τ := by
  obtain ⟨ρ, hρ, hparams, hbody⟩ := h.code
  obtain rfl := hρ
  rw [Renamings.none_enter_refl] at hbody
  obtain ⟨hoparams, hparams⟩ := eq_map_of_moved hparams
  obtain ⟨hobody, hbody⟩ := Stmt.eq_mapAllTokens f.body 0 hbody
  obtain ⟨honame, hname⟩ := h.name
  refine ⟨?_, ?_⟩
  · rw [Closure.tokens, List.forall_mem_cons, List.forall_mem_append, ← Stmt.allPlaces_map_fst 0,
      List.forall_mem_map]
    exact ⟨honame, hoparams, hobody⟩
  · cases f'
    simp only [Closure.move, Closure.mk.injEq]
    exact ⟨hname, hparams, hbody, h.scope, h.serial⟩

theorem sameValue_of_alike {m : Machine} {p q : String} {W : World} {n : Nat} {v v' : Value}
    (hW : ∀ i d, ∃ k, (concatenationLikeness m p q k).renames (W i d))
    (h : v.Alike (concatenationLikeness m p q) W n v') : SameValue m p q v v' := by
  have hnone : W = fun _ => Renamings.none := by
    funext i d
    obtain ⟨k, hk⟩ := hW i d
    cases k <;> exact hk
  subst hnone
  cases h with
  | @inert v h =>
    refine .inl ⟨?_, rfl⟩
    cases v
    case closure => exact h.elim
    all_goals exact List.forall_mem_nil _
  | @closure f f' k h =>
    cases k with
    | false =>
      obtain ⟨ho, rfl⟩ := Closure.eq_move h
      refine .inl ⟨ho, ?_⟩
      rw [Closure.move, Move.stay, Stmt.mapAllTokens_id, List.map_id]
      rfl
    | true =>
      obtain ⟨ho, rfl⟩ := Closure.eq_move h
      exact .inr ⟨ho, rfl⟩

/-- A state is like itself, whatever follows. -/
theorem Machine.Sound.alike_concatenation {m : Machine} (h : m.Sound) (p q : String) :
    m.Alike (concatenationLikeness m p q) (fun _ => Renamings.none) m := by
  refine h.alike_self fun i x f hf => ⟨false, Likeness.moved_follows .stay m.HasToken, ?_⟩
  exact fun t ht => ⟨⟨i, x, .closure f, hf, ht⟩, rfl⟩

/-! ## Sessions -/

/-- **Two programs in one text are run one after the other.** Let two texts be ready to run. Then
the text of both, with a line end between them, is ready to run. Its statements are those of the
first one, followed by those of the second one, whose tokens are moved behind the first text. In
every state that a session can reach,

* if the first text fails, the text of both fails in the same way and leaves the same state;
* otherwise the text of both ends as the second text does in the state that the first one has left.
  The console is the same, and so are the globals and the fault, if there is one, up to the places
  of the tokens of the second text. -/
theorem run_concatenate {p q : String} {a b : Program (Option Nat)}
    (ha : compileSource p = .ok a) (hb : compileSource q = .ok b) :
    compileSource (p ++ "\n" ++ q) = .ok (a ++ Stmt.mapAllTokens (Move.behind p).move b) ∧
      ∀ (console : Console) (steps : List (Nat × String)) (depth : Nat),
        let m := (outcomes Session.run steps (.initial console)).2
        match Session.run depth p m with
        | .error f m₁ => Session.run depth (p ++ "\n" ++ q) m = .error f m₁
        | .ok _ m₁ => EndsLike (SameToken m₁ p q) (SameValue m₁ p q) (Session.run depth q m₁)
          (Session.run depth (p ++ "\n" ++ q) m) := by
  have hboth := compileSource_concatenate ha hb
  refine ⟨hboth, ?_⟩
  intro console steps depth m
  have hm : m.Sound := Machine.sound_outcomes console steps
  have hreturns : Stmt.allStrayReturns a = [] := by
    obtain ⟨a₀, hread, rfl⟩ := compileSource_eq_ok_iff_readFrom.mp ha
    rw [Program.resolve, Stmt.allStrayReturns_resolveAll]
    exact hread.returns
  have hsound := hm.run depth p
  rw [← Session.runWith_sure hm] at hsound
  rw [← Session.runWith_sure hm, ← Session.runWith_sure hm, Session.runWith_of_compiled hboth,
    Stmt.execAll_append hreturns]
  rw [Session.runWith_of_compiled ha] at hsound ⊢
  generalize Stmt.execAll .sure (Caller.ofDepth .sure depth) globalScope a m = r at hsound ⊢
  cases r with
  | error f m₁ => rfl
  | ok c m₁ =>
    have hm₁ : m₁.Sound := hsound
    dsimp only [Session.ofEnd]
    rw [← Session.runWith_sure hm₁, Session.runWith_of_compiled hb]
    have hlike : Stmt.AllAlike (concatenationLikeness m₁ p q true) Renamings.none b
        (Stmt.mapAllTokens (Move.behind p).move b) :=
      Stmt.allAlike_moved (allTokens_sublist_of_compileSource hb).subset
    exact endsLike_ofEnd (hm₁.alike_concatenation p q) hm₁.globals hlike
      (fun _ _ => sameToken_of_token) fun _ _ _ _ => sameValue_of_alike

/-! ### A sample

The first text, `let a;//`, ends in a comment. The second one, `do f(){b;}f();`, calls a function
that reads a name which is not defined.
-/

namespace Remark

open Captured (tok)

def first : String := "let a;//"

def firstProgram : Program (Option Nat) := [.letDecl (tok .identifier "a" 4) none none]

def second : String := "do f()\x7bb;\x7df();"

def secondTokens : List Token :=
  [tok .doWord "do" 0, tok .identifier "f" 3, tok .leftParen "(" 4, tok .rightParen ")" 5,
    tok .leftBrace "\x7b" 6, tok .identifier "b" 7, tok .semicolon ";" 8, tok .rightBrace "\x7d" 9,
    tok .identifier "f" 10, tok .leftParen "(" 11, tok .rightParen ")" 12, tok .semicolon ";" 13]

def secondProgram : Program Unit :=
  [.functionDecl (tok .identifier "f" 3) [] [.expr (.reference (tok .identifier "b" 7) ())],
    .expr (.call (.reference (tok .identifier "f" 10) ()) (tok .rightParen ")" 12) [])]

theorem compileSource_first : compileSource first = .ok firstProgram := by cbv

theorem secondProgram_readFrom : secondProgram.ReadFrom second := by
  have hscan : scan second = some ⟨secondTokens, .atEnd 1 14, []⟩ := by cbv
  obtain ⟨hclean, htokens⟩ := scan_eq_some_iff.mp ⟨_, hscan⟩
  refine ⟨hclean, ?_, ?_, rfl⟩
  · simp [Program.Grammatical, secondProgram, Stmt.AllGrammatical, Stmt.Grammatical,
      Expr.Grammatical, Expr.AllGrammatical, Expr.strength, tok, listLimit]
  · rw [← htokens]
    simp [Program.WrittenAs, secondProgram, secondTokens, Stmt.allSymbols, Stmt.symbols,
      Expr.symbols, Expr.symbolLists, Symbol.commas, paramSymbols, Symbol.Shows, tok]

theorem compileSource_second : compileSource second = .ok secondProgram.resolve :=
  compileSource_eq_ok_iff_readFrom.mpr ⟨secondProgram, secondProgram_readFrom, rfl⟩

end Remark

theorem remark_run_concatenate :
    compileSource Remark.first = .ok Remark.firstProgram ∧
      compileSource Remark.second = .ok Remark.secondProgram.resolve ∧
      compileSource (Remark.first ++ "\n" ++ Remark.second) = .ok (Remark.firstProgram ++
        Stmt.mapAllTokens (Token.shift 1 9) Remark.secondProgram.resolve) ∧
      match Session.run 1 Remark.first (.initial .awaiting) with
      | .error f m₁ =>
        Session.run 1 (Remark.first ++ "\n" ++ Remark.second) (.initial .awaiting) = .error f m₁
      | .ok _ m₁ => EndsLike (SameToken m₁ Remark.first Remark.second)
        (SameValue m₁ Remark.first Remark.second) (Session.run 1 Remark.second m₁)
        (Session.run 1 (Remark.first ++ "\n" ++ Remark.second) (.initial .awaiting)) := by
  obtain ⟨hcompile, hrun⟩ := run_concatenate Remark.compileSource_first Remark.compileSource_second
  exact ⟨Remark.compileSource_first, Remark.compileSource_second, hcompile, hrun .awaiting [] 1⟩

end RadixScript
