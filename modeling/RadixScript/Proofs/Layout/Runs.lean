import RadixScript.Proofs.Layout.Parsing
import RadixScript.Proofs.Renaming.Runs

/-!
# Texts that differ in layout

Two texts that are scanned to the same lexemes differ in blanks, line ends and comments only. The
tokens of the one are those of the other, moved (`Relayout.exists_move`), and neither the parser nor
resolution nor a run looks at places. So both are rejected for the same reasons, or both are ready
to run and end in the same way (`run_relayout`). Where a place can be seen, in a diagnostic or in a
fault, the tokens correspond.

One thing does depend on the layout: diagnostics are reported in the order of their lines, and what
stands in one line of the one text may stand in two lines of the other. Hence the diagnostics
correspond in the order in which they are found.
-/

namespace RadixScript

variable {τ : Move} {origin : Token → Prop} {α β : Type}

/-! ## The tokens of a text and its end -/

/-- The tokens of a text up to its end, and the token that marks the end. -/
def Scan.all (s : Scan) : List Token := s.tokens ++ [s.eof]

theorem le_start_locate (line offset : Nat) (ps : List Piece) :
    offset ≤ (locate line offset ps).2.start := by
  induction ps generalizing line offset with
  | nil => exact Nat.le_refl _
  | cons p ps ih => exact Nat.le_trans (Nat.le_add_right _ _) (ih _ _)

/-- Every token begins in front of the end. -/
theorem start_lt_locate {ps : List Piece} (h : Separated ps) {line offset : Nat} {t : Token}
    (ht : t ∈ tokensAt line offset ps) : t.start < (locate line offset ps).2.start := by
  induction ps generalizing line offset with
  | nil => cases ht
  | cons p ps ih =>
    rw [tokensAt, List.mem_append, Option.mem_toList] at ht
    rcases ht with ht | ht
    · cases p with
      | lexeme kind literal text =>
        cases ht
        have hpos := List.length_pos_iff.mpr h.1.text_ne_nil
        exact Nat.lt_of_lt_of_le (Nat.lt_add_of_pos_right hpos) (le_start_locate _ _ ps)
      | _ => cases ht
    · exact ih h.2 ht

theorem exists_locate_eq_atEnd (line offset : Nat) (ps : List Piece) :
    ∃ l o, (locate line offset ps).2 = .atEnd l o := by
  induction ps generalizing line offset with
  | nil => exact ⟨line, offset, rfl⟩
  | cons p ps ih => exact ih _ _

theorem eof_of_scan {source : String} {s : Scan} (h : scan source = some s) :
    s.eof = (locate 1 0 (pieces source.toList)).2 := by
  obtain ⟨_, _, rfl⟩ := Option.map_eq_some_iff.mp h
  rfl

/-! ## Texts with the same lexemes -/

/-- The tokens say the same, wherever they stand. -/
structure Token.SameLexeme (t t' : Token) : Prop where
  kind_eq : t'.kind = t.kind
  text_eq : t'.text = t.text
  literal_eq : t'.literal = t.literal

/-- The texts are scanned without a diagnostic, and to tokens that say the same. -/
structure Relayout (source source' : String) (s s' : Scan) : Prop where
  scanned : scan source = some s
  scanned' : scan source' = some s'
  clean : s.problems = []
  clean' : s'.problems = []
  tokens : List.Forall₂ Token.SameLexeme s.tokens s'.tokens

namespace Relayout

variable {source source' : String} {s s' : Scan}

theorem tokens_eq (h : Relayout source source' s s') : s.tokens = tokensOf source := by
  obtain ⟨tokens, eof, problems⟩ := s
  obtain rfl : problems = [] := h.clean
  exact (scan_eq_some_iff.mp ⟨eof, h.scanned⟩).2

theorem sameLexeme_all (h : Relayout source source' s s') :
    List.Forall₂ Token.SameLexeme s.all s'.all := by
  refine List.rel_append h.tokens (.cons ?_ .nil)
  obtain ⟨l, o, heof⟩ := exists_locate_eq_atEnd 1 0 (pieces source.toList)
  obtain ⟨l', o', heof'⟩ := exists_locate_eq_atEnd 1 0 (pieces source'.toList)
  rw [eof_of_scan h.scanned, eof_of_scan h.scanned', heof, heof']
  exact ⟨rfl, rfl, rfl⟩

theorem nodup_all (h : Relayout source source' s s') : s.all.Nodup := by
  have heof : s.eof ∉ s.tokens := by
    intro hmem
    rw [h.tokens_eq] at hmem
    have hlt := start_lt_locate (separated_pieces _) hmem
    rw [← eof_of_scan h.scanned] at hlt
    exact Nat.lt_irrefl _ hlt
  rw [Scan.all, List.nodup_append_comm]
  refine List.nodup_cons.mpr ⟨heof, ?_⟩
  show s.tokens.Nodup
  rw [h.tokens_eq]
  exact nodup_tokensOf source

/-- The tokens of the one text are those of the other, moved. -/
theorem exists_move (h : Relayout source source' s s') :
    ∃ τ : Move, s'.all = s.all.map τ.move := by
  obtain ⟨move, hmap, hmove, hid⟩ := exists_map_of_forall₂ h.sameLexeme_all h.nodup_all
  have hsame : ∀ t : Token, t.SameLexeme (move t) := by
    intro t
    by_cases ht : t ∈ s.all
    · exact hmove t ht
    · rw [hid t ht]
      exact ⟨rfl, rfl, rfl⟩
  exact ⟨⟨move, fun t => (hsame t).kind_eq, fun t => (hsame t).text_eq,
    fun t => (hsame t).literal_eq⟩, hmap.symm⟩

end Relayout

/-! ## Acceptance -/

/-- The same diagnostics, found in the same order at tokens that are moved. Those of the grammar are
reported line by line. -/
inductive Rejection.Moved (τ : Move) (origin : Token → Prop) : Rejection → Rejection → Prop
  | grammar {ds ds' : List Diagnostic} (h : List.Forall₂ (Diagnostic.Moved τ origin) ds ds') :
    Rejection.Moved τ origin (.diagnostics (sortByLine ds)) (.diagnostics (sortByLine ds'))
  | scoping {ds ds' : List Diagnostic} (h : List.Forall₂ (Diagnostic.Moved τ origin) ds ds') :
    Rejection.Moved τ origin (.diagnostics ds) (.diagnostics ds')

/-- Both texts are accepted, and what is read corresponds, or both are rejected for the same
reasons. -/
def AcceptedAlike (τ : Move) (origin : Token → Prop) (same : α → α → Prop) :
    Except Rejection α → Except Rejection α → Prop
  | .ok a, .ok a' => same a a'
  | .error r, .error r' => r.Moved τ origin r'
  | _, _ => False

theorem AcceptedAlike.bind {same : α → α → Prop} {same' : β → β → Prop}
    {x x' : Except Rejection α} (h : AcceptedAlike τ origin same x x')
    {f f' : α → Except Rejection β}
    (hf : ∀ a a', x = .ok a → same a a' → AcceptedAlike τ origin same' (f a) (f' a')) :
    AcceptedAlike τ origin same' (x.bind f) (x'.bind f') := by
  cases x <;> cases x'
  case error.error => exact h
  case ok.ok => exact hf _ _ rfl h
  all_goals exact h.elim

/-- The second program is the first one with its tokens moved. -/
def ProgramMoved {δ : Type} (τ : Move) (p p' : Program δ) : Prop :=
  p' = Stmt.mapAllTokens τ.move p

mutual

theorem Stmt.strayReturns_subset : (s : Stmt (Option Nat)) → s.strayReturns ⊆ s.tokens
  | .block body => by
    rw [Stmt.tokens_block]
    exact Stmt.allStrayReturns_subset body
  | .branch c t none => by
    rw [Stmt.tokens_branch]
    exact List.subset_append_of_subset_right _ t.strayReturns_subset
  | .branch c t (some e) => by
    rw [Stmt.tokens_branchElse]
    refine List.subset_append_of_subset_right _ (List.append_subset.mpr ⟨?_, ?_⟩)
    · exact List.subset_append_of_subset_left _ t.strayReturns_subset
    · exact List.subset_append_of_subset_right _ e.strayReturns_subset
  | .returnStmt keyword value => by
    rw [← Stmt.places_map_fst 0, Stmt.places, List.map_cons]
    exact List.cons_subset.mpr ⟨List.mem_cons_self, List.nil_subset _⟩
  | .expr _ | .letDecl _ _ _ | .functionDecl _ _ _ | .namespaceDecl _ _ => List.nil_subset _

/-- Misplaced returns are tokens of the program. -/
theorem Stmt.allStrayReturns_subset : (ss : List (Stmt (Option Nat))) →
    Stmt.allStrayReturns ss ⊆ Stmt.allTokens ss
  | [] => List.nil_subset _
  | s :: ss => by
    rw [Stmt.allTokens_cons]
    exact List.append_subset.mpr
      ⟨List.subset_append_of_subset_left _ s.strayReturns_subset,
        List.subset_append_of_subset_right _ (Stmt.allStrayReturns_subset ss)⟩

end

theorem Program.compile_moved {p : Program Unit}
    (h : ∀ t ∈ Stmt.allStrayReturns p, origin t) :
    AcceptedAlike τ origin (ProgramMoved τ) p.compile
      (Program.compile (Stmt.mapAllTokens τ.move p)) := by
  have hproblems : List.Forall₂ (Diagnostic.Moved τ origin) p.scopeProblems
      (Program.scopeProblems (Stmt.mapAllTokens τ.move p)) := by
    rw [Program.scopeProblems, Program.scopeProblems, Stmt.allStrayReturns_mapAllTokens,
      List.map_map, List.forall₂_map_left_iff, List.forall₂_map_right_iff, List.forall₂_same]
    exact fun t ht => ⟨t, _, h t ht, rfl, rfl⟩
  rw [Program.compile, Program.compile]
  generalize p.scopeProblems = ds at hproblems ⊢
  generalize Program.scopeProblems (Stmt.mapAllTokens τ.move p) = ds' at hproblems ⊢
  cases hproblems with
  | nil => exact Program.resolve_mapTokens τ p
  | cons hd hds => exact .scoping (.cons hd hds)

theorem parseSource_of_scan {source : String} {s : Scan} (h : scan source = some s)
    (hclean : s.problems = []) :
    parseSource source =
      match (parseProgram s.eof s.tokens).2 with
      | [] => .ok (parseProgram s.eof s.tokens).1
      | d :: ds => .error (.diagnostics (sortByLine (d :: ds))) := by
  rw [parseSource, h]
  dsimp only
  rw [hclean]
  rfl

namespace Relayout

variable {source source' : String} {s s' : Scan}

theorem moved_tokens (h : s'.all = s.all.map τ.move) :
    TokensMoved τ (· ∈ s.all) s.tokens s'.tokens ∧ s.eof.Moved τ (· ∈ s.all) s'.eof := by
  rw [Scan.all, Scan.all, List.map_append] at h
  obtain ⟨htokens, heof⟩ := List.append_inj' h rfl
  refine ⟨tokensMoved_iff.mpr ⟨fun t ht => ?_, htokens⟩, ?_, (List.cons.inj heof).1⟩
  · exact List.mem_append_left _ ht
  · exact List.mem_append_right _ (List.mem_singleton_self _)

theorem parseSource_moved (h : Relayout source source' s s') (hτ : s'.all = s.all.map τ.move) :
    AcceptedAlike τ (· ∈ s.all) (ProgramMoved τ) (parseSource source) (parseSource source') := by
  obtain ⟨htokens, heof⟩ := moved_tokens hτ
  obtain ⟨htree, herrors⟩ := parseProgram_moved heof s.tokens s'.tokens htokens
  rw [parseSource_of_scan h.scanned h.clean, parseSource_of_scan h.scanned' h.clean']
  generalize (parseProgram s.eof s.tokens).2 = ds at herrors ⊢
  generalize (parseProgram s'.eof s'.tokens).2 = ds' at herrors ⊢
  cases herrors with
  | nil => exact htree
  | cons hd hds => exact .grammar (.cons hd hds)

/-- Both texts are ready to run, or both are rejected for the same reasons. -/
theorem compileSource_moved (h : Relayout source source' s s') (hτ : s'.all = s.all.map τ.move) :
    AcceptedAlike τ (· ∈ s.all) (ProgramMoved τ) (compileSource source)
      (compileSource source') := by
  refine (h.parseSource_moved hτ).bind ?_
  rintro p _ hp rfl
  refine Program.compile_moved fun t ht => ?_
  have hwritten := (parseSource_eq_ok_iff.mp hp).2.2
  rw [← h.tokens_eq] at hwritten
  have hmem : t ∈ Stmt.allTokens p.resolve := by
    refine Stmt.allStrayReturns_subset _ ?_
    rw [Program.resolve, Stmt.allStrayReturns_resolveAll]
    exact ht
  rw [Stmt.allTokens, Program.resolve, Stmt.allSymbols_resolveAll] at hmem
  exact List.mem_append_left _ ((filterMap_token?_sublist hwritten).subset hmem)

end Relayout

/-! ## Runs -/

/-- Both texts are rejected for the same reasons, in the same state, or both end in the same way. -/
def RunsAlike (τ : Move) (origin : Token → Prop) :
    EStateM.Result Failure Machine Unit → EStateM.Result Failure Machine Unit → Prop
  | .error (.rejected r) m, .error (.rejected r') m' => r.Moved τ origin r' ∧ m' = m
  | r, r' => EndsLike (Token.Moved τ origin) Value.SameSignature r r'

theorem runsAlike_of_endsLike {r r' : EStateM.Result Failure Machine Unit}
    (h : EndsLike (Token.Moved τ origin) Value.SameSignature r r') : RunsAlike τ origin r r' := by
  unfold RunsAlike
  split
  · exact h.elim
  · exact h

/-- A new session has no functions of programs, so it is like itself. -/
theorem Machine.initial_alike_self (τ : Move) (origin : Token → Prop) (console : Console) :
    (Machine.initial console).Alike (fun _ : Unit => Likeness.moved τ origin)
      (fun _ => Renamings.none) (Machine.initial console) := by
  refine (Machine.sound_outcomes console []).alike_self fun i x f hf => ?_
  exact (Scopes.initial_isInitial.inert i x _ hf).2.elim

/-- **Layout does not matter.** Let two texts be scanned without a diagnostic, and to tokens that
say the same. Then the tokens of the first one can be moved to those of the second one, such that

* both texts are ready to run, as the same program up to the places of its tokens, or both are
  rejected, for the same reasons at corresponding tokens;
* in a new session, with the same console, both are rejected or both end in the same way: with the
  same console, the same globals and, if they fail, the same fault at corresponding tokens. Of the
  functions among the globals, names and numbers of parameters are compared. -/
theorem run_relayout {source source' : String} {s s' : Scan} (h : Relayout source source' s s') :
    ∃ τ : Move, s'.all = s.all.map τ.move ∧
      AcceptedAlike τ (· ∈ s.all) (ProgramMoved τ) (compileSource source) (compileSource source') ∧
      ∀ (console : Console) (depth : Nat), RunsAlike τ (· ∈ s.all)
        (Session.run depth source (.initial console))
        (Session.run depth source' (.initial console)) := by
  obtain ⟨τ, hτ⟩ := h.exists_move
  have hcompile := h.compileSource_moved hτ
  refine ⟨τ, hτ, hcompile, fun console depth => ?_⟩
  have hm : (Machine.initial console).Sound := Machine.sound_outcomes console []
  rw [← Session.runWith_sure hm, ← Session.runWith_sure hm]
  cases hp : compileSource source <;> cases hp' : compileSource source' <;>
    rw [hp, hp'] at hcompile
  case error.error r r' =>
    rw [Session.runWith_of_rejected hp, Session.runWith_of_rejected hp']
    exact ⟨hcompile, rfl⟩
  case ok.ok p p' =>
    obtain rfl : p' = Stmt.mapAllTokens τ.move p := hcompile
    rw [Session.runWith_of_compiled hp, Session.runWith_of_compiled hp']
    refine runsAlike_of_endsLike ?_
    have hlike : Stmt.AllAlike (.moved τ (· ∈ s.all)) Renamings.none p
        (Stmt.mapAllTokens τ.move p) := by
      refine Stmt.allAlike_moved fun t ht => List.mem_append_left _ ?_
      rw [h.tokens_eq]
      exact (allTokens_sublist_of_compileSource hp).subset ht
    exact endsLike_ofEnd (k := ()) (Machine.initial_alike_self τ _ console) hm.globals hlike
      (fun _ _ _ ht => ht) fun _ _ _ _ _ => sameSignature_of_alike
  all_goals exact hcompile.elim

/-! ### A sample

The text `let a=b;` stands in one line. The other text has the same lexemes in three lines, with a
comment and a dollar sign between them.
-/

namespace Spread

open Captured (tok)

def narrow : String := "let a=b;"

def narrowScan : Scan :=
  ⟨[tok .letWord "let" 0, tok .identifier "a" 4, tok .equal "=" 5, tok .identifier "b" 6,
    tok .semicolon ";" 7], .atEnd 1 8, []⟩

def wide : String := "let//\na =\n$\tb;"

def wideScan : Scan :=
  ⟨[tok .letWord "let" 0, ⟨.identifier, "a", none, 2, 6, 7⟩, ⟨.equal, "=", none, 2, 8, 9⟩,
    ⟨.identifier, "b", none, 3, 12, 13⟩, ⟨.semicolon, ";", none, 3, 13, 14⟩], .atEnd 3 14, []⟩

theorem relayout : Relayout narrow wide narrowScan wideScan where
  scanned := by cbv
  scanned' := by cbv
  clean := rfl
  clean' := rfl
  tokens := .cons ⟨rfl, rfl, rfl⟩ (.cons ⟨rfl, rfl, rfl⟩ (.cons ⟨rfl, rfl, rfl⟩
    (.cons ⟨rfl, rfl, rfl⟩ (.cons ⟨rfl, rfl, rfl⟩ .nil))))

end Spread

theorem spread_run_relayout :
    Relayout Spread.narrow Spread.wide Spread.narrowScan Spread.wideScan ∧
      ∃ τ : Move, Spread.wideScan.all = Spread.narrowScan.all.map τ.move ∧
        AcceptedAlike τ (· ∈ Spread.narrowScan.all) (ProgramMoved τ)
          (compileSource Spread.narrow) (compileSource Spread.wide) ∧
        RunsAlike τ (· ∈ Spread.narrowScan.all) (Session.run 1 Spread.narrow (.initial .awaiting))
          (Session.run 1 Spread.wide (.initial .awaiting)) := by
  obtain ⟨τ, hτ, hcompile, hrun⟩ := run_relayout Spread.relayout
  exact ⟨Spread.relayout, τ, hτ, hcompile, hrun .awaiting 1⟩

end RadixScript
