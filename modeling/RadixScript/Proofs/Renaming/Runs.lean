import RadixScript.Proofs.Likeness.Resolution
import RadixScript.Proofs.Likeness.Sessions
import RadixScript.Proofs.Renaming.Scopes
import RadixScript.Proofs.Renaming.Texts

/-!
# Renaming a local variable

In the text of a program, a variable or parameter of one scope gets a new name, which occurs nowhere
in the text. The new text is a program again and is run in the same way (`run_renameLocal`): with
the same console, the same globals and the same fault in the same line.

The scope has its own renaming of names, which swaps the old name and the new one, and no other
scope has one. Neither name reaches the globals or a message, because a fault is at a name only if
that name is not found, and local names always are.
-/

namespace RadixScript

variable {x y : String}

/-! ## What stays the same -/

/-- The tokens say the same and stand in the same line. -/
structure Token.SameInLine (t t' : Token) : Prop where
  kind_eq : t'.kind = t.kind
  text_eq : t'.text = t.text
  literal_eq : t'.literal = t.literal
  line_eq : t'.line = t.line

theorem Token.SameInLine.refl (t : Token) : t.SameInLine t := ⟨rfl, rfl, rfl, rfl⟩

/-- The same value. Of two functions of a program only the names and the numbers of parameters are
compared. -/
def Value.SameSignature : Value → Value → Prop
  | .closure f, .closure f' =>
    f'.name.text = f.name.text ∧ f'.params.length = f.params.length
  | v, v' => v' = v

/-- Tokens stay in their lines. In a scope, one name may become another one. -/
def Likeness.renaming (x y : String) : Likeness where
  token := Token.SameInLine
  kind_eq := Token.SameInLine.kind_eq
  text_eq := Token.SameInLine.text_eq
  renames ρ := ρ = Equiv.refl String ∨ ρ = Equiv.swap x y
  renames_refl := .inl rfl
  types _ _ := True
  namespaces _ _ _ _ := True

theorem Likeness.renaming_follows (x y : String) (τ : Token → Token) :
    (Likeness.renaming x y).Follows τ :=
  ⟨fun _ _ => trivial, fun _ _ _ _ => trivial⟩

theorem swap_apply_of_ne {z : String} (hz : z ≠ y) :
    Equiv.swap x y z = if z = x then y else z := by
  split
  · next h => rw [h, Equiv.swap_apply_left]
  · next h => exact Equiv.swap_apply_of_ne_of_ne h hz

/-- A new name meets no old one. -/
theorem Likeness.renaming_keepsApart (x y : String) :
    (Likeness.renaming x y).KeepsApart (· ≠ y) := by
  have hmixed : ∀ {z w : String}, z ≠ y → w ≠ y → z = Equiv.swap x y w → z = w := by
    intro z w hz hw h
    rw [swap_apply_of_ne hw] at h
    split at h
    · exact absurd h hz
    · exact h
  rintro ρ ρ' (rfl | rfl) (rfl | rfl) z w hz hw h
  · exact h
  · exact hmixed hz hw h
  · exact (hmixed hw hz h.symm).symm
  · exact (Equiv.swap x y).injective h

theorem sameSignature_of_alike {ι : Type} {L : ι → Likeness} {W : World} {n : Nat} {v v' : Value}
    (h : v.Alike L W n v') : v.SameSignature v' := by
  cases h with
  | @inert v hv =>
    cases v
    case closure => exact hv.elim
    all_goals rfl
  | closure i hf =>
    obtain ⟨_, _, hparams, _⟩ := hf.code
    exact ⟨(L i).text_eq hf.name, hparams.length_eq.symm⟩

/-- A state is like itself. -/
theorem Machine.Sound.alike_renaming {m : Machine} (h : m.Sound) (x y : String) :
    m.Alike (fun _ : Unit => Likeness.renaming x y) (fun _ => Renamings.none) m :=
  h.alike_self fun _ _ _ _ =>
    ⟨(), Likeness.renaming_follows x y id, fun t _ => Token.SameInLine.refl t⟩

/-! ## The program -/

/-- The offsets at which a name of the scope stands. -/
def LocalScope.startsOf (S : LocalScope) (x : String) : List Nat :=
  (S.bound.filter (·.text = x)).map Token.start

theorem eq_of_start_eq {source : String} {t u : Token} (ht : t ∈ tokensOf source)
    (hu : u ∈ tokensOf source) (h : t.start = u.start) : t = u := by
  have hnodup : ((tokensOf source).map Token.start).Nodup :=
    List.Pairwise.map _ (fun _ _ => Nat.ne_of_lt) (pairwise_start_tokensOf source)
  exact List.inj_on_of_nodup_map hnodup ht hu h

/-- Among the tokens of a text, the chosen ones are those of the scope that have the name. -/
theorem LocalScope.mem_startsOf {S : LocalScope} {source : String} {t : Token}
    (hS : S.bound ⊆ tokensOf source) (ht : t ∈ tokensOf source) :
    t.start ∈ S.startsOf x ↔ t ∈ S.bound ∧ t.text = x := by
  rw [LocalScope.startsOf, List.mem_map]
  constructor
  · rintro ⟨u, hu, hstart⟩
    rw [List.mem_filter, decide_eq_true_eq] at hu
    obtain rfl := eq_of_start_eq (hS hu.1) ht hstart
    exact hu
  · rintro ⟨hmem, htext⟩
    exact ⟨t, List.mem_filter.mpr ⟨hmem, decide_eq_true htext⟩, rfl⟩

/-- Where the name of a scope is respelled, the tokens of the scope are renamed. -/
theorem renamedIn_of_respelled {S : LocalScope} {source : String} {t : Token} {τ : Token → Token}
    (hS : S.bound ⊆ tokensOf source) (hkind : ∀ t ∈ S.bound, t.kind = .identifier)
    (ht : t ∈ tokensOf source) (hy : t.text ≠ y)
    (h : Token.Respelled (S.startsOf x).contains y t (τ t)) :
    RenamedIn (.renaming x y) (Equiv.swap x y) τ S t where
  inside := by
    intro hmem
    refine ⟨h.kind_eq, ?_, h.literal_eq, h.line_eq⟩
    rw [h.text_eq, Token.rename, swap_apply_of_ne hy]
    simp only [List.contains_iff_mem, LocalScope.mem_startsOf hS ht, hmem, hkind t hmem, true_and]
  outside := by
    intro hmem
    refine ⟨h.kind_eq, ?_, h.literal_eq, h.line_eq⟩
    rw [h.text_eq, if_neg]
    rintro ⟨_, hchosen⟩
    exact hmem ((LocalScope.mem_startsOf hS ht).mp (List.contains_iff_mem.mp hchosen)).1

/-- The program of the text with the new name is like that of the text. -/
theorem exists_alike_compileSource {source : String} {p : Program (Option Nat)} {S : LocalScope}
    (hp : compileSource source = .ok p) (hS : S ∈ Stmt.allLocalScopes p)
    (hx : ∀ f ∈ S.functions, f.text ≠ x) (hy : isIdentifier y.toList = true)
    (hfresh : ∀ t ∈ tokensOf source, t.text ≠ y) :
    ∃ p', compileSource (respell (S.startsOf x) y source) = .ok p' ∧
      Stmt.AllAlike (.renaming x y) Renamings.none p p' := by
  have hsublist := allTokens_sublist_of_compileSource hp
  obtain ⟨q, hread, rfl⟩ := compileSource_eq_ok_iff_readFrom.mp hp
  obtain ⟨τ, hτ, hread'⟩ := hread.respell hy (S.startsOf x)
  obtain ⟨hbound, hfunctions⟩ := Stmt.allLocalScopes_inside _ S hS
  have hgrammatical : Stmt.AllGrammatical q.resolve :=
    (Stmt.allGrammatical_resolveAll q []).mpr hread.grammatical
  have hadmits : (Likeness.renaming x y).Admits (Equiv.swap x y) τ S :=
    { follows := Likeness.renaming_follows x y τ
      namespaces := fun _ _ => trivial
      renames := .inr rfl
      functions := fun f hf => Equiv.swap_apply_of_ne_of_ne (hx f hf)
        (hfresh f (hsublist.subset (hfunctions hf))) }
  have hlike : Stmt.AllAlike (.renaming x y) Renamings.none q.resolve
      (Stmt.mapAllTokens τ q.resolve) := by
    refine Stmt.allAlike_renamed hadmits q.resolve hS ?_ fun t ht => ?_
    · exact (nodup_tokensOf source).sublist hsublist
    · have hmem := hsublist.subset ht
      exact renamedIn_of_respelled (List.Subset.trans hbound hsublist.subset)
        (Stmt.allIdentifier_of_mem_bound _ hgrammatical S hS) hmem (hfresh t hmem) (hτ t hmem)
  refine ⟨Stmt.mapAllTokens τ q.resolve, ?_, hlike⟩
  refine compileSource_eq_ok_iff_readFrom.mpr ⟨Stmt.mapAllTokens τ q, hread', ?_⟩
  have hnamed : Named (· ≠ y) (Stmt.allPlaces 0 q.resolve) := by
    intro place hplace
    refine hfresh place.1 (hsublist.subset ?_)
    rw [← Stmt.allPlaces_map_fst 0]
    exact List.mem_map_of_mem hplace
  have hscopes : LocalScopes.Within (· ≠ y) [] := List.forall_mem_nil _
  exact (Stmt.resolveAll_mapAllTokens (Likeness.renaming_keepsApart x y) q (fun _ => .inl rfl)
    hscopes hnamed hlike).symm

/-! ## Runs -/

/-- **Renaming a local variable does not change what a program does.** Let a text be ready to run,
let `S` be a block or the body of a function in it, and `x` a name that `S` does not give to a
function. Let `y` be an identifier that is no word of the text. If `y` is put in the place of every
`x` that belongs to `S`, then the new text is ready to run. In every state that a session can reach
it ends as the old one does: with the same console, the same globals and the same fault in the same
line. -/
theorem run_renameLocal {source : String} {p : Program (Option Nat)} {S : LocalScope}
    (hp : compileSource source = .ok p) (hS : S ∈ Stmt.allLocalScopes p)
    (hx : ∀ f ∈ S.functions, f.text ≠ x) (hy : isIdentifier y.toList = true)
    (hfresh : ∀ t ∈ tokensOf source, t.text ≠ y) :
    (∃ p', compileSource (respell (S.startsOf x) y source) = .ok p') ∧
      ∀ (console : Console) (steps : List (Nat × String)) (depth : Nat),
        let m := (outcomes Session.run steps (.initial console)).2
        EndsLike Token.SameInLine Value.SameSignature (Session.run depth source m)
          (Session.run depth (respell (S.startsOf x) y source) m) := by
  obtain ⟨p', hp', hlike⟩ := exists_alike_compileSource hp hS hx hy hfresh
  refine ⟨⟨p', hp'⟩, fun console steps depth => ?_⟩
  intro m
  have hm : m.Sound := Machine.sound_outcomes console steps
  rw [← Session.runWith_sure hm, ← Session.runWith_sure hm, Session.runWith_of_compiled hp,
    Session.runWith_of_compiled hp']
  exact endsLike_ofEnd (k := ()) (hm.alike_renaming x y) hm.globals hlike (fun _ _ _ h => h)
    fun _ _ _ _ _ => sameSignature_of_alike

/-! ### A sample

In `do f(a){{let a=a;}return a;}f(1);` the parameter gets another name. The variable of the block
has the same name and keeps it, but its initial value is the parameter.
-/

namespace Shadow

open Captured (tok)

def source : String := "do f(a)\x7b\x7blet a=a;\x7dreturn a;\x7df(1);"

def tokens : List Token :=
  [tok .doWord "do" 0, tok .identifier "f" 3, tok .leftParen "(" 4, tok .identifier "a" 5,
    tok .rightParen ")" 6, tok .leftBrace "\x7b" 7, tok .leftBrace "\x7b" 8, tok .letWord "let" 9,
    tok .identifier "a" 13, tok .equal "=" 14, tok .identifier "a" 15, tok .semicolon ";" 16,
    tok .rightBrace "\x7d" 17, tok .returnWord "return" 18, tok .identifier "a" 25,
    tok .semicolon ";" 26, tok .rightBrace "\x7d" 27, tok .identifier "f" 28, tok .leftParen "(" 29,
    ⟨.intLiteral, "1", some (.int 1), 1, 30, 31⟩, tok .rightParen ")" 31, tok .semicolon ";" 32]

def program : Program Unit :=
  [.functionDecl (tok .identifier "f" 3) [tok .identifier "a" 5]
      [.block [.letDecl (tok .identifier "a" 13)
          (some (.reference (tok .identifier "a" 15) ())) none],
        .returnStmt (tok .returnWord "return" 18) (some (.reference (tok .identifier "a" 25) ()))],
    .expr (.call (.reference (tok .identifier "f" 28) ()) (tok .rightParen ")" 31)
      [.literal (.int 1)])]

/-- The body of the function. -/
def scope : LocalScope :=
  ⟨[tok .identifier "a" 5, tok .identifier "a" 15, tok .identifier "a" 25], []⟩

def renamed : String := "do f(long)\x7b\x7blet a=long;\x7dreturn long;\x7df(1);"

theorem scan_source : scan source = some ⟨tokens, .atEnd 1 33, []⟩ := by cbv

theorem tokensOf_source : tokens = tokensOf source := (scan_eq_some_iff.mp ⟨_, scan_source⟩).2

theorem program_readFrom : program.ReadFrom source := by
  refine ⟨(scan_eq_some_iff.mp ⟨_, scan_source⟩).1, ?_, ?_, rfl⟩
  · simp [Program.Grammatical, program, Stmt.AllGrammatical, Stmt.Grammatical,
      Expr.Grammatical, Expr.AllGrammatical, Expr.strength, tok, listLimit]
  · rw [← tokensOf_source]
    simp [Program.WrittenAs, program, tokens, Stmt.allSymbols, Stmt.symbols, Expr.symbols,
      Expr.symbolLists, Symbol.commas, paramSymbols, initSymbols, optionSymbols, declarationWord,
      Symbol.Shows, Token.value?, Kind.isLiteral, tok]

theorem compileSource_source : compileSource source = .ok program.resolve :=
  compileSource_eq_ok_iff_readFrom.mpr ⟨program, program_readFrom, rfl⟩

theorem scope_mem : scope ∈ Stmt.allLocalScopes program.resolve := by
  have hscopes : Stmt.allLocalScopes program.resolve =
      [scope, ⟨[tok .identifier "a" 13], []⟩] := by cbv
  rw [hscopes]
  exact List.mem_cons_self

theorem fresh : ∀ t ∈ tokensOf source, t.text ≠ "long" := by
  rw [← tokensOf_source]
  simp [tokens, tok]

theorem respell_source : respell (scope.startsOf "a") "long" source = renamed := by cbv

end Shadow

theorem shadow_run_renameLocal :
    compileSource Shadow.source = .ok Shadow.program.resolve ∧
      Shadow.scope ∈ Stmt.allLocalScopes Shadow.program.resolve ∧
      (∀ f ∈ Shadow.scope.functions, f.text ≠ "a") ∧ isIdentifier "long".toList = true ∧
      (∀ t ∈ tokensOf Shadow.source, t.text ≠ "long") ∧
      (∃ p', compileSource Shadow.renamed = .ok p') ∧
      EndsLike Token.SameInLine Value.SameSignature
        (Session.run 1 Shadow.source (.initial .awaiting))
        (Session.run 1 Shadow.renamed (.initial .awaiting)) := by
  have hfunctions : ∀ f ∈ Shadow.scope.functions, f.text ≠ "a" := List.forall_mem_nil _
  have hname : isIdentifier "long".toList = true := by cbv
  obtain ⟨hcompile, hrun⟩ := run_renameLocal Shadow.compileSource_source Shadow.scope_mem hfunctions
    hname Shadow.fresh
  rw [Shadow.respell_source] at hcompile hrun
  exact ⟨Shadow.compileSource_source, Shadow.scope_mem, hfunctions, hname, Shadow.fresh, hcompile,
    hrun .awaiting [] 1⟩

end RadixScript
