import RadixScript.Proofs.Grammar.Completeness
import RadixScript.Proofs.Grammar.Resolved
import RadixScript.Proofs.Grammar.Tokens
import RadixScript.Proofs.Pieces.Separation

/-!
# From pieces to programs

A text is a program exactly if all of its pieces are gaps or lexemes and the program is written as
their tokens (`parseSource_eq_ok_iff`, `compileSource_eq_ok_iff_readFrom`). So the programs of two
texts can be compared by comparing their pieces.
-/

namespace RadixScript

/-! ## Tokens of pieces -/

/-- The token of a piece at the given line and offset, if it is a lexeme. -/
def Piece.token? (line offset : Nat) : Piece → Option Token
  | lexeme kind literal text =>
    some ⟨kind, String.ofList text, literal, line, offset, offset + text.length⟩
  | _ => none

/-- The tokens of pieces that stand at the given line and offset. -/
def tokensAt : Nat → Nat → List Piece → List Token
  | _, _, [] => []
  | line, offset, p :: ps =>
    (p.token? line offset).toList ++ tokensAt (line + p.lineBreaks) (offset + p.text.length) ps

/-- The tokens of a text. -/
def tokensOf (source : String) : List Token := tokensAt 1 0 (pieces source.toList)

theorem le_start_of_mem_tokensAt {ps : List Piece} {line offset : Nat} {t : Token}
    (h : t ∈ tokensAt line offset ps) : offset ≤ t.start := by
  induction ps generalizing line offset with
  | nil => cases h
  | cons p ps ih =>
    rw [tokensAt, List.mem_append, Option.mem_toList] at h
    rcases h with h | h
    · cases p with
      | lexeme =>
        cases h
        exact Nat.le_refl _
      | _ => cases h
    · exact Nat.le_trans (Nat.le_add_right _ _) (ih h)

/-- Every token begins behind those in front of it. -/
theorem pairwise_start_tokensAt {ps : List Piece} (h : Separated ps) (line offset : Nat) :
    (tokensAt line offset ps).Pairwise (·.start < ·.start) := by
  induction ps generalizing line offset with
  | nil => exact .nil
  | cons p ps ih =>
    rw [tokensAt]
    cases p with
    | lexeme kind literal text =>
      refine .cons (fun t ht => ?_) (ih h.2 _ _)
      have hpos := List.length_pos_iff.mpr h.1.text_ne_nil
      exact Nat.lt_of_lt_of_le (Nat.lt_add_of_pos_right hpos) (le_start_of_mem_tokensAt ht)
    | _ => exact ih h.2 _ _

theorem pairwise_start_tokensOf (source : String) :
    (tokensOf source).Pairwise (·.start < ·.start) :=
  pairwise_start_tokensAt (separated_pieces _) 1 0

theorem nodup_tokensOf (source : String) : (tokensOf source).Nodup :=
  (pairwise_start_tokensOf source).imp fun hlt heq => Nat.ne_of_lt hlt (congrArg Token.start heq)

theorem locate_of_clean {ps : List Piece} (h : ∀ p ∈ ps, p.IsClean) (line offset : Nat) :
    (locate line offset ps).1 = (tokensAt line offset ps).map .token := by
  induction ps generalizing line offset with
  | nil => rfl
  | cons p ps ih =>
    rw [List.forall_mem_cons] at h
    rw [locate, tokensAt, List.map_append, ← ih h.2]
    cases p with
    | gap | lexeme => rfl
    | overlong | rejected => exact h.1.elim

theorem clean_of_locate {ps : List Piece} {line offset : Nat} {ts : List Token}
    (h : (locate line offset ps).1 = ts.map .token) : ∀ p ∈ ps, p.IsClean := by
  induction ps generalizing line offset ts with
  | nil => nofun
  | cons p ps ih =>
    rw [locate] at h
    rw [List.forall_mem_cons]
    cases p with
    | gap => exact ⟨trivial, ih h⟩
    | lexeme =>
      cases ts with
      | nil => cases h
      | cons t ts => exact ⟨trivial, ih (List.cons.inj h).2⟩
    | overlong | rejected =>
      cases ts with
      | nil => cases h
      | cons t ts => cases (List.cons.inj h).1

theorem collect_eq_some_iff {fs : List Finding} {ts : List Token} :
    collect fs = some (ts, []) ↔ fs = ts.map .token := by
  induction fs generalizing ts with
  | nil => simp [collect, eq_comm]
  | cons f fs ih =>
    cases f with
    | token t =>
      simp only [collect, Option.map_eq_some_iff, Prod.mk.injEq, Prod.exists]
      constructor
      · rintro ⟨us, _, hus, rfl, rfl⟩
        rw [ih.mp hus, List.map_cons]
      · intro h
        cases ts with
        | nil => cases h
        | cons u us =>
          obtain ⟨hu, hus⟩ := List.cons.inj h
          cases hu
          exact ⟨us, [], ih.mpr hus, rfl, rfl⟩
    | problem d =>
      simp only [collect, Option.map_eq_some_iff, Prod.mk.injEq, Prod.exists]
      constructor
      · rintro ⟨_, _, _, _, h⟩
        cases h
      · intro h
        cases ts with
        | nil => cases h
        | cons u us => cases (List.cons.inj h).1
    | overlong =>
      simp only [collect, reduceCtorEq, false_iff]
      intro h
      cases ts with
      | nil => cases h
      | cons u us => cases (List.cons.inj h).1

/-- A text is scanned without a diagnostic exactly if its pieces are gaps and lexemes. -/
theorem scan_eq_some_iff {source : String} {ts : List Token} :
    (∃ eof, scan source = some ⟨ts, eof, []⟩) ↔
      (∀ p ∈ pieces source.toList, p.IsClean) ∧ ts = tokensOf source := by
  have hscan : (∃ eof, scan source = some ⟨ts, eof, []⟩) ↔
      (locate 1 0 (pieces source.toList)).1 = ts.map .token := by
    rw [← collect_eq_some_iff, scan]
    simp
  rw [hscan]
  constructor
  · intro h
    have hclean := clean_of_locate h
    rw [locate_of_clean hclean] at h
    exact ⟨hclean, (List.map_injective_iff.mpr (fun _ _ => Finding.token.inj) h).symm⟩
  · rintro ⟨hclean, rfl⟩
    exact locate_of_clean hclean 1 0

/-! ## Programs -/

theorem parseProgram_eq_iff {eof : Token} {ts : List Token} {p : Program Unit} :
    parseProgram eof ts = (p, []) ↔ p.Grammatical ∧ p.WrittenAs ts := by
  constructor
  · intro h
    obtain ⟨hg, hsp⟩ := parseProgram_spells eof ts (by rw [h])
    rw [h] at hg hsp
    exact ⟨hg, program_writtenAs_iff.mpr hsp⟩
  · rintro ⟨hg, hw⟩
    exact parseProgram_reads hg (program_writtenAs_iff.mp hw)

/-- **A text is a program exactly if its pieces are gaps and lexemes, and the program is grammatical
and written as their tokens.** -/
theorem parseSource_eq_ok_iff {source : String} {p : Program Unit} :
    parseSource source = .ok p ↔
      (∀ x ∈ pieces source.toList, x.IsClean) ∧ p.Grammatical ∧ p.WrittenAs (tokensOf source) := by
  constructor
  · intro h
    rw [parseSource] at h
    cases hs : scan source with
    | none =>
      rw [hs] at h
      cases h
    | some s =>
      obtain ⟨ts, eof, problems⟩ := s
      rw [hs] at h
      dsimp only at h
      rcases hparse : parseProgram eof ts with ⟨q, errors⟩
      rw [hparse] at h
      dsimp only at h
      split at h
      · next hnil =>
        obtain ⟨rfl, rfl⟩ := List.append_eq_nil_iff.mp hnil
        cases h
        obtain ⟨hclean, rfl⟩ := scan_eq_some_iff.mp ⟨eof, hs⟩
        exact ⟨hclean, parseProgram_eq_iff.mp hparse⟩
      · cases h
  · rintro ⟨hclean, hwritten⟩
    obtain ⟨eof, hs⟩ := scan_eq_some_iff.mpr ⟨hclean, rfl⟩
    rw [parseSource, hs]
    dsimp only
    rw [parseProgram_eq_iff.mpr hwritten]
    rfl

/-- The text is a way to write the program, and no `return` of it is misplaced. -/
structure Program.ReadFrom (p : Program Unit) (source : String) : Prop where
  clean : ∀ x ∈ pieces source.toList, x.IsClean
  grammatical : p.Grammatical
  written : p.WrittenAs (tokensOf source)
  returns : Stmt.allStrayReturns p = []

/-- What is run is the resolution of a program that is read from the text. -/
theorem compileSource_eq_ok_iff_readFrom {source : String} {p : Program (Option Nat)} :
    compileSource source = .ok p ↔ ∃ q : Program Unit, q.ReadFrom source ∧ p = q.resolve := by
  rw [compileSource_eq_ok_iff]
  constructor
  · rintro ⟨q, hq, hreturns, rfl⟩
    obtain ⟨hclean, hg, hw⟩ := parseSource_eq_ok_iff.mp hq
    exact ⟨q, ⟨hclean, hg, hw, List.map_eq_nil_iff.mp hreturns⟩, rfl⟩
  · rintro ⟨q, ⟨hclean, hg, hw, hreturns⟩, rfl⟩
    exact ⟨q, parseSource_eq_ok_iff.mpr ⟨hclean, hg, hw⟩, List.map_eq_nil_iff.mpr hreturns, rfl⟩

/-- The tokens of what is run are tokens of the text, in the same order. -/
theorem allTokens_sublist_of_compileSource {source : String} {p : Program (Option Nat)}
    (h : compileSource source = .ok p) : List.Sublist (Stmt.allTokens p) (tokensOf source) := by
  obtain ⟨q, hq, rfl⟩ := compileSource_eq_ok_iff_readFrom.mp h
  rw [Stmt.allTokens, Program.resolve, Stmt.allSymbols_resolveAll]
  exact filterMap_token?_sublist hq.written

end RadixScript
