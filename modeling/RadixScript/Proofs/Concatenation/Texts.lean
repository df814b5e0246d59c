import RadixScript.Proofs.Likeness.Moves
import RadixScript.Proofs.Pieces.Tokens

/-!
# Two programs in one text

Two programs with a line end between them are one program: the statements of the first, followed by
those of the second, whose tokens stand further down (`compileSource_concatenate`). A line end ends
every lexeme and every comment, statements do not reach beyond the end of a program, and resolution
carries nothing over from one statement of the top level to the next.
-/

namespace RadixScript

/-! ## Tokens further down -/

/-- The token, when some lines and characters are put in front of the text. -/
def Token.shift (lines characters : Nat) (t : Token) : Token :=
  { t with line := t.line + lines, start := t.start + characters, stop := t.stop + characters }

/-- Tokens of a text that follows another one in a new line. -/
def Move.behind (source : String) : Move where
  move := Token.shift (source.toList.count '\n' + 1) (source.length + 1)
  kind_eq := fun _ => rfl
  text_eq := fun _ => rfl
  literal_eq := fun _ => rfl

theorem tokensAt_shift (lines characters line offset : Nat) (ps : List Piece) :
    tokensAt (line + lines) (offset + characters) ps =
      (tokensAt line offset ps).map (Token.shift lines characters) := by
  induction ps generalizing line offset with
  | nil => rfl
  | cons p ps ih =>
    have hfirst : (p.token? (line + lines) (offset + characters)).toList =
        (p.token? line offset).toList.map (Token.shift lines characters) := by
      cases p with
      | lexeme kind literal text =>
        simp [Piece.token?, Token.shift, Nat.add_right_comm]
      | _ => rfl
    rw [tokensAt, tokensAt, List.map_append, hfirst, ← ih, Nat.add_right_comm line,
      Nat.add_right_comm offset]

/-- Along gaps and lexemes every line end counts. -/
theorem Piece.IsClean.lineBreaks {p : Piece} (h : p.IsClean) :
    p.lineBreaks = p.text.count '\n' := by
  cases p with
  | gap | lexeme => rfl
  | overlong | rejected => exact h.elim

theorem tokensAt_append {ps : List Piece} (h : ∀ p ∈ ps, p.IsClean) (line offset : Nat)
    (qs : List Piece) :
    tokensAt line offset (ps ++ qs) = tokensAt line offset ps ++
      tokensAt (line + (ps.flatMap Piece.text).count '\n')
        (offset + (ps.flatMap Piece.text).length) qs := by
  induction ps generalizing line offset with
  | nil => rfl
  | cons p ps ih =>
    rw [List.forall_mem_cons] at h
    rw [List.cons_append, tokensAt, tokensAt, ih h.2, List.append_assoc, h.1.lineBreaks,
      List.flatMap_cons, List.count_append, List.length_append, Nat.add_assoc line,
      Nat.add_assoc offset]

/-! ## Pieces -/

theorem Separated.concatenate {ps qs : List Piece} (hps : Separated ps)
    (hclean : ∀ p ∈ ps, p.IsClean) (hqs : Separated qs) :
    Separated (ps ++ .gap ['\n'] :: qs) := by
  induction ps with
  | nil => exact ⟨⟨'\n', qs.flatMap Piece.text, rfl, rfl⟩, hqs⟩
  | cons p ps ih =>
    rw [List.forall_mem_cons] at hclean
    refine ⟨?_, ih hps.2 hclean.2⟩
    show p.Leads ((ps ++ .gap ['\n'] :: qs).flatMap Piece.text)
    rw [List.flatMap_append]
    refine hps.1.congr hclean.1 (SameFront.append_lineEnd _ _) fun _ => ?_
    cases ps.flatMap Piece.text with
    | nil => exact .inr rfl
    | cons c cs => exact .inl rfl

/-- A line end cuts a text in two. -/
theorem pieces_concatenate {cs : List Char} (h : ∀ p ∈ pieces cs, p.IsClean) (cs' : List Char) :
    pieces (cs ++ '\n' :: cs') = pieces cs ++ .gap ['\n'] :: pieces cs' := by
  have hseparated := (separated_pieces cs).concatenate h (separated_pieces cs')
  have htext := pieces_flatMap_text hseparated
  rw [List.flatMap_append, flatMap_text_pieces, List.flatMap_cons, flatMap_text_pieces] at htext
  exact htext

theorem toList_concatenate (p q : String) :
    (p ++ "\n" ++ q).toList = p.toList ++ '\n' :: q.toList := by
  simp [String.toList_append]

theorem tokensOf_concatenate {p : String} (h : ∀ x ∈ pieces p.toList, x.IsClean) (q : String) :
    tokensOf (p ++ "\n" ++ q) = tokensOf p ++ (tokensOf q).map (Move.behind p).move := by
  have hgap : tokensAt (1 + p.toList.count '\n') (0 + p.toList.length)
        (.gap ['\n'] :: pieces q.toList) =
      tokensAt (1 + (p.toList.count '\n' + 1)) (0 + (p.length + 1)) (pieces q.toList) := by
    rw [tokensAt, ← String.length_toList]
    rfl
  rw [tokensOf, toList_concatenate, pieces_concatenate h, tokensAt_append h, flatMap_text_pieces,
    hgap, tokensAt_shift]
  rfl

/-! ## Programs -/

theorem Stmt.allSymbols_append {δ : Type} (ss ss' : List (Stmt δ)) :
    Stmt.allSymbols (ss ++ ss') = Stmt.allSymbols ss ++ Stmt.allSymbols ss' := by
  induction ss with
  | nil => rfl
  | cons s ss ih => rw [List.cons_append, Stmt.allSymbols, Stmt.allSymbols, ih, List.append_assoc]

theorem Stmt.allGrammatical_append {δ : Type} {ss ss' : List (Stmt δ)}
    (h : Stmt.AllGrammatical ss) (h' : Stmt.AllGrammatical ss') :
    Stmt.AllGrammatical (ss ++ ss') := by
  induction ss with
  | nil => exact h'
  | cons s ss ih => exact ⟨h.1, ih h.2⟩

theorem Stmt.allStrayReturns_append {δ : Type} (ss ss' : List (Stmt δ)) :
    Stmt.allStrayReturns (ss ++ ss') = Stmt.allStrayReturns ss ++ Stmt.allStrayReturns ss' := by
  induction ss with
  | nil => rfl
  | cons s ss ih =>
    rw [List.cons_append, Stmt.allStrayReturns, Stmt.allStrayReturns, ih, List.append_assoc]

theorem Program.resolve_append (p q : Program Unit) :
    Program.resolve (p ++ q) = p.resolve ++ q.resolve := by
  induction p with
  | nil => rfl
  | cons s p ih =>
    simp only [Program.resolve, List.cons_append, Stmt.resolveAll, LocalScopes.declareAll_nil]
      at ih ⊢
    rw [ih]

theorem Program.WrittenAs.append {δ : Type} {p q : Program δ} {ts us : List Token}
    (hp : p.WrittenAs ts) (hq : q.WrittenAs us) : Program.WrittenAs (p ++ q) (ts ++ us) := by
  rw [Program.WrittenAs, Stmt.allSymbols_append]
  exact List.rel_append hp hq

/-- Two programs with a line end between them are one. -/
theorem Program.ReadFrom.concatenate {p q : String} {a b : Program Unit} (ha : a.ReadFrom p)
    (hb : b.ReadFrom q) :
    Program.ReadFrom (a ++ Stmt.mapAllTokens (Move.behind p).move b) (p ++ "\n" ++ q) where
  clean := by
    rw [toList_concatenate, pieces_concatenate ha.clean, List.forall_mem_append,
      List.forall_mem_cons]
    exact ⟨ha.clean, trivial, hb.clean⟩
  grammatical := Stmt.allGrammatical_append ha.grammatical
    ((Stmt.allGrammatical_mapAllTokens (Move.behind p).kind_eq b).mpr hb.grammatical)
  written := by
    rw [tokensOf_concatenate ha.clean]
    exact ha.written.append
      (hb.written.mapTokens (Move.behind p).kind_eq (Move.behind p).literal_eq)
  returns := by
    rw [Stmt.allStrayReturns_append, Stmt.allStrayReturns_mapAllTokens, ha.returns, hb.returns]
    rfl

/-- **A text of two programs is ready to run when they are**: first come the statements of the one,
then those of the other, moved behind it. -/
theorem compileSource_concatenate {p q : String} {a b : Program (Option Nat)}
    (ha : compileSource p = .ok a) (hb : compileSource q = .ok b) :
    compileSource (p ++ "\n" ++ q) = .ok (a ++ Stmt.mapAllTokens (Move.behind p).move b) := by
  obtain ⟨a, hread, rfl⟩ := compileSource_eq_ok_iff_readFrom.mp ha
  obtain ⟨b, hread', rfl⟩ := compileSource_eq_ok_iff_readFrom.mp hb
  refine compileSource_eq_ok_iff_readFrom.mpr ⟨_, hread.concatenate hread', ?_⟩
  rw [Program.resolve_append, Program.resolve_mapTokens]

end RadixScript
