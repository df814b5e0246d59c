import RadixScript.Proofs.Concatenation.Texts
import RadixScript.Proofs.Pieces.Lexemes

/-!
# Texts written lexeme by lexeme

A `Phrase` is a sequence of well-formed lexemes with separators between them. What it is scanned as
can be told without the scanner: one token for each lexeme, with the place where the lexeme was
written. `Phrase.scan_text` says that the scanner finds just these.

A separator is scanned as gaps and begins with a blank, so lexemes do not see each other, and the
pieces of the whole text can be listed (`Phrase.pieces_text`). Lines and offsets are counted along
this list.
-/

namespace RadixScript

/-! ## Separators and phrases -/

/-- What a separator can go on with. -/
inductive Filling where
  | blank (c : Char) (h : c ∈ blanks)
  /-- A comment in one line, and the end of this line. -/
  | comment (text : List Char) (h : '\n' ∉ text)

def Filling.text : Filling → List Char
  | blank c _ => [c]
  | comment text _ => '/' :: '/' :: text ++ ['\n']

/-- What can stand between two lexemes. -/
structure Separator where
  first : Char
  isBlank : first ∈ blanks
  rest : List Filling

def Separator.text (s : Separator) : List Char := s.first :: s.rest.flatMap Filling.text

/-- A sequence of lexemes with separators between them. -/
inductive Phrase where
  | empty
  | nonempty (first : Lexeme) (more : List (Separator × Lexeme))

namespace Phrase

/-- How the lexemes behind the first one are written. -/
def moreText : List (Separator × Lexeme) → List Char
  | [] => []
  | (s, l) :: more => s.text ++ (l.text ++ moreText more)

/-- The tokens of the lexemes behind the first one, when they are written behind a text. -/
def tokensAfter (before : List Char) : List (Separator × Lexeme) → List Token
  | [] => []
  | (s, l) :: more =>
    l.tokenAfter (before ++ s.text) :: tokensAfter (before ++ s.text ++ l.text) more

/-- The whole text. -/
def text : Phrase → List Char
  | empty => []
  | nonempty first more => first.text ++ moreText more

/-- One token for each lexeme, in order. -/
def tokens : Phrase → List Token
  | empty => []
  | nonempty first more => first.tokenAfter [] :: tokensAfter first.text more

end Phrase

/-! ## Gaps -/

namespace Piece

theorem leads_blank {c : Char} (h : c ∈ blanks) (r : List Char) : (gap [c]).Leads r := by
  have hfiller : ∀ c ∈ blanks, isFiller c = true := forall_mem_blanks.mpr (by decide)
  refine ⟨c, r, rfl, ?_⟩
  unfold cut
  rw [if_pos (hfiller c h)]

theorem leads_comment {text : List Char} (h : '\n' ∉ text) (r : List Char) :
    (gap ('/' :: '/' :: text)).Leads ('\n' :: r) := by
  have hrun := bne_of_mem h
  have hend := bne_of_head '\n' r
  refine ⟨'/', '/' :: (text ++ '\n' :: r), rfl, ?_⟩
  rw [cut_comment, takeWhile_append hrun hend, dropWhile_append hrun hend]

end Piece

theorem tokensAt_gaps (texts : List (List Char)) (line offset : Nat) :
    tokensAt line offset (texts.map .gap) = [] := by
  induction texts generalizing line offset with
  | nil => rfl
  | cons text texts ih => exact ih _ _

theorem flatMap_text_gaps (texts : List (List Char)) :
    (texts.map Piece.gap).flatMap Piece.text = texts.flatten := by
  rw [List.flatMap_map, List.flatMap_def]
  exact congrArg List.flatten (List.map_id texts)

theorem isClean_of_mem_gaps {texts : List (List Char)} :
    ∀ p ∈ texts.map Piece.gap, p.IsClean := by
  intro p hp
  obtain ⟨text, -, rfl⟩ := List.mem_map.mp hp
  trivial

/-- The gaps that a part of a separator is scanned as. -/
def Filling.gaps : Filling → List (List Char)
  | blank c _ => [[c]]
  | comment text _ => ['/' :: '/' :: text, ['\n']]

theorem Filling.flatten_gaps (f : Filling) : f.gaps.flatten = f.text := by
  cases f with
  | blank => rfl
  | comment text => simp [gaps, Filling.text]

theorem Filling.separated {ps : List Piece} (f : Filling) (h : Separated ps) :
    Separated (f.gaps.map .gap ++ ps) := by
  cases f with
  | blank c hc => exact ⟨Piece.leads_blank hc _, h⟩
  | comment text htext =>
    exact ⟨Piece.leads_comment htext _, Piece.leads_blank (by decide) _, h⟩

namespace Separator

/-- The gaps that a separator is scanned as. -/
def gaps (s : Separator) : List (List Char) := [s.first] :: s.rest.flatMap Filling.gaps

theorem flatten_gaps (s : Separator) : s.gaps.flatten = s.text := by
  have hrest : (s.rest.flatMap Filling.gaps).flatten = s.rest.flatMap Filling.text := by
    rw [← List.flatMap_id, List.flatMap_assoc]
    simp only [List.flatMap_id, Filling.flatten_gaps]
  rw [gaps, List.flatten_cons, hrest]
  rfl

theorem separated {ps : List Piece} (s : Separator) (h : Separated ps) :
    Separated (s.gaps.map .gap ++ ps) := by
  have hrest : ∀ fs : List Filling, Separated ((fs.flatMap Filling.gaps).map .gap ++ ps) := by
    intro fs
    induction fs with
    | nil => exact h
    | cons f fs ih =>
      rw [List.flatMap_cons, List.map_append, List.append_assoc]
      exact f.separated ih
  exact ⟨Piece.leads_blank s.isBlank _, hrest s.rest⟩

end Separator

/-! ## The pieces of a phrase -/

namespace Phrase

/-- The pieces behind the first lexeme. -/
def morePieces : List (Separator × Lexeme) → List Piece
  | [] => []
  | (s, l) :: more => s.gaps.map .gap ++ l.piece :: morePieces more

/-- The pieces that a phrase is scanned as. -/
def pieces : Phrase → List Piece
  | empty => []
  | nonempty first more => first.piece :: morePieces more

theorem flatMap_text_morePieces (more : List (Separator × Lexeme)) :
    (morePieces more).flatMap Piece.text = moreText more := by
  induction more with
  | nil => rfl
  | cons next more ih =>
    obtain ⟨s, l⟩ := next
    rw [morePieces, moreText, List.flatMap_append, flatMap_text_gaps, s.flatten_gaps,
      List.flatMap_cons, ih]
    rfl

theorem flatMap_text_pieces (p : Phrase) : p.pieces.flatMap Piece.text = p.text := by
  cases p with
  | empty => rfl
  | nonempty first more =>
    rw [pieces, text, List.flatMap_cons, flatMap_text_morePieces]
    rfl

theorem stops_moreText (more : List (Separator × Lexeme)) : Piece.Stops (moreText more) := by
  cases more with
  | nil => nofun
  | cons next more =>
    rintro _ ⟨⟩
    exact next.1.isBlank

theorem separated_cons (l : Lexeme) {more : List (Separator × Lexeme)}
    (h : Separated (morePieces more)) : Separated (l.piece :: morePieces more) := by
  refine ⟨l.leads ?_, h⟩
  rw [flatMap_text_morePieces]
  exact stops_moreText more

theorem separated_morePieces (more : List (Separator × Lexeme)) : Separated (morePieces more) := by
  induction more with
  | nil => trivial
  | cons next more ih => exact next.1.separated (separated_cons next.2 ih)

/-- **The pieces of a phrase are its lexemes, and the gaps of its separators.** -/
theorem pieces_text (p : Phrase) : RadixScript.pieces p.text = p.pieces := by
  have hseparated : Separated p.pieces := by
    cases p with
    | empty => trivial
    | nonempty first more => exact separated_cons first (separated_morePieces more)
  rw [← p.flatMap_text_pieces, pieces_flatMap_text hseparated]

theorem isClean_of_mem_morePieces (more : List (Separator × Lexeme)) :
    ∀ p ∈ morePieces more, p.IsClean := by
  induction more with
  | nil => nofun
  | cons next more ih =>
    exact List.forall_mem_append.mpr
      ⟨isClean_of_mem_gaps, List.forall_mem_cons.mpr ⟨trivial, ih⟩⟩

theorem isClean_of_mem_pieces (p : Phrase) : ∀ x ∈ p.pieces, x.IsClean := by
  cases p with
  | empty => nofun
  | nonempty first more =>
    exact List.forall_mem_cons.mpr ⟨trivial, isClean_of_mem_morePieces more⟩

/-! ## The tokens of a phrase -/

/-- The token of a lexeme is the token of its piece, and the count goes on behind it. -/
theorem tokensAt_piece (l : Lexeme) (before : List Char) (ps : List Piece) :
    tokensAt (1 + before.count '\n') before.length (l.piece :: ps) =
      l.tokenAfter before ::
        tokensAt (1 + (before ++ l.text).count '\n') (before ++ l.text).length ps := by
  rw [List.count_append, List.length_append, ← Nat.add_assoc]
  rfl

theorem tokensAt_morePieces (before : List Char) (more : List (Separator × Lexeme)) :
    tokensAt (1 + before.count '\n') before.length (morePieces more) =
      tokensAfter before more := by
  induction more generalizing before with
  | nil => rfl
  | cons next more ih =>
    obtain ⟨s, l⟩ := next
    rw [morePieces, tokensAt_append isClean_of_mem_gaps, tokensAt_gaps, List.nil_append,
      flatMap_text_gaps, s.flatten_gaps, Nat.add_assoc, ← List.count_append, ← List.length_append,
      tokensAt_piece, ih, tokensAfter]

theorem tokensAt_pieces (p : Phrase) : tokensAt 1 0 p.pieces = p.tokens := by
  cases p with
  | empty => rfl
  | nonempty first more =>
    rw [tokens, ← tokensAt_morePieces]
    exact tokensAt_piece first [] (morePieces more)

end Phrase

/-- Behind gaps and lexemes the text ends in the line and at the offset that their text gives. -/
theorem locate_eof_of_clean {ps : List Piece} (h : ∀ p ∈ ps, p.IsClean) (line offset : Nat) :
    (locate line offset ps).2 = .atEnd (line + (ps.flatMap Piece.text).count '\n')
      (offset + (ps.flatMap Piece.text).length) := by
  induction ps generalizing line offset with
  | nil => rfl
  | cons p ps ih =>
    rw [List.forall_mem_cons] at h
    rw [locate, ih h.2, h.1.lineBreaks, List.flatMap_cons, List.count_append, List.length_append,
      Nat.add_assoc line, Nat.add_assoc offset]

theorem collectStrict_tokens (ts : List Token) : collectStrict (ts.map .token) = .ok ts := by
  induction ts with
  | nil => rfl
  | cons t ts ih =>
    rw [List.map_cons, collectStrict, ih]
    rfl

/-- **A phrase is scanned without a problem, as one token for each lexeme, in order, and the token
that marks the end.** Each token has the kind, the text and the value of its lexeme, the offsets
where it was written, and the number of the line where it begins. -/
theorem Phrase.scan_text (p : Phrase) :
    scanStrict (String.ofList p.text) =
        .ok (p.tokens ++ [.atEnd (1 + p.text.count '\n') p.text.length]) ∧
      scan (String.ofList p.text) =
        some ⟨p.tokens, .atEnd (1 + p.text.count '\n') p.text.length, []⟩ := by
  have hfindings : (locate 1 0 (RadixScript.pieces p.text)).1 = p.tokens.map .token := by
    rw [p.pieces_text, locate_of_clean p.isClean_of_mem_pieces, p.tokensAt_pieces]
  have heof : (locate 1 0 (RadixScript.pieces p.text)).2 =
      .atEnd (1 + p.text.count '\n') p.text.length := by
    rw [p.pieces_text, locate_eof_of_clean p.isClean_of_mem_pieces, p.flatMap_text_pieces,
      Nat.zero_add]
  constructor
  · rw [scanStrict, String.toList_ofList]
    dsimp only
    rw [hfindings, heof, collectStrict_tokens]
    rfl
  · rw [scan, String.toList_ofList]
    dsimp only
    rw [hfindings, heof, collect_eq_some_iff.mpr rfl]
    rfl

end RadixScript
