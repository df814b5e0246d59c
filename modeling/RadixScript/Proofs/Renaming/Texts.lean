import RadixScript.Proofs.Grammar.Neighbours
import RadixScript.Proofs.Pieces.Tokens

/-!
# Other names in a program text

Some identifiers of a program text are replaced by a new one, which may be longer or shorter. Then
the text is cut in the same places (`pieces_respell`): an identifier ends where no character can
lengthen it, and the lexemes in front see a letter as before. Only behind a number it would matter
which letter it is, and there no identifier stands in a program.

So the new text is a way to write the same program with other tokens (`Program.ReadFrom.respell`).
-/

namespace RadixScript

/-! ## Identifiers -/

/-- Whether the characters are an identifier: a word that is no keyword and no type word. -/
def isIdentifier : List Char → Bool
  | [] => false
  | c :: cs => Piece.startsWord c && cs.all Piece.continuesWord &&
    Kind.ofWord (String.ofList (c :: cs)) == .identifier

namespace Piece

variable {w y r r' : List Char} {p p' : Piece} {literal : Option Literal} {c : Char}
  {cs : List Char}

theorem isIdentifier_cons : isIdentifier (c :: cs) = true ↔
    startsWord c = true ∧ (∀ d ∈ cs, continuesWord d = true) ∧
      Kind.ofWord (String.ofList (c :: cs)) = .identifier := by
  simp [isIdentifier, and_assoc]

theorem exists_startsWord (h : isIdentifier w = true) :
    ∃ c cs, w = c :: cs ∧ startsWord c = true := by
  cases w with
  | nil => cases h
  | cons c cs => exact ⟨c, cs, rfl, (isIdentifier_cons.mp h).1⟩

/-- An identifier stays in its line. -/
theorem count_lineEnd (h : isIdentifier w = true) : w.count '\n' = 0 := by
  cases w with
  | nil => cases h
  | cons c cs =>
    obtain ⟨hc, hcs, _⟩ := isIdentifier_cons.mp h
    rw [List.count_eq_zero, List.mem_cons]
    rintro (rfl | hmem)
    · exact absurd hc (by decide)
    · exact absurd (hcs _ hmem) (by decide)

/-- Letters and digits are no marks and no blanks. -/
theorem cut_of_continuesWord (hc : continuesWord c = true) (cs : List Char) :
    cut c cs = cutOther c cs := by
  have hfiller : isFiller c = false := by
    rw [Bool.eq_false_iff]
    intro h
    simp only [isFiller, Bool.or_eq_true, decide_eq_true_eq] at h
    rcases h with (((rfl | rfl) | rfl) | rfl) | rfl <;> exact absurd hc (by decide)
  have hmark : Kind.ofMark? c = none := by
    fun_cases Kind.ofMark? c
    case case19 => rfl
    all_goals exact absurd hc (by decide)
  exact cut_of_ofMark?_eq_none hfiller hmark cs

theorem cut_of_startsWord (hc : startsWord c = true) (cs : List Char) :
    cut c cs = cutWord c cs := by
  have hquote : c ≠ '"' := by
    rintro rfl
    exact absurd hc (by decide)
  have hquote' : c ≠ '\'' := by
    rintro rfl
    exact absurd hc (by decide)
  rw [cut_of_continuesWord (continuesWord_of_startsWord hc)]
  unfold cutOther
  rw [if_neg (by simp [isDigit_of_startsWord hc]), if_neg hquote, if_neg hquote', if_pos hc]

/-- Whether the piece is an identifier. -/
def isName : Piece → Bool
  | lexeme .identifier _ _ => true
  | _ => false

theorem isName_lexeme {kind : Kind} :
    (lexeme kind literal w).isName = true ↔ kind = .identifier := by
  cases kind <;> simp [isName]

theorem cutNumber_isName (c : Char) (cs : List Char) : (cutNumber c cs).1.isName = false := by
  obtain ⟨w, r, rfl, hw, hr⟩ := exists_run isDigit cs
  rcases noFraction_or r with hfraction | ⟨d, more, rfl, hd⟩
  · rw [cutNumber_integer hw hr hfraction]
    split <;> rfl
  · obtain ⟨fraction, t, rfl, hfraction, ht⟩ := exists_run isDigit more
    rw [cutNumber_fraction hw hd hfraction ht]
    rfl

theorem cutNumeral_isName (b : Base) (letter : Char) (cs : List Char) :
    (cutNumeral b letter cs).1.isName = false := by
  unfold cutNumeral
  dsimp only
  split
  · cases b <;> rfl
  · rfl

theorem cutString_isName (cs : List Char) : (cutString cs).1.isName = false := by
  unfold cutString
  dsimp only
  split <;> rfl

theorem cutCharacter_isName (cs : List Char) : (cutCharacter cs).1.isName = false := by
  unfold cutCharacter
  dsimp only
  split
  · rfl
  · split <;> rfl

theorem cutOther_isName (h : (cutOther c cs).1.isName = true) : startsWord c = true := by
  unfold cutOther at h
  grind [cutNumber_isName, cutNumeral_isName, cutString_isName, cutCharacter_isName, isName]

theorem cutSingle_isName (h : (cutSingle c cs).1.isName = true) : startsWord c = true := by
  unfold cutSingle at h
  split at h
  · next kind hkind =>
    obtain rfl := isName_lexeme.mp h
    revert hkind
    fun_cases Kind.ofMark? c <;> nofun
  · exact cutOther_isName h

/-- Identifiers begin with a letter. -/
theorem cut_isName (h : (cut c cs).1.isName = true) : startsWord c = true := by
  unfold cut at h
  split at h
  · cases h
  · split at h
    · exact cutSingle_isName h
    · next d rest =>
      split at h
      · cases h
      · split at h
        · next kind hkind =>
          obtain rfl := isName_lexeme.mp h
          revert hkind
          fun_cases Kind.ofMarkPair? c d <;> nofun
        · exact cutSingle_isName h

/-- **An identifier is cut off exactly in front of what does not lengthen it.** -/
theorem leads_identifier_iff : (lexeme .identifier literal w).Leads r ↔
    literal = none ∧ isIdentifier w = true ∧ ∀ c ∈ r.head?, continuesWord c = false := by
  constructor
  · rintro ⟨c, cs, _, hcut⟩
    have hc : startsWord c = true := cut_isName (by rw [hcut]; rfl)
    obtain ⟨v, s, rfl, hv, hs⟩ := exists_run continuesWord cs
    rw [cut_of_startsWord hc, cutWord, takeWhile_append hv hs, dropWhile_append hv hs] at hcut
    simp only [Prod.mk.injEq, lexeme.injEq] at hcut
    obtain ⟨⟨hkind, rfl, rfl⟩, rfl⟩ := hcut
    exact ⟨rfl, isIdentifier_cons.mpr ⟨hc, hv, hkind⟩, hs⟩
  · rintro ⟨rfl, hw, hr⟩
    obtain ⟨c, cs, rfl, hc⟩ := exists_startsWord hw
    obtain ⟨_, hcs, hkind⟩ := isIdentifier_cons.mp hw
    refine ⟨c, cs ++ r, rfl, ?_⟩
    rw [cut_of_startsWord hc, cutWord, takeWhile_append hcs hr, dropWhile_append hcs hr, hkind]

/-! ## Another identifier in the place of one -/

/-- The second piece is the first one, or an identifier in the place of one. -/
inductive Respelled (y : List Char) : Piece → Piece → Prop
  | kept (p : Piece) : Respelled y p p
  | identifier (literal : Option Literal) (w : List Char) :
    Respelled y (lexeme .identifier literal w) (lexeme .identifier literal y)

theorem Respelled.lineBreaks (h : Respelled y p p') (hp : p.Leads r) (hy : isIdentifier y = true) :
    p'.lineBreaks = p.lineBreaks := by
  cases h with
  | kept => rfl
  | identifier literal w =>
    have hw := (leads_identifier_iff.mp hp).2.1
    exact (count_lineEnd hy).trans (count_lineEnd hw).symm

/-- The text begins alike, whether or not an identifier is respelled. -/
theorem Respelled.sameFront (h : Respelled y p p') (hp : p.Leads r) (hy : isIdentifier y = true)
    (hfront : SameFront r r') : SameFront (p.text ++ r) (p'.text ++ r') := by
  cases h with
  | kept => exact hfront.append_left p.text
  | identifier literal w =>
    obtain ⟨c, cs, rfl, hc⟩ := exists_startsWord (leads_identifier_iff.mp hp).2.1
    obtain ⟨d, ds, rfl, hd⟩ := exists_startsWord hy
    exact .letter hc hd

theorem Respelled.leads (h : Respelled y p p') (hp : p.Leads r) (hclean : p.IsClean)
    (hy : isIdentifier y = true) (hfront : SameFront r r')
    (hhead : p.isNumber = true → r'.head? = r.head? ∨ r = []) : p'.Leads r' := by
  cases h with
  | kept => exact hp.congr hclean hfront hhead
  | identifier literal w =>
    obtain ⟨rfl, _, hr⟩ := leads_identifier_iff.mp hp
    have hr' := hfront.stops (fun _ => continuesWord_of_startsWord) (by decide) hr
    exact leads_identifier_iff.mpr ⟨rfl, hy, hr'⟩

end Piece

/-! ## Lists of pieces -/

section lists

variable {ps ps' : List Piece} {y : List Char} {p : Piece} {line offset : Nat}

theorem sameFront_of_respelled (h : List.Forall₂ (Piece.Respelled y) ps ps')
    (hps : Separated ps) (hy : isIdentifier y = true) :
    SameFront (ps.flatMap Piece.text) (ps'.flatMap Piece.text) := by
  induction h with
  | nil => exact .nil
  | cons hp _ ih =>
    rw [List.flatMap_cons, List.flatMap_cons]
    exact hp.sameFront hps.1 hy (ih hps.2)

theorem Piece.isLiteral_of_isNumber {kind : Kind} {literal : Option Literal} {w : List Char}
    (h : (Piece.lexeme kind literal w).isNumber = true) : kind.isLiteral = true := by
  cases kind <;> simp_all [Piece.isNumber, Kind.isLiteral]

/-- Behind a number the text begins with the same character. -/
theorem head?_of_respelled (h : List.Forall₂ (Piece.Respelled y) ps ps') (hps : Separated ps)
    (hchain : (tokensAt line offset (p :: ps)).IsChain Token.MayPrecede)
    (hp : p.isNumber = true) :
    (ps'.flatMap Piece.text).head? = (ps.flatMap Piece.text).head? ∨
      ps.flatMap Piece.text = [] := by
  cases h with
  | nil => exact .inr rfl
  | cons hq =>
    cases hq with
    | kept q =>
      obtain ⟨c, cs, hcs⟩ := List.exists_cons_of_ne_nil hps.1.text_ne_nil
      simp [hcs]
    | identifier literal w =>
      -- no name comes right behind a constant
      cases p with
      | lexeme kind =>
        rw [tokensAt, tokensAt] at hchain
        exact absurd rfl ((List.isChain_cons_cons.mp hchain).1 (Piece.isLiteral_of_isNumber hp))
      | _ => cases hp

theorem separated_of_respelled (h : List.Forall₂ (Piece.Respelled y) ps ps') (hps : Separated ps)
    (hclean : ∀ p ∈ ps, p.IsClean) (hchain : (tokensAt line offset ps).IsChain Token.MayPrecede)
    (hy : isIdentifier y = true) : Separated ps' := by
  induction h generalizing line offset with
  | nil => trivial
  | cons hp hrest ih =>
    rw [List.forall_mem_cons] at hclean
    refine ⟨?_, ih hps.2 hclean.2 (List.isChain_append.mp hchain).2.1⟩
    exact hp.leads hps.1 hclean.1 hy (sameFront_of_respelled hrest hps.2 hy)
      (head?_of_respelled hrest hps.2 hchain)

theorem clean_of_respelled (h : List.Forall₂ (Piece.Respelled y) ps ps')
    (hclean : ∀ p ∈ ps, p.IsClean) : ∀ p ∈ ps', p.IsClean := by
  induction h with
  | nil => exact hclean
  | cons hp _ ih =>
    rw [List.forall_mem_cons] at hclean ⊢
    refine ⟨?_, ih hclean.2⟩
    cases hp with
    | kept => exact hclean.1
    | identifier => trivial

end lists

/-! ## Respelling by offset -/

/-- Writes another identifier in the place of one. -/
def Piece.respell (y : List Char) : Piece → Piece
  | lexeme .identifier literal _ => lexeme .identifier literal y
  | p => p

/-- Writes another identifier in the place of those that stand at the chosen offsets. -/
def respellAt (chosen : Nat → Bool) (y : List Char) : Nat → List Piece → List Piece
  | _, [] => []
  | offset, p :: ps =>
    (if chosen offset then p.respell y else p) ::
      respellAt chosen y (offset + p.text.length) ps

/-- The text with another identifier in the place of those that begin at the given offsets. -/
def respell (starts : List Nat) (y source : String) : String :=
  String.ofList ((respellAt starts.contains y.toList 0 (pieces source.toList)).flatMap Piece.text)

section offsets

variable {chosen : Nat → Bool} {y : List Char}

theorem Piece.respelled_ite (b : Bool) (y : List Char) (p : Piece) :
    Respelled y p (if b then p.respell y else p) := by
  split
  · fun_cases Piece.respell y p
    · exact .identifier _ _
    · exact .kept p
  · exact .kept p

theorem respelled_respellAt (chosen : Nat → Bool) (y : List Char) (offset : Nat) (ps : List Piece) :
    List.Forall₂ (Piece.Respelled y) ps (respellAt chosen y offset ps) := by
  induction ps generalizing offset with
  | nil => exact .nil
  | cons p ps ih => exact .cons (p.respelled_ite _ y) (ih _)

/-- The second token stands in the same line and says the same as the first one, except for the new
name of a chosen identifier. -/
structure Token.Respelled (chosen : Nat → Bool) (y : String) (t t' : Token) : Prop where
  kind_eq : t'.kind = t.kind
  literal_eq : t'.literal = t.literal
  line_eq : t'.line = t.line
  text_eq : t'.text = if t.kind = .identifier ∧ chosen t.start then y else t.text

theorem token?_respell (line offset offset' : Nat) (p : Piece) :
    List.Forall₂ (Token.Respelled chosen (String.ofList y)) (p.token? line offset).toList
      ((if chosen offset then p.respell y else p).token? line offset').toList := by
  cases p with
  | lexeme kind literal w =>
    by_cases hkind : kind = .identifier
    · subst hkind
      by_cases hchosen : chosen offset = true
      · rw [if_pos hchosen]
        exact .cons ⟨rfl, rfl, rfl, (if_pos ⟨rfl, hchosen⟩).symm⟩ .nil
      · rw [if_neg hchosen]
        exact .cons ⟨rfl, rfl, rfl, (if_neg fun h => hchosen h.2).symm⟩ .nil
    · have hsame : (Piece.lexeme kind literal w).respell y = .lexeme kind literal w := by
        unfold Piece.respell
        split
        · next h =>
          cases h
          exact absurd rfl hkind
        · rfl
      rw [hsame, ite_self]
      exact .cons ⟨rfl, rfl, rfl, (if_neg fun h => hkind h.1).symm⟩ .nil
  | gap | overlong | rejected =>
    split <;> exact .nil

theorem tokensAt_respellAt (chosen : Nat → Bool) (hy : isIdentifier y = true) {ps : List Piece}
    (hps : Separated ps) (line offset offset' : Nat) :
    List.Forall₂ (Token.Respelled chosen (String.ofList y)) (tokensAt line offset ps)
      (tokensAt line offset' (respellAt chosen y offset ps)) := by
  induction ps generalizing line offset offset' with
  | nil => exact .nil
  | cons p ps ih =>
    rw [tokensAt, respellAt, tokensAt, (p.respelled_ite _ y).lineBreaks hps.1 hy]
    exact List.rel_append (token?_respell line offset offset' p) (ih hps.2 _ _ _)

end offsets

/-! ## Programs -/

/-- The respelled pieces are the pieces of the respelled text. -/
theorem pieces_respell {p : Program Unit} {source y : String} (h : p.ReadFrom source)
    (hy : isIdentifier y.toList = true) (starts : List Nat) :
    pieces (respell starts y source).toList =
      respellAt starts.contains y.toList 0 (pieces source.toList) := by
  rw [respell, String.toList_ofList]
  exact pieces_flatMap_text (separated_of_respelled (respelled_respellAt _ _ _ _)
    (separated_pieces _) h.clean (h.written.isChain h.grammatical) hy)

/-- Lists whose elements correspond are related by a function, if nothing occurs twice. -/
theorem exists_map_of_forall₂ {α : Type} {R : α → α → Prop} {l l' : List α}
    (h : List.Forall₂ R l l') (hl : l.Nodup) :
    ∃ f : α → α, l.map f = l' ∧ (∀ a ∈ l, R a (f a)) ∧ ∀ a ∉ l, f a = a := by
  classical
  induction h with
  | nil => exact ⟨id, rfl, nofun, fun _ _ => rfl⟩
  | @cons a b l l' hab _ ih =>
    obtain ⟨ha, hl⟩ := List.nodup_cons.mp hl
    obtain ⟨f, hmap, hR, hid⟩ := ih hl
    have hsame : ∀ c ∈ l, Function.update f a b c = f c := by
      intro c hc
      exact Function.update_of_ne (ne_of_mem_of_not_mem hc ha) _ _
    refine ⟨Function.update f a b, ?_, ?_, ?_⟩
    · rw [List.map_cons, Function.update_self, List.map_congr_left hsame, hmap]
    · rw [List.forall_mem_cons, Function.update_self]
      refine ⟨hab, fun c hc => ?_⟩
      rw [hsame c hc]
      exact hR c hc
    · intro c hc
      rw [List.mem_cons, not_or] at hc
      rw [Function.update_of_ne hc.1]
      exact hid c hc.2

/-- **With another identifier in the place of some, a text is a way to write the same program with
other tokens.** -/
theorem Program.ReadFrom.respell {p : Program Unit} {source y : String} (h : p.ReadFrom source)
    (hy : isIdentifier y.toList = true) (starts : List Nat) :
    ∃ τ : Token → Token, (∀ t ∈ tokensOf source, Token.Respelled starts.contains y t (τ t)) ∧
      Program.ReadFrom (Stmt.mapAllTokens τ p) (respell starts y source) := by
  have htokens : List.Forall₂ (Token.Respelled starts.contains y) (tokensOf source)
      (tokensOf (RadixScript.respell starts y source)) := by
    have := tokensAt_respellAt starts.contains hy (separated_pieces source.toList) 1 0 0
    rwa [String.ofList_toList, ← pieces_respell h hy] at this
  obtain ⟨τ, hmap, hτ, hid⟩ := exists_map_of_forall₂ htokens (nodup_tokensOf source)
  have hkeeps : ∀ t, (τ t).kind = t.kind ∧ (τ t).literal = t.literal := by
    intro t
    by_cases ht : t ∈ tokensOf source
    · exact ⟨(hτ t ht).kind_eq, (hτ t ht).literal_eq⟩
    · rw [hid t ht]
      exact ⟨rfl, rfl⟩
  refine ⟨τ, hτ, ?_, ?_, ?_, ?_⟩
  · rw [pieces_respell h hy]
    exact clean_of_respelled (respelled_respellAt _ _ _ _) h.clean
  · exact (Stmt.allGrammatical_mapAllTokens (fun t => (hkeeps t).1) p).mpr h.grammatical
  · rw [← hmap]
    exact h.written.mapTokens (fun t => (hkeeps t).1) fun t => (hkeeps t).2
  · rw [Stmt.allStrayReturns_mapAllTokens, h.returns]
    rfl

end RadixScript
