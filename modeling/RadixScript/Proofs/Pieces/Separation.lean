import RadixScript.Token.Piece

/-!
# Where pieces end

Where a piece of a program text ends depends on the text behind it: a word goes on as long as there
are letters, and a digit can turn an integer into a fraction. This module says how little of that
text matters. `Piece.Leads` says that the scanner cuts a piece off in front of a text, and
`Piece.Leads.congr` that this stays so when the text is replaced by another one with the same front
(`SameFront`).

`Separated` says it for a whole list of pieces. The lists of pieces that the scanner gives are
exactly the separated ones (`separated_pieces`, `pieces_flatMap_text`), so to know how a text is
scanned it is enough to know it piece by piece.
-/

namespace RadixScript

namespace Piece

/-- The scanner cuts the piece off a text that begins with it and goes on with `rest`. -/
def Leads (p : Piece) (rest : List Char) : Prop :=
  ∃ c cs, p.text ++ rest = c :: cs ∧ cut c cs = (p, rest)

/-- The piece is a gap or a lexeme. -/
def IsClean : Piece → Prop
  | gap _ | lexeme _ _ _ => True
  | overlong _ | rejected _ _ => False

/-- Whether the piece is a number or a tagged numeral. -/
def isNumber : Piece → Bool
  | lexeme .intLiteral _ _ | lexeme .floatLiteral _ _ | lexeme .hexLiteral _ _
  | lexeme .binLiteral _ _ => true
  | _ => false

end Piece

/-! ## Fronts of texts -/

open Piece in
/-- The texts begin alike: with the same character, or both with a letter. Behind a point one more
character matters. A line end may stand where the other text ends. -/
inductive SameFront : List Char → List Char → Prop
  | nil : SameFront [] []
  | lineEnd (cs : List Char) : SameFront [] ('\n' :: cs)
  | same {c : Char} {cs cs' : List Char} (h : c = '.' → SameFront cs cs') :
    SameFront (c :: cs) (c :: cs')
  | letter {c c' : Char} {cs cs' : List Char} (h : startsWord c = true)
    (h' : startsWord c' = true) : SameFront (c :: cs) (c' :: cs')

namespace SameFront

variable {r r' : List Char} {f : Char → Bool}

/-- What is in front of both texts is the same. -/
theorem append_left (h : SameFront r r') (cs : List Char) : SameFront (cs ++ r) (cs ++ r') := by
  induction cs with
  | nil => exact h
  | cons c cs ih => exact .same fun _ => ih

/-- Everything in front of a line end is the same. -/
theorem append_lineEnd (cs cs' : List Char) : SameFront cs (cs ++ '\n' :: cs') := by
  have h := (SameFront.lineEnd cs').append_left cs
  rwa [List.append_nil] at h

/-- A run of characters that takes letters, but no line end, stops in front of both texts. -/
theorem stops (h : SameFront r r') (hletter : ∀ c, Piece.startsWord c = true → f c = true)
    (hline : f '\n' = false) (hr : ∀ c ∈ r.head?, f c = false) : ∀ c ∈ r'.head?, f c = false := by
  cases h with
  | nil => nofun
  | lineEnd cs =>
    rintro _ ⟨⟩
    exact hline
  | same h => exact hr
  | @letter a _ _ _ h h' =>
    have := hr a rfl
    rw [hletter a h] at this
    cases this

/-- Any run that takes no line end stops in front of both texts, if they have the same first
character or the first one ends. -/
theorem stops_of_head (h : SameFront r r') (hline : f '\n' = false)
    (hhead : r'.head? = r.head? ∨ r = []) (hr : ∀ c ∈ r.head?, f c = false) :
    ∀ c ∈ r'.head?, f c = false := by
  rcases hhead with hhead | rfl
  · rw [hhead]
    exact hr
  · cases h with
    | nil => nofun
    | lineEnd cs =>
      rintro _ ⟨⟩
      exact hline

end SameFront

namespace Piece

variable {r r' : List Char} {p : Piece} {c : Char} {cs : List Char}

/-! ## Characters -/

theorem isDigit_of_startsWord (h : startsWord c = true) : isDigit c = false := by
  simp only [startsWord, Bool.or_eq_true, Bool.and_eq_true, decide_eq_true_eq] at h
  simp only [isDigit, Bool.and_eq_false_iff, decide_eq_false_iff_not]
  rcases h with (rfl | ⟨h, _⟩) | ⟨h, _⟩
  · decide
  · right
    intro h9
    exact absurd (Char.le_trans h h9) (by decide)
  · right
    intro h9
    exact absurd (Char.le_trans h h9) (by decide)

theorem continuesWord_of_startsWord (h : startsWord c = true) : continuesWord c = true := by
  rw [continuesWord, h, Bool.true_or]

theorem ofLetter?_of_isDigit (h : isDigit c = true) : Base.ofLetter? c = none := by
  fun_cases Base.ofLetter? c
  · exact absurd h (by decide)
  · exact absurd h (by decide)
  · rfl

/-- No mark goes on with a letter or a line end. -/
theorem ofMarkPair?_eq_none (d : Char) (h : startsWord c = true ∨ c = '\n') :
    Kind.ofMarkPair? d c = none := by
  fun_cases Kind.ofMarkPair? d c
  case case7 => rfl
  all_goals exact absurd h (by decide)

theorem ofMarkPair?_of_ofMark? (h : Kind.ofMark? c = none) (d : Char) :
    Kind.ofMarkPair? c d = none := by
  fun_cases Kind.ofMarkPair? c d
  case case7 => rfl
  all_goals cases h

/-- What begins with no mark is cut as such. -/
theorem cut_of_ofMark?_eq_none (hfiller : isFiller c = false) (hmark : Kind.ofMark? c = none)
    (cs : List Char) : cut c cs = cutOther c cs := by
  have hsingle : cutSingle c cs = cutOther c cs := by rw [cutSingle, hmark]
  have hslash : c ≠ '/' := by
    rintro rfl
    cases hmark
  unfold cut
  rw [if_neg (by simp [hfiller])]
  cases cs with
  | nil => exact hsingle
  | cons d rest =>
    dsimp only
    rw [if_neg fun h => hslash h.1, ofMarkPair?_of_ofMark? hmark]
    exact hsingle

/-! ## Runs of characters -/

section runs

variable {f : Char → Bool} {w : List Char}

theorem takeWhile_append (hw : ∀ c ∈ w, f c = true) (hr : ∀ c ∈ r.head?, f c = false) :
    (w ++ r).takeWhile f = w := by
  rw [List.takeWhile_append_of_pos hw]
  cases r with
  | nil => rw [List.takeWhile_nil, List.append_nil]
  | cons c r => rw [List.takeWhile_cons_of_neg (by simp [hr c rfl]), List.append_nil]

theorem dropWhile_append (hw : ∀ c ∈ w, f c = true) (hr : ∀ c ∈ r.head?, f c = false) :
    (w ++ r).dropWhile f = r := by
  rw [List.dropWhile_append_of_pos hw]
  cases r with
  | nil => rfl
  | cons c r => rw [List.dropWhile_cons_of_neg (by simp [hr c rfl])]

/-- Every text is a run of some characters and what stops it. -/
theorem exists_run (f : Char → Bool) (cs : List Char) :
    ∃ w r, cs = w ++ r ∧ (∀ c ∈ w, f c = true) ∧ ∀ c ∈ r.head?, f c = false := by
  refine ⟨cs.takeWhile f, cs.dropWhile f, List.takeWhile_append_dropWhile.symm, ?_, ?_⟩
  · exact fun c => List.all_eq_true.mp List.all_takeWhile c
  · intro c hc
    have h := List.head?_dropWhile_not f cs
    rw [hc] at h
    simpa using h

end runs

/-! ## Numbers -/

/-- The text does not go on as a fraction would. -/
def NoFraction (r : List Char) : Prop := ∀ d more, r = '.' :: d :: more → isDigit d = false

theorem noFraction_or (r : List Char) :
    NoFraction r ∨ ∃ d more, r = '.' :: d :: more ∧ isDigit d = true := by
  by_cases h : ∃ d more, r = '.' :: d :: more ∧ isDigit d = true
  · exact .inr h
  · refine .inl fun d more hr => ?_
    exact Bool.eq_false_iff.mpr fun hd => h ⟨d, more, hr, hd⟩

theorem NoFraction.congr (h : NoFraction r) (hfront : SameFront r r') : NoFraction r' := by
  rintro d more rfl
  cases hfront with
  | letter _ hpoint => exact absurd hpoint (by decide)
  | same hbehind =>
    cases hbehind rfl with
    | lineEnd => decide
    | same _ => exact h d _ rfl
    | letter _ hd => exact isDigit_of_startsWord hd

section numbers

variable {w : List Char} (hw : ∀ c ∈ w, isDigit c = true)

include hw

theorem cutNumber_integer (hr : ∀ c ∈ r.head?, isDigit c = false) (h : NoFraction r) (c : Char) :
    cutNumber c (w ++ r) =
      if (c :: w).length ≤ Decimal.digitLimit then
        (lexeme .intLiteral (some (.int (natural (c :: w)))) (c :: w), r)
      else (overlong (c :: w), r) := by
  unfold cutNumber
  simp only [takeWhile_append hw hr, dropWhile_append hw hr]
  split
  · next d more =>
    rw [if_neg]
    rw [h d more rfl]
    exact Bool.false_ne_true
  · rfl

theorem cutNumber_fraction {d : Char} {more : List Char} (hd : isDigit d = true)
    (hmore : ∀ c ∈ more, isDigit c = true) (hr : ∀ c ∈ r.head?, isDigit c = false) (c : Char) :
    cutNumber c (w ++ '.' :: d :: (more ++ r)) =
      (lexeme .floatLiteral (some (.float (Float.ofScientific
        (natural (c :: w ++ d :: more)) true (d :: more).length))) (c :: w ++ '.' :: d :: more),
        r) := by
  have hpoint : ∀ c ∈ ('.' :: d :: (more ++ r)).head?, isDigit c = false := by
    rintro _ ⟨⟩
    decide
  unfold cutNumber
  simp only [takeWhile_append hw hpoint, dropWhile_append hw hpoint, takeWhile_append hmore hr,
    dropWhile_append hmore hr]
  rw [if_pos hd]

end numbers

/-- No tag is in front of the text: what begins with the digit `c` is a decimal number. -/
def Untagged (c : Char) (cs : List Char) : Prop :=
  c = '0' → ∀ letter ∈ cs.head?, Base.ofLetter? letter = none

theorem cutOther_number (hc : isDigit c = true) (h : Untagged c cs) :
    cutOther c cs = cutNumber c cs := by
  unfold cutOther
  rw [if_pos hc]
  cases cs with
  | nil => rfl
  | cons letter rest =>
    dsimp only
    split
    · next b hb =>
      rw [if_neg]
      intro h0
      rw [h h0 letter rfl] at hb
      cases hb
    · rfl

theorem cutOther_numeral {b : Base} {letter : Char} (h : Base.ofLetter? letter = some b)
    (rest : List Char) : cutOther '0' (letter :: rest) = cutNumeral b letter rest := by
  unfold cutOther
  rw [if_pos (by decide)]
  simp only [h]
  rfl

/-- A decimal number stays one, when the same character or a line end follows. -/
theorem untagged_append {w : List Char} (hw : ∀ c ∈ w, isDigit c = true)
    (hfront : SameFront r r') (hhead : r'.head? = r.head? ∨ r = []) (h : Untagged c (w ++ r)) :
    Untagged c (w ++ r') := by
  intro h0
  cases w with
  | cons d w =>
    rintro _ ⟨⟩
    exact ofLetter?_of_isDigit (hw d List.mem_cons_self)
  | nil =>
    have hr : ∀ letter ∈ r.head?, (Base.ofLetter? letter).isSome = false := by
      intro letter hl
      rw [h h0 letter hl]
      rfl
    intro letter hl
    have hnone := hfront.stops_of_head (f := fun c => (Base.ofLetter? c).isSome) rfl hhead hr letter
      hl
    exact Option.not_isSome_iff_eq_none.mp (by simp [hnone])

/-! ## Another text behind a piece -/

/-- The piece is cut off in the same way when `r'` is behind it. -/
def StaysBefore (cutter : List Char → Piece × List Char) (c : Char) (p : Piece) (r' : List Char) :
    Prop := ∃ cs, p.text ++ r' = c :: cs ∧ cutter cs = (p, r')

section behind

variable (hfront : SameFront r r') (hhead : p.isNumber = true → r'.head? = r.head? ∨ r = [])

include hfront hhead

theorem cutNumber_congr (hc : isDigit c = true) (hcs : Untagged c cs)
    (h : cutNumber c cs = (p, r)) (hp : p.IsClean) : StaysBefore (cutOther c) c p r' := by
  obtain ⟨w, s, rfl, hw, hs⟩ := exists_run isDigit cs
  rcases noFraction_or s with hfraction | ⟨d, more, rfl, hd⟩
  · rw [cutNumber_integer hw hs hfraction] at h
    split at h
    · next hlen =>
      cases h
      have hhead := hhead rfl
      refine ⟨w ++ r', rfl, ?_⟩
      rw [cutOther_number hc (untagged_append hw hfront hhead hcs),
        cutNumber_integer hw (hfront.stops_of_head (by decide) hhead hs) (hfraction.congr hfront),
        if_pos hlen]
    · cases h
      exact hp.elim
  · obtain ⟨fraction, t, rfl, hfraction, ht⟩ := exists_run isDigit more
    rw [cutNumber_fraction hw hd hfraction ht] at h
    cases h
    refine ⟨w ++ '.' :: d :: (fraction ++ r'), by simp [text], ?_⟩
    have huntagged : Untagged c (w ++ '.' :: d :: (fraction ++ r')) :=
      untagged_append (r := '.' :: d :: (fraction ++ r)) hw
        (.same fun _ => .same fun h => absurd hd (by rw [h]; decide)) (.inl rfl) hcs
    rw [cutOther_number hc huntagged,
      cutNumber_fraction hw hd hfraction (hfront.stops_of_head (by decide) (hhead rfl) ht)]

theorem cutNumeral_congr {b : Base} {letter : Char} (hb : Base.ofLetter? letter = some b)
    (h : cutNumeral b letter cs = (p, r)) (hp : p.IsClean) :
    StaysBefore (cutOther '0') '0' p r' := by
  obtain ⟨w, s, rfl, hw, hs⟩ := exists_run b.isDigit cs
  have hline : b.isDigit '\n' = false := by cases b <;> decide
  unfold cutNumeral at h
  simp only [takeWhile_append hw hs, dropWhile_append hw hs] at h
  split at h
  · next x hx =>
    cases h
    refine ⟨letter :: (w ++ r'), rfl, ?_⟩
    have hs' := hfront.stops_of_head hline (hhead (by cases b <;> rfl)) hs
    rw [cutOther_numeral hb, cutNumeral]
    simp only [takeWhile_append hw hs', dropWhile_append hw hs', hx]
  · cases h
    exact hp.elim

end behind

theorem cutString_congr (h : cutString cs = (p, r)) (hp : p.IsClean) (r' : List Char) :
    StaysBefore cutString '"' p r' := by
  obtain ⟨w, s, rfl, hw, hs⟩ := exists_run (· != '"') cs
  unfold cutString at h
  simp only [takeWhile_append hw hs, dropWhile_append hw hs] at h
  cases s with
  | nil =>
    cases h
    exact hp.elim
  | cons quote rest =>
    cases h
    have hquote : ∀ c ∈ (quote :: r').head?, (c != '"') = false := hs
    refine ⟨w ++ quote :: r', by simp [text], ?_⟩
    rw [cutString]
    simp only [takeWhile_append hw hquote, dropWhile_append hw hquote]

/-- The head of a character literal does not depend on what is behind the closing quote. -/
theorem characterHead_congr {value : Char} {head rest : List Char}
    (h : characterHead cs = (some value, head, '\'' :: rest)) (r' : List Char) :
    characterHead (head ++ '\'' :: r') = (some value, head, '\'' :: r') := by
  revert h
  fun_cases characterHead cs <;> intro h
  case case1 => cases h
  case case2 => cases h
  case case3 c rest =>
    simp only [Prod.mk.injEq] at h
    obtain ⟨hvalue, rfl, rfl⟩ := h
    simp only [List.cons_append, List.nil_append, characterHead, hvalue]
  case case4 => cases h
  case case5 c rest _ hescape hc =>
    cases h
    have hne : value ≠ '\\' := fun hvalue => hescape _ _ hvalue rfl
    simp [characterHead, hne, hc]

theorem cutCharacter_congr (h : cutCharacter cs = (p, r)) (hp : p.IsClean) (r' : List Char) :
    StaysBefore cutCharacter '\'' p r' := by
  unfold cutCharacter at h
  rcases hcase : characterHead cs with ⟨value?, head, rest⟩
  rw [hcase] at h
  obtain ⟨w, s, rfl, hw, hs⟩ := exists_run (· != '\'') rest
  simp only [takeWhile_append hw hs, dropWhile_append hw hs] at h
  cases s with
  | nil =>
    cases h
    exact hp.elim
  | cons quote after =>
    have hquote : quote = '\'' := by simpa using hs quote rfl
    subst hquote
    dsimp only at h
    split at h
    · next value =>
      cases h
      refine ⟨head ++ '\'' :: r', by simp [text], ?_⟩
      rw [cutCharacter, characterHead_congr hcase]
      simp
    · cases h
      exact hp.elim

theorem cutWord_congr (hfront : SameFront r r') (h : cutWord c cs = (p, r)) :
    StaysBefore (cutWord c) c p r' := by
  obtain ⟨w, s, rfl, hw, hs⟩ := exists_run continuesWord cs
  rw [cutWord, takeWhile_append hw hs, dropWhile_append hw hs] at h
  cases h
  have hs' := hfront.stops (fun _ => continuesWord_of_startsWord) (by decide) hs
  refine ⟨w ++ r', rfl, ?_⟩
  rw [cutWord, takeWhile_append hw hs', dropWhile_append hw hs']

theorem cutOther_congr (h : cutOther c cs = (p, r)) (hp : p.IsClean) (hfront : SameFront r r')
    (hhead : p.isNumber = true → r'.head? = r.head? ∨ r = []) :
    StaysBefore (cutOther c) c p r' := by
  by_cases hc : isDigit c = true
  · by_cases htag : Untagged c cs
    · rw [cutOther_number hc htag] at h
      exact cutNumber_congr hfront hhead hc htag h hp
    · simp only [Untagged, Classical.not_imp, Classical.not_forall] at htag
      obtain ⟨rfl, letter, hletter, hb⟩ := htag
      obtain ⟨b, hb⟩ := Option.ne_none_iff_exists'.mp hb
      obtain ⟨rest, rfl⟩ := List.head?_eq_some_iff.mp hletter
      rw [cutOther_numeral hb] at h
      exact cutNumeral_congr hfront hhead hb h hp
  · unfold cutOther at h
    rw [if_neg hc] at h
    -- the first character alone tells what kind of piece it is
    split at h
    · next hquote =>
      subst hquote
      obtain ⟨cs', htext, hcut⟩ := cutString_congr h hp r'
      refine ⟨cs', htext, ?_⟩
      unfold cutOther
      rw [if_neg hc, if_pos rfl]
      exact hcut
    · next hquote =>
      split at h
      · next hquote' =>
        subst hquote'
        obtain ⟨cs', htext, hcut⟩ := cutCharacter_congr h hp r'
        refine ⟨cs', htext, ?_⟩
        unfold cutOther
        rw [if_neg hc, if_neg hquote, if_pos rfl]
        exact hcut
      · next hquote' =>
        split at h
        · next hword =>
          obtain ⟨cs', htext, hcut⟩ := cutWord_congr hfront h
          refine ⟨cs', htext, ?_⟩
          unfold cutOther
          rw [if_neg hc, if_neg hquote, if_neg hquote', if_pos hword]
          exact hcut
        · cases h
          exact hp.elim

/-- A second character makes a longer mark or a comment of the first one. -/
def Joins (c d : Char) : Prop := c = '/' ∧ d = '/' ∨ Kind.ofMarkPair? c d ≠ none

theorem not_joins_of_startsWord {d : Char} (h : startsWord d = true ∨ d = '\n') : ¬ Joins c d := by
  rintro (⟨_, rfl⟩ | hpair)
  · exact absurd h (by decide)
  · exact hpair (ofMarkPair?_eq_none c h)

theorem cut_mark {kind : Kind} (hfiller : isFiller c = false) (hmark : Kind.ofMark? c = some kind)
    (hr : ∀ d ∈ r.head?, ¬ Joins c d) : cut c r = (lexeme kind none [c], r) := by
  have hsingle : ∀ cs, cutSingle c cs = (lexeme kind none [c], cs) := fun cs => by
    rw [cutSingle, hmark]
  unfold cut
  rw [if_neg (by simp [hfiller])]
  cases r with
  | nil => exact hsingle []
  | cons d rest =>
    have hd := hr d rfl
    have hpair : Kind.ofMarkPair? c d = none := Classical.not_not.mp fun h => hd (.inr h)
    dsimp only
    rw [if_neg fun h => hd (.inl h), hpair]
    exact hsingle (d :: rest)

/-- A text with the same front does not lengthen a mark either. -/
theorem not_joins_congr (hfront : SameFront r r') (h : ∀ d ∈ r.head?, ¬ Joins c d) :
    ∀ d ∈ r'.head?, ¬ Joins c d := by
  cases hfront with
  | nil => nofun
  | same => exact h
  | lineEnd =>
    rintro _ ⟨⟩
    exact not_joins_of_startsWord (.inr rfl)
  | letter _ hletter =>
    rintro _ ⟨⟩
    exact not_joins_of_startsWord (.inl hletter)

theorem cut_pair {d : Char} {kind : Kind} (hfiller : isFiller c = false)
    (hcomment : ¬ (c = '/' ∧ d = '/')) (hpair : Kind.ofMarkPair? c d = some kind)
    (rest : List Char) : cut c (d :: rest) = (lexeme kind none [c, d], rest) := by
  unfold cut
  rw [if_neg (by simp [hfiller])]
  dsimp only
  rw [if_neg hcomment, hpair]

theorem cut_comment (rest : List Char) :
    cut '/' ('/' :: rest) = (gap ('/' :: '/' :: rest.takeWhile (· != '\n')),
      rest.dropWhile (· != '\n')) := rfl

/-- What begins with a mark is cut off in the same way. -/
theorem leads_congr_of_mark {kind : Kind} (hfiller : isFiller c = false)
    (hmark : Kind.ofMark? c = some kind) (hcut : cut c cs = (p, r)) (hfront : SameFront r r') :
    p.Leads r' := by
  by_cases hjoin : ∀ d ∈ cs.head?, ¬ Joins c d
  · rw [cut_mark hfiller hmark hjoin] at hcut
    cases hcut
    exact ⟨c, r', rfl, cut_mark hfiller hmark (not_joins_congr hfront hjoin)⟩
  · simp only [Classical.not_forall, Classical.not_not] at hjoin
    obtain ⟨d, hd, hjoin⟩ := hjoin
    obtain ⟨rest, rfl⟩ := List.head?_eq_some_iff.mp hd
    by_cases hcomment : c = '/' ∧ d = '/'
    · obtain ⟨rfl, rfl⟩ := hcomment
      obtain ⟨w, s, rfl, hw, hs⟩ := exists_run (· != '\n') rest
      rw [cut_comment, takeWhile_append hw hs, dropWhile_append hw hs] at hcut
      cases hcut
      have hletter : ∀ c, startsWord c = true → (c != '\n') = true := by
        intro c hc
        rw [bne_iff_ne]
        rintro rfl
        exact absurd hc (by decide)
      have hs' := hfront.stops hletter rfl hs
      refine ⟨'/', '/' :: (w ++ r'), rfl, ?_⟩
      rw [cut_comment, takeWhile_append hw hs', dropWhile_append hw hs']
    · obtain ⟨pair, hpair⟩ := Option.ne_none_iff_exists'.mp (hjoin.resolve_left hcomment)
      rw [cut_pair hfiller hcomment hpair] at hcut
      cases hcut
      exact ⟨c, d :: r', rfl, cut_pair hfiller hcomment hpair r'⟩

/-- A piece that is cut off is not empty. -/
theorem Leads.text_ne_nil (h : p.Leads r) : p.text ≠ [] := by
  obtain ⟨c, cs, _, hcut⟩ := h
  have := cut_ne_nil c cs
  rwa [hcut] at this

/-- **A piece is cut off in the same way in front of any text with the same front.** Behind a number
the first character has to be the same, unless the first text ends there. -/
theorem Leads.congr (h : p.Leads r) (hp : p.IsClean) (hfront : SameFront r r')
    (hhead : p.isNumber = true → r'.head? = r.head? ∨ r = []) : p.Leads r' := by
  obtain ⟨c, cs, hcs, hcut⟩ := h
  by_cases hfiller : isFiller c = true
  · have hgap : ∀ cs, cut c cs = (gap [c], cs) := by
      intro cs
      unfold cut
      rw [if_pos hfiller]
    rw [hgap] at hcut
    cases hcut
    exact ⟨c, r', rfl, hgap r'⟩
  · rw [Bool.not_eq_true] at hfiller
    cases hmark : Kind.ofMark? c with
    | some kind => exact leads_congr_of_mark hfiller hmark hcut hfront
    | none =>
      rw [cut_of_ofMark?_eq_none hfiller hmark] at hcut
      obtain ⟨cs', htext, hcut'⟩ := cutOther_congr hcut hp hfront hhead
      exact ⟨c, cs', htext, (cut_of_ofMark?_eq_none hfiller hmark cs').trans hcut'⟩

end Piece

/-! ## Lists of pieces -/

/-- Every piece ends in front of those that follow. -/
def Separated : List Piece → Prop
  | [] => True
  | p :: ps => p.Leads (ps.flatMap Piece.text) ∧ Separated ps

/-- The pieces of a text are separated. -/
theorem separated_pieces (cs : List Char) : Separated (pieces cs) := by
  fun_induction pieces cs with
  | case1 => trivial
  | case2 c cs ih =>
    refine ⟨⟨c, cs, ?_, ?_⟩, ih⟩
    · rw [flatMap_text_pieces, Piece.cut_text]
    · rw [flatMap_text_pieces]

/-- Separated pieces are the pieces of their text. -/
theorem pieces_flatMap_text {ps : List Piece} (h : Separated ps) :
    pieces (ps.flatMap Piece.text) = ps := by
  induction ps with
  | nil => rw [List.flatMap_nil, pieces]
  | cons p ps ih =>
    obtain ⟨⟨c, cs, hcs, hcut⟩, hps⟩ := h
    rw [List.flatMap_cons, hcs, pieces, hcut, ih hps]

end RadixScript
