import RadixScript.Proofs.Pieces.Lexemes

/-!
# What pieces look like

A piece of a program text is skipped, a lexeme, an integer literal that is too long, or a fragment
that is rejected. `Skipped` and `Rejects` say without the scanner what the first and the last look
like, together with the text behind them, and `Piece.Leads.formed` says that the scanner cuts off
nothing else.

A fragment is rejected because no lexeme looks like it. That is taken from `Lexeme.leads`: what
looks like a lexeme would have been cut off as one.
-/

namespace RadixScript

/-! ## Text without a meaning, and rejected text -/

/-- The text is skipped when `rest` is behind it: a blank, or a comment up to the end of its
line. -/
inductive Skipped : List Char → List Char → Prop
  | blank {c : Char} (h : c ∈ blanks) (rest : List Char) : Skipped [c] rest
  | comment {text rest : List Char} (h : '\n' ∉ text) (hrest : ∀ c ∈ rest.head?, c = '\n') :
    Skipped ('/' :: '/' :: text) rest

/-- What stands between the quotes of a character literal, well formed or not. It has no quote in
it, but one may be escaped in front. -/
inductive QuotedBody : List Char → Prop
  | plain {body : List Char} (hfirst : body.head? ≠ some '\\') (h : '\'' ∉ body) : QuotedBody body
  | escaped (c : Char) {more : List Char} (h : '\'' ∉ more) : QuotedBody ('\\' :: c :: more)

/-- The text is rejected for the problem when `rest` is behind it. -/
inductive Rejects : LexicalProblem → List Char → List Char → Prop
  /-- No lexeme begins with the character. -/
  | unexpected {c : Char} (hblank : c ∉ blanks) (hlexeme : ∀ l : Lexeme, l.text.head? ≠ some c)
      (rest : List Char) : Rejects (.unexpected c) [c] rest
  | missingDigits (b : Base) {rest : List Char} (h : ∀ c ∈ rest.head?, b.isDigit c = false) :
      Rejects (.missingDigits b) b.tag.toList rest
  | openString {body : List Char} (h : '"' ∉ body) : Rejects .openString ('"' :: body) []
  /-- What is in quotes is not one character, nor an escape. -/
  | badCharacter {body : List Char} (h : QuotedBody body)
      (hlexeme : ∀ l : Lexeme, l.text ≠ '\'' :: body ++ ['\'']) (rest : List Char) :
      Rejects .badCharacter ('\'' :: body ++ ['\'']) rest
  /-- The text ends in front of the second quote, or within an escape. -/
  | openCharacter {body : List Char} (h : QuotedBody body ∨ body = ['\\']) :
      Rejects .openCharacter ('\'' :: body) []

namespace Piece

/-- A run of more digits than an integer may have. -/
def IsOverlong (text : List Char) : Prop :=
  Decimal.digitLimit < text.length ∧ ∀ c ∈ text, isDigit c = true

/-- The piece looks like what it is when `rest` is behind it. -/
def Formed : Piece → List Char → Prop
  | gap text, rest => Skipped text rest
  | lexeme kind _ _, _ => kind ≠ .endOfInput
  | overlong text, _ => IsOverlong text
  | rejected problem text, rest => Rejects problem text rest

variable {c : Char} {cs r w : List Char} {p : Piece}

/-! ## Blanks, comments and marks -/

theorem mem_blanks_iff : c ∈ blanks ↔ isFiller c = true := by
  simp only [blanks, isFiller, List.mem_cons, List.not_mem_nil, or_false, Bool.or_eq_true,
    decide_eq_true_eq]
  tauto

theorem not_mem_of_bne {d : Char} (h : ∀ c ∈ w, (c != d) = true) : d ∉ w :=
  fun hd => bne_iff_ne.mp (h d hd) rfl

theorem eq_of_bne_head {d : Char} (h : ∀ c ∈ r.head?, (c != d) = false) : ∀ c ∈ r.head?, c = d :=
  fun c hc => by simpa using h c hc

theorem ofMark?_ne_endOfInput {kind : Kind} (h : Kind.ofMark? c = some kind) :
    kind ≠ .endOfInput := by
  revert h
  fun_cases Kind.ofMark? c <;> rintro ⟨⟩ <;> decide

theorem ofMarkPair?_ne_endOfInput {d : Char} {kind : Kind} (h : Kind.ofMarkPair? c d = some kind) :
    kind ≠ .endOfInput := by
  revert h
  fun_cases Kind.ofMarkPair? c d <;> rintro ⟨⟩ <;> decide

theorem ofWord_ne_endOfInput (word : String) : Kind.ofWord word ≠ .endOfInput := by
  fun_cases Kind.ofWord word <;> decide

theorem formed_of_mark {kind : Kind} (hfiller : isFiller c = false)
    (hmark : Kind.ofMark? c = some kind) (cs : List Char) : (cut c cs).1.Formed (cut c cs).2 := by
  by_cases hjoin : ∀ d ∈ cs.head?, ¬ Joins c d
  · rw [cut_mark hfiller hmark hjoin]
    exact ofMark?_ne_endOfInput hmark
  · simp only [Classical.not_forall, Classical.not_not] at hjoin
    obtain ⟨d, hd, hjoin⟩ := hjoin
    obtain ⟨rest, rfl⟩ := List.head?_eq_some_iff.mp hd
    by_cases hcomment : c = '/' ∧ d = '/'
    · obtain ⟨rfl, rfl⟩ := hcomment
      obtain ⟨w, r, rfl, hw, hr⟩ := exists_run (· != '\n') rest
      rw [cut_comment, takeWhile_append hw hr, dropWhile_append hw hr]
      exact .comment (not_mem_of_bne hw) (eq_of_bne_head hr)
    · obtain ⟨pair, hpair⟩ := Option.ne_none_iff_exists'.mp (hjoin.resolve_left hcomment)
      rw [cut_pair hfiller hcomment hpair]
      exact ofMarkPair?_ne_endOfInput hpair

/-! ## Numbers -/

theorem formed_of_cutNumber (hc : isDigit c = true) (cs : List Char) :
    (cutNumber c cs).1.Formed (cutNumber c cs).2 := by
  obtain ⟨w, r, rfl, hw, hr⟩ := exists_run isDigit cs
  rcases noFraction_or r with hfraction | ⟨d, more, rfl, hd⟩
  · rw [cutNumber_integer hw hr hfraction]
    split
    · rintro ⟨⟩
    · next hlength =>
      exact ⟨Nat.lt_of_not_le hlength, List.forall_mem_cons.mpr ⟨hc, hw⟩⟩
  · obtain ⟨fraction, r, rfl, hfraction, hr⟩ := exists_run isDigit more
    rw [cutNumber_fraction hw hd hfraction hr]
    rintro ⟨⟩

theorem formed_of_cutNumeral {b : Base} {letter : Char} (hb : Base.ofLetter? letter = some b)
    (cs : List Char) : (cutNumeral b letter cs).1.Formed (cutNumeral b letter cs).2 := by
  obtain ⟨w, r, rfl, hw, hr⟩ := exists_run b.isDigit cs
  unfold cutNumeral
  simp only [takeWhile_append hw hr, dropWhile_append hw hr]
  split
  · cases b <;> rintro ⟨⟩
  · next hdigits =>
    -- no digit was read, so none is there
    have hnil : b.digitsOf w = [] := by
      by_contra hne
      rw [Numeral.ofDigits?, dif_pos hne] at hdigits
      cases hdigits
    have hw : w = [] := by
      rw [← List.length_eq_zero_iff, ← Base.length_digitsOf hw, hnil, List.length_nil]
    have hletter : letter = b.letter := by
      revert hb
      fun_cases Base.ofLetter? letter <;> rintro ⟨⟩ <;> rfl
    subst hw hletter
    have htag : b.tag.toList = ['0', b.letter] := String.toList_ofList
    show Rejects _ ['0', b.letter] r
    rw [← htag]
    exact .missingDigits b hr

/-! ## Texts and characters in quotes -/

theorem formed_of_cutString (cs : List Char) : (cutString cs).1.Formed (cutString cs).2 := by
  obtain ⟨w, r, rfl, hw, hr⟩ := exists_run (· != '"') cs
  unfold cutString
  simp only [takeWhile_append hw hr, dropWhile_append hw hr]
  cases r with
  | nil => exact .openString (not_mem_of_bne hw)
  | cons quote rest => rintro ⟨⟩

/-- The head of a character literal and what is in front of the next quote are in quotes, unless
the text ends within an escape. -/
theorem quotedBody_of_characterHead {value? : Option Char} {head : List Char}
    (h : characterHead cs = (value?, head, w ++ r)) (hw : '\'' ∉ w) :
    QuotedBody (head ++ w) ∨ head ++ w = ['\\'] ∧ r = [] := by
  revert h
  fun_cases characterHead cs <;> intro h <;> simp only [Prod.mk.injEq] at h
  case case1 =>
    obtain ⟨-, rfl, hnil⟩ := h
    obtain ⟨rfl, rfl⟩ := List.append_eq_nil_iff.mp hnil.symm
    exact .inl (.plain (by simp) hw)
  case case2 =>
    obtain ⟨-, rfl, hnil⟩ := h
    obtain ⟨rfl, rfl⟩ := List.append_eq_nil_iff.mp hnil.symm
    exact .inr ⟨rfl, rfl⟩
  case case3 c rest =>
    obtain ⟨-, rfl, -⟩ := h
    exact .inl (.escaped c hw)
  case case4 c rest _ _ hc =>
    -- nothing was taken as the head, and the first character is a quote or a line end
    obtain ⟨-, rfl, hrest⟩ := h
    refine .inl (.plain ?_ hw)
    cases w with
    | nil => simp
    | cons d w =>
      obtain ⟨rfl, -⟩ := List.cons.inj hrest
      rcases hc with rfl | rfl <;> simp
  case case5 c rest hend hescape hc =>
    obtain ⟨-, rfl, -⟩ := h
    have hbackslash : c ≠ '\\' := by
      rintro rfl
      cases rest with
      | nil => exact hend rfl rfl
      | cons d rest => exact hescape d rest rfl rfl
    refine .inl (.plain (by simpa using hbackslash) ?_)
    exact List.not_mem_cons_of_ne_of_not_mem (fun hquote => hc (.inl hquote.symm)) hw

/-- What looks like a lexeme in quotes is cut off as one. -/
theorem text_ne_of_badCharacter {body text : List Char}
    (h : cutCharacter (body ++ '\'' :: r) = (rejected .badCharacter text, r)) (l : Lexeme) :
    l.text ≠ '\'' :: body ++ ['\''] := by
  intro htext
  obtain ⟨c, cs, hcs, hcut⟩ := l.leads (r := []) nofun
  have hpiece : l.piece.text = '\'' :: (body ++ ['\'']) := htext
  rw [List.append_nil, hpiece] at hcs
  obtain ⟨rfl, rfl⟩ := List.cons.inj hcs
  have hcut' : cutCharacter (body ++ ['\'']) = (l.piece, []) :=
    (cut_of_ofMark?_eq_none rfl rfl _).symm.trans hcut
  obtain ⟨cs, hcs, hlexeme⟩ := cutCharacter_congr hcut' trivial r
  rw [hpiece, List.cons_append, List.append_assoc] at hcs
  obtain ⟨-, rfl⟩ := List.cons.inj hcs
  rw [List.singleton_append, h] at hlexeme
  cases hlexeme

theorem formed_of_cutCharacter (cs : List Char) :
    (cutCharacter cs).1.Formed (cutCharacter cs).2 := by
  rcases hhead : characterHead cs with ⟨value?, head, rest⟩
  obtain ⟨w, r, rfl, hw, hr⟩ := exists_run (· != '\'') rest
  have hcs : (head ++ w) ++ r = cs := by
    have htext := characterHead_text cs
    rwa [hhead, ← List.append_assoc] at htext
  have hbody := quotedBody_of_characterHead hhead (not_mem_of_bne hw)
  rcases hcut : cutCharacter cs with ⟨p, behind⟩
  have hbad := hcut
  unfold cutCharacter at hcut
  rw [hhead] at hcut
  simp only [takeWhile_append hw hr, dropWhile_append hw hr] at hcut
  cases r with
  | nil =>
    cases hcut
    exact .openCharacter (hbody.imp_right And.left)
  | cons quote after =>
    obtain rfl : quote = '\'' := eq_of_bne_head hr _ rfl
    dsimp only at hcut
    split at hcut
    · cases hcut
      rintro ⟨⟩
    · cases hcut
      rw [← hcs] at hbad
      have hclosed := hbody.resolve_right fun h => List.cons_ne_nil _ _ h.2
      exact .badCharacter hclosed (text_ne_of_badCharacter hbad) _

/-! ## All pieces -/

/-- No lexeme begins with a character that is cut off alone. -/
theorem head_ne_of_unexpected (h : ∀ cs, cut c cs = (rejected (.unexpected c) [c], cs))
    (l : Lexeme) : l.text.head? ≠ some c := by
  intro hhead
  obtain ⟨c', cs, hcs, hcut⟩ := l.leads (r := []) nofun
  have htext : l.text = c' :: cs := by rw [← hcs, List.append_nil]; rfl
  rw [htext] at hhead
  cases hhead
  rw [h] at hcut
  cases hcut

theorem formed_of_cutOther (hfiller : isFiller c = false) (hmark : Kind.ofMark? c = none)
    (cs : List Char) : (cutOther c cs).1.Formed (cutOther c cs).2 := by
  by_cases hc : isDigit c = true
  · by_cases htag : Untagged c cs
    · rw [cutOther_number hc htag]
      exact formed_of_cutNumber hc cs
    · simp only [Untagged, Classical.not_imp, Classical.not_forall] at htag
      obtain ⟨rfl, letter, hletter, hb⟩ := htag
      obtain ⟨b, hb⟩ := Option.ne_none_iff_exists'.mp hb
      obtain ⟨rest, rfl⟩ := List.head?_eq_some_iff.mp hletter
      rw [cutOther_numeral hb]
      exact formed_of_cutNumeral hb rest
  · have hother : ∀ cs, cutOther c cs = if c = '"' then cutString cs
        else if c = '\'' then cutCharacter cs
        else if startsWord c then cutWord c cs
        else (rejected (.unexpected c) [c], cs) := by
      intro cs
      unfold cutOther
      rw [if_neg hc]
    rw [hother]
    split
    · exact formed_of_cutString cs
    · next hstring =>
      split
      · exact formed_of_cutCharacter cs
      · next hquote =>
        split
        · exact ofWord_ne_endOfInput _
        · next hword =>
          refine .unexpected ?_ (head_ne_of_unexpected fun cs => ?_) cs
          · rw [mem_blanks_iff, hfiller]
            exact Bool.false_ne_true
          · rw [cut_of_ofMark?_eq_none hfiller hmark, hother, if_neg hstring, if_neg hquote,
              if_neg hword]

/-- **What the scanner cuts off looks like what it is.** -/
theorem Leads.formed (h : p.Leads r) : p.Formed r := by
  obtain ⟨c, cs, -, hcut⟩ := h
  have hformed : (cut c cs).1.Formed (cut c cs).2 := by
    by_cases hfiller : isFiller c = true
    · unfold cut
      rw [if_pos hfiller]
      exact .blank (mem_blanks_iff.mpr hfiller) cs
    · rw [Bool.not_eq_true] at hfiller
      cases hmark : Kind.ofMark? c with
      | some kind => exact formed_of_mark hfiller hmark cs
      | none =>
        rw [cut_of_ofMark?_eq_none hfiller hmark]
        exact formed_of_cutOther hfiller hmark cs
  rwa [hcut] at hformed

end Piece

theorem Separated.leads {front back : List Piece} {p : Piece}
    (h : Separated (front ++ p :: back)) : p.Leads (back.flatMap Piece.text) := by
  induction front with
  | nil => exact h.1
  | cons q front ih => exact ih h.2

theorem isOverlong_of_mem_pieces {cs text : List Char} (h : .overlong text ∈ pieces cs) :
    Piece.IsOverlong text := by
  obtain ⟨front, back, hsplit⟩ := List.append_of_mem h
  have hseparated := separated_pieces cs
  rw [hsplit] at hseparated
  exact hseparated.leads.formed

end RadixScript
