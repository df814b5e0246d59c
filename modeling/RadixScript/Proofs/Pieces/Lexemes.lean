import Mathlib.Data.Nat.Digits.Defs
import RadixScript.Proofs.Renaming.Texts

/-!
# Lexemes as they are written

A `Lexeme` carries what makes it well formed, and its kind, its text and its value are given in
terms of that, without the scanner. `Lexeme.leads` says that the scanner finds just these. The only
thing to know about the text behind a lexeme is that it is empty or begins with a blank: no lexeme
goes on there, though many could go on with other characters.
-/

namespace RadixScript

/-! ## Lexemes -/

/-- How the marks and words of the language are spelled. -/
def Kind.spelling? : Kind → Option String
  | leftParen => some "("
  | rightParen => some ")"
  | leftBrace => some "\x7b"
  | rightBrace => some "\x7d"
  | comma => some ","
  | dot => some "."
  | minus => some "-"
  | plus => some "+"
  | semicolon => some ";"
  | star => some "*"
  | percent => some "%"
  | slash => some "/"
  | bang => some "!"
  | equal => some "="
  | less => some "<"
  | greater => some ">"
  | bitwiseOr => some "|"
  | bitwiseAnd => some "&"
  | bangEqual => some "!="
  | equalEqual => some "=="
  | lessEqual => some "<="
  | greaterEqual => some ">="
  | logicalOr => some "||"
  | logicalAnd => some "&&"
  | doWord => some "do"
  | elseWord => some "else"
  | falseWord => some "false"
  | ifWord => some "if"
  | letWord => some "let"
  | nullWord => some "null"
  | returnWord => some "return"
  | trueWord => some "true"
  | namespaceWord => some "namespace"
  | boolType => some "boolean"
  | hexType => some "hex"
  | binType => some "bin"
  | charType => some "char"
  | stringType => some "string"
  | intType => some "int"
  | floatType => some "float"
  | intLiteral | floatLiteral | hexLiteral | binLiteral | stringLiteral | charLiteral | identifier
  | endOfInput => none

/-- The escapes of character literals. -/
inductive Escape where
  | lineFeed | tab | carriageReturn | null | backslash | quote | doubleQuote
deriving DecidableEq, Repr

namespace Escape

/-- The character behind the backslash. -/
def letter : Escape → Char
  | lineFeed => 'n'
  | tab => 't'
  | carriageReturn => 'r'
  | null => '0'
  | backslash => '\\'
  | quote => '\''
  | doubleQuote => '"'

/-- The character that the escape stands for. -/
def value : Escape → Char
  | lineFeed => '\n'
  | tab => '\t'
  | carriageReturn => '\r'
  | null => '\x00'
  | backslash => '\\'
  | quote => '\''
  | doubleQuote => '"'

end Escape

/-- A well-formed lexeme. -/
inductive Lexeme where
  /-- A mark, a keyword or a type word. -/
  | fixed (kind : Kind) (spelling : String) (h : kind.spelling? = some spelling)
  /-- An ASCII identifier. -/
  | identifier (first : Char) (rest : List Char) (hfirst : first.isAlpha ∨ first = '_')
    (hrest : ∀ c ∈ rest, c.isAlphanum ∨ c = '_')
    (hfree : ∀ kind : Kind, kind.spelling? ≠ some (String.ofList (first :: rest)))
  | integer (digits : List (Fin 10)) (hne : digits ≠ []) (hlimit : digits.length ≤ 4300)
  | fraction (whole behind : List (Fin 10)) (hwhole : whole ≠ []) (hbehind : behind ≠ [])
  /-- A tagged numeral. In upper case, what is written are the digits of the numeral. -/
  | numeral (x : Numeral) (written : List Char)
    (h : written.map Char.toUpper = x.digitText.toList)
  | string (body : List Char) (h : '"' ∉ body)
  | character (c : Char) (h : c ≠ '\'' ∧ c ≠ '\\' ∧ c ≠ '\n')
  | escape (e : Escape)

/-- How decimal digits are written. -/
def digitTexts (digits : List (Fin 10)) : List Char := digits.map fun d => Nat.digitChar d.val

/-- The number that decimal digits stand for, the first one being the most significant. -/
def digitsValue (digits : List (Fin 10)) : Nat := Nat.ofDigits 10 (digits.reverse.map Fin.val)

namespace Lexeme

def kind : Lexeme → Kind
  | fixed kind _ _ => kind
  | identifier _ _ _ _ _ => .identifier
  | integer _ _ _ => .intLiteral
  | fraction _ _ _ _ => .floatLiteral
  | numeral x _ _ =>
    match x.base with
    | .hexadecimal => .hexLiteral
    | .binary => .binLiteral
  | string _ _ => .stringLiteral
  | character _ _ | escape _ => .charLiteral

/-- How the lexeme is written. -/
def text : Lexeme → List Char
  | fixed _ spelling _ => spelling.toList
  | identifier first rest _ _ _ => first :: rest
  | integer digits _ _ => digitTexts digits
  | fraction whole behind _ _ => digitTexts whole ++ '.' :: digitTexts behind
  | numeral x written _ => '0' :: x.base.letter :: written
  | string body _ => '"' :: body ++ ['"']
  | character c _ => ['\'', c, '\'']
  | escape e => ['\'', '\\', e.letter, '\'']

/-- The value of the lexeme, if it is a literal. -/
def literal : Lexeme → Option Literal
  | fixed _ _ _ | identifier _ _ _ _ _ => none
  | integer digits _ _ => some (.int (digitsValue digits))
  | fraction whole behind _ _ =>
    some (.float (.ofScientific (digitsValue (whole ++ behind)) true behind.length))
  | numeral x _ _ => some (.numeral x)
  | string body _ => some (.text (String.ofList body))
  | character c _ => some (.text (String.singleton c))
  | escape e => some (.text (String.singleton e.value))

/-- The token of the lexeme, when it is written behind a text. -/
def tokenAfter (l : Lexeme) (before : List Char) : Token where
  kind := l.kind
  text := String.ofList l.text
  literal := l.literal
  line := 1 + before.count '\n'
  start := before.length
  stop := before.length + l.text.length

end Lexeme

/-! ## What no lexeme goes on with -/

/-- The characters that a separator can begin with. -/
def blanks : List Char := [' ', '\t', '\r', '\n', '$']

theorem forall_mem_blanks {P : Char → Prop} :
    (∀ c ∈ blanks, P c) ↔ P ' ' ∧ P '\t' ∧ P '\r' ∧ P '\n' ∧ P '$' := by
  simp only [blanks, List.forall_mem_cons, List.not_mem_nil, false_imp_iff, forall_true_iff,
    and_true]

/-- The text is empty or begins with a blank. -/
def Piece.Stops (r : List Char) : Prop := ∀ c ∈ r.head?, c ∈ blanks

namespace Piece

variable {r w : List Char} {c : Char}

/-- A run of characters ends in front of a blank. -/
theorem Stops.head {f : Char → Bool} (h : Stops r) (hf : ∀ c ∈ blanks, f c = false) :
    ∀ c ∈ r.head?, f c = false := fun c hc => hf c (h c hc)

theorem not_joins_of_mem_blanks (c : Char) {d : Char} (h : d ∈ blanks) : ¬ Joins c d := by
  rintro (⟨_, rfl⟩ | hpair)
  · exact absurd h (by decide)
  · refine hpair ?_
    fun_cases Kind.ofMarkPair? c d
    case case7 => rfl
    all_goals exact absurd h (by decide)

theorem Stops.noDigit (h : Stops r) : ∀ c ∈ r.head?, isDigit c = false :=
  h.head (forall_mem_blanks.mpr (by decide))

theorem Stops.noFraction (h : Stops r) : NoFraction r := by
  rintro d more rfl
  exact absurd (h '.' rfl) (by decide)

/-! ## Lexemes in front of blanks -/

theorem leads_mark {kind : Kind} (hmark : Kind.ofMark? c = some kind) (h : Stops r) :
    (lexeme kind none [c]).Leads r := by
  have hfiller : isFiller c = false := by
    revert hmark
    fun_cases Kind.ofMark? c <;> intro hmark
    case case19 => cases hmark
    all_goals decide
  exact ⟨c, r, rfl, cut_mark hfiller hmark fun d hd => not_joins_of_mem_blanks c (h d hd)⟩

theorem leads_pair {d : Char} {kind : Kind} (hpair : Kind.ofMarkPair? c d = some kind)
    (r : List Char) : (lexeme kind none [c, d]).Leads r := by
  have hfirst : isFiller c = false ∧ ¬ (c = '/' ∧ d = '/') := by
    revert hpair
    fun_cases Kind.ofMarkPair? c d <;> intro hpair
    case case7 => cases hpair
    all_goals decide
  exact ⟨c, d :: r, rfl, cut_pair hfirst.1 hfirst.2 hpair r⟩

theorem leads_word (hc : startsWord c = true) (hw : ∀ d ∈ w, continuesWord d = true)
    (h : Stops r) :
    (lexeme (Kind.ofWord (String.ofList (c :: w))) none (c :: w)).Leads r := by
  have hr := h.head (f := continuesWord) (forall_mem_blanks.mpr (by decide))
  refine ⟨c, w ++ r, rfl, ?_⟩
  rw [cut_of_startsWord hc, cutWord, takeWhile_append hw hr, dropWhile_append hw hr]

end Piece

/-- A spelling is a mark of one character, a mark of two characters, or a word of this kind. -/
theorem Kind.spelling_cases {kind : Kind} {spelling : String}
    (h : kind.spelling? = some spelling) :
    (spelling.toList.length = 1 ∧ Kind.ofMark? (spelling.toList.headD ' ') = some kind) ∨
    (spelling.toList.length = 2 ∧
      Kind.ofMarkPair? (spelling.toList.headD ' ') (spelling.toList.getD 1 ' ') = some kind) ∨
    ((spelling.toList.head?.any Piece.startsWord) = true ∧
      spelling.toList.tail.all Piece.continuesWord = true ∧ Kind.ofWord spelling = kind) := by
  cases kind <;> cases h <;> decide

theorem Kind.leads_of_spelling {kind : Kind} {spelling : String} {r : List Char}
    (h : kind.spelling? = some spelling) (hr : Piece.Stops r) :
    (Piece.lexeme kind none spelling.toList).Leads r := by
  rcases Kind.spelling_cases h with ⟨hlength, hmark⟩ | ⟨hlength, hpair⟩ | ⟨hfirst, hrest, hkind⟩
  · obtain ⟨c, hc⟩ := List.length_eq_one_iff.mp hlength
    rw [hc] at hmark ⊢
    exact Piece.leads_mark hmark hr
  · obtain ⟨c, d, hcd⟩ := List.length_eq_two.mp hlength
    rw [hcd] at hpair ⊢
    exact Piece.leads_pair hpair r
  · cases hcs : spelling.toList with
    | nil =>
      rw [hcs] at hfirst
      cases hfirst
    | cons c cs =>
      rw [hcs] at hfirst hrest
      have hcs' : ∀ d ∈ cs, Piece.continuesWord d = true := List.all_eq_true.mp hrest
      have hword := Piece.leads_word (c := c) hfirst hcs' hr
      rwa [← hcs, String.ofList_toList, hkind, hcs] at hword

/-- A word that is spelled like no keyword is an identifier. -/
theorem Kind.ofWord_eq_identifier {word : String} (h : ∀ kind : Kind, kind.spelling? ≠ some word) :
    Kind.ofWord word = .identifier := by
  have hspelled : Kind.ofWord word = .identifier ∨ (Kind.ofWord word).spelling? = some word := by
    fun_cases Kind.ofWord word
    case case17 => exact .inl rfl
    all_goals exact .inr rfl
  exact hspelled.resolve_right (h _)

theorem Piece.startsWord_of_isAlpha {c : Char} (h : c.isAlpha ∨ c = '_') :
    startsWord c = true := by
  rcases h with h | rfl
  · have hcase : (c.isUpper || c.isLower) = true := h
    simp only [startsWord, Bool.or_eq_true, Bool.and_eq_true, decide_eq_true_eq]
    rcases Bool.or_eq_true_iff.mp hcase with hupper | hlower
    · exact .inr (of_decide_eq_true hupper)
    · have hrange : (decide ('a'.val ≤ c.val) && decide (c.val ≤ 'z'.val)) = true := hlower
      obtain ⟨ha, hz⟩ := Bool.and_eq_true_iff.mp hrange
      exact .inl (.inr ⟨of_decide_eq_true ha, of_decide_eq_true hz⟩)
  · rfl

theorem Piece.continuesWord_of_isAlphanum {c : Char} (h : c.isAlphanum ∨ c = '_') :
    continuesWord c = true := by
  rw [continuesWord, Bool.or_eq_true]
  rcases h with h | h
  · rw [Char.isAlphanum, Bool.or_eq_true] at h
    rcases h with h | h
    · exact .inl (startsWord_of_isAlpha (.inl h))
    · right
      simp only [Char.isDigit, Bool.and_eq_true, decide_eq_true_eq] at h
      simp only [isDigit, Bool.and_eq_true, decide_eq_true_eq]
      exact h
  · exact .inl (startsWord_of_isAlpha (.inr h))

/-! ### Decimal numbers -/

theorem isDigit_of_mem_digitTexts {digits : List (Fin 10)} :
    ∀ c ∈ digitTexts digits, Piece.isDigit c = true := by
  have hall : ∀ d : Fin 10, Piece.isDigit (Nat.digitChar d.val) = true := by decide
  intro c hc
  obtain ⟨d, -, rfl⟩ := List.mem_map.mp hc
  exact hall d

/-- The scanner reads digits as the number that they stand for. -/
theorem natural_digitTexts (digits : List (Fin 10)) :
    Piece.natural (digitTexts digits) = digitsValue digits := by
  have hvalue : ∀ d : Fin 10, (Nat.digitChar d.val).toNat - 0x30 = d.val := by decide
  have hdigits : (digitTexts digits).map (fun c => c.toNat - 0x30) = digits.map Fin.val := by
    rw [digitTexts, List.map_map]
    exact List.map_congr_left fun d _ => hvalue d
  rw [Piece.natural, hdigits, Decimal.ofDigits, digitsValue, Nat.ofDigits_eq_foldr,
    List.map_reverse, List.foldr_reverse]
  simp only [Nat.cast_id, Nat.add_comm]

namespace Piece

variable {r w : List Char} {c : Char}

/-- What begins with a digit, and with no tag, is cut as a decimal number. -/
theorem cut_of_isDigit (hc : isDigit c = true) {cs : List Char} (h : Untagged c cs) :
    cut c cs = cutNumber c cs := by
  have hword : continuesWord c = true := by rw [continuesWord, hc, Bool.or_true]
  rw [cut_of_continuesWord hword, cutOther_number hc h]

/-- Digits with a point or a blank behind them have no tag. -/
theorem untagged_digits (hw : ∀ d ∈ w, isDigit d = true)
    (hr : ∀ d ∈ r.head?, Base.ofLetter? d = none) : Untagged c (w ++ r) := by
  intro _
  cases w with
  | nil => exact hr
  | cons d w =>
    rintro _ ⟨⟩
    exact ofLetter?_of_isDigit (hw d List.mem_cons_self)

theorem leads_integer {digits : List (Fin 10)} (hne : digits ≠ []) (hlimit : digits.length ≤ 4300)
    (h : Stops r) :
    (lexeme .intLiteral (some (.int (digitsValue digits))) (digitTexts digits)).Leads r := by
  obtain ⟨c, w, hcw⟩ := List.exists_cons_of_ne_nil (l := digitTexts digits) (by simpa [digitTexts])
  have hdigits : ∀ d ∈ c :: w, isDigit d = true := hcw ▸ isDigit_of_mem_digitTexts
  obtain ⟨hc, hw⟩ := List.forall_mem_cons.mp hdigits
  have hlength : (c :: w).length ≤ Decimal.digitLimit := by
    rw [← hcw, digitTexts, List.length_map]
    exact hlimit
  have hletter : ∀ d ∈ r.head?, Base.ofLetter? d = none := by
    have hblank : ∀ d ∈ blanks, Base.ofLetter? d = none := forall_mem_blanks.mpr (by decide)
    exact fun d hd => hblank d (h d hd)
  refine ⟨c, w ++ r, by rw [text, hcw]; rfl, ?_⟩
  rw [cut_of_isDigit hc (untagged_digits hw hletter), cutNumber_integer hw h.noDigit h.noFraction,
    if_pos hlength, ← hcw, natural_digitTexts]

theorem leads_fraction {whole behind : List (Fin 10)} (hwhole : whole ≠ []) (hbehind : behind ≠ [])
    (h : Stops r) :
    (lexeme .floatLiteral
      (some (.float (.ofScientific (digitsValue (whole ++ behind)) true behind.length)))
      (digitTexts whole ++ '.' :: digitTexts behind)).Leads r := by
  obtain ⟨c, w, hcw⟩ := List.exists_cons_of_ne_nil (l := digitTexts whole) (by simpa [digitTexts])
  obtain ⟨d, v, hdv⟩ := List.exists_cons_of_ne_nil (l := digitTexts behind) (by simpa [digitTexts])
  have hdigits : ∀ x ∈ c :: w, isDigit x = true := hcw ▸ isDigit_of_mem_digitTexts
  have hdigits' : ∀ x ∈ d :: v, isDigit x = true := hdv ▸ isDigit_of_mem_digitTexts
  obtain ⟨hc, hw⟩ := List.forall_mem_cons.mp hdigits
  obtain ⟨hd, hv⟩ := List.forall_mem_cons.mp hdigits'
  have hvalue : natural (c :: w ++ d :: v) = digitsValue (whole ++ behind) := by
    rw [← hcw, ← hdv, ← natural_digitTexts, digitTexts, digitTexts, digitTexts, List.map_append]
  have hcount : (d :: v).length = behind.length := by
    rw [← hdv, digitTexts, List.length_map]
  have hpoint : ∀ x ∈ ('.' :: d :: (v ++ r)).head?, Base.ofLetter? x = none := by
    rintro _ ⟨⟩
    rfl
  refine ⟨c, w ++ '.' :: d :: (v ++ r), ?_, ?_⟩
  · rw [text, hcw, hdv, List.append_assoc]
    rfl
  · rw [cut_of_isDigit hc (untagged_digits hw hpoint),
      cutNumber_fraction hw hd hv h.noDigit, hvalue, hcount, hcw, hdv]

end Piece

/-! ### Tagged numerals -/

/-- The digits of either case have one upper-case partner. -/
theorem Text.upperChar_of_digitOf? {c : Char} (hc : c.toNat < 128)
    (h : (digitOf? c.toUpper).isSome = true) : upperChar c = [c.toUpper] := by
  have hall : ∀ n < 128, (digitOf? (Char.ofNat n).toUpper).isSome = true →
      upperChar (Char.ofNat n) = [(Char.ofNat n).toUpper] := by decide +kernel
  have hupper := hall c.toNat hc
  rw [Char.ofNat_toNat] at hupper
  exact hupper h

theorem toNat_lt_of_toUpper {c : Char} (h : c.toUpper.toNat < 128) : c.toNat < 128 := by
  by_cases hlower : 'a'.val ≤ c.val ∧ c.val ≤ 'z'.val
  · have hz : c.val.toNat ≤ 'z'.val.toNat := hlower.2
    exact Nat.lt_of_le_of_lt hz (by decide)
  · have hsame : c.toUpper = c := dif_neg hlower
    rwa [hsame] at h

theorem toNat_digitChar_lt {n : Nat} (h : n < 16) : (digitChar n).toNat < 128 := by
  have hall : ∀ n < 16, (digitChar n).toNat < 128 := by decide
  exact hall n h

namespace Base

variable {b : Base} {c : Char}

/-- A digit is read in either case. -/
theorem digitAnyCase?_of_toUpper {d : Fin b.radix} (h : c.toUpper = digitChar d.val) :
    b.digitAnyCase? c = some d := by
  have hdigit : d.val < 16 := Nat.lt_of_lt_of_le d.isLt b.radix_le_sixteen
  have hascii : c.toNat < 128 := toNat_lt_of_toUpper (h ▸ toNat_digitChar_lt hdigit)
  have hvalue : (digitOf? c.toUpper).isSome = true := by rw [h, digitOf?_digitChar hdigit]; rfl
  rw [digitAnyCase?, Text.upperChar_of_digitOf? hascii hvalue, h]
  exact digit?_digitChar b d

/-- What is written in either case is read digit by digit. -/
theorem digitsOf_of_toUpper {written : List Char} {ds : List (Fin b.radix)}
    (h : written.map Char.toUpper = ds.map fun d => digitChar d.val) :
    (∀ c ∈ written, b.isDigit c = true) ∧ b.digitsOf written = ds := by
  induction written generalizing ds with
  | nil =>
    rw [List.map_nil, eq_comm, List.map_eq_nil_iff] at h
    exact ⟨nofun, h ▸ rfl⟩
  | cons c written ih =>
    cases ds with
    | nil => cases h
    | cons d ds =>
      obtain ⟨hc, hwritten⟩ := List.cons.inj h
      obtain ⟨hdigits, hvalues⟩ := ih hwritten
      have hd := digitAnyCase?_of_toUpper hc
      refine ⟨List.forall_mem_cons.mpr ⟨by rw [isDigit, hd]; rfl, hdigits⟩, ?_⟩
      rw [digitsOf, List.filterMap_cons_some hd, ← digitsOf, hvalues]

theorem isDigit_of_mem_blanks (b : Base) : ∀ c ∈ blanks, b.isDigit c = false := by
  rw [forall_mem_blanks]
  cases b <;> decide

end Base

namespace Piece

variable {r : List Char}

theorem leads_numeral {x : Numeral} {written : List Char}
    (hwritten : written.map Char.toUpper = x.digitText.toList) (h : Stops r) :
    (lexeme (.ofBase x.base) (some (.numeral x)) ('0' :: x.base.letter :: written)).Leads r := by
  rw [Numeral.digitText, String.toList_ofList] at hwritten
  obtain ⟨hdigits, hvalues⟩ := Base.digitsOf_of_toUpper hwritten
  have hletter : Base.ofLetter? x.base.letter = some x.base := by cases x.base <;> rfl
  have hr := h.head x.base.isDigit_of_mem_blanks
  refine ⟨'0', x.base.letter :: (written ++ r), rfl, ?_⟩
  rw [cut_of_ofMark?_eq_none rfl rfl, cutOther_numeral hletter, cutNumeral]
  simp only [takeWhile_append hdigits hr, dropWhile_append hdigits hr, hvalues]
  rw [Numeral.ofDigits?, dif_pos x.digits_ne_nil]

/-! ### Texts and characters in quotes -/

/-- A run up to a character goes through a text in which it does not occur. -/
theorem bne_of_mem {w : List Char} {c : Char} (h : c ∉ w) : ∀ d ∈ w, (d != c) = true := by
  intro d hd
  rw [bne_iff_ne]
  rintro rfl
  exact h hd

theorem bne_of_head (c : Char) (r : List Char) : ∀ d ∈ (c :: r).head?, (d != c) = false := by
  rintro _ ⟨⟩
  exact bne_self_eq_false c

theorem leads_string {body : List Char} (hbody : '"' ∉ body) (r : List Char) :
    (lexeme .stringLiteral (some (.text (String.ofList body))) ('"' :: body ++ ['"'])).Leads r := by
  have hrun := bne_of_mem hbody
  have hquote := bne_of_head '"' r
  refine ⟨'"', body ++ '"' :: r, by simp [text], ?_⟩
  have hcut : cut '"' (body ++ '"' :: r) = cutString (body ++ '"' :: r) :=
    cut_of_ofMark?_eq_none rfl rfl _
  rw [hcut, cutString]
  simp only [takeWhile_append hrun hquote, dropWhile_append hrun hquote]

/-- What is read as one character, with a quote on both sides, is a character literal. -/
theorem leads_quoted {value : Char} {w r : List Char}
    (h : characterHead (w ++ '\'' :: r) = (some value, w, '\'' :: r)) :
    (lexeme .charLiteral (some (.text (String.singleton value)))
      ('\'' :: w ++ ['\''])).Leads r := by
  refine ⟨'\'', w ++ '\'' :: r, by simp [text], ?_⟩
  have hcut : cut '\'' (w ++ '\'' :: r) = cutCharacter (w ++ '\'' :: r) :=
    cut_of_ofMark?_eq_none rfl rfl _
  rw [hcut, cutCharacter, h]
  rfl

theorem leads_character {c : Char} (h : c ≠ '\'' ∧ c ≠ '\\' ∧ c ≠ '\n') (r : List Char) :
    (lexeme .charLiteral (some (.text (String.singleton c))) ['\'', c, '\'']).Leads r := by
  obtain ⟨hquote, hbackslash, hline⟩ := h
  refine leads_quoted (w := [c]) ?_
  rw [List.cons_append, List.nil_append, characterHead, if_neg (not_or.mpr ⟨hquote, hline⟩)]
  · exact fun hc => absurd hc hbackslash
  · exact fun _ _ hc => absurd hc hbackslash

theorem leads_escape (e : Escape) (r : List Char) :
    (lexeme .charLiteral (some (.text (String.singleton e.value)))
      ['\'', '\\', e.letter, '\'']).Leads r := by
  refine leads_quoted (w := ['\\', e.letter]) ?_
  cases e <;> rfl

end Piece

/-! ### All lexemes -/

/-- The piece that a lexeme is scanned as. -/
def Lexeme.piece (l : Lexeme) : Piece := .lexeme l.kind l.literal l.text

/-- **In front of a blank, and at the end of the text, a lexeme is cut off as it was written.** -/
theorem Lexeme.leads (l : Lexeme) {r : List Char} (hr : Piece.Stops r) : l.piece.Leads r := by
  cases l with
  | fixed kind spelling h => exact Kind.leads_of_spelling h hr
  | identifier first rest hfirst hrest hfree =>
    have hword := Piece.leads_word (Piece.startsWord_of_isAlpha hfirst)
      (fun c hc => Piece.continuesWord_of_isAlphanum (hrest c hc)) hr
    rwa [Kind.ofWord_eq_identifier hfree] at hword
  | integer digits hne hlimit => exact Piece.leads_integer hne hlimit hr
  | fraction whole behind hwhole hbehind => exact Piece.leads_fraction hwhole hbehind hr
  | numeral x written h =>
    have hnumeral := Piece.leads_numeral h hr
    have hkind : (Lexeme.numeral x written h).kind = .ofBase x.base := by
      rw [Lexeme.kind]
      cases x.base <;> rfl
    rwa [Lexeme.piece, hkind]
  | string body h => exact Piece.leads_string h r
  | character c h => exact Piece.leads_character h r
  | escape e => exact Piece.leads_escape e r

end RadixScript
