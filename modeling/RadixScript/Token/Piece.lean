import RadixScript.Decimal.Integer
import RadixScript.Diagnostic
import RadixScript.Numeral.Reading

/-!
# Pieces of a program text

The scanner cuts a program text into pieces that concatenate to it: gaps between lexemes, lexemes,
and stretches it has to reject. Cutting looks at characters only. Lines and offsets are worked out
afterwards from the pieces in front.

`cut_text` says that nothing is lost or moved, and `cut_shorter` that every piece takes at least
one character, which is why `pieces` ends.
-/

namespace RadixScript

/-- A stretch of program text. -/
inductive Piece where
  /-- A blank, a line end or a comment. -/
  | gap (text : List Char)
  | lexeme (kind : Kind) (literal : Option Literal) (text : List Char)
  /-- An integer literal with more digits than an integer text may have. -/
  | overlong (text : List Char)
  | rejected (problem : LexicalProblem) (text : List Char)

namespace Piece

/-- The characters of a piece. -/
def text : Piece → List Char
  | gap text | lexeme _ _ text | overlong text | rejected _ text => text

/-- How many lines later the text after the piece stands. The line ends inside a rejected character
literal are not counted. -/
def lineBreaks : Piece → Nat
  | gap text | lexeme _ _ text | overlong text => text.count '\n'
  | rejected .openString text => text.count '\n'
  | rejected _ _ => 0

/-! ## Character classes -/

/-- Characters between lexemes that have no meaning, apart from comments. -/
def isFiller (c : Char) : Bool := c = ' ' || c = '\r' || c = '\t' || c = '$' || c = '\n'

/-- The decimal digits of the language. -/
def isDigit (c : Char) : Bool := '0' ≤ c && c ≤ '9'

/-- The characters that a word can begin with. -/
def startsWord (c : Char) : Bool :=
  c = '_' || ('a' ≤ c && c ≤ 'z') || ('A' ≤ c && c ≤ 'Z')

/-- The characters that a word can go on with. -/
def continuesWord (c : Char) : Bool := startsWord c || isDigit c

/-- The character that an escape stands for. -/
def escape? : Char → Option Char
  | 'n' => some '\n'
  | 't' => some '\t'
  | 'r' => some '\r'
  | '0' => some '\x00'
  | '\\' => some '\\'
  | '\'' => some '\''
  | '"' => some '"'
  | _ => none

/-- The value of a run of decimal digits. -/
def natural (digits : List Char) : Nat := Decimal.ofDigits (digits.map fun c => c.toNat - 0x30)

/-! ## Cutting one piece

Each function gets the first character of the piece, or knows it, and the text after it. -/

/-- A number: digits, and a fraction if a point with a digit behind it follows. -/
def cutNumber (c : Char) (cs : List Char) : Piece × List Char :=
  let whole := c :: cs.takeWhile isDigit
  let rest := cs.dropWhile isDigit
  let integer : Piece × List Char :=
    if whole.length ≤ Decimal.digitLimit then
      (lexeme .intLiteral (some (.int (natural whole))) whole, rest)
    else
      (overlong whole, rest)
  match rest with
  | '.' :: d :: more =>
    if isDigit d then
      let fraction := d :: more.takeWhile isDigit
      let value := Float.ofScientific (natural (whole ++ fraction)) true fraction.length
      (lexeme .floatLiteral (some (.float value)) (whole ++ '.' :: fraction),
        more.dropWhile isDigit)
    else
      integer
  | _ => integer

/-- A tagged numeral of base `b`: the run of digits behind the tag. -/
def cutNumeral (b : Base) (letter : Char) (cs : List Char) : Piece × List Char :=
  let run := cs.takeWhile b.isDigit
  let text := '0' :: letter :: run
  let rest := cs.dropWhile b.isDigit
  match Numeral.ofDigits? b (b.digitsOf run) with
  | some x => (lexeme (.ofBase b) (some (.numeral x)) text, rest)
  | none => (rejected (.missingDigits b) text, rest)

/-- A string: everything up to the next double quote, line ends included. -/
def cutString (cs : List Char) : Piece × List Char :=
  let body := cs.takeWhile (· != '"')
  match cs.dropWhile (· != '"') with
  | [] => (rejected .openString ('"' :: body), [])
  | quote :: rest =>
    (lexeme .stringLiteral (some (.text (String.ofList body))) ('"' :: body ++ [quote]), rest)

/-- The character at the front of the body of a character literal, if there is one, the text it
takes and the text after it. -/
def characterHead : List Char → Option Char × List Char × List Char
  | [] => (none, [], [])
  | ['\\'] => (none, ['\\'], [])
  | '\\' :: c :: rest => (escape? c, ['\\', c], rest)
  | c :: rest => if c = '\'' ∨ c = '\n' then (none, [], c :: rest) else (some c, [c], rest)

/-- A character literal. When its body is not a single character, everything up to the next single
quote is rejected. -/
def cutCharacter (cs : List Char) : Piece × List Char :=
  let (value?, head, rest) := characterHead cs
  let skipped := rest.takeWhile (· != '\'')
  match rest.dropWhile (· != '\'') with
  | [] => (rejected .openCharacter ('\'' :: head ++ skipped), [])
  | quote :: after =>
    match value?, skipped with
    | some c, [] =>
      (lexeme .charLiteral (some (.text (String.singleton c))) ('\'' :: head ++ [quote]), after)
    | _, _ => (rejected .badCharacter ('\'' :: head ++ skipped ++ [quote]), after)

/-- A keyword, a type word or an identifier. -/
def cutWord (c : Char) (cs : List Char) : Piece × List Char :=
  let word := c :: cs.takeWhile continuesWord
  (lexeme (.ofWord (String.ofList word)) none word, cs.dropWhile continuesWord)

/-- A piece that begins with none of the marks. -/
def cutOther (c : Char) (cs : List Char) : Piece × List Char :=
  if isDigit c then
    match cs with
    | letter :: rest =>
      match Base.ofLetter? letter with
      | some b => if c = '0' then cutNumeral b letter rest else cutNumber c cs
      | none => cutNumber c cs
    | [] => cutNumber c cs
  else if c = '"' then cutString cs
  else if c = '\'' then cutCharacter cs
  else if startsWord c then cutWord c cs
  else (rejected (.unexpected c) [c], cs)

/-- A mark of one character, or a piece of another kind. -/
def cutSingle (c : Char) (cs : List Char) : Piece × List Char :=
  match Kind.ofMark? c with
  | some kind => (lexeme kind none [c], cs)
  | none => cutOther c cs

/-- The first piece of the text `c :: cs`, and the text after it. -/
def cut (c : Char) (cs : List Char) : Piece × List Char :=
  if isFiller c then (gap [c], cs)
  else
    match cs with
    | [] => cutSingle c cs
    | d :: rest =>
      if c = '/' ∧ d = '/' then
        (gap (c :: cs.takeWhile (· != '\n')), cs.dropWhile (· != '\n'))
      else
        match Kind.ofMarkPair? c d with
        | some kind => (lexeme kind none [c, d], rest)
        | none => cutSingle c cs

/-! ## Nothing is lost -/

theorem cutNumber_text (c : Char) (cs : List Char) :
    (cutNumber c cs).1.text ++ (cutNumber c cs).2 = c :: cs := by
  have hsplit : cs.takeWhile isDigit ++ cs.dropWhile isDigit = cs :=
    List.takeWhile_append_dropWhile
  have hint : ∀ p : Piece × List Char,
      p = (if (c :: cs.takeWhile isDigit).length ≤ Decimal.digitLimit then
        (lexeme .intLiteral (some (.int (natural (c :: cs.takeWhile isDigit))))
          (c :: cs.takeWhile isDigit), cs.dropWhile isDigit)
      else (overlong (c :: cs.takeWhile isDigit), cs.dropWhile isDigit)) →
      p.1.text ++ p.2 = c :: cs := by
    rintro p rfl
    split <;> simp [text, hsplit]
  unfold cutNumber
  simp only
  split
  · next d more hrest =>
    split
    · have : c :: cs = c :: (cs.takeWhile isDigit ++ '.' :: d :: more) := by rw [← hrest, hsplit]
      rw [this]
      simp [text]
    · exact hint _ (by rw [hrest])
  · exact hint _ rfl

theorem cutNumeral_text (b : Base) (letter : Char) (cs : List Char) :
    (cutNumeral b letter cs).1.text ++ (cutNumeral b letter cs).2 = '0' :: letter :: cs := by
  unfold cutNumeral
  simp only
  split <;> simp [text]

theorem cutString_text (cs : List Char) :
    (cutString cs).1.text ++ (cutString cs).2 = '"' :: cs := by
  have hsplit : cs.takeWhile (· != '"') ++ cs.dropWhile (· != '"') = cs :=
    List.takeWhile_append_dropWhile
  unfold cutString
  simp only
  split
  · next h => rw [h, List.append_nil] at hsplit; simp [text, hsplit]
  · next q rest h =>
    rw [h] at hsplit
    simp only [text, List.cons_append, List.append_assoc, List.nil_append, hsplit]

theorem characterHead_text (cs : List Char) :
    (characterHead cs).2.1 ++ (characterHead cs).2.2 = cs := by
  fun_cases characterHead cs <;> simp_all

theorem cutCharacter_text (cs : List Char) :
    (cutCharacter cs).1.text ++ (cutCharacter cs).2 = '\'' :: cs := by
  have hhead := characterHead_text cs
  unfold cutCharacter
  rcases hcase : characterHead cs with ⟨value?, head, rest⟩
  rw [hcase] at hhead
  have hsplit : rest.takeWhile (· != '\'') ++ rest.dropWhile (· != '\'') = rest :=
    List.takeWhile_append_dropWhile
  simp only at hhead ⊢
  split
  · next h => rw [h, List.append_nil] at hsplit; simp [text, hsplit, hhead]
  · next q after h =>
    rw [h] at hsplit
    split
    · next hskip =>
      rw [hskip, List.nil_append] at hsplit
      simp [text, hsplit, hhead]
    · simp only [text, List.cons_append, List.append_assoc, List.nil_append, hsplit, hhead]

theorem cutWord_text (c : Char) (cs : List Char) :
    (cutWord c cs).1.text ++ (cutWord c cs).2 = c :: cs := by
  simp [cutWord, text]

theorem cutOther_text (c : Char) (cs : List Char) :
    (cutOther c cs).1.text ++ (cutOther c cs).2 = c :: cs := by
  unfold cutOther
  split
  · split
    · split
      · split
        · next h => rw [cutNumeral_text, h]
        · exact cutNumber_text _ _
      · exact cutNumber_text _ _
    · exact cutNumber_text _ _
  · split
    · next h => rw [cutString_text, h]
    · split
      · next h => rw [cutCharacter_text, h]
      · split
        · exact cutWord_text _ _
        · simp [text]

theorem cutSingle_text (c : Char) (cs : List Char) :
    (cutSingle c cs).1.text ++ (cutSingle c cs).2 = c :: cs := by
  unfold cutSingle
  split
  · simp [text]
  · exact cutOther_text _ _

/-- **A piece and the text after it are the text that was cut.** -/
theorem cut_text (c : Char) (cs : List Char) :
    (cut c cs).1.text ++ (cut c cs).2 = c :: cs := by
  unfold cut
  split
  · simp [text]
  · split
    · exact cutSingle_text _ _
    · split
      · simp [text]
      · split
        · simp [text]
        · exact cutSingle_text _ _

theorem cutNumber_ne_nil (c : Char) (cs : List Char) : (cutNumber c cs).1.text ≠ [] := by
  unfold cutNumber
  simp only
  split
  · split
    · simp [text]
    · split <;> simp [text]
  · split <;> simp [text]

theorem cutNumeral_ne_nil (b : Base) (letter : Char) (cs : List Char) :
    (cutNumeral b letter cs).1.text ≠ [] := by
  unfold cutNumeral
  simp only
  split <;> simp [text]

theorem cutString_ne_nil (cs : List Char) : (cutString cs).1.text ≠ [] := by
  unfold cutString
  simp only
  split <;> simp [text]

theorem cutCharacter_ne_nil (cs : List Char) : (cutCharacter cs).1.text ≠ [] := by
  unfold cutCharacter
  simp only
  split
  · simp [text]
  · split <;> simp [text]

theorem cutOther_ne_nil (c : Char) (cs : List Char) : (cutOther c cs).1.text ≠ [] := by
  unfold cutOther
  split
  · split
    · split
      · split
        · exact cutNumeral_ne_nil _ _ _
        · exact cutNumber_ne_nil _ _
      · exact cutNumber_ne_nil _ _
    · exact cutNumber_ne_nil _ _
  · split
    · exact cutString_ne_nil _
    · split
      · exact cutCharacter_ne_nil _
      · split <;> simp [cutWord, text]

theorem cutSingle_ne_nil (c : Char) (cs : List Char) : (cutSingle c cs).1.text ≠ [] := by
  unfold cutSingle
  split
  · simp [text]
  · exact cutOther_ne_nil _ _

/-- A piece takes at least one character. -/
theorem cut_ne_nil (c : Char) (cs : List Char) : (cut c cs).1.text ≠ [] := by
  unfold cut
  split
  · simp [text]
  · split
    · exact cutSingle_ne_nil _ _
    · split
      · simp [text]
      · split
        · simp [text]
        · exact cutSingle_ne_nil _ _

/-- What is left after a piece is shorter than the text that was cut. -/
theorem cut_shorter (c : Char) (cs : List Char) : (cut c cs).2.length < (c :: cs).length := by
  have hlen := congrArg List.length (cut_text c cs)
  have hpos := List.length_pos_iff.mpr (cut_ne_nil c cs)
  simp only [List.length_append, List.length_cons] at hlen ⊢
  omega

end Piece

/-! ## All pieces -/

/-- The pieces of a text, in order. -/
def pieces : List Char → List Piece
  | [] => []
  | c :: cs => (Piece.cut c cs).1 :: pieces (Piece.cut c cs).2
termination_by cs => cs.length
decreasing_by exact Piece.cut_shorter c cs

/-- **The pieces of a text concatenate to it.** -/
theorem flatMap_text_pieces (cs : List Char) : (pieces cs).flatMap Piece.text = cs := by
  fun_induction pieces cs with
  | case1 => rfl
  | case2 c cs ih => rw [List.flatMap_cons, ih, Piece.cut_text]

end RadixScript
