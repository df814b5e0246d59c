import RadixScript.Numeral.Basic

/-!
# Reading numerals

Three ways from text to digits. `Numeral.ofText` takes bare digits and says what is wrong with
them, `Numeral.ofTagged?` recognises a tagged text such as `0xff`, and `Base.isDigit` tells which
single characters are digits, for a reader that stops at the first other one. The first two
upper-case the text as a whole, the last one looks at one character at a time.
-/

namespace RadixScript

/-- What is wrong with the digits of a numeral. -/
inductive DigitProblem where
  | missing (base : Base)
  /-- `digit` is the first character of the upper-cased text that is no digit of the base. -/
  | invalid (base : Base) (digit : Char) (text : String)
deriving DecidableEq, Repr

/-- The digits of a text that is upper case already, or its first character that is none. -/
def Base.readDigits (b : Base) : List Char → Except Char (List (Fin b.radix))
  | [] => .ok []
  | c :: cs =>
    match b.digit? c with
    | none => .error c
    | some d => (b.readDigits cs).map (d :: ·)

namespace Numeral

/-- A numeral from a digit list that may be empty. -/
def ofDigits? (b : Base) (ds : List (Fin b.radix)) : Option Numeral :=
  if h : ds ≠ [] then some ⟨b, ds, h⟩ else none

/-- A numeral from bare digits in either case. -/
def ofText (b : Base) (s : String) : Except DigitProblem Numeral :=
  match b.readDigits (Text.upper s.toList) with
  | .error c => .error (.invalid b c s)
  | .ok ds =>
    match ofDigits? b ds with
    | some x => .ok x
    | none => .error (.missing b)

/-- A tagged text with at least one digit behind the tag, all of them digits of the base. -/
def ofTagged? (s : String) : Option Numeral :=
  match s.toList with
  | '0' :: letter :: body =>
    match Base.ofLetter? letter with
    | none => none
    | some b =>
      match b.readDigits (Text.upper body) with
      | .error _ => none
      | .ok ds => ofDigits? b ds
  | _ => none

end Numeral

/-! ## Digits at the front of a text -/

namespace Base

/-- Whether a character is a digit of the base, in either case. -/
def isDigit (b : Base) (c : Char) : Bool := (b.digitAnyCase? c).isSome

/-- The values of the digits in a text. -/
def digitsOf (b : Base) (cs : List Char) : List (Fin b.radix) := cs.filterMap b.digitAnyCase?

/-- A run of digits has as many values as characters. -/
theorem length_digitsOf {b : Base} {cs : List Char} (h : ∀ c ∈ cs, b.isDigit c = true) :
    (b.digitsOf cs).length = cs.length := by
  induction cs with
  | nil => rfl
  | cons c cs ih =>
    obtain ⟨d, hd⟩ := Option.isSome_iff_exists.mp (h c List.mem_cons_self)
    have := ih fun x hx => h x (List.mem_cons_of_mem _ hx)
    simp only [digitsOf] at this
    simp [digitsOf, hd, this]

end Base

end RadixScript
