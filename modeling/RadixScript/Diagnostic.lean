import RadixScript.Token.Basic

/-!
# Diagnostics

What can be wrong with a program before it runs. A diagnostic names the problem, the line and, for
problems of grammar and scoping, the token at fault.
-/

namespace RadixScript

/-- A problem with the characters of a program. -/
inductive LexicalProblem where
  | missingDigits (base : Base)
  | openString
  | openCharacter
  | badCharacter
  | unexpected (c : Char)
deriving DecidableEq, Repr

/-- Something that has to stand at a place in a program. -/
inductive Expected where
  | variableName | functionName | parameterName | namespaceName
  | semicolonAfterDeclaration | semicolonAfterExpression | semicolonAfterReturn
  | parenAfterFunctionName | parenAfterParameters | parenAfterIf | parenAfterCondition
  | parenAfterArguments | parenAfterExpression
  | braceBeforeFunctionBody | braceBeforeNamespaceBody | braceAfterBlock | braceAfterNamespaceBody
deriving DecidableEq, Repr

/-- A list that is bounded in length. -/
inductive BoundedList where
  | parameters | arguments
deriving DecidableEq, Repr

/-- A problem with the order of tokens. -/
inductive GrammarProblem where
  | missing (what : Expected)
  | noExpression
  | badTarget
  | tooMany (list : BoundedList)
deriving DecidableEq, Repr

/-- A problem of a program that is found before it runs. -/
inductive Problem where
  | lexical (p : LexicalProblem)
  | grammatical (p : GrammarProblem)
  | misplacedReturn
deriving DecidableEq, Repr

/-! ## Wording -/

def LexicalProblem.message : LexicalProblem → String
  | missingDigits b => "Expected " ++ b.name ++ " digits after '" ++ b.tag ++ "'."
  | openString => "String is not terminated."
  | openCharacter => "Character is not terminated."
  | badCharacter => "Invalid syntax for a character."
  | unexpected c => "Unexpected character " ++ Text.quoted (String.singleton c) ++ "."

namespace Expected

/-- The kind of token that has to stand there. -/
def kind : Expected → Kind
  | variableName | functionName | parameterName | namespaceName => .identifier
  | semicolonAfterDeclaration | semicolonAfterExpression | semicolonAfterReturn => .semicolon
  | parenAfterFunctionName | parenAfterIf => .leftParen
  | parenAfterParameters | parenAfterCondition | parenAfterArguments | parenAfterExpression =>
    .rightParen
  | braceBeforeFunctionBody | braceBeforeNamespaceBody => .leftBrace
  | braceAfterBlock | braceAfterNamespaceBody => .rightBrace

def message : Expected → String
  | variableName => "Expect variable name."
  | functionName => "Expect function name."
  | parameterName => "Expect parameter name."
  | namespaceName => "Expect namespace name."
  | semicolonAfterDeclaration => "Expect ';' after variable declaration."
  | semicolonAfterExpression => "Expect ';' after expression."
  | semicolonAfterReturn => "Expect ';' after return value."
  | parenAfterFunctionName => "Expect '(' after function name."
  | parenAfterParameters => "Expect ')' after parameters."
  | parenAfterIf => "Expect '(' after 'if'."
  | parenAfterCondition => "Expect ')' after if condition."
  | parenAfterArguments => "Expect ')' after arguments."
  | parenAfterExpression => "Expect ')' after expression."
  | braceBeforeFunctionBody => "Expect '\x7b' before function body."
  | braceBeforeNamespaceBody => "Expect '\x7b' before namespace body."
  | braceAfterBlock => "Expect '\x7d' after block."
  | braceAfterNamespaceBody => "Expect '\x7d' after namespace body."

end Expected

/-- The most parameters of a function, and the most arguments of a call. -/
def listLimit : Nat := 255

def BoundedList.name : BoundedList → String
  | parameters => "parameters"
  | arguments => "arguments"

def GrammarProblem.message : GrammarProblem → String
  | missing what => what.message
  | noExpression => "Expect expression."
  | badTarget => "Invalid assignment target."
  | tooMany list => "Can't have more than " ++ toString listLimit ++ " " ++ list.name ++ "."

def Problem.message : Problem → String
  | lexical p => p.message
  | grammatical p => p.message
  | misplacedReturn => "Can't return from top-level code."

/-! ## Diagnostics -/

/-- The token at fault, as far as a report shows it. -/
inductive Place where
  | unnamed
  | atEnd
  | atText (text : String)
deriving DecidableEq, Repr

namespace Place

/-- The place of a token. -/
def ofToken (t : Token) : Place := if t.kind = .endOfInput then atEnd else atText t.text

/-- The part of a report that names the place. -/
def text : Place → String
  | unnamed => ""
  | atEnd => " at end"
  | atText s => " at '" ++ s ++ "'"

end Place

/-- A problem and where it was found. -/
structure Diagnostic where
  problem : Problem
  line : Nat
  place : Place
deriving DecidableEq, Repr

namespace Diagnostic

/-- A problem at a token. -/
def ofToken (t : Token) (p : Problem) : Diagnostic := ⟨p, t.line, .ofToken t⟩

/-- The report of a diagnostic. -/
def text (d : Diagnostic) : String :=
  "[line " ++ toString d.line ++ "] Error" ++ d.place.text ++ ": " ++ d.problem.message

/-- The reports of several diagnostics, one on each line. -/
def report (ds : List Diagnostic) : String := "\n".intercalate (ds.map text)

end Diagnostic

end RadixScript
