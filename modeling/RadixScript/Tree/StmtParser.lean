import RadixScript.Tree.ExprParser

/-!
# Reading statements

A program is a list of declarations. When a declaration has to be abandoned, its diagnostics stay
and reading resumes at the next boundary between statements: behind a semicolon, or in front of a
word that starts a statement (`recover`). The token that the declaration was abandoned at is always
dropped.
-/

namespace RadixScript

/-! ## Recovery -/

/-- The tokens where reading resumes after a declaration was abandoned at the first one. -/
def recover : List Token → List Token
  | [] => []
  | t :: rest =>
    if t.kind = .semicolon then rest
    else
      match rest with
      | [] => []
      | next :: _ => if next.kind.startsStatement then rest else recover rest

theorem recover_length_le (ts : List Token) : (recover ts).length ≤ ts.length - 1 := by
  induction ts with
  | nil => simp [recover]
  | cons t rest ih =>
    unfold recover
    split
    · simp
    · split
      · simp
      · split
        · simp
        · simp only [List.length_cons] at ih ⊢
          omega

/-- The outcome of a declaration at the front of a token list with `n` tokens: the statement,
unless it was abandoned, and the tokens where reading goes on. -/
structure Declared (n : Nat) where
  stmt? : Option (Stmt Unit)
  rest : List Token
  errors : List Diagnostic
  shorter : rest.length < n

/-- A declaration goes on behind an abandoned attempt. -/
def Attempt.declared {n : Nat} (hn : 0 < n) : Attempt n (Stmt Unit) → Declared n
  | .parsed s rest errors h => ⟨some s, rest, errors, h⟩
  | .abandoned rest errors h =>
    ⟨none, recover rest, errors, by have := recover_length_le rest; omega⟩

/-! ## Parts of statements -/

/-- The parameters of a function and the parenthesis behind them, when `count` are in front. -/
def parseParameterList (eof : Token) (count : Nat) (ts : List Token) :
    Attempt ts.length (List Token) :=
  ((expect eof .parameterName ts).next fun name rest h =>
    match rest, h with
    | [], _ => (expect eof .parenAfterParameters []).map fun _ => [name]
    | t :: rest', h =>
      have : rest'.length < ts.length := Nat.lt_of_succ_lt h
      if t.kind = .comma then
        ((parseParameterList eof (count + 1) rest').map (name :: ·)).behind
      else
        (expect eof .parenAfterParameters (t :: rest')).map fun _ => [name]
  ).noting (crowding eof .parameters count ts)
termination_by ts.length

/-- The parameters of a function and the parenthesis behind them. -/
def parseParameters (eof : Token) (ts : List Token) : Attempt ts.length (List Token) :=
  match ts with
  | [] => parseParameterList eof 0 []
  | t :: rest =>
    if t.kind = .rightParen then .done [] rest
    else parseParameterList eof 0 (t :: rest)

/-- The initial value of a variable, if there is one, and the semicolon behind it. -/
def parseInitializer (eof : Token) (ts : List Token) : Attempt ts.length (Option (Expr Unit)) :=
  match ts with
  | [] => (expect eof .semicolonAfterDeclaration []).map fun _ => none
  | t :: rest =>
    if t.kind = .equal then
      ((parseExpr eof rest).next fun init rest' _ =>
        (expect eof .semicolonAfterDeclaration rest').map fun _ => some init).behind
    else
      (expect eof .semicolonAfterDeclaration (t :: rest)).map fun _ => none

/-- A variable declaration behind `let` or its type word. -/
def parseLet (eof : Token) (type : Option Token) (ts : List Token) :
    Attempt ts.length (Stmt Unit) :=
  (expect eof .variableName ts).next fun name rest _ =>
    (parseInitializer eof rest).map fun init => .letDecl name init type

/-- The value of a `return` statement and the semicolon behind it. -/
def parseReturnValue (eof : Token) (ts : List Token) : Attempt ts.length (Expr Unit) :=
  (parseExpr eof ts).next fun value rest _ =>
    (expect eof .semicolonAfterReturn rest).map fun _ => value

/-- A `return` statement behind its word. -/
def parseReturn (eof : Token) (keyword : Token) (ts : List Token) :
    Attempt ts.length (Stmt Unit) :=
  match ts with
  | [] => (parseReturnValue eof []).map fun value => .returnStmt keyword (some value)
  | t :: rest =>
    if t.kind = .semicolon then .done (.returnStmt keyword none) rest
    else (parseReturnValue eof (t :: rest)).map fun value => .returnStmt keyword (some value)

/-- An expression that stands as a statement. -/
def parseExprStmt (eof : Token) (ts : List Token) : Attempt ts.length (Stmt Unit) :=
  (parseExpr eof ts).next fun e rest _ =>
    (expect eof .semicolonAfterExpression rest).map fun _ => .expr e

/-- The condition of an `if`, in parentheses. -/
def parseCondition (eof : Token) (ts : List Token) : Attempt ts.length (Expr Unit) :=
  (expect eof .parenAfterIf ts).next fun _ rest _ =>
    (parseExpr eof rest).next fun condition rest' _ =>
      (expect eof .parenAfterCondition rest').map fun _ => condition

/-- The name and parameters of a function, up to the brace that opens its body. -/
def parseSignature (eof : Token) (ts : List Token) : Attempt ts.length (Token × List Token) :=
  (expect eof .functionName ts).next fun name rest _ =>
    (expect eof .parenAfterFunctionName rest).next fun _ rest' _ =>
      (parseParameters eof rest').next fun params rest'' _ =>
        (expect eof .braceBeforeFunctionBody rest'').map fun _ => (name, params)

/-- The name of a namespace, up to the brace that opens its body. -/
def parseNamespaceHead (eof : Token) (ts : List Token) : Attempt ts.length Token :=
  (expect eof .namespaceName ts).next fun name rest _ =>
    (expect eof .braceBeforeNamespaceBody rest).map fun _ => name

/-! ## Statements -/

mutual

/-- A declaration or statement that begins with `t`. -/
def parseDeclaration (eof : Token) (t : Token) (ts : List Token) : Declared (ts.length + 1) :=
  Attempt.declared (Nat.succ_pos _)
    (match t.kind with
    | .letWord => (parseLet eof none ts).behind
    | .doWord =>
      ((parseSignature eof ts).next fun (name, params) rest _ =>
        (parseBlock eof .braceAfterBlock rest).map fun body =>
          .functionDecl name params body).behind
    | .namespaceWord =>
      ((parseNamespaceHead eof ts).next fun name rest _ =>
        (parseBlock eof .braceAfterNamespaceBody rest).map fun body =>
          .namespaceDecl name body).behind
    | kind =>
      if kind.isTypeWord then (parseLet eof (some t) ts).behind
      else parseStatement eof (t :: ts))
termination_by (ts.length + 1, 1)

/-- A statement that is not a declaration. -/
def parseStatement (eof : Token) (ts : List Token) : Attempt ts.length (Stmt Unit) :=
  match ts with
  | [] => parseExprStmt eof []
  | t :: rest =>
    match t.kind with
    | .ifWord =>
      ((parseCondition eof rest).next fun condition rest₁ _ =>
        (parseStatement eof rest₁).andThen fun thenBranch rest₂ h =>
          match rest₂, h with
          | [], _ => .done (.branch condition thenBranch none) []
          | word :: rest₃, h =>
            have : rest₃.length < rest₁.length := Nat.lt_of_succ_lt h
            if word.kind = .elseWord then
              ((parseStatement eof rest₃).map fun elseBranch =>
                .branch condition thenBranch (some elseBranch)).behind.behind
            else
              .done (.branch condition thenBranch none) (word :: rest₃)).behind
    | .returnWord => (parseReturn eof t rest).behind
    | .leftBrace => ((parseBlock eof .braceAfterBlock rest).map Stmt.block).behind
    | _ => parseExprStmt eof (t :: rest)
termination_by (ts.length, 0)

/-- Declarations up to a closing brace. -/
def parseBlock (eof : Token) (closing : Expected) (ts : List Token) :
    Attempt ts.length (List (Stmt Unit)) :=
  match ts with
  | [] => .abandoned [] [complain eof [] (.missing closing)] (Nat.le_refl _)
  | t :: rest =>
    if t.kind = .rightBrace then .done [] rest
    else
      let d := parseDeclaration eof t rest
      have : d.rest.length < rest.length + 1 := d.shorter
      (((parseBlock eof closing d.rest).map (d.stmt?.toList ++ ·)).noting d.errors).relax
        (Nat.le_of_lt d.shorter)
termination_by (ts.length, 2)

end

/-- The statements of a token list, without the abandoned ones, and all diagnostics in order. -/
def parseProgram (eof : Token) (ts : List Token) : Program Unit × List Diagnostic :=
  match ts with
  | [] => ([], [])
  | t :: rest =>
    let d := parseDeclaration eof t rest
    let (stmts, errors) := parseProgram eof d.rest
    (d.stmt?.toList ++ stmts, d.errors ++ errors)
termination_by ts.length
decreasing_by exact (parseDeclaration eof t rest).shorter

end RadixScript
