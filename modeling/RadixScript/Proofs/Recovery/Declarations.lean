import Mathlib.Logic.Relation
import RadixScript.Proofs.Recovery.Positions

/-!
# The declarations of a token list

The program and every block read one declaration after the other, a declaration may read a block or
a statement, and a statement may read blocks and statements (`Reading.Calls`). What holds of one
call holds of every reading that the program comes to: it stands within the token list, and its
problems are among those of the program, in one stretch.

So the parser comes to the end of any list, each declaration moves it forward, and a declaration is
dropped only with a problem recorded for it; the statements that it returns are those of the other
declarations (`parseProgram_progress`).
-/

namespace RadixScript

variable {n m : Nat} {α β : Type} {eof : Token} {ts us : List Token}

/-! ## Values and problems of an attempt -/

namespace Attempt

/-- What an attempt has read, unless it is abandoned. -/
def value? : Attempt n α → Option α
  | parsed v _ _ _ => some v
  | abandoned _ _ _ => none

/-- The problems that an attempt records. -/
def errors : Attempt n α → List Diagnostic
  | parsed _ _ errors _ => errors
  | abandoned _ errors _ => errors

variable {a : Attempt n α} {v : α} {rest : List Token} {before : List Diagnostic}

@[simp] theorem value?_relax (a : Attempt n α) (h : n ≤ m) : (a.relax h).value? = a.value? := by
  cases a <;> rfl

@[simp] theorem value?_map (a : Attempt n α) (f : α → β) : (a.map f).value? = a.value?.map f := by
  cases a <;> rfl

@[simp] theorem value?_noting (a : Attempt n α) (ds : List Diagnostic) :
    (a.noting ds).value? = a.value? := by
  cases a <;> rfl

@[simp] theorem errors_relax (a : Attempt n α) (h : n ≤ m) : (a.relax h).errors = a.errors := by
  cases a <;> rfl

@[simp] theorem errors_behind (a : Attempt n α) : a.behind.errors = a.errors := errors_relax a _

@[simp] theorem errors_map (a : Attempt n α) (f : α → β) : (a.map f).errors = a.errors := by
  cases a <;> rfl

@[simp] theorem errors_noting (a : Attempt n α) (ds : List Diagnostic) :
    (a.noting ds).errors = ds ++ a.errors := by
  cases a <;> rfl

@[simp] theorem errors_declared (a : Attempt n (Stmt Unit)) (hn : 0 < n) :
    (a.declared hn).errors = a.errors := by
  cases a <;> rfl

/-- The problems of what follows are behind those in front of it. -/
theorem errors_andThen {hr : rest.length < n} (h : a = parsed v rest before hr)
    (k : (value : α) → (rest : List Token) → rest.length < n → Attempt (rest.length + 1) β) :
    (a.andThen k).errors = before ++ (k v rest hr).errors := by
  subst h
  simp [andThen]

theorem errors_prefix_andThen (a : Attempt n α)
    (k : (value : α) → (rest : List Token) → rest.length < n → Attempt (rest.length + 1) β) :
    a.errors <+: (a.andThen k).errors := by
  cases a with
  | parsed v rest before hr =>
    rw [errors_andThen rfl]
    exact List.prefix_append before _
  | abandoned rest before hr => exact List.prefix_rfl

theorem errors_next {hr : rest.length < n} (h : a = parsed v rest before hr)
    (k : (value : α) → (rest : List Token) → rest.length < n → Attempt rest.length β) :
    (a.next k).errors = before ++ (k v rest hr).errors := by
  rw [next, errors_andThen h, errors_behind]

theorem Within.suffix_of_parsed {hr : rest.length < n} (h : a.Within eof ts)
    (ha : a = parsed v rest before hr) : rest <:+ ts := by
  subst ha
  exact h.1

end Attempt

open Attempt

/-! ## Readings -/

/-- Something that is read, with the tokens in front of which the parser stands. -/
inductive Reading where
  | program (ts : List Token)
  | block (closing : Expected) (ts : List Token)
  | declaration (t : Token) (ts : List Token)
  | statement (ts : List Token)

namespace Reading

/-- The tokens in front of which the parser stands. -/
def tokens : Reading → List Token
  | program ts => ts
  | block _ ts => ts
  | declaration t ts => t :: ts
  | statement ts => ts

/-- The problems that are recorded for the reading, those of its parts included. -/
def errors (eof : Token) : Reading → List Diagnostic
  | program ts => (parseProgram eof ts).2
  | block closing ts => (parseBlock eof closing ts).errors
  | declaration t ts => (parseDeclaration eof t ts).errors
  | statement ts => (parseStatement eof ts).errors

/-- One reading is part of another. What comes later stands where the parts in front of it end. -/
inductive Calls (eof : Token) : Reading → Reading → Prop
  | programFirst (t ts) : Calls eof (program (t :: ts)) (declaration t ts)
  | programLater (t ts) : Calls eof (program (t :: ts)) (program (parseDeclaration eof t ts).rest)
  | blockFirst (closing t ts) : t.kind ≠ .rightBrace →
      Calls eof (block closing (t :: ts)) (declaration t ts)
  | blockLater (closing t ts) : t.kind ≠ .rightBrace →
      Calls eof (block closing (t :: ts)) (block closing (parseDeclaration eof t ts).rest)
  | functionBody {t ts signature rest errors h} : t.kind = .doWord →
      parseSignature eof ts = .parsed signature rest errors h →
      Calls eof (declaration t ts) (block .braceAfterBlock rest)
  | namespaceBody {t ts name rest errors h} : t.kind = .namespaceWord →
      parseNamespaceHead eof ts = .parsed name rest errors h →
      Calls eof (declaration t ts) (block .braceAfterNamespaceBody rest)
  | statement {t ts} : t.kind ≠ .letWord → t.kind ≠ .doWord → t.kind ≠ .namespaceWord →
      t.kind.isTypeWord = false → Calls eof (declaration t ts) (statement (t :: ts))
  | blockBody {t ts} : t.kind = .leftBrace →
      Calls eof (statement (t :: ts)) (block .braceAfterBlock ts)
  | thenBranch {t ts condition rest errors h} : t.kind = .ifWord →
      parseCondition eof ts = .parsed condition rest errors h →
      Calls eof (statement (t :: ts)) (statement rest)
  | elseBranch {t ts condition rest errors h thenBranch word rest' errors' h'} : t.kind = .ifWord →
      parseCondition eof ts = .parsed condition rest errors h →
      parseStatement eof rest = .parsed thenBranch (word :: rest') errors' h' →
      word.kind = .elseWord → Calls eof (statement (t :: ts)) (statement rest')

/-- The readings that a reading comes to. -/
def Reaches (eof : Token) : Reading → Reading → Prop := Relation.ReflTransGen (Calls eof)

variable {a b : Reading}

theorem Calls.tokens_suffix (h : Calls eof a b) : b.tokens <:+ a.tokens := by
  cases h with
  | programFirst t ts => exact List.suffix_rfl
  | programLater t ts => exact (parseDeclaration_within eof t ts).rest_suffix
  | blockFirst closing t ts => exact List.suffix_rfl
  | blockLater closing t ts => exact (parseDeclaration_within eof t ts).rest_suffix
  | functionBody _ hhead =>
    exact ((parseSignature_within eof _).suffix_of_parsed hhead).trans (List.suffix_cons _ _)
  | namespaceBody _ hhead =>
    exact ((parseNamespaceHead_within eof _).suffix_of_parsed hhead).trans (List.suffix_cons _ _)
  | statement => exact List.suffix_rfl
  | blockBody => exact List.suffix_cons _ _
  | thenBranch _ hcondition =>
    exact ((parseCondition_within eof _).suffix_of_parsed hcondition).trans (List.suffix_cons _ _)
  | elseBranch _ hcondition hthen =>
    have hrest := (parseCondition_within eof _).suffix_of_parsed hcondition
    have hword := (parseStatement_within eof _).suffix_of_parsed hthen
    exact (((List.suffix_cons _ _).trans hword).trans hrest).trans (List.suffix_cons _ _)

theorem Reaches.tokens_suffix (h : Reaches eof a b) : b.tokens <:+ a.tokens := by
  induction h with
  | refl => exact List.suffix_rfl
  | tail _ hcall ih => exact hcall.tokens_suffix.trans ih

/-! ## The problems of a reading -/

theorem errors_declaration (eof t : Token) (ts : List Token) :
    (declaration t ts).errors eof = (attemptDeclaration eof t ts).errors := by
  rw [errors, parseDeclaration_eq, errors_declared]

theorem errors_program_cons (eof t : Token) (ts : List Token) :
    (program (t :: ts)).errors eof =
      (declaration t ts).errors eof ++ (program (parseDeclaration eof t ts).rest).errors eof := by
  rw [errors, parseProgram]
  rfl

theorem errors_block_cons {t : Token} (closing : Expected) (h : t.kind ≠ .rightBrace) :
    (block closing (t :: ts)).errors eof = (declaration t ts).errors eof ++
      (block closing (parseDeclaration eof t ts).rest).errors eof := by
  rw [errors, parseBlock, if_neg h]
  simp [errors]

/-- The problems of a part are among those of the whole. -/
theorem Calls.errors_infix (h : Calls eof a b) : b.errors eof <:+: a.errors eof := by
  cases h with
  | programFirst t ts =>
    rw [errors_program_cons]
    exact (List.prefix_append _ _).isInfix
  | programLater t ts =>
    rw [errors_program_cons]
    exact (List.suffix_append _ _).isInfix
  | blockFirst closing t ts hbrace =>
    rw [errors_block_cons closing hbrace]
    exact (List.prefix_append _ _).isInfix
  | blockLater closing t ts hbrace =>
    rw [errors_block_cons closing hbrace]
    exact (List.suffix_append _ _).isInfix
  | functionBody hkind hhead =>
    rw [errors_declaration, attemptDeclaration, hkind, errors_behind, errors_next hhead, errors_map]
    exact (List.suffix_append _ _).isInfix
  | namespaceBody hkind hhead =>
    rw [errors_declaration, attemptDeclaration, hkind, errors_behind, errors_next hhead, errors_map]
    exact (List.suffix_append _ _).isInfix
  | statement hlet hdo hnamespace htype =>
    rw [errors_declaration]
    simp [attemptDeclaration, htype, errors]
  | blockBody hkind =>
    simp [errors, parseStatement, hkind]
  | thenBranch hkind hcondition =>
    rw [errors, errors, parseStatement, hkind, errors_behind, errors_next hcondition]
    exact (errors_prefix_andThen _ _).isInfix.trans (List.suffix_append _ _).isInfix
  | elseBranch hkind hcondition hthen hword =>
    rw [errors, errors, parseStatement, hkind, errors_behind, errors_next hcondition,
      errors_andThen hthen]
    dsimp only
    rw [if_pos hword, errors_behind, errors_behind, errors_map]
    exact (List.suffix_append _ _).isInfix.trans (List.suffix_append _ _).isInfix

theorem Reaches.errors_infix (h : Reaches eof a b) : b.errors eof <:+: a.errors eof := by
  induction h with
  | refl => exact List.infix_rfl
  | tail _ hcall ih => exact hcall.errors_infix.trans ih

/-! ## The statements of a reading -/

/-- The declarations that a program or a block consists of, in order. -/
def parts (eof : Token) : Reading → List (Token × List Token)
  | program [] => []
  | program (t :: ts) => (t, ts) :: parts eof (program (parseDeclaration eof t ts).rest)
  | block _ [] => []
  | block closing (t :: ts) =>
    if t.kind = .rightBrace then []
    else (t, ts) :: parts eof (block closing (parseDeclaration eof t ts).rest)
  | declaration _ _ | statement _ => []
termination_by r => r.tokens.length
decreasing_by all_goals exact (parseDeclaration eof t ts).shorter

theorem parts_program_cons (eof t : Token) (ts : List Token) :
    (program (t :: ts)).parts eof =
      (t, ts) :: (program (parseDeclaration eof t ts).rest).parts eof := by
  rw [parts]

theorem parts_block_cons {t : Token} (closing : Expected) (h : t.kind ≠ .rightBrace) :
    (block closing (t :: ts)).parts eof =
      (t, ts) :: (block closing (parseDeclaration eof t ts).rest).parts eof := by
  rw [parts, if_neg h]

/-- The statements of the declarations that are not abandoned. -/
def statements (eof : Token) (r : Reading) : List (Stmt Unit) :=
  (r.parts eof).filterMap fun d => (parseDeclaration eof d.1 d.2).stmt?

theorem reaches_part {d : Token × List Token} (h : d ∈ a.parts eof) :
    Reaches eof a (declaration d.1 d.2) := by
  fun_induction parts eof a with
  | case1 | case3 | case4 | case6 | case7 => cases h
  | case2 t ts ih =>
    rcases List.mem_cons.mp h with rfl | h
    · exact .single (.programFirst t ts)
    · exact .head (.programLater t ts) (ih h)
  | case5 closing t ts hbrace ih =>
    rcases List.mem_cons.mp h with rfl | h
    · exact .single (.blockFirst closing t ts hbrace)
    · exact .head (.blockLater closing t ts hbrace) (ih h)

theorem statements_cons {d : Token × List Token} {r : Reading}
    (h : a.parts eof = d :: r.parts eof) :
    a.statements eof = (parseDeclaration eof d.1 d.2).stmt?.toList ++ r.statements eof := by
  rw [statements, h, List.filterMap_cons]
  cases (parseDeclaration eof d.1 d.2).stmt? <;> rfl

/-- A program has the statements of its declarations. -/
theorem parseProgram_fst (eof : Token) (ts : List Token) :
    (parseProgram eof ts).1 = (program ts).statements eof := by
  fun_induction parseProgram eof ts with
  | case1 => rw [statements, parts, List.filterMap_nil]
  | case2 t rest d stmts errors hlater ih =>
    rw [hlater] at ih
    rw [statements_cons (parts_program_cons eof t rest), ← ih]

/-- A block that is closed has the statements of its declarations. -/
theorem eq_statements_of_parseBlock (eof : Token) (closing : Expected) : (ts : List Token) →
    ∀ {body : List (Stmt Unit)}, (parseBlock eof closing ts).value? = some body →
      body = (block closing ts).statements eof
  | [], body, h => by
    rw [parseBlock] at h
    cases h
  | t :: rest, body, h => by
    rw [parseBlock] at h
    split at h
    · next hbrace =>
      cases h
      rw [statements, parts, if_pos hbrace, List.filterMap_nil]
    · next hbrace =>
      simp only [value?_relax, value?_noting, value?_map] at h
      obtain ⟨later, hlater, rfl⟩ := Option.map_eq_some_iff.mp h
      rw [statements_cons (parts_block_cons closing hbrace),
        ← eq_statements_of_parseBlock eof closing (parseDeclaration eof t rest).rest hlater]
termination_by ts => ts.length
decreasing_by exact (parseDeclaration eof t rest).shorter

/-- The program is read up to the end of the list. -/
theorem reaches_end (eof : Token) (ts : List Token) : Reaches eof (program ts) (program []) := by
  fun_induction parseProgram eof ts with
  | case1 => exact .refl
  | case2 t rest d stmts errors hlater ih => exact .head (.programLater t rest) ih

end Reading

/-! ## Progress -/

theorem parseProgram_errors_isAt (eof : Token) (ts : List Token) :
    ∀ d ∈ (parseProgram eof ts).2, d.IsAt eof ts := by
  fun_induction parseProgram eof ts with
  | case1 => simp
  | case2 t rest d stmts errors hlater ih =>
    have hd := parseDeclaration_within eof t rest
    rw [hlater] at ih
    refine List.forall_mem_append.mpr ⟨hd.errors_isAt, ?_⟩
    intro e he
    exact (ih e he).mono hd.rest_suffix

/-- A declaration begins at some index of the list, and reading goes on at a later one. -/
theorem exists_index_lt {t : Token} (h : t :: us <:+ ts) :
    ∃ i j, i < j ∧ j ≤ ts.length ∧ ts.drop i = t :: us ∧
      ts.drop j = (parseDeclaration eof t us).rest := by
  have hrest := (parseDeclaration_within eof t us).rest_suffix.trans h
  have hshorter := (parseDeclaration eof t us).shorter
  have hle : us.length + 1 ≤ ts.length := h.length_le
  refine ⟨ts.length - (us.length + 1), ts.length - (parseDeclaration eof t us).rest.length,
    by omega, by omega, ?_, ?_⟩
  · exact (List.suffix_iff_eq_drop.mp h).symm
  · exact (List.suffix_iff_eq_drop.mp hrest).symm

/-- A declaration is not abandoned without a problem. -/
theorem exists_last_error {t : Token} (h : (parseDeclaration eof t us).stmt? = none) :
    ∃ before last, (parseDeclaration eof t us).errors = before ++ [last] ∧
      last.IsAt eof (t :: us) := by
  obtain ⟨offence, before, p, hle, hsuffix, ha⟩ := exists_offence h
  refine ⟨before, complain eof offence p, ?_, (complain_isAt eof offence p).mono hsuffix⟩
  rw [parseDeclaration_eq, errors_declared, ha]
  rfl

/-- **The parser moves forward and drops nothing silently.** Whatever the tokens are, the program is
read up to their end, and no part of it and no attempt at an expression leaves the list. Reading
goes on behind each declaration at a later index than it began. If a declaration is abandoned, its
last problem is at one of the tokens from there on. So a program without problems has dropped none.

The statements of the program, and of every block that is closed, are those of the declarations that
it consists of, in order, and all of these are declarations that the program comes to. -/
theorem parseProgram_progress (eof : Token) (ts : List Token) :
    Reading.Reaches eof (.program ts) (.program []) ∧
    (∀ r, Reading.Reaches eof (.program ts) r → r.tokens <:+ ts) ∧
    (∀ us, us <:+ ts → (parseExpr eof us).Within eof ts) ∧
    (∀ d ∈ (parseProgram eof ts).2, d.IsAt eof ts) ∧
    (∀ u us, Reading.Reaches eof (.program ts) (.declaration u us) →
      (∃ i j, i < j ∧ j ≤ ts.length ∧ ts.drop i = u :: us ∧
        ts.drop j = (parseDeclaration eof u us).rest) ∧
      (parseDeclaration eof u us).errors <:+: (parseProgram eof ts).2 ∧
      ((parseDeclaration eof u us).stmt? = none →
        ∃ before last, (parseDeclaration eof u us).errors = before ++ [last] ∧
          last.IsAt eof (u :: us))) ∧
    ((parseProgram eof ts).2 = [] → ∀ u us, Reading.Reaches eof (.program ts) (.declaration u us) →
      (parseDeclaration eof u us).stmt?.isSome) ∧
    (parseProgram eof ts).1 = (Reading.program ts).statements eof ∧
    (∀ closing us body, (parseBlock eof closing us).value? = some body →
      body = (Reading.block closing us).statements eof) ∧
    (∀ r, Reading.Reaches eof (.program ts) r → ∀ d ∈ r.parts eof,
      Reading.Reaches eof (.program ts) (.declaration d.1 d.2)) := by
  refine ⟨Reading.reaches_end eof ts, fun r h => h.tokens_suffix, ?_,
    parseProgram_errors_isAt eof ts, ?_, ?_, Reading.parseProgram_fst eof ts,
    fun closing us _ => Reading.eq_statements_of_parseBlock eof closing us,
    fun r h d hd => h.trans (Reading.reaches_part hd)⟩
  · intro us hus
    exact (parseExpr_within eof us).mono hus
  · intro u us h
    exact ⟨exists_index_lt h.tokens_suffix, h.errors_infix, exists_last_error⟩
  · intro hclean u us h
    rw [Option.isSome_iff_ne_none]
    intro hnone
    obtain ⟨before, last, herrors, -⟩ := exists_last_error hnone
    have hinfix : (parseDeclaration eof u us).errors <:+: (parseProgram eof ts).2 := h.errors_infix
    rw [hclean, List.infix_nil, herrors] at hinfix
    exact List.append_ne_nil_of_right_ne_nil before (List.cons_ne_nil last []) hinfix

end RadixScript
