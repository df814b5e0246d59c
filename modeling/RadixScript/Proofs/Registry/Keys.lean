import Mathlib.Data.List.Range
import RadixScript.Proofs.Recasting.Runs
import RadixScript.Proofs.Registry.Walk

/-!
# Programs with keys

A tree gets keys by numbering the uses of names in it, from a given number on. A program with keys
is run with a table that has the distances. The keys take the place of the tags, and names are found
by what the table has for their keys (`Names.through`). Whether the distances are in the table or in
the tree makes no difference to a run (`Recasting.retag`).
-/

namespace RadixScript

variable {δ : Type}

/-! ## Numbering -/

mutual

/-- The expression with keys from `n` on. -/
def Expr.number (n : Nat) : Expr δ → Expr Nat
  | .literal v => .literal v
  | .group e => .group (e.number n)
  | .unary op e => .unary op (e.number n)
  | .binary l op r => .binary (l.number n) op (r.number (n + l.keys.length))
  | .logical l op r => .logical (l.number n) op (r.number (n + l.keys.length))
  | .reference name _ => .reference name n
  | .assign name _ e => .assign name (n + e.keys.length) (e.number n)
  | .call callee paren args =>
    .call (callee.number n) paren (Expr.numberAll (n + callee.keys.length) args)

/-- The expressions with keys from `n` on. -/
def Expr.numberAll (n : Nat) : List (Expr δ) → List (Expr Nat)
  | [] => []
  | e :: es => e.number n :: Expr.numberAll (n + e.keys.length) es

end

mutual

/-- The statement with keys from `n` on. -/
def Stmt.number (n : Nat) : Stmt δ → Stmt Nat
  | .expr e => .expr (e.number n)
  | .letDecl name init type => .letDecl name (init.map (Expr.number n)) type
  | .block body => .block (Stmt.numberAll n body)
  | .branch c t none => .branch (c.number n) (t.number (n + c.keys.length)) none
  | .branch c t (some e) =>
    .branch (c.number n) (t.number (n + c.keys.length))
      (some (e.number (n + (c.keys ++ t.keys).length)))
  | .returnStmt keyword value => .returnStmt keyword (value.map (Expr.number n))
  | .functionDecl name params body => .functionDecl name params (Stmt.numberAll n body)
  | .namespaceDecl name body => .namespaceDecl name (Stmt.numberAll n body)

/-- The statements with keys from `n` on. -/
def Stmt.numberAll (n : Nat) : List (Stmt δ) → List (Stmt Nat)
  | [] => []
  | s :: ss => s.number n :: Stmt.numberAll (n + s.keys.length) ss

end

theorem range'_append_length {α β : Type} (n : Nat) (xs : List α) (ys : List β) :
    List.range' n xs.length ++ List.range' (n + xs.length) ys.length =
      List.range' n (xs.length + ys.length) := List.range'_append_1

mutual

theorem Expr.keys_number (n : Nat) : (e : Expr δ) →
    (e.number n).keys = List.range' n e.keys.length
  | .literal _ | .reference _ _ => rfl
  | .group e | .unary _ e => e.keys_number n
  | .binary l _ r | .logical l _ r => by
    simp only [Expr.number, Expr.keys, l.keys_number, r.keys_number, List.length_append,
      range'_append_length]
  | .assign _ _ e => by
    simp only [Expr.number, Expr.keys, e.keys_number, List.length_append, List.length_singleton,
      List.range'_1_concat]
  | .call callee _ args => by
    simp only [Expr.number, Expr.keys, callee.keys_number, Expr.allKeys_numberAll _ args,
      List.length_append, range'_append_length]

theorem Expr.allKeys_numberAll (n : Nat) : (es : List (Expr δ)) →
    Expr.allKeys (Expr.numberAll n es) = List.range' n (Expr.allKeys es).length
  | [] => rfl
  | e :: es => by
    simp only [Expr.numberAll, Expr.allKeys, e.keys_number, Expr.allKeys_numberAll _ es,
      List.length_append, range'_append_length]

end

theorem optionKeys_number (n : Nat) (e : Option (Expr δ)) :
    optionKeys (e.map (Expr.number n)) = List.range' n (optionKeys e).length := by
  cases e with
  | none => rfl
  | some e => exact e.keys_number n

mutual

theorem Stmt.keys_number (n : Nat) : (s : Stmt δ) →
    (s.number n).keys = List.range' n s.keys.length
  | .expr e => e.keys_number n
  | .letDecl _ init _ => optionKeys_number n init
  | .block body | .functionDecl _ _ body | .namespaceDecl _ body => Stmt.allKeys_numberAll n body
  | .branch c t none => by
    simp only [Stmt.number, Stmt.keys, c.keys_number, t.keys_number, List.length_append,
      range'_append_length]
  | .branch c t (some e) => by
    simp only [Stmt.number, Stmt.keys, c.keys_number, t.keys_number, e.keys_number,
      List.length_append, range'_append_length]
    rw [← List.length_append, range'_append_length]
  | .returnStmt _ value => optionKeys_number n value

/-- The keys are consecutive numbers, so no two are the same. -/
theorem Stmt.allKeys_numberAll (n : Nat) : (ss : List (Stmt δ)) →
    Stmt.allKeys (Stmt.numberAll n ss) = List.range' n (Stmt.allKeys ss).length
  | [] => rfl
  | s :: ss => by
    simp only [Stmt.numberAll, Stmt.allKeys, s.keys_number, Stmt.allKeys_numberAll _ ss,
      List.length_append, range'_append_length]

end

mutual

theorem Expr.untag_number (n : Nat) : (e : Expr Unit) → (e.number n).map untag = e
  | .literal _ | .reference _ _ => rfl
  | .group e => by simp only [Expr.number, Expr.map, e.untag_number n]
  | .unary _ e => by simp only [Expr.number, Expr.map, e.untag_number n]
  | .binary l _ r => by simp only [Expr.number, Expr.map, l.untag_number, r.untag_number]
  | .logical l _ r => by simp only [Expr.number, Expr.map, l.untag_number, r.untag_number]
  | .assign _ _ e => by simp only [Expr.number, Expr.map, e.untag_number n, untag]
  | .call callee _ args => by
    simp only [Expr.number, Expr.map, callee.untag_number, Expr.untag_numberAll _ args]

theorem Expr.untag_numberAll (n : Nat) : (es : List (Expr Unit)) →
    Expr.mapAll untag (Expr.numberAll n es) = es
  | [] => rfl
  | e :: es => by
    simp only [Expr.numberAll, Expr.mapAll, e.untag_number, Expr.untag_numberAll _ es]

end

theorem optionMap_untag_number (n : Nat) (e : Option (Expr Unit)) :
    (e.map (Expr.number n)).map (Expr.map untag) = e := by
  cases e with
  | none => rfl
  | some e => exact congrArg some (e.untag_number n)

mutual

theorem Stmt.untag_number (n : Nat) : (s : Stmt Unit) → (s.number n).map untag = s
  | .expr e => by simp only [Stmt.number, Stmt.map, e.untag_number n]
  | .letDecl _ init _ => by simp only [Stmt.number, Stmt.map, optionMap_untag_number n init]
  | .block body => by simp only [Stmt.number, Stmt.map, Stmt.untag_numberAll n body]
  | .branch c t none => by simp only [Stmt.number, Stmt.map, c.untag_number, t.untag_number]
  | .branch c t (some e) => by
    simp only [Stmt.number, Stmt.map, c.untag_number, t.untag_number, e.untag_number]
  | .returnStmt _ value => by simp only [Stmt.number, Stmt.map, optionMap_untag_number n value]
  | .functionDecl _ _ body => by simp only [Stmt.number, Stmt.map, Stmt.untag_numberAll n body]
  | .namespaceDecl _ body => by simp only [Stmt.number, Stmt.map, Stmt.untag_numberAll n body]

/-- Without its keys, a numbered tree is the tree from before. -/
theorem Stmt.untag_numberAll (n : Nat) : (ss : List (Stmt Unit)) →
    Stmt.mapAll untag (Stmt.numberAll n ss) = ss
  | [] => rfl
  | s :: ss => by
    simp only [Stmt.numberAll, Stmt.mapAll, s.untag_number, Stmt.untag_numberAll _ ss]

end

/-! ## Names that are found through a table -/

/-- Names are found by what their tags stand for. -/
def Names.through (g : Option Nat → Option Nat) : Names where
  lookUp env name tag := RadixScript.lookUp env name (g tag)
  assign env name v tag := assignName env name v (g tag)

theorem Names.through_id : Names.through id = .tagged := rfl

section retag

variable {f : Option Nat → Option Nat}

mutual

theorem Expr.becomes_map : (e : Expr (Option Nat)) → e.Becomes (fun t t' => t' = f t) (e.map f)
  | .literal v => .literal v
  | .group e => .group e.becomes_map
  | .unary _ e => .unary e.becomes_map
  | .binary l _ r => .binary l.becomes_map r.becomes_map
  | .logical l _ r => .logical l.becomes_map r.becomes_map
  | .reference _ _ => .reference rfl
  | .assign _ _ e => .assign rfl e.becomes_map
  | .call callee _ args => .call callee.becomes_map (Expr.allBecomes_mapAll args)

theorem Expr.allBecomes_mapAll : (es : List (Expr (Option Nat))) →
    Expr.AllBecomes (fun t t' => t' = f t) es (Expr.mapAll f es)
  | [] => .nil
  | e :: es => .cons e.becomes_map (Expr.allBecomes_mapAll es)

end

theorem rel_becomes_map (e : Option (Expr (Option Nat))) :
    Option.Rel (Expr.Becomes fun t t' => t' = f t) e (e.map (Expr.map f)) := by
  cases e with
  | none => exact .none
  | some e => exact .some e.becomes_map

mutual

theorem Stmt.becomes_map : (s : Stmt (Option Nat)) →
    s.Becomes (Stmt.mapAll f) (fun t t' => t' = f t) (s.map f)
  | .expr e => .expr e.becomes_map
  | .letDecl _ init _ => .letDecl (rel_becomes_map init)
  | .block body => .block (Stmt.allBecomes_mapAll body)
  | .branch c t none => .branch c.becomes_map t.becomes_map
  | .branch c t (some e) => .branchElse c.becomes_map t.becomes_map e.becomes_map
  | .returnStmt _ value => .returnStmt (rel_becomes_map value)
  | .functionDecl _ _ _ => .functionDecl
  | .namespaceDecl _ _ => .namespaceDecl

theorem Stmt.allBecomes_mapAll : (ss : List (Stmt (Option Nat))) →
    Stmt.AllBecomes (Stmt.mapAll f) (fun t t' => t' = f t) ss (Stmt.mapAll f ss)
  | [] => .nil
  | s :: ss => .cons s.becomes_map (Stmt.allBecomes_mapAll ss)

end

end retag

/-- Tags may be changed by `f` if they stand for the same afterwards. -/
def Recasting.retag (g g' f : Option Nat → Option Nat) (h : ∀ t, g' (f t) = g t) : Recasting where
  before := .through g
  after := .through g'
  body := Stmt.mapAll f
  tag t t' := t' = f t
  lookUp := by
    rintro env name t _ rfl
    dsimp only [Names.through]
    rw [h]
    exact lookUp_recasts env name (g t)
  assign := by
    rintro env name v t _ rfl
    dsimp only [Names.through]
    rw [h]
    exact assignName_recasts env name v (g t)
  bodies := Stmt.allBecomes_mapAll

/-- A program with other tags that stand for the same ends as before. -/
theorem Recasting.retag_program (g g' f : Option Nat → Option Nat) (h : ∀ t, g' (f t) = g t)
    (p : Program (Option Nat)) (depth : Nat) (m : Machine) :
    Stmt.execAll (.through g') (.ofDepth (.through g') depth) globalScope (Stmt.mapAll f p)
        (m.recast (Stmt.mapAll f)) =
      recastResult (Stmt.mapAll f) (Completion.recast (Stmt.mapAll f))
        (Stmt.execAll (.through g) (.ofDepth (.through g) depth) globalScope p m) :=
  (Recasting.retag g g' f h).program (Stmt.allBecomes_mapAll p) depth m

end RadixScript
