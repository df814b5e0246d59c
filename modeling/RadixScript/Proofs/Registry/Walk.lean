import Mathlib.Logic.Function.Basic
import RadixScript.Proofs.Grammar.Resolved
import RadixScript.Proofs.Scoping.Watch

/-!
# The walk of the resolver

`Program.resolve` writes the distances of names into a new tree. They can also be kept apart from
the tree: every use of a name has a key of its own, and a resolver walks over the tree with a stack
of scopes that grow as names are declared, and registers the distances under the keys.

What one step of the walk does is said by `Resolver.after`, and `Stmt.register_eq` says it of every
statement: the stack and the depth of functions are left as they were, up to the names that the
statement declares around itself, and what is registered is `Stmt.tags`. The distances under the
keys are those of `Program.resolve` (`Stmt.mapAll_eq_resolveAll`).
-/

namespace RadixScript

variable {κ δ : Type}

/-! ## Keys -/

mutual

/-- What the uses of names in an expression carry. An assignment comes after its value. -/
def Expr.keys : Expr κ → List κ
  | .literal _ => []
  | .group e | .unary _ e => e.keys
  | .binary l _ r | .logical l _ r => l.keys ++ r.keys
  | .reference _ key => [key]
  | .assign _ key e => e.keys ++ [key]
  | .call callee _ args => callee.keys ++ Expr.allKeys args

/-- What the uses of names in several expressions carry. -/
def Expr.allKeys : List (Expr κ) → List κ
  | [] => []
  | e :: es => e.keys ++ Expr.allKeys es

end

/-- What the uses of names in an expression carry, if there is one. -/
def optionKeys : Option (Expr κ) → List κ
  | none => []
  | some e => e.keys

mutual

/-- What the uses of names in a statement carry, those in namespaces too. -/
def Stmt.keys : Stmt κ → List κ
  | .expr e => e.keys
  | .letDecl _ init _ => optionKeys init
  | .block body | .functionDecl _ _ body | .namespaceDecl _ body => Stmt.allKeys body
  | .branch c t none => c.keys ++ t.keys
  | .branch c t (some e) => c.keys ++ t.keys ++ e.keys
  | .returnStmt _ value => optionKeys value

/-- What the uses of names in several statements carry. -/
def Stmt.allKeys : List (Stmt κ) → List κ
  | [] => []
  | s :: ss => s.keys ++ Stmt.allKeys ss

end

section maps

variable {α β γ : Type}

mutual

theorem Expr.map_map (g : β → γ) (f : α → β) : (e : Expr α) →
    (e.map f).map g = e.map fun key => g (f key)
  | .literal _ | .reference _ _ => rfl
  | .group e => by simp only [Expr.map, e.map_map g f]
  | .unary _ e => by simp only [Expr.map, e.map_map g f]
  | .binary l _ r => by simp only [Expr.map, l.map_map g f, r.map_map g f]
  | .logical l _ r => by simp only [Expr.map, l.map_map g f, r.map_map g f]
  | .assign _ _ e => by simp only [Expr.map, e.map_map g f]
  | .call callee _ args => by simp only [Expr.map, callee.map_map g f, Expr.mapAll_mapAll g f args]

theorem Expr.mapAll_mapAll (g : β → γ) (f : α → β) : (es : List (Expr α)) →
    Expr.mapAll g (Expr.mapAll f es) = Expr.mapAll (fun key => g (f key)) es
  | [] => rfl
  | e :: es => by simp only [Expr.mapAll, e.map_map g f, Expr.mapAll_mapAll g f es]

end

theorem optionMap_map_map (g : β → γ) (f : α → β) (e : Option (Expr α)) :
    (e.map (Expr.map f)).map (Expr.map g) = e.map (Expr.map fun key => g (f key)) := by
  cases e with
  | none => rfl
  | some e => exact congrArg some (e.map_map g f)

mutual

theorem Stmt.map_map (g : β → γ) (f : α → β) : (s : Stmt α) →
    (s.map f).map g = s.map fun key => g (f key)
  | .expr e => by simp only [Stmt.map, e.map_map g f]
  | .letDecl _ init _ => by simp only [Stmt.map, optionMap_map_map g f init]
  | .block body => by simp only [Stmt.map, Stmt.mapAll_mapAll g f body]
  | .branch c t none => by simp only [Stmt.map, c.map_map g f, t.map_map g f]
  | .branch c t (some e) => by simp only [Stmt.map, c.map_map g f, t.map_map g f, e.map_map g f]
  | .returnStmt _ value => by simp only [Stmt.map, optionMap_map_map g f value]
  | .functionDecl _ _ body => by simp only [Stmt.map, Stmt.mapAll_mapAll g f body]
  | .namespaceDecl _ body => by simp only [Stmt.map, Stmt.mapAll_mapAll g f body]

theorem Stmt.mapAll_mapAll (g : β → γ) (f : α → β) : (ss : List (Stmt α)) →
    Stmt.mapAll g (Stmt.mapAll f ss) = Stmt.mapAll (fun key => g (f key)) ss
  | [] => rfl
  | s :: ss => by simp only [Stmt.mapAll, s.map_map g f, Stmt.mapAll_mapAll g f ss]

end

mutual

theorem Expr.map_congr {f g : α → β} : (e : Expr α) → (∀ key ∈ e.keys, f key = g key) →
    e.map f = e.map g
  | .literal _, _ => rfl
  | .group e, h => by simp only [Expr.map, e.map_congr h]
  | .unary _ e, h => by simp only [Expr.map, e.map_congr h]
  | .binary l _ r, h => by
    obtain ⟨hl, hr⟩ := List.forall_mem_append.mp h
    simp only [Expr.map, l.map_congr hl, r.map_congr hr]
  | .logical l _ r, h => by
    obtain ⟨hl, hr⟩ := List.forall_mem_append.mp h
    simp only [Expr.map, l.map_congr hl, r.map_congr hr]
  | .reference _ _, h => by simp only [Expr.map, List.forall_mem_singleton.mp h]
  | .assign _ _ e, h => by
    obtain ⟨he, hkey⟩ := List.forall_mem_append.mp h
    simp only [Expr.map, e.map_congr he, List.forall_mem_singleton.mp hkey]
  | .call callee _ args, h => by
    obtain ⟨hcallee, hargs⟩ := List.forall_mem_append.mp h
    simp only [Expr.map, callee.map_congr hcallee, Expr.mapAll_congr args hargs]

theorem Expr.mapAll_congr {f g : α → β} : (es : List (Expr α)) →
    (∀ key ∈ Expr.allKeys es, f key = g key) → Expr.mapAll f es = Expr.mapAll g es
  | [], _ => rfl
  | e :: es, h => by
    obtain ⟨he, hes⟩ := List.forall_mem_append.mp h
    simp only [Expr.mapAll, e.map_congr he, Expr.mapAll_congr es hes]

end

theorem optionMap_congr {f g : α → β} {e : Option (Expr α)}
    (h : ∀ key ∈ optionKeys e, f key = g key) : e.map (Expr.map f) = e.map (Expr.map g) := by
  cases e with
  | none => rfl
  | some e => exact congrArg some (e.map_congr h)

mutual

theorem Stmt.map_congr {f g : α → β} : (s : Stmt α) → (∀ key ∈ s.keys, f key = g key) →
    s.map f = s.map g
  | .expr e, h => by simp only [Stmt.map, e.map_congr h]
  | .letDecl _ _ _, h => by simp only [Stmt.map, optionMap_congr h]
  | .block body, h => by simp only [Stmt.map, Stmt.mapAll_congr body h]
  | .branch c t none, h => by
    obtain ⟨hc, ht⟩ := List.forall_mem_append.mp h
    simp only [Stmt.map, c.map_congr hc, t.map_congr ht]
  | .branch c t (some e), h => by
    obtain ⟨hct, he⟩ := List.forall_mem_append.mp h
    obtain ⟨hc, ht⟩ := List.forall_mem_append.mp hct
    simp only [Stmt.map, c.map_congr hc, t.map_congr ht, e.map_congr he]
  | .returnStmt _ _, h => by simp only [Stmt.map, optionMap_congr h]
  | .functionDecl _ _ body, h => by simp only [Stmt.map, Stmt.mapAll_congr body h]
  | .namespaceDecl _ body, h => by simp only [Stmt.map, Stmt.mapAll_congr body h]

/-- Only what names carry matters. -/
theorem Stmt.mapAll_congr {f g : α → β} : (ss : List (Stmt α)) →
    (∀ key ∈ Stmt.allKeys ss, f key = g key) → Stmt.mapAll f ss = Stmt.mapAll g ss
  | [], _ => rfl
  | s :: ss, h => by
    obtain ⟨hs, hss⟩ := List.forall_mem_append.mp h
    simp only [Stmt.mapAll, s.map_congr hs, Stmt.mapAll_congr ss hss]

end

end maps

/-! ## Tags -/

mutual

/-- The keys of an expression, with the distances of the names. -/
def Expr.tags (scopes : LocalScopes) : Expr κ → List (κ × Option Nat)
  | .literal _ => []
  | .group e | .unary _ e => e.tags scopes
  | .binary l _ r | .logical l _ r => l.tags scopes ++ r.tags scopes
  | .reference name key => [(key, scopes.distance? name.text)]
  | .assign name key e => e.tags scopes ++ [(key, scopes.distance? name.text)]
  | .call callee _ args => callee.tags scopes ++ Expr.allTags scopes args

/-- The keys of several expressions, with the distances of the names. -/
def Expr.allTags (scopes : LocalScopes) : List (Expr κ) → List (κ × Option Nat)
  | [] => []
  | e :: es => e.tags scopes ++ Expr.allTags scopes es

end

/-- The keys of an expression, if there is one, with the distances of the names. -/
def optionTags (scopes : LocalScopes) : Option (Expr κ) → List (κ × Option Nat)
  | none => []
  | some e => e.tags scopes

mutual

/-- The keys of a statement, with the distances of the names. In namespaces there are none. -/
def Stmt.tags (scopes : LocalScopes) : Stmt κ → List (κ × Option Nat)
  | .expr e => e.tags scopes
  | .letDecl _ init _ => optionTags scopes init
  | .block body => Stmt.allTags ([] :: scopes) body
  | .branch c t none => c.tags scopes ++ t.tags scopes
  | .branch c t (some e) =>
    c.tags scopes ++ t.tags scopes ++ e.tags (scopes.declareAll t.declaredNames)
  | .returnStmt _ value => optionTags scopes value
  | .functionDecl name params body =>
    Stmt.allTags (params.map Token.text :: scopes.declare name.text) body
  | .namespaceDecl _ body => (Stmt.allKeys body).map fun key => (key, none)

/-- The keys of consecutive statements of one scope, with the distances of the names. -/
def Stmt.allTags (scopes : LocalScopes) : List (Stmt κ) → List (κ × Option Nat)
  | [] => []
  | s :: ss => s.tags scopes ++ Stmt.allTags (scopes.declareAll s.declaredNames) ss

end

mutual

theorem Expr.map_fst_tags (scopes : LocalScopes) : (e : Expr κ) →
    (e.tags scopes).map Prod.fst = e.keys
  | .literal _ | .reference _ _ => rfl
  | .group e | .unary _ e => e.map_fst_tags scopes
  | .binary l _ r | .logical l _ r => by
    rw [Expr.tags, List.map_append, l.map_fst_tags scopes, r.map_fst_tags scopes, Expr.keys]
  | .assign _ _ e => by
    rw [Expr.tags, List.map_append, e.map_fst_tags scopes, Expr.keys]
    rfl
  | .call callee _ args => by
    rw [Expr.tags, List.map_append, callee.map_fst_tags scopes, Expr.map_fst_allTags scopes args,
      Expr.keys]

theorem Expr.map_fst_allTags (scopes : LocalScopes) : (es : List (Expr κ)) →
    (Expr.allTags scopes es).map Prod.fst = Expr.allKeys es
  | [] => rfl
  | e :: es => by
    rw [Expr.allTags, List.map_append, e.map_fst_tags scopes, Expr.map_fst_allTags scopes es,
      Expr.allKeys]

end

theorem map_fst_optionTags (scopes : LocalScopes) (e : Option (Expr κ)) :
    (optionTags scopes e).map Prod.fst = optionKeys e := by
  cases e with
  | none => rfl
  | some e => exact e.map_fst_tags scopes

mutual

theorem Stmt.map_fst_tags : (s : Stmt κ) → ∀ scopes : LocalScopes,
    (s.tags scopes).map Prod.fst = s.keys
  | .expr e, scopes => e.map_fst_tags scopes
  | .letDecl _ init _, scopes => map_fst_optionTags scopes init
  | .block body, scopes => Stmt.map_fst_allTags body _
  | .branch c t none, scopes => by
    rw [Stmt.tags, List.map_append, c.map_fst_tags, t.map_fst_tags, Stmt.keys]
  | .branch c t (some e), scopes => by
    rw [Stmt.tags, List.map_append, List.map_append, c.map_fst_tags, t.map_fst_tags,
      e.map_fst_tags, Stmt.keys]
  | .returnStmt _ value, scopes => map_fst_optionTags scopes value
  | .functionDecl _ _ body, _ => Stmt.map_fst_allTags body _
  | .namespaceDecl _ body, _ => by
    rw [Stmt.tags, List.map_map, Stmt.keys]
    exact List.map_id _

/-- Every key has one tag. -/
theorem Stmt.map_fst_allTags : (ss : List (Stmt κ)) → ∀ scopes : LocalScopes,
    (Stmt.allTags scopes ss).map Prod.fst = Stmt.allKeys ss
  | [], _ => rfl
  | s :: ss, scopes => by
    rw [Stmt.allTags, List.map_append, s.map_fst_tags, Stmt.map_fst_allTags ss, Stmt.allKeys]

end

/-! ## Tags and resolution -/

mutual

theorem Expr.map_eq_resolve {f : κ → Option Nat} {scopes : LocalScopes} : (e : Expr κ) →
    (∀ tag ∈ e.tags scopes, f tag.1 = tag.2) → e.map f = (e.map untag).resolve scopes
  | .literal _, _ => rfl
  | .group e, h => by
    simp only [Expr.map, Expr.resolve, e.map_eq_resolve h]
  | .unary _ e, h => by
    simp only [Expr.map, Expr.resolve, e.map_eq_resolve h]
  | .binary l _ r, h => by
    obtain ⟨hl, hr⟩ := List.forall_mem_append.mp h
    simp only [Expr.map, Expr.resolve, l.map_eq_resolve hl, r.map_eq_resolve hr]
  | .logical l _ r, h => by
    obtain ⟨hl, hr⟩ := List.forall_mem_append.mp h
    simp only [Expr.map, Expr.resolve, l.map_eq_resolve hl, r.map_eq_resolve hr]
  | .reference _ _, h => by
    simp only [Expr.map, Expr.resolve, List.forall_mem_singleton.mp h]
  | .assign _ _ e, h => by
    obtain ⟨he, hkey⟩ := List.forall_mem_append.mp h
    simp only [Expr.map, Expr.resolve, e.map_eq_resolve he, List.forall_mem_singleton.mp hkey]
  | .call callee _ args, h => by
    obtain ⟨hcallee, hargs⟩ := List.forall_mem_append.mp h
    simp only [Expr.map, Expr.resolve, callee.map_eq_resolve hcallee,
      Expr.mapAll_eq_resolveAll args hargs]

theorem Expr.mapAll_eq_resolveAll {f : κ → Option Nat} {scopes : LocalScopes} :
    (es : List (Expr κ)) → (∀ tag ∈ Expr.allTags scopes es, f tag.1 = tag.2) →
    Expr.mapAll f es = Expr.resolveAll scopes (Expr.mapAll untag es)
  | [], _ => rfl
  | e :: es, h => by
    obtain ⟨he, hes⟩ := List.forall_mem_append.mp h
    simp only [Expr.mapAll, Expr.resolveAll, e.map_eq_resolve he, Expr.mapAll_eq_resolveAll es hes]

end

theorem optionMap_eq_resolve {f : κ → Option Nat} {scopes : LocalScopes} {e : Option (Expr κ)}
    (h : ∀ tag ∈ optionTags scopes e, f tag.1 = tag.2) :
    e.map (Expr.map f) = (e.map (Expr.map untag)).map (Expr.resolve scopes) := by
  cases e with
  | none => rfl
  | some e => exact congrArg some (e.map_eq_resolve h)

theorem Stmt.declaredNames_map {ε : Type} (f : δ → ε) : (s : Stmt δ) →
    (s.map f).declaredNames = s.declaredNames
  | .expr _ | .letDecl _ _ _ | .block _ | .returnStmt _ _ | .functionDecl _ _ _
  | .namespaceDecl _ _ => rfl
  | .branch _ t none => t.declaredNames_map f
  | .branch _ t (some e) => by
    rw [Stmt.map, Stmt.declaredNames, Stmt.declaredNames, t.declaredNames_map f,
      e.declaredNames_map f]

mutual

theorem Stmt.map_eq_resolve {f : κ → Option Nat} : (s : Stmt κ) → ∀ scopes : LocalScopes,
    (∀ tag ∈ s.tags scopes, f tag.1 = tag.2) → s.map f = (s.map untag).resolve scopes
  | .expr e, _, h => by simp only [Stmt.map, Stmt.resolve, e.map_eq_resolve h]
  | .letDecl _ _ _, _, h => by simp only [Stmt.map, Stmt.resolve, optionMap_eq_resolve h]
  | .block body, _, h => by simp only [Stmt.map, Stmt.resolve, Stmt.mapAll_eq_resolveAll body _ h]
  | .branch c t none, scopes, h => by
    obtain ⟨hc, ht⟩ := List.forall_mem_append.mp h
    simp only [Stmt.map, Stmt.resolve, c.map_eq_resolve hc, t.map_eq_resolve scopes ht]
  | .branch c t (some e), scopes, h => by
    obtain ⟨hct, he⟩ := List.forall_mem_append.mp h
    obtain ⟨hc, ht⟩ := List.forall_mem_append.mp hct
    simp only [Stmt.map, Stmt.resolve, c.map_eq_resolve hc, t.map_eq_resolve scopes ht,
      t.declaredNames_map untag, e.map_eq_resolve _ he]
  | .returnStmt _ _, _, h => by simp only [Stmt.map, Stmt.resolve, optionMap_eq_resolve h]
  | .functionDecl _ _ body, _, h => by
    simp only [Stmt.map, Stmt.resolve, Stmt.mapAll_eq_resolveAll body _ h]
  | .namespaceDecl _ body, _, h => by
    rw [Stmt.tags, List.forall_mem_map] at h
    simp only [Stmt.map, Stmt.resolve, Stmt.mapAll_mapAll, Stmt.mapAll_congr body h]

/-- Under the keys, the distances are those that resolution puts into the tree. -/
theorem Stmt.mapAll_eq_resolveAll {f : κ → Option Nat} : (ss : List (Stmt κ)) →
    ∀ scopes : LocalScopes, (∀ tag ∈ Stmt.allTags scopes ss, f tag.1 = tag.2) →
    Stmt.mapAll f ss = Stmt.resolveAll scopes (Stmt.mapAll untag ss)
  | [], _, _ => rfl
  | s :: ss, scopes, h => by
    obtain ⟨hs, hss⟩ := List.forall_mem_append.mp h
    simp only [Stmt.mapAll, Stmt.resolveAll, s.map_eq_resolve scopes hs, s.declaredNames_map untag,
      Stmt.mapAll_eq_resolveAll ss _ hss]

end

/-! ## The resolver -/

/-- The state of a resolver on its walk over a tree. -/
structure Resolver (κ : Type) where
  /-- The names declared so far in the scopes around, innermost scope first. -/
  scopes : LocalScopes
  /-- How many functions are around. -/
  functionDepth : Nat
  problems : List Diagnostic
  /-- The distances that have been registered, oldest first. -/
  registrations : List (κ × Nat)
  /-- How many they are. -/
  registered : Nat

namespace Resolver

/-- The resolver at the beginning of its walk. -/
def start : Resolver κ := ⟨[], 0, [], [], 0⟩

/-- Declares a name in the innermost scope, if there is one. -/
def declare (r : Resolver κ) (name : Token) : Resolver κ :=
  { r with scopes := r.scopes.declare name.text }

/-- Registers the distance of a name, if one of the scopes declares it. -/
def resolveLocal (r : Resolver κ) (name : Token) (key : κ) : Resolver κ :=
  match r.scopes.distance? name.text with
  | none => r
  | some d =>
    { r with registrations := r.registrations ++ [(key, d)], registered := r.registered + 1 }

/-- Goes into a scope that has some names already. -/
def push (r : Resolver κ) (names : List String) : Resolver κ :=
  { r with scopes := names :: r.scopes }

/-- Leaves the innermost scope. -/
def pop (r : Resolver κ) : Resolver κ := { r with scopes := r.scopes.tail }

/-- Goes into a function. -/
def enterFunction (r : Resolver κ) : Resolver κ := { r with functionDepth := r.functionDepth + 1 }

/-- Leaves a function. -/
def leaveFunction (r : Resolver κ) : Resolver κ := { r with functionDepth := r.functionDepth - 1 }

/-- Comes to a `return`, which has to be in a function. -/
def checkReturn (r : Resolver κ) (keyword : Token) : Resolver κ :=
  if r.functionDepth = 0 then
    { r with problems := r.problems ++ [.ofToken keyword .misplacedReturn] }
  else r

end Resolver

mutual

/-- Walks over an expression. -/
def Expr.register (r : Resolver κ) : Expr κ → Resolver κ
  | .literal _ => r
  | .group e | .unary _ e => e.register r
  | .binary left _ right | .logical left _ right => right.register (left.register r)
  | .reference name key => r.resolveLocal name key
  | .assign name key e => (e.register r).resolveLocal name key
  | .call callee _ args => Expr.registerAll (callee.register r) args

/-- Walks over expressions, from left to right. -/
def Expr.registerAll (r : Resolver κ) : List (Expr κ) → Resolver κ
  | [] => r
  | e :: es => Expr.registerAll (e.register r) es

end

/-- Walks over an expression, if there is one. -/
def registerOption (r : Resolver κ) : Option (Expr κ) → Resolver κ
  | none => r
  | some e => e.register r

mutual

/-- Walks over a statement. -/
def Stmt.register (r : Resolver κ) : Stmt κ → Resolver κ
  | .expr e => e.register r
  | .letDecl name init _ => (registerOption r init).declare name
  | .block body => (Stmt.registerAll (r.push []) body).pop
  | .branch c t none => t.register (c.register r)
  | .branch c t (some e) => e.register (t.register (c.register r))
  | .returnStmt keyword value => registerOption (r.checkReturn keyword) value
  | .functionDecl name params body =>
    let inside := (r.declare name).enterFunction.push (params.map Token.text)
    (Stmt.registerAll inside body).pop.leaveFunction
  | .namespaceDecl _ _ => r

/-- Walks over consecutive statements. -/
def Stmt.registerAll (r : Resolver κ) : List (Stmt κ) → Resolver κ
  | [] => r
  | s :: ss => Stmt.registerAll (s.register r) ss

end

/-- The resolver after its walk over a program. -/
def Program.register (p : Program κ) : Resolver κ := Stmt.registerAll .start p

/-! ## What the walk does -/

/-- The tags that are registered: those of names that one of the scopes declares. -/
def found (tags : List (κ × Option Nat)) : List (κ × Nat) :=
  tags.filterMap fun (key, tag) => tag.map fun d => (key, d)

@[simp] theorem found_nil : found ([] : List (κ × Option Nat)) = [] := rfl

@[simp] theorem found_append (tags tags' : List (κ × Option Nat)) :
    found (tags ++ tags') = found tags ++ found tags' := List.filterMap_append

theorem found_none (keys : List κ) : found (keys.map fun key => (key, none)) = [] := by
  rw [found, List.filterMap_map]
  exact List.filterMap_eq_nil_iff.mpr fun _ _ => rfl

theorem mem_found {tags : List (κ × Option Nat)} {key : κ} {d : Nat} :
    (key, d) ∈ found tags ↔ (key, some d) ∈ tags := by
  rw [found, List.mem_filterMap]
  constructor
  · rintro ⟨⟨key', tag⟩, hmem, h⟩
    cases tag with
    | none => cases h
    | some d' =>
      cases h
      exact hmem
  · intro hmem
    exact ⟨(key, some d), hmem, rfl⟩

theorem map_fst_found_sublist (tags : List (κ × Option Nat)) :
    List.Sublist ((found tags).map Prod.fst) (tags.map Prod.fst) := by
  induction tags with
  | nil => exact .slnil
  | cons tag tags ih =>
    obtain ⟨key, tag⟩ := tag
    cases tag with
    | none => exact .cons _ ih
    | some d => exact .cons_cons _ ih

namespace LocalScopes

theorem declareAll_append (scopes : LocalScopes) (names names' : List String) :
    scopes.declareAll (names ++ names') = (scopes.declareAll names).declareAll names' :=
  List.foldl_append

theorem declareAll_cons (scope : List String) (outer : LocalScopes) (names : List String) :
    declareAll (scope :: outer) names = (names.reverse ++ scope) :: outer := by
  induction names generalizing scope with
  | nil => rfl
  | cons name names ih =>
    rw [List.reverse_cons, List.append_assoc]
    exact ih (name :: scope)

end LocalScopes

/-- The diagnostics of returns with the given number of functions around. -/
def misplaced (returns : List Token) : Nat → List Diagnostic
  | 0 => returns.map fun keyword => .ofToken keyword .misplacedReturn
  | _ + 1 => []

theorem misplaced_nil (n : Nat) : misplaced [] n = [] := by
  cases n <;> rfl

theorem misplaced_append (returns returns' : List Token) (n : Nat) :
    misplaced (returns ++ returns') n = misplaced returns n ++ misplaced returns' n := by
  cases n with
  | zero => exact List.map_append
  | succ n => rfl

namespace Resolver

/-- The resolver after a part of the tree with the given tags, with returns that may be misplaced,
and with names that the part declares around itself. -/
def after (r : Resolver κ) (tags : List (κ × Option Nat)) (returns : List Token)
    (names : List String) : Resolver κ where
  scopes := r.scopes.declareAll names
  functionDepth := r.functionDepth
  problems := r.problems ++ misplaced returns r.functionDepth
  registrations := r.registrations ++ found tags
  registered := r.registered + (found tags).length

variable {r : Resolver κ} {tags tags' : List (κ × Option Nat)} {returns returns' : List Token}
  {names names' : List String}

theorem after_after : (r.after tags returns names).after tags' returns' names' =
    r.after (tags ++ tags') (returns ++ returns') (names ++ names') := by
  simp only [after, LocalScopes.declareAll_append, misplaced_append, List.append_assoc,
    found_append, List.length_append, Nat.add_assoc]

theorem after_nil : r.after [] [] [] = r := by
  simp [after, LocalScopes.declareAll, misplaced_nil]

theorem resolveLocal_eq (name : Token) (key : κ) :
    r.resolveLocal name key = r.after [(key, r.scopes.distance? name.text)] [] [] := by
  rw [resolveLocal]
  cases h : r.scopes.distance? name.text <;>
    simp [after, found, LocalScopes.declareAll, misplaced_nil]

theorem declare_eq (name : Token) : r.declare name = r.after [] [] [name.text] := by
  simp [declare, after, LocalScopes.declareAll, misplaced_nil]

theorem checkReturn_eq (keyword : Token) : r.checkReturn keyword = r.after [] [keyword] [] := by
  obtain ⟨scopes, functionDepth, problems, registrations, registered⟩ := r
  cases functionDepth <;> simp [checkReturn, after, LocalScopes.declareAll, misplaced]

/-- The names of a scope are gone when it is left. -/
theorem pop_after_push (scope : List String) :
    ((r.push scope).after tags returns names).pop = r.after tags returns [] := by
  simp only [pop, after, push, LocalScopes.declareAll_cons, List.tail_cons]
  rfl

/-- In a function no return is misplaced. -/
theorem leaveFunction_after_enterFunction :
    (r.enterFunction.after tags returns names).leaveFunction = r.after tags [] names := by
  obtain ⟨scopes, functionDepth, problems, registrations, registered⟩ := r
  cases functionDepth <;> simp [leaveFunction, after, enterFunction, misplaced]

end Resolver

open Resolver

mutual

theorem Expr.register_eq : (e : Expr κ) → ∀ r : Resolver κ,
    e.register r = r.after (e.tags r.scopes) [] []
  | .literal _, r => after_nil.symm
  | .group e, r | .unary _ e, r => e.register_eq r
  | .binary left _ right, r | .logical left _ right, r => by
    rw [Expr.register, left.register_eq, right.register_eq, after_after, Expr.tags]
    rfl
  | .reference name key, r => resolveLocal_eq name key
  | .assign name key e, r => by
    rw [Expr.register, e.register_eq, resolveLocal_eq, after_after, Expr.tags]
    rfl
  | .call callee _ args, r => by
    rw [Expr.register, callee.register_eq, Expr.registerAll_eq args, after_after, Expr.tags]
    rfl

theorem Expr.registerAll_eq : (es : List (Expr κ)) → ∀ r : Resolver κ,
    Expr.registerAll r es = r.after (Expr.allTags r.scopes es) [] []
  | [], r => after_nil.symm
  | e :: es, r => by
    rw [Expr.registerAll, e.register_eq, Expr.registerAll_eq es, after_after, Expr.allTags]
    rfl

end

theorem registerOption_eq (e : Option (Expr κ)) (r : Resolver κ) :
    registerOption r e = r.after (optionTags r.scopes e) [] [] := by
  cases e with
  | none => exact after_nil.symm
  | some e => exact e.register_eq r

mutual

/-- **What the walk over a statement does.** -/
theorem Stmt.register_eq : (s : Stmt κ) → ∀ r : Resolver κ,
    s.register r = r.after (s.tags r.scopes) s.strayReturns s.declaredNames
  | .expr e, r => e.register_eq r
  | .letDecl name init _, r => by
    rw [Stmt.register, registerOption_eq, declare_eq, after_after, List.append_nil]
    rfl
  | .block body, r => by
    rw [Stmt.register, Stmt.registerAll_eq body, pop_after_push]
    rfl
  | .branch c t none, r => by
    rw [Stmt.register, c.register_eq, t.register_eq, after_after]
    rfl
  | .branch c t (some e), r => by
    rw [Stmt.register, c.register_eq, t.register_eq, e.register_eq, after_after, after_after,
      Stmt.tags, List.append_assoc]
    rfl
  | .returnStmt keyword value, r => by
    rw [Stmt.register, checkReturn_eq, registerOption_eq, after_after]
    rfl
  | .functionDecl name params body, r => by
    dsimp only [Stmt.register]
    rw [Stmt.registerAll_eq body, pop_after_push, leaveFunction_after_enterFunction, declare_eq,
      after_after]
    rfl
  | .namespaceDecl name body, r => by
    have hnone : r.after ((Stmt.allKeys body).map fun key => (key, none)) [] [] =
        r.after [] [] [] := by
      simp only [after, found_none, found_nil]
    exact (hnone.trans after_nil).symm

/-- **What the walk over consecutive statements does.** -/
theorem Stmt.registerAll_eq : (ss : List (Stmt κ)) → ∀ r : Resolver κ,
    Stmt.registerAll r ss =
      r.after (Stmt.allTags r.scopes ss) (Stmt.allStrayReturns ss) (Stmt.allDeclaredNames ss)
  | [], r => after_nil.symm
  | s :: ss, r => by
    rw [Stmt.registerAll, s.register_eq, Stmt.registerAll_eq ss, after_after]
    rfl

end

/-- The walk over a program ends where it has begun. -/
theorem Program.register_eq (p : Program κ) : p.register = ⟨[], 0, p.scopeProblems,
    found (Stmt.allTags [] p), (found (Stmt.allTags [] p)).length⟩ := by
  rw [Program.register, Stmt.registerAll_eq, Resolver.after]
  simp only [Resolver.start, LocalScopes.declareAll_nil, List.nil_append, Nat.zero_add, misplaced,
    Program.scopeProblems]

/-! ## What has been registered -/

/-- The table after distances have been put into it, oldest first. -/
def record [DecidableEq κ] (depths : κ → Option Nat) (log : List (κ × Nat)) : κ → Option Nat :=
  log.foldl (fun depths (key, d) => Function.update depths key (some d)) depths

section record

variable [DecidableEq κ] {depths : κ → Option Nat}

/-- Other entries stay. -/
theorem record_of_notMem {log : List (κ × Nat)} {key : κ} (h : key ∉ log.map Prod.fst) :
    record depths log key = depths key := by
  induction log generalizing depths with
  | nil => rfl
  | cons entry log ih =>
    rw [List.map_cons, List.mem_cons, not_or] at h
    exact (ih h.2).trans (Function.update_of_ne h.1 _ _)

/-- If keys are not used twice, the table has their tags in the end, provided that it had nothing
else for them before. -/
theorem record_found {tags : List (κ × Option Nat)} (hnodup : (tags.map Prod.fst).Nodup)
    (hdepths : ∀ tag ∈ tags, depths tag.1 = none ∨ depths tag.1 = tag.2) :
    ∀ tag ∈ tags, record depths (found tags) tag.1 = tag.2 := by
  induction tags generalizing depths with
  | nil => exact List.forall_mem_nil _
  | cons tag tags ih =>
    obtain ⟨key, tag⟩ := tag
    rw [List.map_cons, List.nodup_cons] at hnodup
    obtain ⟨hkey, hnodup⟩ := hnodup
    obtain ⟨hhead, htail⟩ := List.forall_mem_cons.mp hdepths
    -- the later entries leave the first one as it is
    have hlater : ∀ depths : κ → Option Nat, record depths (found tags) key = depths key :=
      fun _ => record_of_notMem fun h => hkey ((map_fst_found_sublist tags).subset h)
    rw [List.forall_mem_cons]
    cases tag with
    | none => exact ⟨(hlater depths).trans (hhead.elim id id), ih hnodup htail⟩
    | some d =>
      refine ⟨(hlater _).trans (Function.update_self ..), ih hnodup fun tag htag => ?_⟩
      have hne : tag.1 ≠ key := by
        rintro rfl
        exact hkey (List.mem_map.mpr ⟨tag, htag, rfl⟩)
      show Function.update depths key (some d) tag.1 = none ∨
        Function.update depths key (some d) tag.1 = tag.2
      rw [Function.update_of_ne hne]
      exact htail tag htag

end record

end RadixScript
