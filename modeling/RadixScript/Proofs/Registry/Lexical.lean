import Mathlib.Data.List.Forall2
import Mathlib.Data.List.Nodup
import RadixScript.Proofs.Registry.Walk
import RadixScript.Proofs.Scoping.Nearest

/-!
# What the resolver finds

The resolver keeps a stack of scopes and goes through the tree in order. Where a name leads can also
be said of a place in the tree alone, without a walk: the blocks and function bodies around the
place are `Enclosing`, each with the number of the statement in which the place lies, and a scope
declares the names of its parameters, of the `let` statements before that one, and of the functions
up to and with that one (`Enclosing.Declares`). The two agree: a name is registered with the number
of scopes inside the innermost one that declares it (`register_lexical`).
-/

namespace RadixScript

variable {κ : Type}

/-! ## Places -/

/-- A block or the body of a function, seen from a place inside. -/
structure Enclosing (κ : Type) where
  /-- The parameters of the function. A block has none. -/
  params : List Token
  body : List (Stmt κ)
  /-- The number of the statement of the body in which the place lies. -/
  index : Nat

/-- The scope declares a name before the place: as a parameter, by a `let` that ends before the
place, or by a function that begins before it. -/
def Enclosing.Declares (scope : Enclosing κ) (x : String) : Prop :=
  (∃ p ∈ scope.params, p.text = x) ∨
    (∃ k < scope.index, ∃ name init type,
      scope.body[k]? = some (.letDecl name init type) ∧ name.text = x) ∨
    ∃ k ≤ scope.index, ∃ name params body,
      scope.body[k]? = some (.functionDecl name params body) ∧ name.text = x

/-- A use of a name, at its place in a tree. -/
structure Occurrence (κ : Type) where
  key : κ
  name : Token
  /-- The blocks and function bodies around, innermost first. -/
  enclosing : List (Enclosing κ)
  /-- Whether there is a namespace around. -/
  inNamespace : Bool

mutual

/-- The uses of names in an expression, given what is around it. -/
def Expr.occurrences (around : List (Enclosing κ)) (hidden : Bool) : Expr κ → List (Occurrence κ)
  | .literal _ => []
  | .group e | .unary _ e => e.occurrences around hidden
  | .binary l _ r | .logical l _ r => l.occurrences around hidden ++ r.occurrences around hidden
  | .reference name key => [⟨key, name, around, hidden⟩]
  | .assign name key e => e.occurrences around hidden ++ [⟨key, name, around, hidden⟩]
  | .call callee _ args =>
    callee.occurrences around hidden ++ Expr.allOccurrences around hidden args

/-- The uses of names in several expressions, given what is around them. -/
def Expr.allOccurrences (around : List (Enclosing κ)) (hidden : Bool) :
    List (Expr κ) → List (Occurrence κ)
  | [] => []
  | e :: es => e.occurrences around hidden ++ Expr.allOccurrences around hidden es

end

/-- The uses of names in an expression, if there is one. -/
def optionOccurrences (around : List (Enclosing κ)) (hidden : Bool) :
    Option (Expr κ) → List (Occurrence κ)
  | none => []
  | some e => e.occurrences around hidden

mutual

/-- The uses of names in a statement, given what is around it. -/
def Stmt.occurrences (around : List (Enclosing κ)) (hidden : Bool) : Stmt κ → List (Occurrence κ)
  | .expr e => e.occurrences around hidden
  | .letDecl _ init _ => optionOccurrences around hidden init
  | .block body => Stmt.allOccurrences (fun i => ⟨[], body, i⟩ :: around) hidden 0 body
  | .branch c t none => c.occurrences around hidden ++ t.occurrences around hidden
  | .branch c t (some e) =>
    c.occurrences around hidden ++ t.occurrences around hidden ++ e.occurrences around hidden
  | .returnStmt _ value => optionOccurrences around hidden value
  | .functionDecl _ params body =>
    Stmt.allOccurrences (fun i => ⟨params, body, i⟩ :: around) hidden 0 body
  | .namespaceDecl _ body => Stmt.allOccurrences (fun _ => around) true 0 body

/-- The uses of names in consecutive statements, of which the first has the number `i`, given what
is around the statement with each number. -/
def Stmt.allOccurrences (around : Nat → List (Enclosing κ)) (hidden : Bool) (i : Nat) :
    List (Stmt κ) → List (Occurrence κ)
  | [] => []
  | s :: ss => s.occurrences (around i) hidden ++ Stmt.allOccurrences around hidden (i + 1) ss

end

/-- The uses of names in a program. -/
def Program.occurrences (p : Program κ) : List (Occurrence κ) :=
  Stmt.allOccurrences (fun _ => []) false 0 p

/-- Of the scopes, the innermost one that declares the name has `d` scopes inside. -/
def DeclaredAt (scopes : List (Enclosing κ)) (x : String) (d : Nat) : Prop :=
  ∃ inner scope outer, scopes = inner ++ scope :: outer ∧ scope.Declares x ∧
    (∀ s ∈ inner, ¬ s.Declares x) ∧ inner.length = d

theorem declaredAt_cons_zero {scope : Enclosing κ} {outer : List (Enclosing κ)} {x : String} :
    DeclaredAt (scope :: outer) x 0 ↔ scope.Declares x := by
  constructor
  · rintro ⟨inner, s, rest, heq, hs, _, hlength⟩
    obtain rfl := List.length_eq_zero_iff.mp hlength
    cases heq
    exact hs
  · intro h
    exact ⟨[], scope, outer, rfl, h, List.forall_mem_nil _, rfl⟩

theorem declaredAt_cons_succ {scope : Enclosing κ} {outer : List (Enclosing κ)} {x : String}
    {d : Nat} :
    DeclaredAt (scope :: outer) x (d + 1) ↔ ¬ scope.Declares x ∧ DeclaredAt outer x d := by
  constructor
  · rintro ⟨inner, s, rest, heq, hs, hinner, hlength⟩
    cases inner with
    | nil => cases hlength
    | cons first inner =>
      cases heq
      obtain ⟨hfirst, hinner⟩ := List.forall_mem_cons.mp hinner
      exact ⟨hfirst, inner, s, rest, rfl, hs, hinner, Nat.succ.inj hlength⟩
  · rintro ⟨hscope, inner, s, rest, rfl, hs, hinner, rfl⟩
    exact ⟨scope :: inner, s, rest, rfl, hs, List.forall_mem_cons.mpr ⟨hscope, hinner⟩, rfl⟩

/-- If a scope declares the name, there is an innermost one that does. -/
theorem exists_declaredAt_iff {scopes : List (Enclosing κ)} {x : String} :
    (∃ d, DeclaredAt scopes x d) ↔ ∃ scope ∈ scopes, scope.Declares x := by
  constructor
  · rintro ⟨_, inner, scope, outer, rfl, hscope, _, _⟩
    exact ⟨scope, List.mem_append_right _ List.mem_cons_self, hscope⟩
  · rintro ⟨scope, hmem, hscope⟩
    induction scopes with
    | nil => cases hmem
    | cons first scopes ih =>
      by_cases hfirst : first.Declares x
      · exact ⟨0, declaredAt_cons_zero.mpr hfirst⟩
      · rcases List.mem_cons.mp hmem with rfl | hmem
        · exact absurd hscope hfirst
        · obtain ⟨d, hd⟩ := ih hmem
          exact ⟨d + 1, declaredAt_cons_succ.mpr ⟨hfirst, hd⟩⟩

/-! ## Keys of occurrences -/

mutual

theorem Expr.map_key_occurrences (around : List (Enclosing κ)) (hidden : Bool) : (e : Expr κ) →
    (e.occurrences around hidden).map Occurrence.key = e.keys
  | .literal _ | .reference _ _ => rfl
  | .group e | .unary _ e => e.map_key_occurrences around hidden
  | .binary l _ r | .logical l _ r => by
    rw [Expr.occurrences, List.map_append, l.map_key_occurrences, r.map_key_occurrences, Expr.keys]
  | .assign _ _ e => by
    rw [Expr.occurrences, List.map_append, e.map_key_occurrences, Expr.keys]
    rfl
  | .call callee _ args => by
    rw [Expr.occurrences, List.map_append, callee.map_key_occurrences,
      Expr.map_key_allOccurrences around hidden args, Expr.keys]

theorem Expr.map_key_allOccurrences (around : List (Enclosing κ)) (hidden : Bool) :
    (es : List (Expr κ)) →
    (Expr.allOccurrences around hidden es).map Occurrence.key = Expr.allKeys es
  | [] => rfl
  | e :: es => by
    rw [Expr.allOccurrences, List.map_append, e.map_key_occurrences,
      Expr.map_key_allOccurrences around hidden es, Expr.allKeys]

end

theorem map_key_optionOccurrences (around : List (Enclosing κ)) (hidden : Bool)
    (e : Option (Expr κ)) :
    (optionOccurrences around hidden e).map Occurrence.key = optionKeys e := by
  cases e with
  | none => rfl
  | some e => exact e.map_key_occurrences around hidden

mutual

theorem Stmt.map_key_occurrences : (s : Stmt κ) → ∀ (around : List (Enclosing κ)) (hidden : Bool),
    (s.occurrences around hidden).map Occurrence.key = s.keys
  | .expr e, around, hidden => e.map_key_occurrences around hidden
  | .letDecl _ init _, around, hidden => map_key_optionOccurrences around hidden init
  | .block body, _, hidden => Stmt.map_key_allOccurrences body _ hidden 0
  | .branch c t none, around, hidden => by
    rw [Stmt.occurrences, List.map_append, c.map_key_occurrences, t.map_key_occurrences, Stmt.keys]
  | .branch c t (some e), around, hidden => by
    rw [Stmt.occurrences, List.map_append, List.map_append, c.map_key_occurrences,
      t.map_key_occurrences, e.map_key_occurrences, Stmt.keys]
  | .returnStmt _ value, around, hidden => map_key_optionOccurrences around hidden value
  | .functionDecl _ _ body, _, hidden => Stmt.map_key_allOccurrences body _ hidden 0
  | .namespaceDecl _ body, _, _ => Stmt.map_key_allOccurrences body _ true 0

/-- Every key belongs to an occurrence. -/
theorem Stmt.map_key_allOccurrences : (ss : List (Stmt κ)) →
    ∀ (around : Nat → List (Enclosing κ)) (hidden : Bool) (i : Nat),
    (Stmt.allOccurrences around hidden i ss).map Occurrence.key = Stmt.allKeys ss
  | [], _, _, _ => rfl
  | s :: ss, around, hidden, i => by
    rw [Stmt.allOccurrences, List.map_append, s.map_key_occurrences,
      Stmt.map_key_allOccurrences ss, Stmt.allKeys]

end

mutual

theorem Expr.inNamespace_of_mem {around : List (Enclosing κ)} {hidden : Bool} : (e : Expr κ) →
    ∀ o ∈ e.occurrences around hidden, o.inNamespace = hidden
  | .literal _ => List.forall_mem_nil _
  | .reference _ _ => List.forall_mem_singleton.mpr rfl
  | .group e | .unary _ e => e.inNamespace_of_mem
  | .binary l _ r | .logical l _ r =>
    List.forall_mem_append.mpr ⟨l.inNamespace_of_mem, r.inNamespace_of_mem⟩
  | .assign _ _ e =>
    List.forall_mem_append.mpr ⟨e.inNamespace_of_mem, List.forall_mem_singleton.mpr rfl⟩
  | .call callee _ args =>
    List.forall_mem_append.mpr ⟨callee.inNamespace_of_mem, Expr.inNamespace_of_mem_all args⟩

theorem Expr.inNamespace_of_mem_all {around : List (Enclosing κ)} {hidden : Bool} :
    (es : List (Expr κ)) → ∀ o ∈ Expr.allOccurrences around hidden es, o.inNamespace = hidden
  | [] => List.forall_mem_nil _
  | e :: es => List.forall_mem_append.mpr ⟨e.inNamespace_of_mem, Expr.inNamespace_of_mem_all es⟩

end

theorem inNamespace_of_mem_option {around : List (Enclosing κ)} {hidden : Bool}
    (e : Option (Expr κ)) : ∀ o ∈ optionOccurrences around hidden e, o.inNamespace = hidden := by
  cases e with
  | none => exact List.forall_mem_nil _
  | some e => exact e.inNamespace_of_mem

mutual

theorem Stmt.inNamespace_of_mem : (s : Stmt κ) → ∀ around : List (Enclosing κ),
    ∀ o ∈ s.occurrences around true, o.inNamespace = true
  | .expr e, _ => e.inNamespace_of_mem
  | .letDecl _ init _, _ => inNamespace_of_mem_option init
  | .block body, _ => Stmt.inNamespace_of_mem_all body _ 0
  | .branch c t none, around =>
    List.forall_mem_append.mpr ⟨c.inNamespace_of_mem, t.inNamespace_of_mem around⟩
  | .branch c t (some e), around =>
    List.forall_mem_append.mpr ⟨List.forall_mem_append.mpr
      ⟨c.inNamespace_of_mem, t.inNamespace_of_mem around⟩, e.inNamespace_of_mem around⟩
  | .returnStmt _ value, _ => inNamespace_of_mem_option value
  | .functionDecl _ _ body, _ => Stmt.inNamespace_of_mem_all body _ 0
  | .namespaceDecl _ body, _ => Stmt.inNamespace_of_mem_all body _ 0

theorem Stmt.inNamespace_of_mem_all : (ss : List (Stmt κ)) →
    ∀ (around : Nat → List (Enclosing κ)) (i : Nat),
    ∀ o ∈ Stmt.allOccurrences around true i ss, o.inNamespace = true
  | [], _, _ => List.forall_mem_nil _
  | s :: ss, around, i =>
    List.forall_mem_append.mpr ⟨s.inNamespace_of_mem (around i),
      Stmt.inNamespace_of_mem_all ss around (i + 1)⟩

end

/-! ## The stack of the resolver and the scopes around a place -/

/-- The scope declares the names of the list. -/
def Enclosing.Has (scope : Enclosing κ) (names : List String) : Prop :=
  ∀ x, scope.Declares x ↔ x ∈ names

/-- The resolver finds the innermost scope that declares a name. -/
theorem distance?_eq_some_iff {around : List (Enclosing κ)} {scopes : LocalScopes}
    (h : List.Forall₂ Enclosing.Has around scopes) (x : String) (d : Nat) :
    scopes.distance? x = some d ↔ DeclaredAt around x d := by
  induction h generalizing d with
  | nil =>
    constructor
    · intro h
      cases h
    · rintro ⟨inner, scope, outer, heq, _⟩
      cases inner <;> cases heq
  | @cons scope names around scopes hscope _ ih =>
    have hnames : names.contains x = true ↔ scope.Declares x :=
      List.contains_iff_mem.trans (hscope x).symm
    rw [LocalScopes.distance?, List.findIdx?_cons]
    by_cases hx : scope.Declares x
    · rw [if_pos (hnames.mpr hx)]
      cases d with
      | zero => simp [declaredAt_cons_zero, hx]
      | succ d => simp [declaredAt_cons_succ, hx]
    · rw [if_neg fun hc => hx (hnames.mp hc)]
      cases d with
      | zero => simp [declaredAt_cons_zero, hx]
      | succ d =>
        rw [declaredAt_cons_succ, ← ih d, LocalScopes.distance?]
        simp [hx]

/-- The name that a statement declares for itself already: that of a function. -/
def Stmt.selfNames : Stmt κ → List String
  | .functionDecl name _ _ => [name.text]
  | _ => []

theorem Stmt.selfNames_eq_nil {s : Stmt κ} (h : s.isDeclaration = false) : s.selfNames = [] := by
  cases s <;> first | rfl | cases h

theorem Stmt.mem_declaredNames_iff {s : Stmt κ} (hs : s.Grammatical) {x : String} :
    x ∈ s.declaredNames ↔ (∃ name init type, s = .letDecl name init type ∧ name.text = x) ∨
      ∃ name params body, s = .functionDecl name params body ∧ name.text = x := by
  cases s with
  | letDecl name init type => simp [Stmt.declaredNames, eq_comm]
  | functionDecl name params body => simp [Stmt.declaredNames, eq_comm]
  | branch c t e => simp [Stmt.declaredNames_eq_nil _ hs rfl]
  | _ => simp [Stmt.declaredNames]

theorem Stmt.allGrammatical_iff {ss : List (Stmt κ)} :
    Stmt.AllGrammatical ss ↔ ∀ s ∈ ss, s.Grammatical := by
  induction ss with
  | nil => simp [Stmt.AllGrammatical]
  | cons s ss ih => rw [Stmt.AllGrammatical, ih, List.forall_mem_cons]

/-- When the resolver comes to a statement of a body, it has collected the parameters and what the
statements before declare. -/
theorem Enclosing.has_names {params : List Token} {done rest : List (Stmt κ)} {s : Stmt κ}
    (hg : ∀ t ∈ done, t.Grammatical) :
    Enclosing.Has ⟨params, done ++ s :: rest, done.length⟩
      (s.selfNames.reverse ++ ((Stmt.allDeclaredNames done).reverse ++ params.map Token.text)) := by
  intro x
  rw [List.mem_append, List.mem_reverse, List.mem_append, List.mem_reverse, List.mem_map,
    Stmt.allDeclaredNames, List.mem_flatMap]
  -- a statement before the place, found by its number
  have hbefore : ∀ {k t}, k < done.length → (done ++ s :: rest)[k]? = some t → t ∈ done := by
    intro k t hk ht
    rw [List.getElem?_append_left hk] at ht
    exact List.mem_of_getElem? ht
  have hnumber : ∀ {t}, t ∈ done → ∃ k < done.length, (done ++ s :: rest)[k]? = some t := by
    intro t ht
    obtain ⟨k, hk, rfl⟩ := List.getElem_of_mem ht
    exact ⟨k, hk, by rw [List.getElem?_append_left hk, List.getElem?_eq_getElem hk]⟩
  have hplace : (done ++ s :: rest)[done.length]? = some s := by
    rw [List.getElem?_append_right (Nat.le_refl _), Nat.sub_self]
    rfl
  constructor
  · rintro (⟨p, hp, rfl⟩ | ⟨k, hk, name, init, type, ht, rfl⟩ |
      ⟨k, hk, name, inner, body, ht, rfl⟩)
    · exact .inr (.inr ⟨p, hp, rfl⟩)
    · exact .inr (.inl ⟨_, hbefore hk ht, List.mem_singleton_self _⟩)
    · rcases Nat.lt_or_eq_of_le hk with hk | rfl
      · exact .inr (.inl ⟨_, hbefore hk ht, List.mem_singleton_self _⟩)
      · rw [hplace] at ht
        cases ht
        exact .inl (List.mem_singleton_self _)
  · rintro (hx | ⟨t, ht, hx⟩ | ⟨p, hp, rfl⟩)
    · cases s with
      | functionDecl name inner body =>
        obtain rfl := List.mem_singleton.mp hx
        exact .inr (.inr ⟨done.length, Nat.le_refl _, name, inner, body, hplace, rfl⟩)
      | _ => cases hx
    · obtain ⟨k, hk, hget⟩ := hnumber ht
      rcases (Stmt.mem_declaredNames_iff (hg t ht)).mp hx with
        ⟨name, init, type, rfl, rfl⟩ | ⟨name, inner, body, rfl, rfl⟩
      · exact .inr (.inl ⟨k, hk, name, init, type, hget, rfl⟩)
      · exact .inr (.inr ⟨k, Nat.le_of_lt hk, name, inner, body, hget, rfl⟩)
    · exact .inl ⟨p, hp, rfl⟩

/-- In a body, the stack of the resolver is right at every statement if it is right outside. -/
theorem forall₂_has_body {around : List (Enclosing κ)} {scopes : LocalScopes}
    (h : List.Forall₂ Enclosing.Has around scopes) (params : List Token) {body : List (Stmt κ)}
    (hg : Stmt.AllGrammatical body) {done rest : List (Stmt κ)} {s : Stmt κ}
    (hbody : body = done ++ s :: rest) :
    List.Forall₂ Enclosing.Has (⟨params, body, 0 + done.length⟩ :: around)
      ((LocalScopes.declareAll (params.map Token.text :: scopes)
        (Stmt.allDeclaredNames done)).declareAll s.selfNames) := by
  subst hbody
  rw [LocalScopes.declareAll_cons, LocalScopes.declareAll_cons, Nat.zero_add]
  refine .cons (Enclosing.has_names fun t ht => ?_) h
  exact Stmt.allGrammatical_iff.mp hg t (List.mem_append_left _ ht)

/-! ## Tags of occurrences -/

/-- The tag is the one of the occurrence: the distance to the scope that declares the name. -/
def Occurrence.Tagged (o : Occurrence κ) (tag : κ × Option Nat) : Prop :=
  tag.1 = o.key ∧ ∀ d, tag.2 = some d ↔ o.inNamespace = false ∧ DeclaredAt o.enclosing o.name.text d

/-- In namespaces there are no tags. -/
theorem Stmt.forall₂_tagged_namespace (ss : List (Stmt κ)) (around : Nat → List (Enclosing κ)) :
    List.Forall₂ Occurrence.Tagged (Stmt.allOccurrences around true 0 ss)
      ((Stmt.allKeys ss).map fun key => (key, none)) := by
  rw [← Stmt.map_key_allOccurrences ss around true 0, List.map_map, List.forall₂_map_right_iff,
    List.forall₂_same]
  intro o ho
  refine ⟨rfl, fun d => ?_⟩
  constructor
  · intro h
    cases h
  · rintro ⟨h, _⟩
    rw [Stmt.inNamespace_of_mem_all ss around 0 o ho] at h
    cases h

section tagged

variable {around : List (Enclosing κ)} {scopes : LocalScopes}

theorem Occurrence.tagged_distance? (h : List.Forall₂ Enclosing.Has around scopes) (name : Token)
    (key : κ) :
    Occurrence.Tagged ⟨key, name, around, false⟩ (key, scopes.distance? name.text) := by
  refine ⟨rfl, fun d => ?_⟩
  rw [distance?_eq_some_iff h]
  simp

mutual

theorem Expr.forall₂_tagged (h : List.Forall₂ Enclosing.Has around scopes) : (e : Expr κ) →
    List.Forall₂ Occurrence.Tagged (e.occurrences around false) (e.tags scopes)
  | .literal _ => .nil
  | .group e | .unary _ e => e.forall₂_tagged h
  | .binary l _ r | .logical l _ r => List.rel_append (l.forall₂_tagged h) (r.forall₂_tagged h)
  | .reference name key => .cons (Occurrence.tagged_distance? h name key) .nil
  | .assign name key e =>
    List.rel_append (e.forall₂_tagged h) (.cons (Occurrence.tagged_distance? h name key) .nil)
  | .call callee _ args =>
    List.rel_append (callee.forall₂_tagged h) (Expr.forall₂_tagged_all h args)

theorem Expr.forall₂_tagged_all (h : List.Forall₂ Enclosing.Has around scopes) :
    (es : List (Expr κ)) →
    List.Forall₂ Occurrence.Tagged (Expr.allOccurrences around false es) (Expr.allTags scopes es)
  | [] => .nil
  | e :: es => List.rel_append (e.forall₂_tagged h) (Expr.forall₂_tagged_all h es)

end

theorem forall₂_tagged_option (h : List.Forall₂ Enclosing.Has around scopes)
    (e : Option (Expr κ)) :
    List.Forall₂ Occurrence.Tagged (optionOccurrences around false e) (optionTags scopes e) := by
  cases e with
  | none => exact .nil
  | some e => exact e.forall₂_tagged h

end tagged

mutual

/-- The tags of a statement are those of its occurrences, if the stack of the resolver is right. For
a function, it has to be right with the name of the function on it. -/
theorem Stmt.forall₂_tagged : (s : Stmt κ) → s.Grammatical →
    ∀ (around : List (Enclosing κ)) (scopes : LocalScopes),
    List.Forall₂ Enclosing.Has around (scopes.declareAll s.selfNames) →
    List.Forall₂ Occurrence.Tagged (s.occurrences around false) (s.tags scopes)
  | .expr e, _, _, _, h => e.forall₂_tagged h
  | .letDecl _ init _, _, _, _, h => forall₂_tagged_option h init
  | .block body, hg, around, scopes, h =>
    Stmt.forall₂_tagged_all body hg _ 0 _ fun _ _ _ => forall₂_has_body h [] hg
  | .branch c t none, hg, around, scopes, h => by
    obtain ⟨_, ht, hplain⟩ := hg
    refine List.rel_append (c.forall₂_tagged h) (t.forall₂_tagged ht around scopes ?_)
    rw [Stmt.selfNames_eq_nil hplain]
    exact h
  | .branch c t (some e), hg, around, scopes, h => by
    obtain ⟨_, ht, hplain, _, he, hplain'⟩ := hg
    rw [Stmt.tags, t.declaredNames_eq_nil ht hplain]
    refine List.rel_append (List.rel_append (c.forall₂_tagged h)
      (t.forall₂_tagged ht around scopes ?_)) (e.forall₂_tagged he around _ ?_)
    · rw [Stmt.selfNames_eq_nil hplain]
      exact h
    · rw [Stmt.selfNames_eq_nil hplain']
      exact h
  | .returnStmt _ value, _, _, _, h => forall₂_tagged_option h value
  | .functionDecl _ params body, hg, around, scopes, h =>
    Stmt.forall₂_tagged_all body hg.2.2.2 _ 0 _ fun _ _ _ => forall₂_has_body h params hg.2.2.2
  | .namespaceDecl _ body, _, around, _, _ => Stmt.forall₂_tagged_namespace body fun _ => around

/-- The tags of consecutive statements are those of their occurrences, if the stack of the resolver
is right at every statement. -/
theorem Stmt.forall₂_tagged_all : (ss : List (Stmt κ)) → Stmt.AllGrammatical ss →
    ∀ (around : Nat → List (Enclosing κ)) (i : Nat) (scopes : LocalScopes),
    (∀ done s rest, ss = done ++ s :: rest → List.Forall₂ Enclosing.Has (around (i + done.length))
      ((scopes.declareAll (Stmt.allDeclaredNames done)).declareAll s.selfNames)) →
    List.Forall₂ Occurrence.Tagged (Stmt.allOccurrences around false i ss) (Stmt.allTags scopes ss)
  | [], _, _, _, _, _ => .nil
  | s :: ss, hg, around, i, scopes, h => by
    refine List.rel_append (s.forall₂_tagged hg.1 (around i) scopes (h [] s ss rfl)) ?_
    refine Stmt.forall₂_tagged_all ss hg.2 around (i + 1) _ fun done s' rest hss => ?_
    have hs := h (s :: done) s' rest (congrArg (s :: ·) hss)
    have hnames : Stmt.allDeclaredNames (s :: done) =
        s.declaredNames ++ Stmt.allDeclaredNames done := rfl
    rw [hnames, LocalScopes.declareAll_append, List.length_cons, Nat.add_comm done.length,
      ← Nat.add_assoc] at hs
    exact hs

end

/-- The tags of a program are those of its occurrences. -/
theorem Program.forall₂_tagged {p : Program κ} (hp : Stmt.AllGrammatical p) :
    List.Forall₂ Occurrence.Tagged p.occurrences (Stmt.allTags [] p) := by
  refine Stmt.forall₂_tagged_all p hp _ 0 [] fun done s rest _ => ?_
  -- at the top level nothing is declared
  rw [LocalScopes.declareAll_nil, LocalScopes.declareAll_nil]
  exact .nil

/-! ## The walk -/

theorem exists_mem_of_forall₂ {α β : Type} {R : α → β → Prop} {xs : List α} {ys : List β}
    (h : List.Forall₂ R xs ys) {x : α} (hx : x ∈ xs) : ∃ y ∈ ys, R x y := by
  induction h with
  | nil => cases hx
  | cons hxy _ ih =>
    rcases List.mem_cons.mp hx with rfl | hx
    · exact ⟨_, List.mem_cons_self, hxy⟩
    · obtain ⟨y, hy, hr⟩ := ih hx
      exact ⟨y, List.mem_cons_of_mem _ hy, hr⟩

/-- The tag that a key has is the one of its occurrence. -/
theorem mem_allTags_iff {p : Program κ} (hp : Stmt.AllGrammatical p)
    (hkeys : (Stmt.allKeys p).Nodup) {o : Occurrence κ} (ho : o ∈ p.occurrences) (d : Nat) :
    (o.key, some d) ∈ Stmt.allTags [] p ↔
      o.inNamespace = false ∧ DeclaredAt o.enclosing o.name.text d := by
  obtain ⟨⟨key, tag⟩, hmem, hkey, htag⟩ := exists_mem_of_forall₂ (Program.forall₂_tagged hp) ho
  obtain rfl : key = o.key := hkey
  rw [← htag d]
  constructor
  · intro h
    -- a key has one tag only
    rw [← Stmt.map_fst_allTags p []] at hkeys
    exact congrArg Prod.snd (List.inj_on_of_nodup_map hkeys hmem h rfl)
  · rintro rfl
    exact hmem

/-- **The resolver finds the lexical distance of every name.** Let a text be a program, and let the
uses of names in it have keys, all different. After its walk over the program the resolver has
registered

* a use with the distance `d` exactly if the use is in no namespace, and of the blocks and function
  bodies around it the innermost one that declares the name has `d` of them inside; so
* a use at all exactly if it is in no namespace and one of the scopes around it declares the name;
* nothing else, and no use twice, so that it has counted the uses that are registered.

Its stack is empty then and its depth of functions is zero. It has found the misplaced returns, and
the program with the registered distances is the resolved program. -/
theorem register_lexical [DecidableEq κ] {source : String} {p : Program Unit} {q : Program κ}
    (hp : parseSource source = .ok p) (hq : Stmt.mapAll untag q = p)
    (hkeys : (Stmt.allKeys q).Nodup) :
    let r := q.register
    (∀ o ∈ q.occurrences, ∀ d, (o.key, d) ∈ r.registrations ↔
      o.inNamespace = false ∧ DeclaredAt o.enclosing o.name.text d) ∧
    (∀ o ∈ q.occurrences, (∃ d, (o.key, d) ∈ r.registrations) ↔
      o.inNamespace = false ∧ ∃ scope ∈ o.enclosing, scope.Declares o.name.text) ∧
    (∀ entry ∈ r.registrations, ∃ o ∈ q.occurrences, o.key = entry.1) ∧
    (r.registrations.map Prod.fst).Nodup ∧
    r.registered = (r.registrations.map Prod.fst).length ∧
    r.scopes = [] ∧ r.functionDepth = 0 ∧ r.problems = p.scopeProblems ∧
    Stmt.mapAll (record (fun _ => none) r.registrations) q = p.resolve := by
  subst hq
  have hg : Stmt.AllGrammatical q :=
    (Stmt.allGrammatical_mapAll untag q).mp (grammatical_of_parseSource hp)
  have hnodup := hkeys
  rw [← Stmt.map_fst_allTags q []] at hnodup
  have hregistered : ∀ o ∈ q.occurrences, ∀ d, (o.key, d) ∈ found (Stmt.allTags [] q) ↔
      o.inNamespace = false ∧ DeclaredAt o.enclosing o.name.text d := by
    intro o ho d
    rw [mem_found]
    exact mem_allTags_iff hg hkeys ho d
  dsimp only
  rw [Program.register_eq]
  refine ⟨hregistered, ?_, ?_, hnodup.sublist (map_fst_found_sublist _), ?_, rfl, rfl, ?_, ?_⟩
  · intro o ho
    simp only [hregistered o ho, exists_and_left, exists_declaredAt_iff]
  · intro entry hentry
    have hkey : entry.1 ∈ Stmt.allKeys q := by
      rw [← Stmt.map_fst_allTags q []]
      exact (map_fst_found_sublist _).subset (List.mem_map_of_mem hentry)
    rw [← Stmt.map_key_allOccurrences q (fun _ => []) false 0] at hkey
    exact List.mem_map.mp hkey
  · exact (List.length_map _).symm
  · show q.scopeProblems = Program.scopeProblems (Stmt.mapAll untag q)
    rw [Program.scopeProblems, Program.scopeProblems, Stmt.allStrayReturns_mapAll]
  · exact Stmt.mapAll_eq_resolveAll q [] (record_found hnodup fun _ _ => .inl rfl)

/-! ### A sample

The uses of names in the text `{let a;do f(){a;}f();}` have the keys 0 and 1. The first is in the
body of the function, one scope inside of the block that declares the name.
-/

namespace Captured

def keyed : Program Nat :=
  [.block [.letDecl (tok .identifier "a" 5) none none,
    .functionDecl (tok .identifier "f" 10) [] [.expr (.reference (tok .identifier "a" 14) 0)],
    .expr (.call (.reference (tok .identifier "f" 17) 1) (tok .rightParen ")" 19) [])]]

end Captured

theorem captured_register_lexical :
    parseSource Captured.source = .ok Captured.program ∧
      Stmt.mapAll untag Captured.keyed = Captured.program ∧ (Stmt.allKeys Captured.keyed).Nodup ∧
      Captured.keyed.register.registrations = [(0, 1), (1, 0)] ∧
      Captured.keyed.register.registered = 2 ∧ Captured.keyed.register.scopes = [] ∧
      Stmt.mapAll (record (fun _ => none) Captured.keyed.register.registrations) Captured.keyed =
        Captured.program.resolve := by
  have hkeys : (Stmt.allKeys Captured.keyed).Nodup := by decide
  obtain ⟨_, _, _, _, hcount, hscopes, _, _, hresolve⟩ :=
    register_lexical Captured.parseSource_source rfl hkeys
  have hregistrations : Captured.keyed.register.registrations = [(0, 1), (1, 0)] := by decide
  rw [hregistrations] at hcount
  exact ⟨Captured.parseSource_source, rfl, hkeys, hregistrations, hcount, hscopes, hresolve⟩

end RadixScript
