import RadixScript.Proofs.Likeness.Resolution

/-!
# Trees whose tokens are moved

The simplest way for trees to be alike: every token of the one is a token of the other, moved to
another place. `Likeness.moved` is this likeness, for tokens of a given origin. Here the likeness of
trees is an equation again (`Stmt.eq_mapAllTokens`), so what is known of two programs that are run
can be said of the functions that they leave behind.
-/

namespace RadixScript

/-- A way to move tokens that keeps what they say. -/
structure Move where
  move : Token → Token
  kind_eq : ∀ t, (move t).kind = t.kind
  text_eq : ∀ t, (move t).text = t.text
  literal_eq : ∀ t, (move t).literal = t.literal

/-- Every token stays where it is. -/
def Move.stay : Move := ⟨id, fun _ => rfl, fun _ => rfl, fun _ => rfl⟩

/-- Tokens of a given origin, which are moved. No name is renamed. -/
def Likeness.moved (τ : Move) (origin : Token → Prop) : Likeness where
  token t t' := origin t ∧ t' = τ.move t
  kind_eq := by
    rintro t _ ⟨_, rfl⟩
    exact τ.kind_eq t
  text_eq := by
    rintro t _ ⟨_, rfl⟩
    exact τ.text_eq t
  renames ρ := ρ = Equiv.refl String
  renames_refl := rfl
  types type type' := (∀ t ∈ type, origin t) ∧ type' = type.map τ.move
  namespaces name body name' body' := (∀ t ∈ name :: Stmt.allTokens body, origin t) ∧
    name' = τ.move name ∧ body' = Stmt.mapAllTokens τ.move body

variable {τ : Move} {origin : Token → Prop}

theorem Likeness.moved_follows (τ : Move) (origin : Token → Prop) :
    (Likeness.moved τ origin).Follows τ.move where
  types := fun _ h => ⟨fun t ht => (h t ht).1, rfl⟩
  namespaces := fun _ _ hname hbody =>
    ⟨List.forall_mem_cons.mpr ⟨hname.1, fun t ht => (hbody t ht).1⟩, rfl, rfl⟩

theorem Stmt.allAlike_moved {ss : List (Stmt (Option Nat))}
    (h : ∀ t ∈ Stmt.allTokens ss, origin t) :
    Stmt.AllAlike (.moved τ origin) Renamings.none ss (Stmt.mapAllTokens τ.move ss) :=
  Stmt.allAlike_of_tokens (Likeness.moved_follows τ origin) ss fun t ht => ⟨h t ht, rfl⟩

/-- Resolution does not depend on where the tokens stand. -/
theorem Program.resolve_mapTokens (τ : Move) (p : Program Unit) :
    Program.resolve (Stmt.mapAllTokens τ.move p) = Stmt.mapAllTokens τ.move p.resolve := by
  have hapart : (Likeness.moved τ fun _ => True).KeepsApart fun _ => True := by
    rintro _ _ rfl rfl x z _ _ h
    exact h
  have hscopes : LocalScopes.Within (fun _ => True) [] := fun _ _ _ _ => trivial
  have hnone : ∀ d, (Likeness.moved τ fun _ => True).renames (Renamings.none d) := fun _ => rfl
  exact Stmt.resolveAll_mapAllTokens (k := 0) hapart p hnone hscopes (fun _ _ => trivial)
    (Stmt.allAlike_moved fun _ _ => trivial)

/-! ## Trees that are alike are moved -/

theorem Renamings.none_ofTag (tag : Option Nat) : none.ofTag tag = Equiv.refl String := by
  cases tag <;> rfl

/-- All tokens at the places have the origin. -/
def OfOrigin (origin : Token → Prop) (places : List (Token × Bool)) : Prop :=
  ∀ place ∈ places, origin place.1

section origins

variable {place : Token × Bool} {places places' : List (Token × Bool)}

theorem ofOrigin_nil : OfOrigin origin [] := List.forall_mem_nil _

theorem ofOrigin_cons : OfOrigin origin (place :: places) ↔
    origin place.1 ∧ OfOrigin origin places := List.forall_mem_cons

theorem ofOrigin_append : OfOrigin origin (places ++ places') ↔
    OfOrigin origin places ∧ OfOrigin origin places' := List.forall_mem_append

theorem ofOrigin_plainPlaces {ts : List Token} :
    OfOrigin origin (plainPlaces ts) ↔ ∀ t ∈ ts, origin t := List.forall_mem_map

end origins

mutual

theorem Expr.eq_mapTokens (k : Nat) : (e : Expr (Option Nat)) → ∀ {e'},
    e.Alike (.moved τ origin) Renamings.none e' →
    OfOrigin origin (e.places k) ∧ e' = e.mapTokens τ.move
  | .literal v, _, h => by
    cases h
    exact ⟨ofOrigin_nil, rfl⟩
  | .group e, _, h => by
    cases h with | group h =>
    obtain ⟨ho, rfl⟩ := e.eq_mapTokens k h
    exact ⟨ho, rfl⟩
  | .unary op e, _, h => by
    cases h with | unary hop h =>
    obtain ⟨hop, rfl⟩ := hop
    obtain ⟨ho, rfl⟩ := e.eq_mapTokens k h
    rw [Expr.places, ofOrigin_cons]
    exact ⟨⟨hop, ho⟩, rfl⟩
  | .binary l op r, _, h => by
    cases h with | binary hl hop hr =>
    obtain ⟨hop, rfl⟩ := hop
    obtain ⟨hol, rfl⟩ := l.eq_mapTokens k hl
    obtain ⟨hor, rfl⟩ := r.eq_mapTokens k hr
    rw [Expr.places, ofOrigin_append, ofOrigin_cons]
    exact ⟨⟨hol, hop, hor⟩, rfl⟩
  | .logical l op r, _, h => by
    cases h with | logical hl hop hr =>
    obtain ⟨hop, rfl⟩ := hop
    obtain ⟨hol, rfl⟩ := l.eq_mapTokens k hl
    obtain ⟨hor, rfl⟩ := r.eq_mapTokens k hr
    rw [Expr.places, ofOrigin_append, ofOrigin_cons]
    exact ⟨⟨hol, hop, hor⟩, rfl⟩
  | .reference name tag, _, h => by
    cases h with | reference h =>
    rw [Renamings.none_ofTag] at h
    obtain ⟨ho, rfl⟩ := h
    rw [Expr.places, ofOrigin_cons]
    exact ⟨⟨ho, ofOrigin_nil⟩, rfl⟩
  | .assign name tag e, _, h => by
    cases h with | assign h he =>
    rw [Renamings.none_ofTag] at h
    obtain ⟨ho, rfl⟩ := h
    obtain ⟨hoe, rfl⟩ := e.eq_mapTokens k he
    rw [Expr.places, ofOrigin_cons]
    exact ⟨⟨ho, hoe⟩, rfl⟩
  | .call callee paren args, _, h => by
    cases h with | call hf hp hargs =>
    obtain ⟨hp, rfl⟩ := hp
    obtain ⟨hof, rfl⟩ := callee.eq_mapTokens k hf
    obtain ⟨hoargs, rfl⟩ := Expr.eq_mapAllTokens k args hargs
    rw [Expr.places, ofOrigin_append, ofOrigin_append, ofOrigin_cons]
    exact ⟨⟨hof, hoargs, hp, ofOrigin_nil⟩, rfl⟩

theorem Expr.eq_mapAllTokens (k : Nat) : (es : List (Expr (Option Nat))) → ∀ {es'},
    Expr.AllAlike (.moved τ origin) Renamings.none es es' →
    OfOrigin origin (Expr.allPlaces k es) ∧ es' = Expr.mapAllTokens τ.move es
  | [], _, h => by
    cases h
    exact ⟨ofOrigin_nil, rfl⟩
  | e :: es, _, h => by
    cases h with | cons h hs =>
    obtain ⟨ho, rfl⟩ := e.eq_mapTokens k h
    obtain ⟨hos, rfl⟩ := Expr.eq_mapAllTokens k es hs
    rw [Expr.allPlaces, ofOrigin_append]
    exact ⟨⟨ho, hos⟩, rfl⟩

end

theorem eq_optionMap_mapTokens (k : Nat) {e e' : Option (Expr (Option Nat))}
    (h : Option.Rel (Expr.Alike (.moved τ origin) Renamings.none) e e') :
    OfOrigin origin (optionPlaces k e) ∧ e' = e.map (Expr.mapTokens τ.move) := by
  cases h with
  | none => exact ⟨ofOrigin_nil, rfl⟩
  | some h =>
    obtain ⟨ho, rfl⟩ := Expr.eq_mapTokens k _ h
    exact ⟨ho, rfl⟩

theorem eq_map_of_moved {ts ts' : List Token}
    (h : List.Forall₂
      (fun t t' => (Likeness.moved τ origin).token (t.rename (Equiv.refl String)) t') ts ts') : (∀ t ∈ ts, origin t) ∧ ts' = ts.map τ.move := by
  induction h with
  | nil => exact ⟨List.forall_mem_nil _, rfl⟩
  | cons ht _ ih =>
    obtain ⟨ho, rfl⟩ := ht
    obtain ⟨hos, rfl⟩ := ih
    exact ⟨List.forall_mem_cons.mpr ⟨ho, hos⟩, rfl⟩

mutual

theorem Stmt.eq_mapTokens : (s : Stmt (Option Nat)) → ∀ k {s'},
    s.Alike (.moved τ origin) Renamings.none s' →
    OfOrigin origin (s.places k) ∧ s' = s.mapTokens τ.move
  | .expr e, k, _, h => by
    cases h with | expr h =>
    obtain ⟨ho, rfl⟩ := e.eq_mapTokens k h
    exact ⟨ho, rfl⟩
  | .letDecl name init type, k, _, h => by
    cases h with | letDecl hname hinit htype =>
    obtain ⟨hname, rfl⟩ := hname
    obtain ⟨hoinit, rfl⟩ := eq_optionMap_mapTokens k hinit
    obtain ⟨htype, rfl⟩ := htype
    rw [Stmt.places, ofOrigin_append, ofOrigin_plainPlaces, ofOrigin_cons]
    exact ⟨⟨fun t ht => htype t (Option.mem_toList.mp ht), hname, hoinit⟩, rfl⟩
  | .block body, k, _, h => by
    cases h with | block ρ hρ h =>
    obtain rfl := hρ
    rw [Renamings.enter_none, Renamings.only_refl] at h
    obtain ⟨ho, rfl⟩ := Stmt.eq_mapAllTokens body (k + 1) h
    exact ⟨ho, rfl⟩
  | .branch c t none, k, _, h => by
    cases h with | branch hc ht =>
    obtain ⟨hoc, rfl⟩ := c.eq_mapTokens k hc
    obtain ⟨hot, rfl⟩ := t.eq_mapTokens k ht
    rw [Stmt.places, ofOrigin_append]
    exact ⟨⟨hoc, hot⟩, rfl⟩
  | .branch c t (some e), k, _, h => by
    cases h with | branchElse hc ht he =>
    obtain ⟨hoc, rfl⟩ := c.eq_mapTokens k hc
    obtain ⟨hot, rfl⟩ := t.eq_mapTokens k ht
    obtain ⟨hoe, rfl⟩ := e.eq_mapTokens k he
    rw [Stmt.places, ofOrigin_append, ofOrigin_append]
    exact ⟨⟨hoc, hot, hoe⟩, rfl⟩
  | .returnStmt keyword value, k, _, h => by
    cases h with | returnStmt hkeyword hvalue =>
    obtain ⟨hkeyword, rfl⟩ := hkeyword
    obtain ⟨hovalue, rfl⟩ := eq_optionMap_mapTokens k hvalue
    rw [Stmt.places, ofOrigin_cons]
    exact ⟨⟨hkeyword, hovalue⟩, rfl⟩
  | .functionDecl name params body, k, _, h => by
    cases h with | functionDecl ρ hρ hname _ hparams h =>
    obtain rfl := hρ
    obtain ⟨hname, rfl⟩ := hname
    rw [Renamings.enter_none, Renamings.only_refl] at h
    obtain ⟨ho, rfl⟩ := Stmt.eq_mapAllTokens body (k + 1) h
    obtain ⟨hoparams, rfl⟩ := eq_map_of_moved hparams
    rw [Stmt.places, ofOrigin_cons, ofOrigin_append, ofOrigin_plainPlaces]
    exact ⟨⟨hname, hoparams, ho⟩, rfl⟩
  | .namespaceDecl name body, k, _, h => by
    cases h with | namespaceDecl h =>
    obtain ⟨ho, rfl, rfl⟩ := h
    rw [Stmt.places, ofOrigin_cons, ofOrigin_plainPlaces]
    exact ⟨List.forall_mem_cons.mp ho, rfl⟩

theorem Stmt.eq_mapAllTokens : (ss : List (Stmt (Option Nat))) → ∀ k {ss'},
    Stmt.AllAlike (.moved τ origin) Renamings.none ss ss' →
    OfOrigin origin (Stmt.allPlaces k ss) ∧ ss' = Stmt.mapAllTokens τ.move ss
  | [], _, _, h => by
    cases h
    exact ⟨ofOrigin_nil, rfl⟩
  | s :: ss, k, _, h => by
    cases h with | cons h hs =>
    obtain ⟨ho, rfl⟩ := s.eq_mapTokens k h
    obtain ⟨hos, rfl⟩ := Stmt.eq_mapAllTokens ss k hs
    rw [Stmt.allPlaces, ofOrigin_append]
    exact ⟨⟨ho, hos⟩, rfl⟩

end

end RadixScript
