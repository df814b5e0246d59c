import Mathlib.Data.List.Nodup
import RadixScript.Proofs.Likeness.Tokens

/-!
# Scopes of a program

Every block and every function body of a program is a scope. `Stmt.localScopes` lists them, and for
each of them the tokens that belong to it: its parameters, the variables that it declares, and the
uses of names that resolution binds to it.

If the tokens of one scope are renamed and all others keep their text, the program stays alike
(`Stmt.allAlike_renamed`). This holds because the tokens of a program are all different, so those of
one scope occur nowhere else.
-/

namespace RadixScript

/-! ## Scopes and their tokens -/

/-- The tokens that name something of the scope. -/
def boundTokens (places : List (Token × Bool)) : List Token := (places.filter Prod.snd).map Prod.fst

/-- A block or the body of a function. -/
structure LocalScope where
  /-- The parameters, the variables that it declares, and the uses that are bound to it. -/
  bound : List Token
  /-- The names of the functions that it declares. -/
  functions : List Token

/-- The scope that a function shares between its parameters and its statements. A block has no
parameters. -/
def LocalScope.ofBody (params : List Token) (body : List (Stmt (Option Nat))) : LocalScope where
  bound := params ++ boundTokens (Stmt.allPlaces 0 body)
  functions := Stmt.allFunctionNames body

mutual

/-- The scopes in a statement, also those in functions and namespaces. -/
def Stmt.localScopes : Stmt (Option Nat) → List LocalScope
  | .expr _ | .letDecl _ _ _ | .returnStmt _ _ => []
  | .block body => .ofBody [] body :: Stmt.allLocalScopes body
  | .branch _ t none => t.localScopes
  | .branch _ t (some e) => t.localScopes ++ e.localScopes
  | .functionDecl _ params body => .ofBody params body :: Stmt.allLocalScopes body
  | .namespaceDecl _ body => Stmt.allLocalScopes body

/-- The scopes in consecutive statements. -/
def Stmt.allLocalScopes : List (Stmt (Option Nat)) → List LocalScope
  | [] => []
  | s :: ss => s.localScopes ++ Stmt.allLocalScopes ss

end

/-! ### Tokens of the parts of a statement -/

section parts

variable (c : Expr (Option Nat)) (t e : Stmt (Option Nat)) (body : List (Stmt (Option Nat)))
  (name : Token) (params : List Token)

theorem Stmt.tokens_block : (Stmt.block body).tokens = Stmt.allTokens body := by
  rw [← Stmt.places_map_fst 0, Stmt.places, Stmt.allPlaces_map_fst]

theorem Stmt.tokens_branch : (Stmt.branch c t none).tokens = c.tokens ++ t.tokens := by
  rw [← Stmt.places_map_fst 0, Stmt.places, List.map_append, Expr.places_map_fst,
    Stmt.places_map_fst]

theorem Stmt.tokens_branchElse :
    (Stmt.branch c t (some e)).tokens = c.tokens ++ (t.tokens ++ e.tokens) := by
  rw [← Stmt.places_map_fst 0, Stmt.places, List.map_append, List.map_append, Expr.places_map_fst,
    Stmt.places_map_fst, Stmt.places_map_fst]

theorem Stmt.tokens_functionDecl :
    (Stmt.functionDecl name params body).tokens = name :: (params ++ Stmt.allTokens body) := by
  rw [← Stmt.places_map_fst 0, Stmt.places, List.map_cons, List.map_append, plainPlaces_map_fst,
    Stmt.allPlaces_map_fst]

theorem Stmt.tokens_namespaceDecl :
    (Stmt.namespaceDecl name body).tokens = name :: Stmt.allTokens body := by
  rw [← Stmt.places_map_fst 0, Stmt.places, List.map_cons, plainPlaces_map_fst]

theorem Stmt.allTokens_cons : Stmt.allTokens (t :: body) = t.tokens ++ Stmt.allTokens body := by
  rw [← Stmt.allPlaces_map_fst 0, Stmt.allPlaces, List.map_append, Stmt.places_map_fst,
    Stmt.allPlaces_map_fst]

end parts

/-! ### The tokens of a scope are tokens of the program -/

theorem Stmt.functionNames_subset : (s : Stmt (Option Nat)) → s.functionNames ⊆ s.tokens
  | .functionDecl name params body => by
    rw [Stmt.tokens_functionDecl]
    exact List.cons_subset.mpr ⟨List.mem_cons_self, List.nil_subset _⟩
  | .branch c t none => by
    rw [Stmt.tokens_branch]
    exact List.subset_append_of_subset_right _ t.functionNames_subset
  | .branch c t (some e) => by
    rw [Stmt.tokens_branchElse]
    refine List.subset_append_of_subset_right _ (List.append_subset.mpr ⟨?_, ?_⟩)
    · exact List.subset_append_of_subset_left _ t.functionNames_subset
    · exact List.subset_append_of_subset_right _ e.functionNames_subset
  | .expr _ | .letDecl _ _ _ | .block _ | .returnStmt _ _ | .namespaceDecl _ _ => List.nil_subset _

theorem Stmt.allFunctionNames_subset (ss : List (Stmt (Option Nat))) :
    Stmt.allFunctionNames ss ⊆ Stmt.allTokens ss := by
  induction ss with
  | nil => exact List.nil_subset _
  | cons s ss ih =>
    rw [Stmt.allTokens_cons, Stmt.allFunctionNames, List.flatMap_cons]
    exact List.append_subset.mpr ⟨List.subset_append_of_subset_left _ s.functionNames_subset,
      List.subset_append_of_subset_right _ ih⟩

theorem boundTokens_subset (places : List (Token × Bool)) :
    boundTokens places ⊆ places.map Prod.fst :=
  List.map_subset _ (List.filter_subset_self _)

/-- All tokens of the scope are among the given ones. -/
def LocalScope.Inside (S : LocalScope) (ts : List Token) : Prop := S.bound ⊆ ts ∧ S.functions ⊆ ts

theorem LocalScope.Inside.mono {S : LocalScope} {ts us : List Token} (h : S.Inside ts)
    (hsub : ts ⊆ us) : S.Inside us := ⟨List.Subset.trans h.1 hsub, List.Subset.trans h.2 hsub⟩

theorem LocalScope.ofBody_inside (params : List Token) (body : List (Stmt (Option Nat))) :
    (LocalScope.ofBody params body).Inside (params ++ Stmt.allTokens body) := by
  constructor
  · refine List.append_subset.mpr ⟨List.subset_append_left _ _, ?_⟩
    refine List.subset_append_of_subset_right _ ?_
    rw [← Stmt.allPlaces_map_fst 0]
    exact boundTokens_subset _
  · exact List.subset_append_of_subset_right _ (Stmt.allFunctionNames_subset body)

mutual

theorem Stmt.localScopes_inside : (s : Stmt (Option Nat)) → ∀ S ∈ s.localScopes, S.Inside s.tokens
  | .expr _ | .letDecl _ _ _ | .returnStmt _ _ => List.forall_mem_nil _
  | .block body => by
    rw [Stmt.localScopes, Stmt.tokens_block, List.forall_mem_cons]
    exact ⟨LocalScope.ofBody_inside [] body, Stmt.allLocalScopes_inside body⟩
  | .branch c t none => by
    rw [Stmt.localScopes, Stmt.tokens_branch]
    exact fun S hS => (t.localScopes_inside S hS).mono (List.subset_append_right _ _)
  | .branch c t (some e) => by
    rw [Stmt.localScopes, Stmt.tokens_branchElse, List.forall_mem_append]
    constructor
    · intro S hS
      exact (t.localScopes_inside S hS).mono
        (List.subset_append_of_subset_right _ (List.subset_append_left _ _))
    · intro S hS
      exact (e.localScopes_inside S hS).mono
        (List.subset_append_of_subset_right _ (List.subset_append_right _ _))
  | .functionDecl name params body => by
    rw [Stmt.localScopes, Stmt.tokens_functionDecl, List.forall_mem_cons]
    refine ⟨(LocalScope.ofBody_inside params body).mono (List.subset_cons_self _ _), ?_⟩
    intro S hS
    exact (Stmt.allLocalScopes_inside body S hS).mono
      (List.subset_cons_of_subset _ (List.subset_append_right _ _))
  | .namespaceDecl name body => by
    rw [Stmt.localScopes, Stmt.tokens_namespaceDecl]
    exact fun S hS => (Stmt.allLocalScopes_inside body S hS).mono (List.subset_cons_self _ _)

theorem Stmt.allLocalScopes_inside : (ss : List (Stmt (Option Nat))) →
    ∀ S ∈ Stmt.allLocalScopes ss, S.Inside (Stmt.allTokens ss)
  | [] => List.forall_mem_nil _
  | s :: ss => by
    rw [Stmt.allLocalScopes, Stmt.allTokens_cons, List.forall_mem_append]
    exact ⟨fun S hS => (s.localScopes_inside S hS).mono (List.subset_append_left _ _),
      fun S hS => (Stmt.allLocalScopes_inside ss S hS).mono (List.subset_append_right _ _)⟩

end

/-! ### The tokens of a scope are identifiers -/

/-- What names something of the scope is an identifier. -/
def NamesScope (places : List (Token × Bool)) : Prop :=
  ∀ place ∈ places, place.2 = true → place.1.kind = .identifier

section names

variable {t : Token} {b : Bool} {places places' : List (Token × Bool)}

theorem namesScope_nil : NamesScope [] := List.forall_mem_nil _

theorem namesScope_append :
    NamesScope (places ++ places') ↔ NamesScope places ∧ NamesScope places' :=
  List.forall_mem_append

theorem namesScope_cons_plain : NamesScope ((t, false) :: places) ↔ NamesScope places := by
  rw [NamesScope, List.forall_mem_cons]
  exact and_iff_right fun h => absurd h Bool.false_ne_true

theorem namesScope_cons (ht : t.kind = .identifier) (h : NamesScope places) :
    NamesScope ((t, b) :: places) :=
  List.forall_mem_cons.mpr ⟨fun _ => ht, h⟩

theorem namesScope_plainPlaces (ts : List Token) : NamesScope (plainPlaces ts) := by
  rw [NamesScope, plainPlaces, List.forall_mem_map]
  exact fun _ _ h => absurd h Bool.false_ne_true

end names

mutual

theorem Expr.namesScope_places (k : Nat) : (e : Expr (Option Nat)) → e.Grammatical →
    NamesScope (e.places k)
  | .literal _, _ => namesScope_nil
  | .group e, h => e.namesScope_places k h
  | .unary _ e, h => by
    rw [Expr.places, namesScope_cons_plain]
    exact e.namesScope_places k h.2.1
  | .binary l _ r, h => by
    obtain ⟨_, _, _, hl, _, hr, _⟩ := h
    rw [Expr.places, namesScope_append, namesScope_cons_plain]
    exact ⟨l.namesScope_places k hl, r.namesScope_places k hr⟩
  | .logical l _ r, h => by
    obtain ⟨_, _, _, hl, _, hr, _⟩ := h
    rw [Expr.places, namesScope_append, namesScope_cons_plain]
    exact ⟨l.namesScope_places k hl, r.namesScope_places k hr⟩
  | .reference _ _, h => by
    rw [Expr.places]
    exact namesScope_cons h namesScope_nil
  | .assign _ _ e, h => by
    rw [Expr.places]
    exact namesScope_cons h.1 (e.namesScope_places k h.2)
  | .call callee _ args, h => by
    obtain ⟨hcallee, _, _, _, hargs⟩ := h
    rw [Expr.places, namesScope_append, namesScope_append, namesScope_cons_plain]
    exact ⟨callee.namesScope_places k hcallee, Expr.namesScope_allPlaces k args hargs,
      namesScope_nil⟩

theorem Expr.namesScope_allPlaces (k : Nat) : (es : List (Expr (Option Nat))) →
    Expr.AllGrammatical es → NamesScope (Expr.allPlaces k es)
  | [], _ => namesScope_nil
  | e :: es, h => by
    rw [Expr.allPlaces, namesScope_append]
    exact ⟨e.namesScope_places k h.1, Expr.namesScope_allPlaces k es h.2⟩

end

theorem namesScope_optionPlaces (k : Nat) {e : Option (Expr (Option Nat))}
    (h : ∀ x ∈ e, x.Grammatical) : NamesScope (optionPlaces k e) := by
  cases e with
  | none => exact namesScope_nil
  | some e => exact e.namesScope_places k (h e rfl)

mutual

theorem Stmt.namesScope_places : (s : Stmt (Option Nat)) → s.Grammatical → ∀ k,
    NamesScope (s.places k)
  | .expr e, h, k => e.namesScope_places k h
  | .letDecl _ _ _, h, k => by
    rw [Stmt.places, namesScope_append]
    exact ⟨namesScope_plainPlaces _, namesScope_cons h.1 (namesScope_optionPlaces k h.2.1)⟩
  | .block body, h, k => Stmt.namesScope_allPlaces body h (k + 1)
  | .branch c t none, h, k => by
    rw [Stmt.places, namesScope_append]
    exact ⟨c.namesScope_places k h.1, t.namesScope_places h.2.1 k⟩
  | .branch c t (some e), h, k => by
    obtain ⟨hc, ht, _, _, he, _⟩ := h
    rw [Stmt.places, namesScope_append, namesScope_append]
    exact ⟨c.namesScope_places k hc, t.namesScope_places ht k, e.namesScope_places he k⟩
  | .returnStmt _ _, h, k => by
    rw [Stmt.places, namesScope_cons_plain]
    exact namesScope_optionPlaces k h.2
  | .functionDecl _ params body, h, k => by
    rw [Stmt.places, namesScope_cons_plain, namesScope_append]
    exact ⟨namesScope_plainPlaces params, Stmt.namesScope_allPlaces body h.2.2.2 (k + 1)⟩
  | .namespaceDecl _ body, _, _ => by
    rw [Stmt.places, namesScope_cons_plain]
    exact namesScope_plainPlaces (Stmt.allTokens body)

theorem Stmt.namesScope_allPlaces : (ss : List (Stmt (Option Nat))) → Stmt.AllGrammatical ss → ∀ k,
    NamesScope (Stmt.allPlaces k ss)
  | [], _, _ => namesScope_nil
  | s :: ss, h, k => by
    rw [Stmt.allPlaces, namesScope_append]
    exact ⟨s.namesScope_places h.1 k, Stmt.namesScope_allPlaces ss h.2 k⟩

end

theorem LocalScope.identifier_ofBody {params : List Token} {body : List (Stmt (Option Nat))}
    (hparams : ∀ p ∈ params, p.kind = .identifier) (hbody : Stmt.AllGrammatical body) :
    ∀ t ∈ (LocalScope.ofBody params body).bound, t.kind = .identifier := by
  rw [LocalScope.ofBody, List.forall_mem_append, boundTokens, List.forall_mem_map]
  refine ⟨hparams, fun place hplace => ?_⟩
  obtain ⟨hmem, hnames⟩ := List.mem_filter.mp hplace
  exact Stmt.namesScope_allPlaces body hbody 0 place hmem hnames

mutual

theorem Stmt.identifier_of_mem_bound : (s : Stmt (Option Nat)) → s.Grammatical →
    ∀ S ∈ s.localScopes, ∀ t ∈ S.bound, t.kind = .identifier
  | .expr _, _ | .letDecl _ _ _, _ | .returnStmt _ _, _ => List.forall_mem_nil _
  | .block body, h => by
    rw [Stmt.localScopes, List.forall_mem_cons]
    exact ⟨LocalScope.identifier_ofBody (List.forall_mem_nil _) h,
      Stmt.allIdentifier_of_mem_bound body h⟩
  | .branch _ t none, h => by
    rw [Stmt.localScopes]
    exact t.identifier_of_mem_bound h.2.1
  | .branch _ t (some e), h => by
    obtain ⟨_, ht, _, _, he, _⟩ := h
    rw [Stmt.localScopes, List.forall_mem_append]
    exact ⟨t.identifier_of_mem_bound ht, e.identifier_of_mem_bound he⟩
  | .functionDecl _ _ body, h => by
    obtain ⟨_, hparams, _, hbody⟩ := h
    rw [Stmt.localScopes, List.forall_mem_cons]
    exact ⟨LocalScope.identifier_ofBody hparams hbody, Stmt.allIdentifier_of_mem_bound body hbody⟩
  | .namespaceDecl _ body, h => by
    rw [Stmt.localScopes]
    exact Stmt.allIdentifier_of_mem_bound body h.2

theorem Stmt.allIdentifier_of_mem_bound : (ss : List (Stmt (Option Nat))) →
    Stmt.AllGrammatical ss → ∀ S ∈ Stmt.allLocalScopes ss, ∀ t ∈ S.bound, t.kind = .identifier
  | [], _ => List.forall_mem_nil _
  | s :: ss, h => by
    rw [Stmt.allLocalScopes, List.forall_mem_append]
    exact ⟨s.identifier_of_mem_bound h.1, Stmt.allIdentifier_of_mem_bound ss h.2⟩

end

/-! ## Renaming the tokens of one scope -/

section renamed

variable {L : Likeness} {τ : Token → Token} {ρ : Renaming} {S : LocalScope}

/-- The token is renamed if it belongs to the scope, and otherwise keeps its text. -/
structure RenamedIn (L : Likeness) (ρ : Renaming) (τ : Token → Token) (S : LocalScope) (t : Token) :
    Prop where
  inside : t ∈ S.bound → L.token (t.rename ρ) (τ t)
  outside : t ∉ S.bound → L.token t (τ t)

/-- Tokens that occur elsewhere do not belong to the scope. -/
theorem LocalScope.Inside.not_mem_left {ts us : List Token} (hS : S.Inside us)
    (h : (ts ++ us).Nodup) : ∀ t ∈ ts, t ∉ S.bound :=
  fun _ ht hmem => (List.nodup_append.mp h).2.2 _ ht _ (hS.1 hmem) rfl

theorem LocalScope.Inside.not_mem_right {ts us : List Token} (hS : S.Inside ts)
    (h : (ts ++ us).Nodup) : ∀ t ∈ us, t ∉ S.bound :=
  fun _ ht hmem => (List.nodup_append.mp h).2.2 _ (hS.1 hmem) _ ht rfl

/-- In the scope itself, the tokens that belong to it are renamed. -/
theorem LocalScope.placeAlike_ofBody {params : List Token} {body : List (Stmt (Option Nat))}
    (hnodup : (params ++ Stmt.allTokens body).Nodup)
    (h : ∀ t ∈ Stmt.allTokens body, RenamedIn L ρ τ (.ofBody params body) t) :
    ∀ place ∈ Stmt.allPlaces 0 body, PlaceAlike L ρ τ place := by
  obtain ⟨_, hbody, hapart⟩ := List.nodup_append.mp hnodup
  rw [← Stmt.allPlaces_map_fst 0] at h hbody hapart
  rintro ⟨t, b⟩ hplace
  have hmem : t ∈ (Stmt.allPlaces 0 body).map Prod.fst := List.mem_map_of_mem hplace
  cases b with
  | true =>
    refine (h t hmem).inside (List.mem_append_right _ ?_)
    exact List.mem_map.mpr ⟨(t, true), List.mem_filter.mpr ⟨hplace, rfl⟩, rfl⟩
  | false =>
    refine (h t hmem).outside fun hbound => ?_
    rcases List.mem_append.mp hbound with hparam | hbound
    · exact hapart t hparam t hmem rfl
    · -- a token stands at one place only, and here it names nothing of the scope
      obtain ⟨⟨u, b⟩, hfilter, rfl⟩ := List.mem_map.mp hbound
      obtain ⟨hplace', hb⟩ := List.mem_filter.mp hfilter
      cases List.inj_on_of_nodup_map hbody hplace hplace' rfl
      cases hb

/-- The names of the scope may be renamed, and those of its functions stay. -/
structure Likeness.Admits (L : Likeness) (ρ : Renaming) (τ : Token → Token) (S : LocalScope) :
    Prop where
  follows : L.Follows τ
  namespaces : ∀ name body, L.namespaces name body (τ name) (Stmt.mapAllTokens τ body)
  renames : L.renames ρ
  functions : ∀ f ∈ S.functions, ρ f.text = f.text

mutual

/-- A statement stays alike when the tokens of one of its scopes are renamed. -/
theorem Stmt.alike_renamed (hL : L.Admits ρ τ S) : (s : Stmt (Option Nat)) →
    S ∈ s.localScopes → s.tokens.Nodup → (∀ t ∈ s.tokens, RenamedIn L ρ τ S t) →
    s.Alike L Renamings.none (s.mapTokens τ)
  | .block body, hS, hnodup, h => by
    rw [Stmt.tokens_block] at hnodup h
    rcases List.mem_cons.mp hS with rfl | hS
    · refine .block ρ hL.renames ?_
      rw [Renamings.enter_none]
      exact Stmt.allAlike_mapAllTokens hL.follows body 0 (LocalScope.placeAlike_ofBody hnodup h)
        fun _ => hL.functions
    · refine .block (Equiv.refl String) L.renames_refl ?_
      rw [Renamings.enter_none, Renamings.only_refl]
      exact Stmt.allAlike_renamed hL body hS hnodup h
  | .branch c t none, hS, hnodup, h => by
    rw [Stmt.tokens_branch] at hnodup h
    rw [List.forall_mem_append] at h
    have hc := (t.localScopes_inside S hS).not_mem_left hnodup
    refine .branch (c.alike_of_tokens fun u hu => (h.1 u hu).outside (hc u hu)) ?_
    exact t.alike_renamed hL hS (List.nodup_append.mp hnodup).2.1 h.2
  | .branch c t (some e), hS, hnodup, h => by
    rw [Stmt.tokens_branchElse] at hnodup h
    rw [List.forall_mem_append, List.forall_mem_append] at h
    obtain ⟨_, hbranches, _⟩ := List.nodup_append.mp hnodup
    obtain ⟨ht, he, _⟩ := List.nodup_append.mp hbranches
    rcases List.mem_append.mp hS with hS | hS
    · have hinside := t.localScopes_inside S hS
      have hc := (hinside.mono (List.subset_append_left _ _)).not_mem_left hnodup
      refine .branchElse (c.alike_of_tokens fun u hu => (h.1 u hu).outside (hc u hu))
        (t.alike_renamed hL hS ht h.2.1) ?_
      exact e.alike_of_tokens hL.follows fun u hu =>
        (h.2.2 u hu).outside (hinside.not_mem_right hbranches u hu)
    · have hinside := e.localScopes_inside S hS
      have hc := (hinside.mono (List.subset_append_right _ _)).not_mem_left hnodup
      refine .branchElse (c.alike_of_tokens fun u hu => (h.1 u hu).outside (hc u hu)) ?_
        (e.alike_renamed hL hS he h.2.2)
      exact t.alike_of_tokens hL.follows fun u hu =>
        (h.2.1 u hu).outside (hinside.not_mem_left hbranches u hu)
  | .functionDecl name params body, hS, hnodup, h => by
    rw [Stmt.tokens_functionDecl] at hnodup h
    rw [List.forall_mem_cons] at h
    -- the name of the function belongs to the scope around it
    have hname : S.Inside (params ++ Stmt.allTokens body) → L.token name (τ name) := fun hinside =>
      h.1.outside fun hbound => (List.nodup_cons.mp hnodup).1 (hinside.1 hbound)
    obtain ⟨_, hnodup⟩ := List.nodup_cons.mp hnodup
    rw [List.forall_mem_append] at h
    rcases List.mem_cons.mp hS with rfl | hS
    · refine .functionDecl ρ hL.renames (hname (LocalScope.ofBody_inside params body)) rfl ?_ ?_
      · rw [List.forall₂_map_right_iff, List.forall₂_same]
        exact fun p hp => (h.2.1 p hp).inside (List.mem_append_left _ hp)
      · rw [Renamings.enter_none]
        exact Stmt.allAlike_mapAllTokens hL.follows body 0
          (LocalScope.placeAlike_ofBody hnodup h.2.2) fun _ => hL.functions
    · have hinside := Stmt.allLocalScopes_inside body S hS
      refine .functionDecl (Equiv.refl String) L.renames_refl
        (hname (hinside.mono (List.subset_append_right _ _))) rfl ?_ ?_
      · rw [List.forall₂_map_right_iff, List.forall₂_same]
        exact fun p hp => (h.2.1 p hp).outside (hinside.not_mem_left hnodup p hp)
      · rw [Renamings.enter_none, Renamings.only_refl]
        exact Stmt.allAlike_renamed hL body hS (List.nodup_append.mp hnodup).2.1 h.2.2
  | .namespaceDecl name body, _, _, _ => .namespaceDecl (hL.namespaces name body)
  | .expr _, hS, _, _ | .letDecl _ _ _, hS, _, _ | .returnStmt _ _, hS, _, _ => nomatch hS

/-- **A program stays alike when the tokens of one of its scopes are renamed.** -/
theorem Stmt.allAlike_renamed (hL : L.Admits ρ τ S) : (ss : List (Stmt (Option Nat))) →
    S ∈ Stmt.allLocalScopes ss → (Stmt.allTokens ss).Nodup →
    (∀ t ∈ Stmt.allTokens ss, RenamedIn L ρ τ S t) →
    Stmt.AllAlike L Renamings.none ss (Stmt.mapAllTokens τ ss)
  | [], _, _, _ => .nil
  | s :: ss, hS, hnodup, h => by
    rw [Stmt.allTokens_cons] at hnodup h
    rw [List.forall_mem_append] at h
    obtain ⟨hs, hss, _⟩ := List.nodup_append.mp hnodup
    rcases List.mem_append.mp hS with hS | hS
    · have hapart := (s.localScopes_inside S hS).not_mem_right hnodup
      refine .cons (s.alike_renamed hL hS hs h.1) ?_
      exact Stmt.allAlike_of_tokens hL.follows ss fun t ht => (h.2 t ht).outside (hapart t ht)
    · have hapart := (Stmt.allLocalScopes_inside ss S hS).not_mem_left hnodup
      refine .cons (s.alike_of_tokens hL.follows fun t ht => (h.1 t ht).outside (hapart t ht)) ?_
      exact Stmt.allAlike_renamed hL ss hS hss h.2

end

end renamed

end RadixScript
