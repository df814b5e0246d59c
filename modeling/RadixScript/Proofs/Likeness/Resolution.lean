import RadixScript.Proofs.Likeness.Tokens

/-!
# Resolution of trees that are alike

Resolution finds the scope of a name by comparing texts, the run follows the tags. This module shows
that the two fit together when local names are renamed: if no new name meets an old one, trees that
are alike have the same tags (`Stmt.resolve_mapTokens`).
-/

namespace RadixScript

variable {L : Likeness} {τ : Token → Token} {σ : Renamings} {ρ : Renaming} {names : String → Prop}
  {scopes : LocalScopes}

/-! ## Declared names -/

namespace LocalScopes

/-- Renames the declared names, scope by scope. -/
def rename : Renamings → LocalScopes → LocalScopes
  | _, [] => []
  | σ, scope :: outer => scope.map (σ 0) :: rename (fun d => σ (d + 1)) outer

theorem rename_enter (σ : Renamings) (ρ : Renaming) (names : List String) (outer : LocalScopes) :
    rename (σ.enter ρ) (names :: outer) = names.map ρ :: rename σ outer := rfl

theorem declare_rename (σ : Renamings) (scopes : LocalScopes) (x : String) :
    (rename σ scopes).declare (σ 0 x) = rename σ (scopes.declare x) := by
  cases scopes <;> rfl

theorem declareAll_rename (σ : Renamings) (scopes : LocalScopes) (names : List String) :
    (rename σ scopes).declareAll (names.map (σ 0)) = rename σ (scopes.declareAll names) := by
  induction names generalizing scopes with
  | nil => rfl
  | cons x names ih =>
    rw [List.map_cons, declareAll, List.foldl_cons, declare_rename]
    exact ih (scopes.declare x)

end LocalScopes

/-- Different names of a program stay different, whatever the scopes are that they belong to. -/
def Likeness.KeepsApart (L : Likeness) (names : String → Prop) : Prop :=
  ∀ ⦃ρ ρ' : Renaming⦄, L.renames ρ → L.renames ρ' →
    ∀ ⦃x z⦄, names x → names z → ρ x = ρ' z → x = z

/-- All declared names are names of the program. -/
def LocalScopes.Within (names : String → Prop) (scopes : LocalScopes) : Prop :=
  ∀ scope ∈ scopes, ∀ x ∈ scope, names x

theorem LocalScopes.Within.declare (h : scopes.Within names) {x : String} (hx : names x) :
    (scopes.declare x).Within names := by
  cases scopes with
  | nil => exact h
  | cons scope outer =>
    simp only [LocalScopes.declare, LocalScopes.Within, List.forall_mem_cons] at h ⊢
    exact ⟨⟨hx, h.1⟩, h.2⟩

theorem LocalScopes.Within.declareAll (h : scopes.Within names) {xs : List String}
    (hxs : ∀ x ∈ xs, names x) : (scopes.declareAll xs).Within names := by
  induction xs generalizing scopes with
  | nil => exact h
  | cons x xs ih =>
    rw [List.forall_mem_cons] at hxs
    exact ih (h.declare hxs.1) hxs.2

/-! ## Distances -/

/-- After renaming, a name is found in the same scope as before. -/
theorem LocalScopes.distance?_rename (hL : L.KeepsApart names) (hσ : ∀ d, L.renames (σ d))
    (hscopes : scopes.Within names) {x : String} (hx : names x) :
    (scopes.rename σ).distance? (σ.ofTag (scopes.distance? x) x) = scopes.distance? x := by
  induction scopes generalizing σ with
  | nil => rfl
  | cons scope outer ih =>
    have hcons : ∀ (scope : List String) outer (z : String),
        LocalScopes.distance? (scope :: outer) z =
          if scope.contains z then some 0 else (LocalScopes.distance? outer z).map (· + 1) :=
      fun scope outer z => List.findIdx?_cons
    rw [LocalScopes.Within, List.forall_mem_cons] at hscopes
    rw [LocalScopes.rename, hcons, hcons]
    by_cases hmem : scope.contains x = true
    · rw [if_pos hmem, if_pos]
      exact List.contains_iff_mem.mpr (List.mem_map_of_mem (List.contains_iff_mem.mp hmem))
    · rw [if_neg hmem]
      have htag : σ.ofTag ((LocalScopes.distance? outer x).map (· + 1)) x =
          Renamings.ofTag (fun d => σ (d + 1)) (LocalScopes.distance? outer x) x := by
        cases LocalScopes.distance? outer x <;> rfl
      rw [htag, if_neg, ih (fun d => hσ (d + 1)) hscopes.2]
      -- a name of the scope that became the new name would be the same name
      intro hnew
      obtain ⟨z, hz, heq⟩ := List.mem_map.mp (List.contains_iff_mem.mp hnew)
      have hrenames : L.renames
          (Renamings.ofTag (fun d => σ (d + 1)) (LocalScopes.distance? outer x)) := by
        cases LocalScopes.distance? outer x with
        | none => exact L.renames_refl
        | some d => exact hσ (d + 1)
      have hzx := hL (hσ 0) hrenames (hscopes.1 z hz) hx heq
      exact hmem (List.contains_iff_mem.mpr (hzx ▸ hz))

/-! ## Trees -/

/-- The texts at the places are names of the program. -/
def Named (names : String → Prop) (places : List (Token × Bool)) : Prop :=
  ∀ place ∈ places, names place.1.text

mutual

theorem Expr.resolve_mapTokens (hL : L.KeepsApart names) (hσ : ∀ d, L.renames (σ d))
    (hscopes : scopes.Within names) : (e : Expr Unit) → ∀ k,
    Named names ((e.resolve scopes).places k) →
    (e.resolve scopes).Alike L σ ((e.resolve scopes).mapTokens τ) →
    (e.mapTokens τ).resolve (scopes.rename σ) = (e.resolve scopes).mapTokens τ
  | .literal _, _, _, _ => rfl
  | .group e, k, hn, h => by
    cases h with | group h =>
    simp only [Expr.mapTokens, Expr.resolve, e.resolve_mapTokens hL hσ hscopes k hn h]
  | .unary op e, k, hn, h => by
    cases h with | unary _ h =>
    simp only [Named, Expr.resolve, Expr.places, List.forall_mem_cons] at hn
    simp only [Expr.mapTokens, Expr.resolve, e.resolve_mapTokens hL hσ hscopes k hn.2 h]
  | .binary l op r, k, hn, h => by
    cases h with | binary hl _ hr =>
    simp only [Named, Expr.resolve, Expr.places, List.forall_mem_append, List.forall_mem_cons] at hn
    simp only [Expr.mapTokens, Expr.resolve, l.resolve_mapTokens hL hσ hscopes k hn.1 hl,
      r.resolve_mapTokens hL hσ hscopes k hn.2.2 hr]
  | .logical l op r, k, hn, h => by
    cases h with | logical hl _ hr =>
    simp only [Named, Expr.resolve, Expr.places, List.forall_mem_append, List.forall_mem_cons] at hn
    simp only [Expr.mapTokens, Expr.resolve, l.resolve_mapTokens hL hσ hscopes k hn.1 hl,
      r.resolve_mapTokens hL hσ hscopes k hn.2.2 hr]
  | .reference name _, k, hn, h => by
    cases h with | reference h =>
    simp only [Named, Expr.resolve, Expr.places, List.forall_mem_singleton] at hn
    have htext : (τ name).text = σ.ofTag (scopes.distance? name.text) name.text := L.text_eq h
    simp only [Expr.mapTokens, Expr.resolve, htext,
      LocalScopes.distance?_rename hL hσ hscopes hn]
  | .assign name _ e, k, hn, h => by
    cases h with | assign h he =>
    simp only [Named, Expr.resolve, Expr.places, List.forall_mem_cons] at hn
    have htext : (τ name).text = σ.ofTag (scopes.distance? name.text) name.text := L.text_eq h
    simp only [Expr.mapTokens, Expr.resolve, htext,
      LocalScopes.distance?_rename hL hσ hscopes hn.1, e.resolve_mapTokens hL hσ hscopes k hn.2 he]
  | .call callee paren args, k, hn, h => by
    cases h with | call hf _ hargs =>
    simp only [Named, Expr.resolve, Expr.places, List.forall_mem_append] at hn
    simp only [Expr.mapTokens, Expr.resolve, callee.resolve_mapTokens hL hσ hscopes k hn.1 hf,
      Expr.resolveAll_mapAllTokens hL hσ hscopes args k hn.2.1 hargs]

theorem Expr.resolveAll_mapAllTokens (hL : L.KeepsApart names) (hσ : ∀ d, L.renames (σ d))
    (hscopes : scopes.Within names) : (es : List (Expr Unit)) → ∀ k,
    Named names (Expr.allPlaces k (Expr.resolveAll scopes es)) →
    Expr.AllAlike L σ (Expr.resolveAll scopes es)
      (Expr.mapAllTokens τ (Expr.resolveAll scopes es)) →
    Expr.resolveAll (scopes.rename σ) (Expr.mapAllTokens τ es) =
      Expr.mapAllTokens τ (Expr.resolveAll scopes es)
  | [], _, _, _ => rfl
  | e :: es, k, hn, h => by
    cases h with | cons h hs =>
    simp only [Named, Expr.resolveAll, Expr.allPlaces, List.forall_mem_append] at hn
    simp only [Expr.mapAllTokens, Expr.resolveAll, e.resolve_mapTokens hL hσ hscopes k hn.1 h,
      Expr.resolveAll_mapAllTokens hL hσ hscopes es k hn.2 hs]

end

theorem optionMap_resolve_mapTokens (hL : L.KeepsApart names) (hσ : ∀ d, L.renames (σ d))
    (hscopes : scopes.Within names) {e : Option (Expr Unit)} {k : Nat}
    (hn : Named names (optionPlaces k (e.map (Expr.resolve scopes))))
    (h : Option.Rel (Expr.Alike L σ) (e.map (Expr.resolve scopes))
      ((e.map (Expr.resolve scopes)).map (Expr.mapTokens τ))) :
    (e.map (Expr.mapTokens τ)).map (Expr.resolve (scopes.rename σ)) =
      (e.map (Expr.resolve scopes)).map (Expr.mapTokens τ) := by
  cases e with
  | none => rfl
  | some e =>
    cases h with | some h =>
    exact congrArg some (e.resolve_mapTokens hL hσ hscopes k hn h)

theorem Stmt.names_of_mem_declaredNames : (s : Stmt Unit) → ∀ {scopes k},
    Named names ((s.resolve scopes).places k) → ∀ x ∈ s.declaredNames, names x
  | .letDecl name init type, scopes, k, hn => by
    simp only [Named, Stmt.resolve, Stmt.places, List.forall_mem_append, List.forall_mem_cons] at hn
    simpa [Stmt.declaredNames] using hn.2.1
  | .functionDecl name params body, scopes, k, hn => by
    simp only [Named, Stmt.resolve, Stmt.places, List.forall_mem_cons] at hn
    simpa [Stmt.declaredNames] using hn.1
  | .branch c t none, scopes, k, hn => by
    simp only [Named, Stmt.resolve, Stmt.places, List.forall_mem_append] at hn
    exact t.names_of_mem_declaredNames hn.2
  | .branch c t (some e), scopes, k, hn => by
    simp only [Named, Stmt.resolve, Stmt.places, List.forall_mem_append] at hn
    rw [Stmt.declaredNames, List.forall_mem_append]
    exact ⟨t.names_of_mem_declaredNames hn.2.1, e.names_of_mem_declaredNames hn.2.2⟩
  | .expr _, _, _, _ | .block _, _, _, _ | .returnStmt _ _, _, _, _ | .namespaceDecl _ _, _, _, _ =>
    List.forall_mem_nil _

theorem Stmt.declaredNames_mapTokens : (s : Stmt Unit) → ∀ {scopes},
    (s.resolve scopes).Alike L σ ((s.resolve scopes).mapTokens τ) →
    (s.mapTokens τ).declaredNames = s.declaredNames.map (σ 0)
  | .letDecl name init type, scopes, h => by
    cases h with | letDecl hname _ _ =>
    have htext : (τ name).text = σ 0 name.text := L.text_eq hname
    simp [Stmt.mapTokens, Stmt.declaredNames, htext]
  | .functionDecl name params body, scopes, h => by
    cases h with | functionDecl _ _ hname hfixed _ _ =>
    simp [Stmt.mapTokens, Stmt.declaredNames, L.text_eq hname, hfixed]
  | .branch c t none, scopes, h => by
    cases h with | branch _ ht => exact t.declaredNames_mapTokens ht
  | .branch c t (some e), scopes, h => by
    cases h with | branchElse _ ht he =>
    simp only [Stmt.mapTokens, Stmt.declaredNames, t.declaredNames_mapTokens ht,
      e.declaredNames_mapTokens he, List.map_append]
  | .expr _, _, _ | .block _, _, _ | .returnStmt _ _, _, _ | .namespaceDecl _ _, _, _ => rfl

/-- The renamings inside of one more scope are allowed. -/
theorem Renamings.renames_enter (hσ : ∀ d, L.renames (σ d)) (hρ : L.renames ρ) :
    ∀ d, L.renames (σ.enter ρ d)
  | 0 => hρ
  | d + 1 => hσ d

mutual

/-- **Resolution tags the names of trees that are alike with the same distances.** -/
theorem Stmt.resolve_mapTokens (hL : L.KeepsApart names) : (s : Stmt Unit) →
    ∀ {scopes σ k}, (∀ d, L.renames (σ d)) → scopes.Within names →
    Named names ((s.resolve scopes).places k) →
    (s.resolve scopes).Alike L σ ((s.resolve scopes).mapTokens τ) →
    (s.mapTokens τ).resolve (scopes.rename σ) = (s.resolve scopes).mapTokens τ
  | .expr e, scopes, σ, k, hσ, hscopes, hn, h => by
    cases h with | expr h =>
    simp only [Stmt.mapTokens, Stmt.resolve, e.resolve_mapTokens hL hσ hscopes k hn h]
  | .letDecl name init type, scopes, σ, k, hσ, hscopes, hn, h => by
    cases h with | letDecl _ hinit _ =>
    simp only [Named, Stmt.resolve, Stmt.places, List.forall_mem_append, List.forall_mem_cons] at hn
    simp only [Stmt.mapTokens, Stmt.resolve, optionMap_resolve_mapTokens hL hσ hscopes hn.2.2 hinit]
  | .block body, scopes, σ, k, hσ, hscopes, hn, h => by
    cases h with | block ρ hρ h =>
    have hinner : LocalScopes.Within names ([] :: scopes) :=
      List.forall_mem_cons.mpr ⟨List.forall_mem_nil _, hscopes⟩
    have := Stmt.resolveAll_mapAllTokens hL body (Renamings.renames_enter hσ hρ) hinner hn h
    simp only [Stmt.mapTokens, Stmt.resolve]
    exact congrArg Stmt.block this
  | .branch c t none, scopes, σ, k, hσ, hscopes, hn, h => by
    cases h with | branch hc ht =>
    simp only [Named, Stmt.resolve, Stmt.places, List.forall_mem_append] at hn
    simp only [Stmt.mapTokens, Stmt.resolve, c.resolve_mapTokens hL hσ hscopes k hn.1 hc,
      t.resolve_mapTokens hL hσ hscopes hn.2 ht]
  | .branch c t (some e), scopes, σ, k, hσ, hscopes, hn, h => by
    cases h with | branchElse hc ht he =>
    simp only [Named, Stmt.resolve, Stmt.places, List.forall_mem_append] at hn
    have hthen := hscopes.declareAll (t.names_of_mem_declaredNames hn.2.1)
    simp only [Stmt.mapTokens, Stmt.resolve, c.resolve_mapTokens hL hσ hscopes k hn.1 hc,
      t.resolve_mapTokens hL hσ hscopes hn.2.1 ht, t.declaredNames_mapTokens ht,
      LocalScopes.declareAll_rename, e.resolve_mapTokens hL hσ hthen hn.2.2 he]
  | .returnStmt keyword value, scopes, σ, k, hσ, hscopes, hn, h => by
    cases h with | returnStmt _ hvalue =>
    simp only [Named, Stmt.resolve, Stmt.places, List.forall_mem_cons] at hn
    simp only [Stmt.mapTokens, Stmt.resolve, optionMap_resolve_mapTokens hL hσ hscopes hn.2 hvalue]
  | .functionDecl name params body, scopes, σ, k, hσ, hscopes, hn, h => by
    cases h with | functionDecl ρ hρ hname hfixed hparams h =>
    simp only [Named, Stmt.resolve, Stmt.places, List.forall_mem_cons, List.forall_mem_append] at hn
    have hparamTexts : (params.map τ).map Token.text = (params.map Token.text).map ρ := by
      rw [List.forall₂_map_right_iff, List.forall₂_same] at hparams
      simp only [List.map_map]
      exact List.map_congr_left fun p hp => L.text_eq (hparams p hp)
    have hinner : LocalScopes.Within names
        (params.map Token.text :: scopes.declare name.text) := by
      refine List.forall_mem_cons.mpr ⟨?_, hscopes.declare hn.1⟩
      rw [List.forall_mem_map]
      intro p hp
      exact hn.2.1 (p, false) (List.mem_map_of_mem hp)
    have := Stmt.resolveAll_mapAllTokens hL body (Renamings.renames_enter hσ hρ) hinner hn.2.2 h
    have htext : (τ name).text = σ 0 name.text := (L.text_eq hname).trans hfixed.symm
    rw [LocalScopes.rename_enter, ← LocalScopes.declare_rename, ← htext, ← hparamTexts] at this
    simp only [Stmt.mapTokens, Stmt.resolve, this]
  | .namespaceDecl name body, scopes, σ, k, _, _, _, _ => by
    simp only [Stmt.mapTokens, Stmt.resolve, Stmt.mapAll_mapAllTokens]

theorem Stmt.resolveAll_mapAllTokens (hL : L.KeepsApart names) : (ss : List (Stmt Unit)) →
    ∀ {scopes σ k}, (∀ d, L.renames (σ d)) → scopes.Within names →
    Named names (Stmt.allPlaces k (Stmt.resolveAll scopes ss)) →
    Stmt.AllAlike L σ (Stmt.resolveAll scopes ss)
      (Stmt.mapAllTokens τ (Stmt.resolveAll scopes ss)) →
    Stmt.resolveAll (scopes.rename σ) (Stmt.mapAllTokens τ ss) =
      Stmt.mapAllTokens τ (Stmt.resolveAll scopes ss)
  | [], _, _, _, _, _, _, _ => rfl
  | s :: ss, scopes, σ, k, hσ, hscopes, hn, h => by
    cases h with | cons h hs =>
    simp only [Named, Stmt.resolveAll, Stmt.allPlaces, List.forall_mem_append] at hn
    have hnext := hscopes.declareAll (s.names_of_mem_declaredNames hn.1)
    simp only [Stmt.mapAllTokens, Stmt.resolveAll, s.resolve_mapTokens hL hσ hscopes hn.1 h,
      s.declaredNames_mapTokens h, LocalScopes.declareAll_rename,
      Stmt.resolveAll_mapAllTokens hL ss hσ hnext hn.2 hs]

end

end RadixScript
