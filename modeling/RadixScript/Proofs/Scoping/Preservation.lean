import RadixScript.Proofs.Scoping.Steps

/-!
# Watched runs keep the invariant

Expressions, statements and calls keep the invariant of watched runs. The trees that are run are
what resolution made of other trees, and the induction follows these: a tree at a place is resolved
with the names that the frames of the place declare.

* `Expr.watch_ensures`: evaluation adds no name to any scope, calls included.
* `Stmt.watch_ensures`: a statement adds to its own scope what it declares, and nothing else.
* `Watcher.ofDepth_sound`: calls keep the invariant, however deep they are nested. This is the
  induction that ties the two to each other.
-/

namespace RadixScript

open Watch

variable {sheltered : Prop} {w w' : Watched} {frames : Frames} {xs ys later : List String}

/-! ## Places -/

/-- The frames fit to the scopes, and the given names are clear if they have to be. -/
structure Frames.Ready (sheltered : Prop) (w : Watched) (frames : Frames) (xs : List String) :
    Prop where
  linked : frames.Linked w.machine.scopes
  clear : sheltered → ∀ x ∈ xs, frames.Clear w.machine.scopes x

theorem Frames.Ready.evolve (h : frames.Ready sheltered w xs) (he : w.Evolves Scopes.noGain w') :
    frames.Ready sheltered w' xs where
  linked := h.linked.grow he.scopes
  clear := fun hs x hx => (h.clear hs x hx).grow h.linked he.scopes

theorem Frames.Ready.subset (h : frames.Ready sheltered w ys) (hxs : xs ⊆ ys) :
    frames.Ready sheltered w xs where
  linked := h.linked
  clear := fun hs x hx => h.clear hs x (hxs hx)

theorem Frames.Ready.before (h : frames.Ready sheltered w xs) (later : List String) :
    (frames.before later).Ready sheltered w xs where
  linked := Frames.linked_before.mpr h.linked
  clear := fun hs x hx => Frames.clear_before.mpr (h.clear hs x hx)

/-- The statement can be executed at a place, after which the names `later` are declared. -/
structure Stmt.Placed (sheltered : Prop) (w : Watched) (frames : Frames) (later : List String)
    (s : Stmt Unit) : Prop where
  grammatical : s.Grammatical
  ready : frames.Ready sheltered w s.mentions
  planned : frames.Planned w.plans (s.declaredNames ++ later)
  shelter : sheltered → s.Sheltered (frames.laters.before later)

/-- The statements can be executed at a place, up to the end of their scope. -/
structure Stmt.AllPlaced (sheltered : Prop) (w : Watched) (frames : Frames)
    (ss : List (Stmt Unit)) : Prop where
  grammatical : Stmt.AllGrammatical ss
  ready : frames.Ready sheltered w (Stmt.allMentions ss)
  planned : frames.Planned w.plans (Stmt.allDeclaredNames ss)
  shelter : sheltered → Stmt.AllSheltered frames.laters ss

theorem Stmt.AllPlaced.head {s : Stmt Unit} {ss : List (Stmt Unit)}
    (h : Stmt.AllPlaced sheltered w frames (s :: ss)) :
    s.Placed sheltered w frames (Stmt.allDeclaredNames ss) where
  grammatical := h.grammatical.1
  ready := h.ready.subset (List.subset_append_left ..)
  planned := h.planned
  shelter := fun hs => (h.shelter hs).1

/-- The place after a statement that has come to its end. -/
theorem Stmt.AllPlaced.tail {s : Stmt Unit} {ss : List (Stmt Unit)}
    (h : Stmt.AllPlaced sheltered w frames (s :: ss))
    (he : w.Evolves (Scopes.gainIn frames.env s.declaredNames) w')
    (hb : ∀ x ∈ s.declaredNames, w'.machine.scopes.Binds frames.env x) :
    Stmt.AllPlaced sheltered w' (frames.declareAll s.declaredNames) ss where
  grammatical := h.grammatical.2
  ready := by
    refine ⟨(h.ready.linked.grow he.scopes).declareAll hb, ?_⟩
    intro hs x hx
    exact (h.ready.clear hs x (List.mem_append_right _ hx)).declareAll h.ready.linked he.scopes
  planned := by
    have hp : frames.Planned w'.plans (s.declaredNames ++ Stmt.allDeclaredNames ss) :=
      h.planned.congr (he.plans_eq h.ready.linked)
    exact hp.declareAll
  shelter := by
    intro hs
    rw [Frames.laters_declareAll]
    exact (h.shelter hs).2

/-! ## Entering a scope -/

/-- A scope that has been created for statements, with some names that are bound in it already. -/
structure Watched.Entered (w : Watched) (outer : Frames) (i : ScopeId) (names plan : List String) :
    Prop where
  plan : w.plans i = plan
  parent : ∃ h, w.machine.scopes.parent? i = some ⟨outer.env, h⟩
  bound : ∀ x, w.machine.scopes.Binds i x ↔ x ∈ names

theorem Watched.Entered.ready {i : ScopeId} {names plan : List String}
    (h : w.Entered frames i names plan) (hr : frames.Ready sheltered w xs) :
    (frames.enter i names).Ready sheltered w xs where
  linked := ⟨h.parent, fun x hx => (h.bound x).mpr hx, hr.linked⟩
  clear := fun hs x hx => (hr.clear hs x hx).enter (h.bound x).mp

theorem Watched.Entered.planned {i : ScopeId} {names rest : List String}
    (h : w.Entered frames i names (names ++ rest)) (hf : frames.Foreseen w.plans) :
    (frames.enter i names).Planned w.plans rest := by
  refine ⟨fun x => ?_, hf⟩
  show x ∈ w.plans i ↔ x ∈ names ∨ x ∈ rest
  rw [h.plan]
  exact List.mem_append

/-- The statements of a block can be executed in the scope of the block. -/
theorem Stmt.Placed.block {body : List (Stmt Unit)} {i : ScopeId}
    (h : (Stmt.block body).Placed sheltered w frames later) (he : w.Evolves Scopes.noGain w')
    (hi : w'.Entered (frames.before later) i [] (Stmt.allDeclaredNames body)) :
    Stmt.AllPlaced sheltered w' ((frames.before later).enter i []) body where
  grammatical := h.grammatical
  ready := hi.ready ((h.ready.evolve he).before later)
  planned := by
    -- a block declares nothing around it, so all that is planned there is declared later
    have hf : (frames.before later).Foreseen w.plans := h.planned.foreseen_before
    exact hi.planned (hf.congr (he.plans_eq (h.ready.before later).linked))
  shelter := by
    intro hs
    have hb := h.shelter hs
    rw [Stmt.Sheltered] at hb
    rw [Frames.enter, Frames.laters, List.map_cons]
    show Stmt.AllSheltered ([] :: (frames.before later).laters) body
    rw [Frames.laters_before]
    exact hb

/-- The body of a closure can be executed in the scope of a call. -/
theorem Closure.IsMadeOf.placed {f : Closure} {source : List (Stmt Unit)} {i : ScopeId}
    (h : f.IsMadeOf sheltered frames source) (hw : w.Sound sheltered)
    (hl : frames.Linked w.machine.scopes) (hf : frames.Foreseen w.plans)
    (hi : w.Entered frames i (f.params.map Token.text)
      (f.params.map Token.text ++ Stmt.allDeclaredNames source)) :
    Stmt.AllPlaced sheltered w (frames.enter i (f.params.map Token.text)) source where
  grammatical := h.grammatical
  ready := by
    refine hi.ready ⟨hl, ?_⟩
    intro hs x hx frame hframe hb
    -- the scope may have gained names since the declaration, but the body does not mention them
    have hplan := hw.planned _ x (hl.scope_ne_global frame hframe) hb
    rcases hf frame hframe x hplan with hn | hn
    · exact hn
    · exact absurd hn (h.avoids hs x hx frame hframe)
  planned := hi.planned hf
  shelter := h.shelter

/-! ## Expressions -/

/-- Calls keep the invariant. -/
def Watcher.Sound (sheltered : Prop) (call : Watcher) : Prop :=
  ∀ f args paren w, w.Sound sheltered → f.Rooted sheltered w →
    (∀ v ∈ args, v.Rooted sheltered w) →
    Ensures sheltered Scopes.noGain w (call f args paren w) fun v w' => v.Rooted sheltered w'

section trees

variable {call : Watcher}

mutual

/-- **Evaluation keeps the invariant** and adds no name to any scope. -/
theorem Expr.watch_ensures (hc : call.Sound sheltered) : (e : Expr Unit) → ∀ {frames w},
    w.Sound sheltered → frames.Ready sheltered w e.mentions →
    Ensures sheltered Scopes.noGain w ((e.resolve frames.locals).watch call frames w)
      fun v w' => v.Rooted sheltered w'
  | .literal v, frames, w, hw, _ => by
    rw [Expr.resolve, Expr.watch]
    refine ensures_pure hw ?_
    cases v <;> trivial
  | .group e, frames, w, hw, hr => by
    rw [Expr.resolve, Expr.watch]
    exact e.watch_ensures hc hw hr
  | .logical l op r, frames, w, hw, hr => by
    rw [Expr.resolve, Expr.watch]
    refine ensures_bind (l.watch_ensures hc hw (hr.subset (List.subset_append_left ..))) ?_
    intro left w₁ hw₁ he₁ hleft
    by_cases hs : Operator.settles op left = true
    · rw [if_pos hs]
      exact ensures_pure hw₁ hleft
    · rw [if_neg hs]
      exact r.watch_ensures hc hw₁ ((hr.subset (List.subset_append_right ..)).evolve he₁)
  | .unary op e, frames, w, hw, hr => by
    rw [Expr.resolve, Expr.watch]
    refine ensures_bind (e.watch_ensures hc hw hr) ?_
    intro v w₁ hw₁ _ _
    exact ensures_inert (Run.inert_lift (Operator.unary_yields op v)) hw₁
  | .binary l op r, frames, w, hw, hr => by
    rw [Expr.resolve, Expr.watch]
    refine ensures_bind (l.watch_ensures hc hw (hr.subset (List.subset_append_left ..))) ?_
    intro left w₁ hw₁ he₁ _
    refine ensures_bind
      (r.watch_ensures hc hw₁ ((hr.subset (List.subset_append_right ..)).evolve he₁)) ?_
    intro right w₂ hw₂ _ _
    exact ensures_inert (Run.inert_lift (Operator.binary_yields op left right)) hw₂
  | .reference name _, frames, w, hw, hr => by
    rw [Expr.resolve, Expr.watch]
    exact ensures_lookUp hw hr.linked fun hs => hr.clear hs _ (List.mem_singleton.mpr rfl)
  | .assign name _ e, frames, w, hw, hr => by
    rw [Expr.resolve, Expr.watch]
    refine ensures_bind (e.watch_ensures hc hw (hr.subset (List.subset_cons_self ..))) ?_
    intro v w₁ hw₁ he₁ hv
    -- the value may have called functions, which declare nothing in the scopes seen from here
    have hr₁ := hr.evolve he₁
    refine ensures_bind (ensures_assign hw₁ hr₁.linked
      (fun hs => hr₁.clear hs _ (List.mem_cons_self ..)) hv) ?_
    intro _ w₂ hw₂ he₂ _
    exact ensures_pure hw₂ (hv.evolve he₂)
  | .call callee paren args, frames, w, hw, hr => by
    rw [Expr.resolve, Expr.watch]
    refine ensures_bind (callee.watch_ensures hc hw (hr.subset (List.subset_append_left ..))) ?_
    intro f w₁ hw₁ he₁ hf
    refine ensures_bind (Expr.watchAll_ensures hc args hw₁
      ((hr.subset (List.subset_append_right ..)).evolve he₁)) ?_
    intro vs w₂ hw₂ he₂ hvs
    -- the callee was evaluated before the arguments, and is still rooted after them
    exact hc f vs paren w₂ hw₂ (hf.evolve he₂) hvs

theorem Expr.watchAll_ensures (hc : call.Sound sheltered) : (es : List (Expr Unit)) →
    ∀ {frames w}, w.Sound sheltered → frames.Ready sheltered w (Expr.allMentions es) →
    Ensures sheltered Scopes.noGain w
      (Expr.watchAll call frames (Expr.resolveAll frames.locals es) w)
      fun vs w' => ∀ v ∈ vs, v.Rooted sheltered w'
  | [], frames, w, hw, _ => by
    rw [Expr.resolveAll, Expr.watchAll]
    exact ensures_pure hw nofun
  | e :: es, frames, w, hw, hr => by
    rw [Expr.resolveAll, Expr.watchAll]
    refine ensures_bind (e.watch_ensures hc hw (hr.subset (List.subset_append_left ..))) ?_
    intro v w₁ hw₁ he₁ hv
    refine ensures_bind (Expr.watchAll_ensures hc es hw₁
      ((hr.subset (List.subset_append_right ..)).evolve he₁)) ?_
    intro vs w₂ hw₂ he₂ hvs
    refine ensures_pure hw₂ ?_
    intro u hu
    rcases List.mem_cons.mp hu with rfl | hu
    · exact hv.evolve he₂
    · exact hvs u hu

end

theorem watchOption_ensures (hc : call.Sound sheltered) (e : Option (Expr Unit))
    (hw : w.Sound sheltered) (hr : frames.Ready sheltered w (optionMentions e)) :
    Ensures sheltered Scopes.noGain w
      (watchOption call frames (e.map (Expr.resolve frames.locals)) w)
      fun v w' => v.Rooted sheltered w' := by
  cases e with
  | none => exact ensures_pure hw trivial
  | some e => exact e.watch_ensures hc hw hr

/-! ## Statements -/

/-- What holds when a statement that declares the names `xs` has come to an end: they are bound, or
there is a value to return. -/
def Completion.Fulfils (sheltered : Prop) (env : ScopeId) (xs : List String) (c : Completion)
    (w : Watched) : Prop :=
  match c with
  | .normal => ∀ x ∈ xs, w.machine.scopes.Binds env x
  | .returned v => v.Rooted sheltered w

theorem Completion.Fulfils.nil {c : Completion} {env env' : ScopeId}
    (h : c.Fulfils sheltered env [] w) : c.Fulfils sheltered env' [] w := by
  cases c with
  | normal => exact nofun
  | returned v => exact h

/-- The function of a declaration that has just been made is rooted, once its name is bound. -/
theorem Stmt.Placed.rooted {name : Token} {params : List Token} {body : List (Stmt Unit)}
    {serial : Nat} (h : (Stmt.functionDecl name params body).Placed sheltered w frames later)
    (henv : frames.env < w.machine.scopes.all.size) (hserial : serial < w'.machine.closures)
    (horigin : w'.origins serial = (frames.before later).declare name.text)
    (hplans : w'.plans = w.plans) (hscopes : w'.machine.scopes = w.machine.scopes) :
    let f : Closure := ⟨name, params,
      Stmt.resolveAll (params.map Token.text :: frames.locals.declare name.text) body, frames.env,
      serial⟩
    f.Rooted sheltered (w'.set frames.env name.text (.closure f)) := by
  intro f
  -- the frames around the body have the name itself, so calls of `f` in it get a tag
  have ho : (w'.set frames.env name.text (.closure f)).origins f.serial =
      (frames.before later).declare name.text := horigin
  constructor
  · exact hserial
  · rw [ho, Frames.env_declare, Frames.env_before]
  · rw [ho]
    have hl : (frames.before later).Linked
        (w'.set frames.env name.text (.closure f)).machine.scopes := by
      rw [Frames.linked_before]
      have hset := Scopes.Grows.of_set w.machine.scopes frames.env (.closure f)
        (List.mem_singleton.mpr (rfl : name.text = name.text))
      rw [← hscopes] at hset
      exact (hscopes ▸ h.ready.linked).grow hset
    show ((frames.before later).declareAll [name.text]).Linked _
    refine hl.declareAll ?_
    intro x hx
    obtain rfl := List.mem_singleton.mp hx
    rw [Frames.env_before]
    refine Scopes.binds_set_self ?_
    rw [hscopes]
    exact henv
  · rw [ho]
    show ((frames.before later).declare name.text).Foreseen w'.plans
    rw [hplans]
    exact h.planned.foreseen_declare
  · rw [ho]
    refine ⟨body, ?_, h.grammatical.2.2.2, ?_, ?_⟩
    · rw [Frames.locals_declare, Frames.locals_before]
    · intro hs
      rw [Frames.laters_declare, Frames.laters_before]
      exact (h.shelter hs).2
    · intro hs x hx frame hf
      have hm : frame.later ∈ ((frames.before later).declare name.text).laters :=
        List.mem_map_of_mem hf
      rw [Frames.laters_declare, Frames.laters_before] at hm
      exact (h.shelter hs).1 x hx _ hm

/-- A branch of an `if` that is taken. -/
theorem Stmt.Placed.of_branch {s t : Stmt Unit}
    (h : s.Placed sheltered w frames later) (he : w.Evolves Scopes.noGain w')
    (hs : s.declaredNames = []) (hg : t.Grammatical) (ht : t.isDeclaration = false)
    (hm : t.mentions ⊆ s.mentions)
    (hshelter : s.Sheltered (frames.laters.before later) →
      t.Sheltered (frames.laters.before later)) :
    t.Placed sheltered w' frames later where
  grammatical := hg
  ready := (h.ready.subset hm).evolve he
  planned := by
    have hp := h.planned
    rw [hs] at hp
    rw [t.declaredNames_eq_nil hg ht]
    exact hp.congr (he.plans_eq h.ready.linked)
  shelter := fun hs => hshelter (h.shelter hs)

mutual

/-- **Execution keeps the invariant**, and adds to the scope of the statement what it declares and
nothing to any other. -/
theorem Stmt.watch_ensures (hc : call.Sound sheltered) : (s : Stmt Unit) →
    ∀ {frames later w}, w.Sound sheltered → s.Placed sheltered w frames later →
    Ensures sheltered (Scopes.gainIn frames.env s.declaredNames) w
      ((s.resolve frames.locals).watch call (frames.before later) w)
      (Completion.Fulfils sheltered frames.env s.declaredNames)
  | .expr e, frames, later, w, hw, h => by
    rw [Stmt.resolve, Stmt.watch, ← frames.locals_before later]
    refine ensures_bind (e.watch_ensures hc hw (h.ready.before later)).of_noGain ?_
    intro _ w₁ hw₁ _ _
    exact ensures_pure hw₁ nofun
  | .letDecl name init type, frames, later, w, hw, h => by
    rw [Stmt.resolve, Stmt.watch, ← frames.locals_before later]
    refine ensures_bind (watchOption_ensures hc init hw (h.ready.before later)).of_noGain ?_
    intro v w₁ hw₁ he₁ hv
    have hx : name.text ∈ (Stmt.letDecl name init type).declaredNames := List.mem_singleton.mpr rfl
    have henv : frames.env < w₁.machine.scopes.all.size :=
      Nat.lt_of_lt_of_le (h.ready.linked.env_lt hw.globals) he₁.scopes.size
    have hset : w₁.Evolves (Scopes.gainIn frames.env [name.text])
        (w₁.set frames.env name.text v) := .of_set (List.mem_singleton.mpr rfl)
    -- outside the global scope, a name that gets bound was planned when the scope was created
    have hplan : frames.env ≠ globalScope → name.text ∈ w₁.plans frames.env := by
      intro hne
      rw [he₁.plans _ (h.ready.linked.env_lt hw.globals)]
      exact h.planned.mem hne hx
    rw [Frames.env_before]
    refine ensures_bind (ensures_define hw₁ henv (hv.evolve hset) hplan hx) ?_
    intro _ w₂ hw₂ _ hb
    refine ensures_pure hw₂ ?_
    intro x hx
    obtain rfl := List.mem_singleton.mp hx
    exact hb
  | .block body, frames, later, w, hw, h => by
    rw [Stmt.resolve, Stmt.watch, Stmt.allDeclaredNames_resolveAll, ← frames.locals_before later]
    have henv : (frames.before later).env < w.machine.scopes.all.size :=
      (h.ready.before later).linked.env_lt hw.globals
    -- only the new scope gains names, so nothing is gained from outside
    refine Ensures.of_noGain (Ensures.forget (Stmt.allDeclaredNames body) ?_)
    refine ensures_bind (ensures_enter hw henv).evolved.of_noGain ?_
    rintro i w₁ hw₁ _ ⟨⟨rfl, hplan, hparent, hb⟩, he₁⟩
    have hi : w₁.Entered (frames.before later) w.machine.scopes.all.size []
        (Stmt.allDeclaredNames body) :=
      ⟨hplan, hparent, fun x => ⟨fun hx => absurd hx (hb x), nofun⟩⟩
    exact (Stmt.watchAll_ensures hc body hw₁ (h.block he₁ hi)).imp fun _ _ hf => hf.nil
  | .branch c t none, frames, later, w, hw, h => by
    -- branches are no declarations, so the scope around them gains nothing
    have hd := Stmt.declaredNames_eq_nil _ h.grammatical rfl
    have hg := h.grammatical
    rw [Stmt.Grammatical] at hg
    rw [Stmt.resolve, Stmt.watch, hd]
    have hr : frames.Ready sheltered w c.mentions := h.ready.subset (List.subset_append_left ..)
    have hcond := c.watch_ensures hc hw (hr.before later)
    rw [Frames.locals_before] at hcond
    refine ensures_bind hcond.evolved.of_noGain ?_
    rintro v w₁ hw₁ _ ⟨_, he₁⟩
    by_cases hv : v.isTruthy = true
    · rw [if_pos hv]
      have ht := t.watch_ensures hc hw₁
        (h.of_branch he₁ hd hg.2.1 hg.2.2 (List.subset_append_right ..) id)
      rw [t.declaredNames_eq_nil hg.2.1 hg.2.2] at ht
      exact ht
    · rw [if_neg hv]
      exact ensures_pure hw₁ nofun
  | .branch c t (some e), frames, later, w, hw, h => by
    have hd := Stmt.declaredNames_eq_nil _ h.grammatical rfl
    have hg := h.grammatical
    rw [Stmt.Grammatical] at hg
    obtain ⟨_, htg, htd, _, heg, hed⟩ := hg
    rw [Stmt.resolve, Stmt.watch, hd, t.declaredNames_eq_nil htg htd]
    have hr : frames.Ready sheltered w c.mentions :=
      h.ready.subset (List.Subset.trans (List.subset_append_left ..) (List.subset_append_left ..))
    have hcond := c.watch_ensures hc hw (hr.before later)
    rw [Frames.locals_before] at hcond
    refine ensures_bind hcond.evolved.of_noGain ?_
    rintro v w₁ hw₁ _ ⟨_, he₁⟩
    by_cases hv : v.isTruthy = true
    · rw [if_pos hv]
      have ht := t.watch_ensures hc hw₁ (h.of_branch he₁ hd htg htd
        (List.Subset.trans (List.subset_append_right ..) (List.subset_append_left ..))
        fun hs => hs.1)
      rw [t.declaredNames_eq_nil htg htd] at ht
      exact ht
    · rw [if_neg hv]
      have he := e.watch_ensures hc hw₁ (h.of_branch he₁ hd heg hed
        (List.subset_append_right ..) fun hs => hs.2)
      rw [e.declaredNames_eq_nil heg hed] at he
      exact he
  | .functionDecl name params body, frames, later, w, hw, h => by
    rw [Stmt.resolve, Stmt.watch, Frames.env_before]
    have henv := h.ready.linked.env_lt hw.globals
    have hx : name.text ∈ (Stmt.functionDecl name params body).declaredNames :=
      List.mem_singleton.mpr rfl
    refine ensures_bind (ensures_nextSerial hw) ?_
    rintro serial w₁ hw₁ _ ⟨hserial, horigin, hplans, hscopes⟩
    -- its own name is among the frames it was made in, so it is rooted only once the name is set
    have hf := h.rooted henv hserial horigin hplans hscopes
    have hplan : frames.env ≠ globalScope → name.text ∈ w₁.plans frames.env := by
      intro hne
      rw [hplans]
      exact h.planned.mem hne hx
    have henv₁ : frames.env < w₁.machine.scopes.all.size := by
      rw [hscopes]
      exact henv
    refine ensures_bind (ensures_define hw₁ henv₁ ?_ hplan hx) ?_
    · exact hf
    · intro _ w₂ hw₂ _ hb
      refine ensures_pure hw₂ ?_
      intro x hx
      obtain rfl := List.mem_singleton.mp hx
      exact hb
  | .returnStmt keyword value, frames, later, w, hw, h => by
    rw [Stmt.resolve, Stmt.watch, ← frames.locals_before later]
    refine ensures_bind (watchOption_ensures hc value hw (h.ready.before later)).of_noGain ?_
    intro v w₁ hw₁ _ hv
    exact ensures_pure hw₁ hv
  | .namespaceDecl name body, frames, later, w, hw, h => by
    rw [Stmt.resolve, Stmt.watch]
    exact ensures_pure hw nofun

theorem Stmt.watchAll_ensures (hc : call.Sound sheltered) : (ss : List (Stmt Unit)) →
    ∀ {frames w}, w.Sound sheltered → Stmt.AllPlaced sheltered w frames ss →
    Ensures sheltered (Scopes.gainIn frames.env (Stmt.allDeclaredNames ss)) w
      (Stmt.watchAll call frames (Stmt.resolveAll frames.locals ss) w)
      (Completion.Fulfils sheltered frames.env [])
  | [], frames, w, hw, h => by
    rw [Stmt.resolveAll, Stmt.watchAll]
    exact ensures_pure hw nofun
  | s :: ss, frames, w, hw, h => by
    rw [Stmt.resolveAll, Stmt.watchAll, Stmt.allDeclaredNames_resolveAll, s.declaredNames_resolve]
    have hs :
        Ensures sheltered (Scopes.gainIn frames.env (Stmt.allDeclaredNames (s :: ss))) w _ _ :=
      (s.watch_ensures hc hw h.head).evolved.weaken
        fun i x hg => ⟨hg.1, List.mem_append_left _ hg.2⟩
    refine ensures_bind hs ?_
    rintro c w₁ hw₁ _ ⟨hfulfils, he₁⟩
    cases c with
    | normal =>
      -- what `s` declared is in the frames of `ss`, as it is in the names `ss` was resolved with
      have hss := Stmt.watchAll_ensures hc ss hw₁ (h.tail he₁ hfulfils)
      rw [Frames.locals_declareAll, Frames.env_declareAll] at hss
      exact hss.weaken fun i x hg => ⟨hg.1, List.mem_append_right _ hg.2⟩
    | returned v => exact ensures_pure hw₁ hfulfils

end

end trees

/-! ## Calls -/

/-- Bodies of functions are run as statements are. -/
def RunsBodies (sheltered : Prop)
    (runBody : Frames → List (Stmt (Option Nat)) → Watch Completion) : Prop :=
  ∀ frames ss w, w.Sound sheltered → Stmt.AllPlaced sheltered w frames ss →
    Ensures sheltered (Scopes.gainIn frames.env (Stmt.allDeclaredNames ss)) w
      (runBody frames (Stmt.resolveAll frames.locals ss) w)
      (Completion.Fulfils sheltered frames.env [])

section calls

variable {runBody : Frames → List (Stmt (Option Nat)) → Watch Completion}

theorem ensures_origin {α : Type} {gains : ScopeId → String → Prop} {post : α → Watched → Prop}
    {f : Closure} {g : Frames → Watch α}
    (h : Ensures sheltered gains w (g (w.origins f.serial) w) post) :
    Ensures sheltered gains w ((origin f >>= g) w) post := h

/-- The scope of a call, once the parameters are bound. -/
theorem Watched.Entered.of_bindParams {parent i : ScopeId} {params : List Token}
    {plan : List String} {outer : Frames} (hplan : w.plans i = plan)
    (hparent : ∃ h, w.machine.scopes.parent? i = some ⟨parent, h⟩)
    (hnone : ∀ x, ¬ w.machine.scopes.Binds i x)
    (he : w.Evolves (Scopes.gainIn i (params.map Token.text)) w')
    (hbound : ∀ p ∈ params, w'.machine.scopes.Binds i p.text) (houter : outer.env = parent) :
    w'.Entered outer i (params.map Token.text) plan := by
  subst houter
  obtain ⟨hlt, hparent⟩ := hparent
  have hi : i < w.machine.scopes.all.size := Scopes.lt_size_of_parent? hparent
  refine ⟨(he.plans i hi).trans hplan, ⟨hlt, (he.scopes.parent i hi).trans hparent⟩, ?_⟩
  intro x
  constructor
  · intro hb
    rcases he.scopes.gained i hi x hb with hb | hg
    · exact absurd hb (hnone x)
    · exact hg.2
  · intro hx
    obtain ⟨p, hp, rfl⟩ := List.mem_map.mp hx
    exact hbound p hp

/-- **A call of a closure keeps the invariant**: its scope is linked to the frames around the
declaration, wherever the call stands. -/
theorem Closure.watch_ensures (hrun : RunsBodies sheltered runBody) {f : Closure}
    {args : List Value} (hw : w.Sound sheltered) (hf : f.Rooted sheltered w)
    (hargs : ∀ v ∈ args, v.Rooted sheltered w) (hlen : args.length = f.params.length) :
    Ensures sheltered Scopes.noGain w (f.watch runBody args w)
      fun v w' => v.Rooted sheltered w' := by
  obtain ⟨source, hsource⟩ := hf.source
  have hdeclared : Stmt.allDeclaredNames f.body = Stmt.allDeclaredNames source := by
    rw [hsource.body, Stmt.allDeclaredNames_resolveAll]
  have hscope : f.scope < w.machine.scopes.all.size := by
    rw [← hf.env]
    exact hf.linked.env_lt hw.globals
  rw [Closure.watch, hdeclared]
  -- all names are gained in the scope of the call, which is new
  refine Ensures.forget (f.params.map Token.text ++ Stmt.allDeclaredNames source) ?_
  refine ensures_bind (ensures_enter hw hscope).evolved.of_noGain ?_
  rintro i w₁ hw₁ _ ⟨⟨rfl, hplan, hparent, hnone⟩, he₁⟩
  have hi : w.machine.scopes.all.size < w₁.machine.scopes.all.size := by
    obtain ⟨_, hp⟩ := hparent
    exact Scopes.lt_size_of_parent? hp
  have hparams : Ensures sheltered (Scopes.gainIn w.machine.scopes.all.size
      (f.params.map Token.text)) w₁ _ _ :=
    (ensures_bindParams hw₁ hi (fun v hv => (hargs v hv).evolve he₁) hlen
      (fun p hp => by
        rw [hplan]
        exact List.mem_append_left _ (List.mem_map_of_mem hp))
      (fun p hp => List.mem_map_of_mem hp)).evolved
  refine ensures_bind (hparams.weaken fun i x hg => ⟨hg.1, List.mem_append_left _ hg.2⟩) ?_
  rintro _ w₂ hw₂ _ ⟨hbound, he₂⟩
  refine ensures_origin ?_
  -- the record has the frames of the declaration since the closure was made
  have ho : w₂.origins f.serial = w.origins f.serial := by
    have hf₁ := hf.evolve he₁
    rw [he₂.origins _ hf₁.serial, he₁.origins _ hf.serial]
  have hf₂ := (hf.evolve he₁).evolve he₂
  rw [← ho] at hsource
  have hentered := Watched.Entered.of_bindParams hplan hparent hnone he₂ hbound hf₂.env
  have hbody := hrun _ source w₂ hw₂ (hsource.placed hw₂ hf₂.linked hf₂.foreseen hentered)
  rw [hsource.body]
  refine ensures_bind (hbody.weaken fun i x hg => ⟨hg.1, List.mem_append_right _ hg.2⟩) ?_
  intro c w₃ hw₃ _ hc
  cases c with
  | normal => exact ensures_pure hw₃ trivial
  | returned v => exact ensures_pure hw₃ hc

theorem watchArity_ensures {arity : Nat} {args : List Value} {paren : Token} {x : Watch Value}
    {post : Value → Watched → Prop} (hw : w.Sound sheltered)
    (h : args.length = arity → Ensures sheltered Scopes.noGain w (x w) post) :
    Ensures sheltered Scopes.noGain w (watchArity arity args paren x w) post := by
  rw [watchArity]
  by_cases ha : args.length = arity
  · rw [if_pos ha]
    exact ensures_located (h ha)
  · rw [if_neg ha]
    exact ensures_throw hw trivial

theorem watchWith_sound (hrun : RunsBodies sheltered runBody) :
    (watchWith runBody).Sound sheltered := by
  intro f args paren w hw hf hargs
  cases f
  case native f _ => exact watchArity_ensures hw fun _ => ensures_inert (f.run_inert args) hw
  case closure f =>
    exact watchArity_ensures hw fun hlen => Closure.watch_ensures hrun hw hf hargs hlen
  all_goals exact ensures_throw hw trivial

end calls

/-- **Calls keep the invariant**, however deep they are nested. -/
theorem Watcher.ofDepth_sound (depth : Nat) : (Watcher.ofDepth depth).Sound sheltered := by
  induction depth with
  | zero => exact watchWith_sound fun _ _ w hw _ => ensures_throw hw trivial
  | succ depth ih => exact watchWith_sound fun _ ss _ hw h => Stmt.watchAll_ensures ih ss hw h

end RadixScript
