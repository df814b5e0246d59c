import RadixScript.Proofs.Scoping.Invariant

/-!
# The steps of watched runs

One lemma for each step that touches the scopes or the record: reading a name, assigning to it,
defining it, creating a scope and making a closure. Each says under which conditions the step keeps
the invariant, what it does to the scopes, and what holds after it.
-/

namespace RadixScript

variable {α β : Type} {sheltered : Prop} {gains : ScopeId → String → Prop} {w w' : Watched}

/-! ## Chains of scopes -/

section chains

variable {s : Scopes} {i a : ScopeId} {d : Nat} {x : Name} {v : Value}

theorem Scopes.ancestor_eq_ok (ha : s.ancestor? i d = some a) : s.ancestor i d = .ok a := by
  rw [Scopes.ancestor, ha]

theorem Scopes.getAt_eq_ok (ha : s.ancestor? i d = some a) (hv : s.own? a x.text = some v) :
    s.getAt i d x = .ok v := by
  simp only [Scopes.getAt, Scopes.ancestor_eq_ok ha, bind, Except.bind, hv]
  rfl

theorem Scopes.assigneeAt_eq_ok (ha : s.ancestor? i d = some a) (hv : s.own? a x.text = some v) :
    s.assigneeAt i d x = .ok a := by
  simp only [Scopes.assigneeAt, Scopes.ancestor_eq_ok ha, bind, Except.bind, hv]
  rfl

end chains

/-! ## Setting a name -/

/-- The state after a name is set in a scope. -/
def Watched.set (w : Watched) (i : ScopeId) (x : String) (v : Value) : Watched :=
  { w with machine := { w.machine with scopes := w.machine.scopes.set i x v } }

section set

variable {i : ScopeId} {x : String} {xs : List String} {v : Value}

theorem Watched.Evolves.of_set (hx : x ∈ xs) :
    w.Evolves (Scopes.gainIn i xs) (w.set i x v) where
  scopes := .of_set _ _ _ hx
  closures := Nat.le_refl _
  origins := fun _ _ => rfl
  plans := fun _ _ => rfl

theorem Watched.Evolves.of_set_of_binds (hb : w.machine.scopes.Binds i x) :
    w.Evolves Scopes.noGain (w.set i x v) where
  scopes := .of_set_of_binds hb v
  closures := Nat.le_refl _
  origins := fun _ _ => rfl
  plans := fun _ _ => rfl

theorem Watched.Sound.set (h : w.Sound sheltered) (hv : v.Rooted sheltered (w.set i x v))
    (hp : i ≠ globalScope → x ∈ w.plans i) : (w.set i x v).Sound sheltered := by
  have he : w.Evolves (Scopes.gainIn i [x]) (w.set i x v) := .of_set (List.mem_singleton.mpr rfl)
  refine h.evolve he ?_ ?_ fun _ => Or.inl
  · intro j y u hu
    rcases Scopes.own?_set_cases hu with ⟨_, _, rfl⟩ | hu
    · exact Or.inr hv
    · exact Or.inl hu
  · intro j y hj hb
    rcases Scopes.binds_set_cases hb with hb | ⟨rfl, rfl⟩
    · exact h.planned j y hj hb
    · exact hp hj

end set

namespace Watch

variable {post : α → Watched → Prop}

theorem plain_bind (x : Run α) (f : α → Run β) :
    plain (x >>= f) = plain x >>= fun a => plain (f a) := by
  funext w
  simp only [plain, bind, EStateM.bind]
  cases x w.machine <;> rfl

theorem ensures_lift {r : Except Fault α} (h : w.Sound sheltered)
    (hr : Yields r fun a => post a w) :
    Ensures sheltered gains w (plain (Run.lift r) w) post := by
  cases r with
  | ok a => exact ⟨h, .refl w, hr⟩
  | error f => exact ⟨h, .refl w, hr⟩

theorem ensures_read {f : Scopes → Except Fault α} (h : w.Sound sheltered)
    (hf : Yields (f w.machine.scopes) fun a => post a w) :
    Ensures sheltered gains w (plain (Run.read f) w) post := by
  have he : plain (Run.read f) w = plain (Run.lift (f w.machine.scopes)) w := rfl
  rw [he]
  exact ensures_lift h hf

theorem ensures_store {target : Scopes → Except Fault ScopeId} {x : String} {v : Value}
    {post : Unit → Watched → Prop} (h : w.Sound sheltered)
    (ht : Yields (target w.machine.scopes) fun i =>
      w.Evolves gains (w.set i x v) ∧ v.Rooted sheltered (w.set i x v) ∧
        (i ≠ globalScope → x ∈ w.plans i) ∧ post () (w.set i x v)) :
    Ensures sheltered gains w (plain (Run.store target x v) w) post := by
  have hread : Run.read target w.machine = Run.lift (target w.machine.scopes) w.machine := rfl
  simp only [plain, Run.store, bind, EStateM.bind, hread]
  cases hr : target w.machine.scopes with
  | ok i =>
    rw [hr] at ht
    obtain ⟨he, hv, hp, hpost⟩ := ht
    exact ⟨h.set hv hp, he, hpost⟩
  | error f =>
    rw [hr] at ht
    exact ⟨h, .refl w, ht⟩

/-! ## Uses of names -/

theorem ensures_visit {frames : Frames} {name : Token} {tag : Option Nat} {a : Option Value}
    (h : w.Sound sheltered) (hv : (Visit.mk frames name tag a w.machine).Right sheltered) :
    Ensures sheltered gains w (visit frames name tag a w) fun _ w' => w'.machine = w.machine := by
  have he : w.Evolves gains { w with visits := ⟨frames, name, tag, a, w.machine⟩ :: w.visits } :=
    ⟨.refl _, Nat.le_refl _, fun _ _ => rfl, fun _ _ => rfl⟩
  refine ⟨h.evolve he (fun _ _ _ => Or.inl) h.planned ?_, he, rfl⟩
  intro v hv'
  rcases List.mem_cons.mp hv' with rfl | hv'
  · exact Or.inr hv
  · exact Or.inl hv'

/-- Reading a name by the distance that resolution finds. -/
theorem ensures_lookUp {frames : Frames} {name : Token} (h : w.Sound sheltered)
    (hl : frames.Linked w.machine.scopes)
    (hc : sheltered → frames.Clear w.machine.scopes name.text) :
    Ensures sheltered Scopes.noGain w
      (lookUp frames name (frames.locals.distance? name.text) w)
      fun v w' => v.Rooted sheltered w' := by
  rw [lookUp]
  refine ensures_bind (ensures_visit h ⟨rfl, hl, hc⟩) ?_
  intro _ w' hw' _ hm
  rw [← hm] at hl
  cases hd : frames.locals.distance? name.text with
  | none =>
    -- a name without a tag is a global, and may be unbound
    rw [RadixScript.lookUp]
    refine ensures_read hw' ?_
    rw [Scopes.get]
    split
    · next v hv => exact hw'.rooted_of_get? hv
    · trivial
  | some d =>
    rw [RadixScript.lookUp]
    refine ensures_read hw' ?_
    obtain ⟨frame, hf, hx, _⟩ := Frames.exists_frame_of_distance? hd
    have hb := hl.binds (List.mem_of_getElem? hf) hx
    obtain ⟨v, hv⟩ := Option.isSome_iff_exists.mp hb
    have hg : w'.machine.scopes.getAt frames.env d (.ofToken name) = .ok v :=
      Scopes.getAt_eq_ok (hl.ancestor?_eq hf) hv
    rw [hg]
    exact hw'.values _ _ _ hv

/-- Assigning to a name by the distance that resolution finds. -/
theorem ensures_assign {frames : Frames} {name : Token} {v : Value} (h : w.Sound sheltered)
    (hl : frames.Linked w.machine.scopes)
    (hc : sheltered → frames.Clear w.machine.scopes name.text) (hv : v.Rooted sheltered w) :
    Ensures sheltered Scopes.noGain w
      (assign frames name v (frames.locals.distance? name.text) w) fun _ _ => True := by
  rw [assign]
  refine ensures_bind (ensures_visit h ⟨rfl, hl, hc⟩) ?_
  intro _ w' hw' he hm
  rw [← hm] at hl
  -- only a scope that binds the name already is ever changed
  have key : ∀ i, w'.machine.scopes.Binds i name.text →
      w'.Evolves Scopes.noGain (w'.set i name.text v) ∧
        v.Rooted sheltered (w'.set i name.text v) ∧
        (i ≠ globalScope → name.text ∈ w'.plans i) ∧ True := by
    intro i hb
    have hset : w'.Evolves Scopes.noGain (w'.set i name.text v) := .of_set_of_binds hb
    exact ⟨hset, (hv.evolve he).evolve hset, fun hi => hw'.planned i _ hi hb, trivial⟩
  cases hd : frames.locals.distance? name.text with
  | none =>
    rw [assignName]
    refine ensures_store hw' ?_
    rw [Scopes.assignee]
    split
    · next o ho => exact key o (Scopes.binds_of_owner? ho)
    · trivial
  | some d =>
    rw [assignName]
    refine ensures_store hw' ?_
    obtain ⟨frame, hf, hx, _⟩ := Frames.exists_frame_of_distance? hd
    have hb := hl.binds (List.mem_of_getElem? hf) hx
    obtain ⟨u, hu⟩ := Option.isSome_iff_exists.mp hb
    have ha : w'.machine.scopes.assigneeAt frames.env d (.ofToken name) = .ok frame.scope :=
      Scopes.assigneeAt_eq_ok (hl.ancestor?_eq hf) hu
    rw [ha]
    exact key frame.scope hb

/-! ## Definitions -/

theorem check_yields (x : Name) (v : Value) : Yields (x.check v) fun _ => True := by
  rw [Name.check, Value.validate]
  split
  · trivial
  · trivial

/-- Binding a name that is planned for the scope. The value may refer to the new binding. -/
theorem ensures_define {env : ScopeId} {name : Token} {v : Value} {xs : List String}
    (h : w.Sound sheltered) (henv : env < w.machine.scopes.all.size)
    (hv : v.Rooted sheltered (w.set env name.text v))
    (hp : env ≠ globalScope → name.text ∈ w.plans env) (hx : name.text ∈ xs) :
    Ensures sheltered (Scopes.gainIn env xs) w (plain (defineName env name v) w)
      fun _ w' => w'.machine.scopes.Binds env name.text := by
  rw [defineName, plain_bind]
  have hcheck : Ensures sheltered (Scopes.gainIn env xs) w
      (plain (Run.lift ((Name.ofToken name).check v)) w) fun _ w' => w' = w := by
    refine ensures_lift h ?_
    have hy := check_yields (.ofToken name) v
    cases hr : (Name.ofToken name).check v with
    | ok a => rfl
    | error f =>
      rw [hr] at hy
      exact hy
  refine ensures_bind hcheck ?_
  rintro _ w' hw' - rfl
  exact ensures_store hw' ⟨.of_set hx, hv, hp, Scopes.binds_set_self henv⟩

/-- Binding parameters that are planned for the scope. -/
theorem ensures_bindParams {env : ScopeId} {params : List Token} {args : List Value}
    {xs : List String} (h : w.Sound sheltered) (henv : env < w.machine.scopes.all.size)
    (hargs : ∀ v ∈ args, v.Rooted sheltered w) (hlen : args.length = params.length)
    (hp : ∀ p ∈ params, p.text ∈ w.plans env) (hx : ∀ p ∈ params, p.text ∈ xs) :
    Ensures sheltered (Scopes.gainIn env xs) w (plain (bindParams env params args) w)
      fun _ w' => ∀ p ∈ params, w'.machine.scopes.Binds env p.text := by
  induction params generalizing args w with
  | nil =>
    rw [List.length_eq_zero_iff.mp hlen]
    exact ensures_pure h nofun
  | cons p ps ih =>
    cases args with
    | nil => cases hlen
    | cons v vs =>
      rw [bindParams, plain_bind]
      have hset : w.Evolves (Scopes.gainIn env xs) (w.set env p.text v) :=
        .of_set (hx p (List.mem_cons_self ..))
      have hv : v.Rooted sheltered (w.set env p.text v) :=
        (hargs v (List.mem_cons_self ..)).evolve hset
      refine ensures_bind (ensures_define h henv hv (fun _ => hp p (List.mem_cons_self ..))
        (hx p (List.mem_cons_self ..))) ?_
      intro _ w' hw' he hb
      have hrest := ih hw' (Nat.lt_of_lt_of_le henv he.scopes.size)
        (fun u hu => (hargs u (List.mem_cons_of_mem _ hu)).evolve he) (Nat.succ.inj hlen)
        (fun q hq => by rw [he.plans env henv]; exact hp q (List.mem_cons_of_mem _ hq))
        (fun q hq => hx q (List.mem_cons_of_mem _ hq))
      refine ⟨hrest.sound, hrest.evolves, ?_⟩
      -- the parameters after `p` take no binding away, so `p` stays bound
      have hends := hrest.ends
      have hkept := hrest.evolves.scopes.kept
      cases hr : plain (bindParams env ps vs) w' with
      | ok a w'' =>
        rw [hr] at hends hkept
        intro q hq
        rcases List.mem_cons.mp hq with rfl | hq
        · exact hkept _ _ hb
        · exact hends q hq
      | error f w'' =>
        rw [hr] at hends
        exact hends

/-! ## New scopes and closures -/

/-- Creating a scope inside another one. -/
theorem ensures_enter {parent : ScopeId} {plan : List String} (h : w.Sound sheltered)
    (hparent : parent < w.machine.scopes.all.size) :
    Ensures sheltered Scopes.noGain w (enter parent plan w) fun i w' =>
      i = w.machine.scopes.all.size ∧ w'.plans i = plan ∧
        (∃ hlt, w'.machine.scopes.parent? i = some ⟨parent, hlt⟩) ∧
        ∀ x, ¬ w'.machine.scopes.Binds i x := by
  -- what is bound after the step was bound before, so in an older scope
  have hold : ∀ {j x}, (w.machine.scopes.create (some parent)).2.Binds j x →
      w.machine.scopes.Binds j x := by
    intro j x hb
    rw [Scopes.Binds, Scopes.own?_create] at hb
    exact hb
  have he : w.Evolves Scopes.noGain (watchedAfter (enter parent plan w)) := by
    refine ⟨.of_create _ _, Nat.le_refl _, fun _ _ => rfl, ?_⟩
    intro j hj
    exact if_neg (Nat.ne_of_lt hj)
  refine ⟨h.evolve he ?_ ?_ fun _ => Or.inl, he, rfl, if_pos rfl,
    ⟨hparent, Scopes.parent?_create_self hparent⟩, ?_⟩
  · intro j x v hv
    exact Or.inl ((Scopes.own?_create _ _ j x).symm.trans hv)
  · intro j x hj hb
    have hb' := hold hb
    rw [he.plans j (Scopes.lt_size_of_binds hb')]
    exact h.planned j x hj hb'
  · intro x hb
    exact absurd (Scopes.lt_size_of_binds (hold hb)) (Nat.lt_irrefl _)

/-- Numbering a closure. -/
theorem ensures_nextSerial {frames : Frames} (h : w.Sound sheltered) :
    Ensures sheltered gains w (nextSerial frames w) fun n w' =>
      n < w'.machine.closures ∧ w'.origins n = frames ∧ w'.plans = w.plans ∧
        w'.machine.scopes = w.machine.scopes := by
  have he : w.Evolves gains (watchedAfter (nextSerial frames w)) := by
    refine ⟨.refl _, Nat.le_succ _, ?_, fun _ _ => rfl⟩
    intro n hn
    exact if_neg (Nat.ne_of_lt hn)
  exact ⟨h.evolve he (fun _ _ _ => Or.inl) h.planned fun _ => Or.inl, he,
    Nat.lt_succ_self _, if_pos rfl, rfl, rfl⟩

end Watch

end RadixScript
