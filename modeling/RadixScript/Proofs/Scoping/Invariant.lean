import RadixScript.Proofs.Scoping.Frames
import RadixScript.Proofs.Scoping.Inert

/-!
# The invariant of watched runs

What holds between the steps of a watched run (`Watched.Sound`), and how one state can follow from
another (`Watched.Evolves`).

The heart of the invariant is about closures. A closure outlives the run of the block it was
declared in, so it has to bring along all that is needed to run its body: the frames around its
declaration still fit to the scopes, and the body is what resolution made of some statements, given
the names declared in these frames.

Everything is stated for a parameter `sheltered`. When it holds, the functions are sheltered from
what is declared later, and then the scopes hold nothing that could be taken for the declaration of
a name that a body mentions.
-/

namespace RadixScript

variable {α β : Type} {sheltered : Prop} {gains : ScopeId → String → Prop} {w w' w'' : Watched}

/-! ## Evolution -/

/-- The scopes grow, and what is recorded about the closures and scopes that are there stays. -/
structure Watched.Evolves (gains : ScopeId → String → Prop) (w w' : Watched) : Prop where
  scopes : w.machine.scopes.Grows gains w'.machine.scopes
  closures : w.machine.closures ≤ w'.machine.closures
  origins : ∀ n < w.machine.closures, w'.origins n = w.origins n
  plans : ∀ i < w.machine.scopes.all.size, w'.plans i = w.plans i

namespace Watched.Evolves

theorem refl (w : Watched) : w.Evolves gains w where
  scopes := .refl _
  closures := Nat.le_refl _
  origins := fun _ _ => rfl
  plans := fun _ _ => rfl

theorem trans (h : w.Evolves gains w') (h' : w'.Evolves gains w'') : w.Evolves gains w'' where
  scopes := h.scopes.trans h'.scopes
  closures := Nat.le_trans h.closures h'.closures
  origins := fun n hn => by
    rw [h'.origins n (Nat.lt_of_lt_of_le hn h.closures), h.origins n hn]
  plans := fun i hi => by
    rw [h'.plans i (Nat.lt_of_lt_of_le hi h.scopes.size), h.plans i hi]

theorem of_noGain (h : w.Evolves Scopes.noGain w') : w.Evolves gains w' :=
  { h with scopes := h.scopes.of_noGain }

theorem forget {xs : List String}
    (h : w.Evolves (Scopes.gainIn w.machine.scopes.all.size xs) w') : w.Evolves Scopes.noGain w' :=
  { h with scopes := h.scopes.forget }

/-- What is planned for the scopes of frames stays. -/
theorem plans_eq (h : w.Evolves gains w') {frames : Frames} (hl : frames.Linked w.machine.scopes) :
    ∀ frame ∈ frames, w'.plans frame.scope = w.plans frame.scope :=
  fun frame hf => h.plans _ (hl.scope_lt frame hf)

end Watched.Evolves

/-! ## Closures -/

/-- The statements that a function is made of, if its declaration is in the given frames. -/
structure Closure.IsMadeOf (sheltered : Prop) (f : Closure) (frames : Frames)
    (source : List (Stmt Unit)) : Prop where
  body : f.body = Stmt.resolveAll (f.params.map Token.text :: frames.locals) source
  grammatical : Stmt.AllGrammatical source
  shelter : sheltered → Stmt.AllSheltered ([] :: frames.laters) source
  avoids : sheltered → ∀ x ∈ Stmt.allMentions source, ∀ frame ∈ frames, x ∉ frame.later

/-- The closure has all that is needed to run its body. -/
structure Closure.Rooted (sheltered : Prop) (w : Watched) (f : Closure) : Prop where
  serial : f.serial < w.machine.closures
  env : (w.origins f.serial).env = f.scope
  linked : (w.origins f.serial).Linked w.machine.scopes
  foreseen : (w.origins f.serial).Foreseen w.plans
  source : ∃ source, f.IsMadeOf sheltered (w.origins f.serial) source

theorem Closure.Rooted.evolve {f : Closure} (h : f.Rooted sheltered w) (he : w.Evolves gains w') :
    f.Rooted sheltered w' := by
  have ho : w'.origins f.serial = w.origins f.serial := he.origins _ h.serial
  constructor
  · exact Nat.lt_of_lt_of_le h.serial he.closures
  · rw [ho]; exact h.env
  · rw [ho]; exact h.linked.grow he.scopes
  · rw [ho]; exact h.foreseen.congr (he.plans_eq h.linked)
  · rw [ho]; exact h.source

/-- The value is one of the language, and if it is a closure, it has all that is needed to run its
body. -/
def Value.Rooted (sheltered : Prop) (w : Watched) : Value → Prop
  | .closure f => f.Rooted sheltered w
  | .foreign _ => False
  | _ => True

theorem Value.Rooted.evolve {v : Value} (h : v.Rooted sheltered w) (he : w.Evolves gains w') :
    v.Rooted sheltered w' := by
  cases v
  case closure f => exact Closure.Rooted.evolve h he
  all_goals trivial

theorem Value.IsInert.rooted {v : Value} (h : v.IsInert) : v.Rooted sheltered w := by
  cases v
  case closure f => exact h.elim
  all_goals trivial

/-! ## Visits -/

/-- The tag is what resolution finds in the names declared in the frames, the frames fit to the
scopes, and the name is clear if it has to be. -/
structure Visit.Right (sheltered : Prop) (v : Visit) : Prop where
  tag : v.tag = v.frames.locals.distance? v.name.text
  linked : v.frames.Linked v.machine.scopes
  clear : sheltered → v.frames.Clear v.machine.scopes v.name.text

/-- A tag leads to the scope of the innermost frame that declares the name, where it is bound. -/
theorem Visit.Right.exists_frame {v : Visit} (h : v.Right sheltered) {d : Nat}
    (hd : v.tag = some d) :
    ∃ frame a, v.frames[d]? = some frame ∧ v.name.text ∈ frame.names ∧
      (∀ inner ∈ v.frames.take d, v.name.text ∉ inner.names) ∧
      v.machine.scopes.ancestor? v.env d = some frame.scope ∧
      v.machine.scopes.own? frame.scope v.name.text = some a := by
  obtain ⟨frame, hf, hx, hinner⟩ := Frames.exists_frame_of_distance? (h.tag.symm.trans hd)
  have hb : v.machine.scopes.Binds frame.scope v.name.text :=
    h.linked.binds (List.mem_of_getElem? hf) hx
  obtain ⟨a, ha⟩ := Option.isSome_iff_exists.mp hb
  exact ⟨frame, a, hf, hx, hinner, h.linked.ancestor?_eq hf, ha⟩

/-! ## The invariant -/

/-- The invariant of watched runs. -/
structure Watched.Sound (sheltered : Prop) (w : Watched) : Prop where
  globals : 0 < w.machine.scopes.all.size
  values : ∀ i x v, w.machine.scopes.own? i x = some v → v.Rooted sheltered w
  planned : ∀ i x, i ≠ globalScope → w.machine.scopes.Binds i x → x ∈ w.plans i
  visits : ∀ v ∈ w.visits, v.Right sheltered

/-- The invariant holds on, if it holds for what is new. -/
theorem Watched.Sound.evolve (h : w.Sound sheltered) (he : w.Evolves gains w')
    (hvalues : ∀ i x v, w'.machine.scopes.own? i x = some v →
      w.machine.scopes.own? i x = some v ∨ v.Rooted sheltered w')
    (hplanned : ∀ i x, i ≠ globalScope → w'.machine.scopes.Binds i x → x ∈ w'.plans i)
    (hvisits : ∀ v ∈ w'.visits, v ∈ w.visits ∨ v.Right sheltered) : w'.Sound sheltered where
  globals := Nat.lt_of_lt_of_le h.globals he.scopes.size
  values := by
    intro i x v hv
    rcases hvalues i x v hv with hv | hv
    · exact (h.values i x v hv).evolve he
    · exact hv
  planned := hplanned
  visits := fun v hv => (hvisits v hv).elim (h.visits v) id

/-- The value of a name that can be seen has all that it needs. -/
theorem Watched.Sound.rooted_of_get? (h : w.Sound sheltered) {i : ScopeId} {x : String} {v : Value}
    (hv : w.machine.scopes.get? i x = some v) : v.Rooted sheltered w := by
  rw [Scopes.get?_eq_owner?] at hv
  obtain ⟨o, _, ho⟩ := Option.bind_eq_some_iff.mp hv
  exact h.values o x v ho

/-! ## What a run ensures -/

/-- The result is as required, or the run stops, but not because a chain of scopes is too short. -/
def Watch.EndsWith (post : α → Watched → Prop) : EStateM.Result Fault Watched α → Prop
  | .ok a w => post a w
  | .error f _ => f.IsInert

/-- From a state `w` a watched run comes to a sound state that evolves from it, and ends as
required. -/
structure Watch.Ensures (sheltered : Prop) (gains : ScopeId → String → Prop) (w : Watched)
    (r : EStateM.Result Fault Watched α) (post : α → Watched → Prop) : Prop where
  sound : (watchedAfter r).Sound sheltered
  evolves : w.Evolves gains (watchedAfter r)
  ends : EndsWith post r

namespace Watch

variable {r : EStateM.Result Fault Watched α} {post : α → Watched → Prop}

theorem ensures_pure {a : α} (h : w.Sound sheltered) (hp : post a w) :
    Ensures sheltered gains w ((pure a : Watch α) w) post :=
  ⟨h, .refl w, hp⟩

theorem ensures_throw {f : Fault} (h : w.Sound sheltered) (hf : f.IsInert) :
    Ensures sheltered gains w ((throw f : Watch α) w) post :=
  ⟨h, .refl w, hf⟩

theorem ensures_bind {x : Watch α} {f : α → Watch β} {mid : α → Watched → Prop}
    {post : β → Watched → Prop} (hx : Ensures sheltered gains w (x w) mid)
    (hf : ∀ a w', w'.Sound sheltered → w.Evolves gains w' → mid a w' →
      Ensures sheltered gains w' (f a w') post) :
    Ensures sheltered gains w ((x >>= f) w) post := by
  simp only [bind, EStateM.bind]
  cases hr : x w with
  | ok a w' =>
    rw [hr] at hx
    have h := hf a w' hx.sound hx.evolves hx.ends
    exact ⟨h.sound, hx.evolves.trans h.evolves, h.ends⟩
  | error e w' =>
    rw [hr] at hx
    exact ⟨hx.sound, hx.evolves, hx.ends⟩

theorem Ensures.of_noGain (h : Ensures sheltered Scopes.noGain w r post) :
    Ensures sheltered gains w r post :=
  { h with evolves := h.evolves.of_noGain }

theorem Ensures.weaken {gains' : ScopeId → String → Prop} (h : Ensures sheltered gains w r post)
    (hg : ∀ i x, gains i x → gains' i x) : Ensures sheltered gains' w r post :=
  { h with evolves := { h.evolves with scopes := h.evolves.scopes.weaken fun i _ x => hg i x } }

theorem Ensures.forget (xs : List String)
    (h : Ensures sheltered (Scopes.gainIn w.machine.scopes.all.size xs) w r post) :
    Ensures sheltered Scopes.noGain w r post :=
  { h with evolves := h.evolves.forget }

/-- The result knows how the state has evolved. -/
theorem Ensures.evolved (h : Ensures sheltered gains w r post) :
    Ensures sheltered gains w r fun a w' => post a w' ∧ w.Evolves gains w' := by
  refine ⟨h.sound, h.evolves, ?_⟩
  cases r with
  | ok a w' => exact ⟨h.ends, h.evolves⟩
  | error f w' => exact h.ends

theorem Ensures.imp {post' : α → Watched → Prop} (h : Ensures sheltered gains w r post)
    (hp : ∀ a w', post a w' → post' a w') : Ensures sheltered gains w r post' := by
  refine ⟨h.sound, h.evolves, ?_⟩
  cases r with
  | ok a w' => exact hp a w' h.ends
  | error f w' => exact h.ends

theorem ensures_located {t : Token} {x : Watch α} (h : Ensures sheltered gains w (x w) post) :
    Ensures sheltered gains w (located t x w) post := by
  rw [located]
  cases hr : x w with
  | ok a w' =>
    rw [hr] at h
    exact h
  | error f w' =>
    rw [hr] at h
    refine ⟨h.sound, h.evolves, ?_⟩
    -- what kind of fault it is does not depend on its token
    have hf : f.IsInert := h.ends
    cases f <;> exact hf

/-! ## Steps -/

/-- A run that leaves the scopes alone. -/
theorem ensures_inert {x : Run Value} (hx : x.Inert) (h : w.Sound sheltered) :
    Ensures sheltered Scopes.noGain w (plain x w) fun v w' => v.Rooted sheltered w' := by
  obtain ⟨hscopes, hclosures, hend⟩ := hx w.machine
  rw [plain]
  -- the same scopes and closures, whatever else has changed in the machine
  have key : ∀ m : Machine, m.scopes = w.machine.scopes → m.closures = w.machine.closures →
      Watched.Sound sheltered { w with machine := m } ∧
        w.Evolves Scopes.noGain { w with machine := m } := by
    intro m hs hc
    have he : w.Evolves Scopes.noGain { w with machine := m } := by
      constructor
      · rw [show ({ w with machine := m } : Watched).machine.scopes = w.machine.scopes from hs]
        exact .refl _
      · exact Nat.le_of_eq hc.symm
      · exact fun _ _ => rfl
      · exact fun _ _ => rfl
    refine ⟨h.evolve he ?_ ?_ fun _ => Or.inl, he⟩
    · intro i x v hv
      exact Or.inl (hs ▸ hv)
    · intro i x hi hb
      exact h.planned i x hi (hs ▸ hb)
  cases hr : x w.machine with
  | ok v m =>
    rw [hr] at hscopes hclosures hend
    obtain ⟨hsound, he⟩ := key m hscopes hclosures
    exact ⟨hsound, he, hend.rooted⟩
  | error f m =>
    rw [hr] at hscopes hclosures hend
    obtain ⟨hsound, he⟩ := key m hscopes hclosures
    exact ⟨hsound, he, hend⟩

end Watch

end RadixScript
