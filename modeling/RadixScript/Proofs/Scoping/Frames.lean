import RadixScript.Proofs.Scoping.Growth
import RadixScript.Proofs.Scoping.Mirror
import RadixScript.Proofs.Scoping.Sheltered

/-!
# Frames and scopes

How the frames around a place fit to the scopes of the machine.

* `Frames.Linked`: the scopes of the frames are the chain of scopes from the place outwards, and
  what is declared in a frame is bound in its scope.
* `Frames.Clear`: of one name nothing more is bound in the scopes than what is declared.
* `Frames.Planned` and `Frames.Foreseen`: what the scope of a frame can come to bind is declared in
  the frame, or still to be declared by the statements that follow.

Each of them is kept when the scopes grow, and when the run goes on to the next statement.
-/

namespace RadixScript.Frames

variable {s s' : Scopes} {gains : ScopeId → String → Prop} {plans plans' : ScopeId → List String}
  {frames : Frames} {x : String} {xs rest later : List String}

/-! ## Parts of frames -/

theorem declareAll_nil (xs : List String) : declareAll [] xs = [] := by
  induction xs with
  | nil => rfl
  | cons x xs ih => exact ih

theorem declareAll_cons (frame : Frame) (outer : Frames) (xs : List String) :
    declareAll (frame :: outer) xs =
      { frame with names := xs.reverse ++ frame.names } :: outer := by
  induction xs generalizing frame with
  | nil => rfl
  | cons x xs ih =>
    have h := ih { frame with names := x :: frame.names }
    rw [declareAll, List.foldl_cons, List.reverse_cons, List.append_assoc]
    exact h

@[simp] theorem locals_before (frames : Frames) (later : List String) :
    (frames.before later).locals = frames.locals := by
  cases frames <;> rfl

theorem locals_declare (frames : Frames) (name : String) :
    (frames.declare name).locals = frames.locals.declare name := by
  cases frames <;> rfl

@[simp] theorem locals_declareAll (frames : Frames) (xs : List String) :
    (frames.declareAll xs).locals = frames.locals.declareAll xs := by
  induction xs generalizing frames with
  | nil => rfl
  | cons x xs ih =>
    have h := ih (frames.declare x)
    rw [locals_declare] at h
    exact h

@[simp] theorem laters_before (frames : Frames) (later : List String) :
    (frames.before later).laters = frames.laters.before later := by
  cases frames <;> rfl

@[simp] theorem laters_declare (frames : Frames) (name : String) :
    (frames.declare name).laters = frames.laters := by
  cases frames <;> rfl

@[simp] theorem laters_declareAll (frames : Frames) (xs : List String) :
    (frames.declareAll xs).laters = frames.laters := by
  induction xs generalizing frames with
  | nil => rfl
  | cons x xs ih => exact (ih (frames.declare x)).trans (laters_declare frames x)

/-! ## Linked frames -/

/-- The scopes of the frames are a chain that ends at the globals, and bind what is declared. -/
def Linked (s : Scopes) : Frames → Prop
  | [] => True
  | frame :: outer =>
    (∃ h, s.parent? frame.scope = some ⟨env outer, h⟩) ∧
      (∀ x ∈ frame.names, s.Binds frame.scope x) ∧ Linked s outer

@[simp] theorem linked_before : (frames.before later).Linked s ↔ frames.Linked s := by
  cases frames <;> exact Iff.rfl

theorem Linked.scope_lt (h : frames.Linked s) : ∀ frame ∈ frames, frame.scope < s.all.size := by
  induction frames with
  | nil => exact nofun
  | cons frame outer ih =>
    obtain ⟨⟨hp, hparent⟩, _, houter⟩ := h
    intro f hf
    rcases List.mem_cons.mp hf with rfl | hf
    · exact Scopes.lt_size_of_parent? hparent
    · exact ih houter f hf

theorem Linked.env_lt (h : frames.Linked s) (hs : 0 < s.all.size) : frames.env < s.all.size := by
  cases frames with
  | nil => exact hs
  | cons frame outer => exact h.scope_lt frame (List.mem_cons_self ..)

/-- Scopes further out are older. -/
theorem Linked.scope_le_env (h : frames.Linked s) : ∀ frame ∈ frames, frame.scope ≤ frames.env := by
  induction frames with
  | nil => exact nofun
  | cons frame outer ih =>
    obtain ⟨⟨hp, _⟩, _, houter⟩ := h
    intro f hf
    rcases List.mem_cons.mp hf with rfl | hf
    · exact Nat.le_refl _
    · exact Nat.le_of_lt (Nat.lt_of_le_of_lt (ih houter f hf) hp)

theorem Linked.scope_ne_global (h : frames.Linked s) :
    ∀ frame ∈ frames, frame.scope ≠ globalScope := by
  induction frames with
  | nil => exact nofun
  | cons frame outer ih =>
    obtain ⟨⟨hp, _⟩, _, houter⟩ := h
    intro f hf
    rcases List.mem_cons.mp hf with rfl | hf
    · exact Nat.ne_of_gt (Nat.lt_of_le_of_lt (Nat.zero_le _) hp)
    · exact ih houter f hf

theorem Linked.grow (h : frames.Linked s) (hg : s.Grows gains s') : frames.Linked s' := by
  induction frames with
  | nil => trivial
  | cons frame outer ih =>
    obtain ⟨⟨hp, hparent⟩, hnames, houter⟩ := h
    have hlt : frame.scope < s.all.size := Scopes.lt_size_of_parent? hparent
    refine ⟨⟨hp, ?_⟩, fun x hx => hg.kept _ x (hnames x hx), ih houter⟩
    rw [hg.parent _ hlt]
    exact hparent

theorem Linked.declareAll (h : frames.Linked s) (hxs : ∀ x ∈ xs, s.Binds frames.env x) :
    (frames.declareAll xs).Linked s := by
  cases frames with
  | nil =>
    rw [declareAll_nil]
    trivial
  | cons frame outer =>
    obtain ⟨hparent, hnames, houter⟩ := h
    rw [declareAll_cons]
    refine ⟨hparent, ?_, houter⟩
    intro x hx
    rcases List.mem_append.mp hx with hx | hx
    · exact hxs x (List.mem_reverse.mp hx)
    · exact hnames x hx

/-- The frame at a distance is the scope at that distance. -/
theorem Linked.ancestor?_eq (h : frames.Linked s) {d : Nat} {frame : Frame}
    (hd : frames[d]? = some frame) : s.ancestor? frames.env d = some frame.scope := by
  induction frames generalizing d with
  | nil => simp at hd
  | cons first outer ih =>
    obtain ⟨⟨hp, hparent⟩, _, houter⟩ := h
    cases d with
    | zero =>
      obtain rfl : first = frame := by simpa using hd
      rfl
    | succ d =>
      rw [List.getElem?_cons_succ] at hd
      show s.ancestor? first.scope (d + 1) = some frame.scope
      rw [Scopes.ancestor?, hparent]
      exact ih houter hd

theorem Linked.binds (h : frames.Linked s) {frame : Frame} (hf : frame ∈ frames)
    (hx : x ∈ frame.names) : s.Binds frame.scope x := by
  induction frames with
  | nil => cases hf
  | cons first outer ih =>
    rcases List.mem_cons.mp hf with rfl | hf
    · exact h.2.1 x hx
    · exact ih h.2.2 hf

/-! ## Distances -/

theorem distance?_cons (frame : Frame) (outer : Frames) (x : String) :
    (locals (frame :: outer)).distance? x =
      if x ∈ frame.names then some 0 else ((locals outer).distance? x).map (· + 1) := by
  simp only [locals, List.map_cons, LocalScopes.distance?, List.findIdx?_cons,
    List.contains_eq_mem, decide_eq_true_eq]

/-- A distance is that of the innermost frame that declares the name. -/
theorem exists_frame_of_distance? {d : Nat} (h : frames.locals.distance? x = some d) :
    ∃ frame, frames[d]? = some frame ∧ x ∈ frame.names ∧
      ∀ inner ∈ frames.take d, x ∉ inner.names := by
  induction frames generalizing d with
  | nil => cases h
  | cons first outer ih =>
    rw [distance?_cons] at h
    by_cases hx : x ∈ first.names
    · rw [if_pos hx] at h
      cases h
      exact ⟨first, rfl, hx, nofun⟩
    · rw [if_neg hx] at h
      obtain ⟨e, he, rfl⟩ := Option.map_eq_some_iff.mp h
      obtain ⟨frame, hf, hxf, hinner⟩ := ih he
      refine ⟨frame, hf, hxf, ?_⟩
      intro inner hi
      rcases List.mem_cons.mp hi with rfl | hi
      · exact hx
      · exact hinner inner hi

/-! ## Clear names -/

/-- A scope of the frames binds the name only where the name is declared. -/
def Clear (s : Scopes) (frames : Frames) (x : String) : Prop :=
  ∀ frame ∈ frames, s.Binds frame.scope x → x ∈ frame.names

@[simp] theorem clear_before : (frames.before later).Clear s x ↔ frames.Clear s x := by
  cases frames with
  | nil => exact Iff.rfl
  | cons frame outer => simp [Clear, before]

theorem Clear.grow (h : frames.Clear s x) (hl : frames.Linked s)
    (hg : s.Grows Scopes.noGain s') : frames.Clear s' x := by
  intro frame hf hb
  rcases hg.gained _ (hl.scope_lt frame hf) x hb with hb | hn
  · exact h frame hf hb
  · exact hn.elim

theorem Clear.enter (h : frames.Clear s x) {i : ScopeId} {names : List String}
    (hi : s.Binds i x → x ∈ names) : (frames.enter i names).Clear s x := by
  intro frame hf hb
  rcases List.mem_cons.mp hf with rfl | hf
  · exact hi hb
  · exact h frame hf hb

/-- A statement binds what it declares in the innermost scope, and nothing further out. -/
theorem Clear.declareAll (h : frames.Clear s x) (hl : frames.Linked s)
    (hg : s.Grows (Scopes.gainIn frames.env xs) s') : (frames.declareAll xs).Clear s' x := by
  cases frames with
  | nil =>
    rw [declareAll_nil]
    exact nofun
  | cons frame outer =>
    rw [declareAll_cons]
    obtain ⟨⟨hp, hparent⟩, _, houter⟩ := hl
    intro f hf hb
    rcases List.mem_cons.mp hf with rfl | hf
    · rcases hg.gained _ (Scopes.lt_size_of_parent? hparent) x hb with hb | ⟨_, hx⟩
      · exact List.mem_append_right _ (h frame (List.mem_cons_self ..) hb)
      · exact List.mem_append_left _ (List.mem_reverse.mpr hx)
    · rcases hg.gained _ (houter.scope_lt f hf) x hb with hb | ⟨he, _⟩
      · exact h f (List.mem_cons_of_mem _ hf) hb
      · -- an outer scope is older than the innermost one
        have hle := houter.scope_le_env f hf
        rw [he] at hle
        exact absurd (Nat.lt_of_lt_of_le hp hle) (Nat.lt_irrefl _)

/-! ## Planned names -/

/-- What is planned for the scope of a frame is declared in the frame or is declared later. -/
def Foreseen (plans : ScopeId → List String) (frames : Frames) : Prop :=
  ∀ frame ∈ frames, ∀ x ∈ plans frame.scope, x ∈ frame.names ∨ x ∈ frame.later

/-- What is planned for the innermost scope is what is declared and the rest, which is still to be
declared. -/
def Planned (plans : ScopeId → List String) : Frames → List String → Prop
  | [], _ => True
  | frame :: outer, rest =>
    (∀ x, x ∈ plans frame.scope ↔ x ∈ frame.names ∨ x ∈ rest) ∧ Foreseen plans outer

theorem Foreseen.congr (h : frames.Foreseen plans)
    (hp : ∀ frame ∈ frames, plans' frame.scope = plans frame.scope) : frames.Foreseen plans' := by
  intro frame hf x hx
  rw [hp frame hf] at hx
  exact h frame hf x hx

theorem Planned.congr (h : frames.Planned plans rest)
    (hp : ∀ frame ∈ frames, plans' frame.scope = plans frame.scope) :
    frames.Planned plans' rest := by
  cases frames with
  | nil => trivial
  | cons frame outer =>
    obtain ⟨hframe, houter⟩ := h
    refine ⟨?_, houter.congr fun f hf => hp f (List.mem_cons_of_mem _ hf)⟩
    rw [hp frame (List.mem_cons_self ..)]
    exact hframe

/-- At a statement that declares nothing. -/
theorem Planned.foreseen_before (h : frames.Planned plans later) :
    (frames.before later).Foreseen plans := by
  cases frames with
  | nil => exact nofun
  | cons frame outer =>
    obtain ⟨hframe, houter⟩ := h
    intro f hf x hx
    rcases List.mem_cons.mp hf with rfl | hf
    · exact (hframe x).mp hx
    · exact houter f hf x hx

theorem Planned.declareAll (h : frames.Planned plans (xs ++ rest)) :
    (frames.declareAll xs).Planned plans rest := by
  cases frames with
  | nil =>
    rw [declareAll_nil]
    trivial
  | cons frame outer =>
    obtain ⟨hframe, houter⟩ := h
    rw [declareAll_cons]
    refine ⟨fun x => (hframe x).trans ?_, houter⟩
    simp only [List.mem_append, List.mem_reverse]
    exact or_left_comm.trans or_assoc.symm

/-- At the declaration of a function, which knows its own name. -/
theorem Planned.foreseen_declare (h : frames.Planned plans (x :: later)) :
    ((frames.before later).declare x).Foreseen plans := by
  have hx : frames.Planned plans ([x] ++ later) := h
  have hb := hx.declareAll.foreseen_before
  cases frames with
  | nil => exact nofun
  | cons frame outer => exact hb

theorem Planned.mem (h : frames.Planned plans (xs ++ rest)) (he : frames.env ≠ globalScope)
    (hx : x ∈ xs) : x ∈ plans frames.env := by
  cases frames with
  | nil => exact absurd rfl he
  | cons frame outer => exact (h.1 x).mpr (Or.inr (List.mem_append_left _ hx))

end RadixScript.Frames
