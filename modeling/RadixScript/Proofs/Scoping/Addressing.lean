import RadixScript.Proofs.Scoping.Sessions

/-!
# Tags lead to the right scope

Resolution counts scopes on the tree, and a run counts scopes in the machine. That the two counts
meet is the reason why a tag can be used as an address: whenever a run comes to a name with a tag,
the scope at that distance exists, it is the one that was created for the block or call whose frame
declares the name, and the name is bound in it (`outcomes_addressed`).
-/

namespace RadixScript

/-- The tag of the use, if there is one, leads to the scope of a frame. Resolution has found this
frame: it declares the name, and no frame further in does. The name can be read and assigned to in
the scope. -/
def Visit.Addressed (v : Visit) : Prop :=
  v.tag = v.frames.locals.distance? v.name.text ∧
    ∀ d, v.tag = some d → ∃ frame, v.frames[d]? = some frame ∧ v.name.text ∈ frame.names ∧
      (∀ inner ∈ v.frames.take d, v.name.text ∉ inner.names) ∧
      v.machine.scopes.ancestor v.env d = .ok frame.scope ∧
      (∃ a, v.machine.scopes.own? frame.scope v.name.text = some a ∧
        v.machine.scopes.getAt v.env d (.ofToken v.name) = .ok a) ∧
      v.machine.scopes.assigneeAt v.env d (.ofToken v.name) = .ok frame.scope

theorem Visit.Right.addressed {sheltered : Prop} {v : Visit} (h : v.Right sheltered) :
    v.Addressed := by
  refine ⟨h.tag, ?_⟩
  intro d hd
  obtain ⟨frame, a, hf, hx, hinner, ha, hv⟩ := h.exists_frame hd
  exact ⟨frame, hf, hx, hinner, Scopes.ancestor_eq_ok ha, ⟨a, hv, Scopes.getAt_eq_ok ha hv⟩,
    Scopes.assigneeAt_eq_ok ha hv⟩

/-- **Tags lead to the right scope, in every session.** Take a session of any texts, some of which
may be rejected or may fail half-way, and watch it. Then

* watching has no influence on it;
* the record has every use of a name: the session ends alike, if names are found in another way
  that has the same result at every use in the record;
* every use of a name in the record is addressed by its tag;
* no run stops because a chain of scopes is too short. -/
theorem outcomes_addressed (console : Console) (steps : List (Nat × String)) :
    let watched := outcomes Watched.run steps (.initial console)
    outcomes Session.run steps (.initial console) = (watched.1, watched.2.machine) ∧
      (∀ names : Names, (∀ v ∈ watched.2.visits, v.Agrees names) →
        outcomes (Session.runWith names) steps (.initial console) =
          outcomes Session.run steps (.initial console)) ∧
      (∀ v ∈ watched.2.visits, v.Addressed) ∧
      ∀ d, .error (.fault (.shortChain d)) ∉ (outcomes Session.run steps (.initial console)).1 := by
  intro watched
  have hrun : outcomes Session.run steps (.initial console) = (watched.1, watched.2.machine) :=
    outcomes_run_eq steps (.initial console)
  -- no text has to be sheltered here
  have hs : ∀ step ∈ steps, SourceSheltered False step.2 := fun _ _ => False.elim
  obtain ⟨hsound, hchain⟩ := Watched.outcomes_sound (Watched.initial_sound console) hs
  refine ⟨hrun, ?_, fun v hv => (hsound.visits v hv).addressed, ?_⟩
  · intro names ha
    exact (outcomes_eq_of_agrees steps (.initial console) ha).trans hrun.symm
  · rw [hrun]
    exact hchain

end RadixScript
