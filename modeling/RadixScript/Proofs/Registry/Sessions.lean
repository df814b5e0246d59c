import RadixScript.Proofs.Pieces.Tokens
import RadixScript.Proofs.Registry.Keys
import RadixScript.Proofs.Scoping.Nearest

/-!
# Sessions with a table of distances

A session may keep the distances of names apart from the trees. Then it has, besides the machine,

* the trees of texts that it has read before, so that a text is not parsed again; and
* a table with the distances, under the keys of the trees. The resolver writes into it while it
  walks over a tree, so distances are left behind by texts that are rejected in the end.

Seen through its table, such a session is a plain one (`Registry.outcomes_view`). For no key is used
by two trees, and the functions of the machine have keys of trees that were run (`Registry.Sound`).
So what a rejected text leaves behind is never asked for: it is as if there had been no such text
(`run_rejected`).
-/

namespace RadixScript

/-! ## The session -/

/-- A session that keeps trees and distances apart. In its trees, and in the functions of its
machine, the uses of names carry keys. -/
structure Registry where
  machine : Machine
  /-- The distances that have been registered. -/
  depths : Nat → Option Nat
  /-- Texts and their trees, last used first. -/
  cache : List (String × Program Nat)
  /-- The first key that no tree has yet. -/
  fresh : Nat

namespace Registry

/-- A new session. -/
def initial (console : Console) : Registry := ⟨.initial console, fun _ => none, [], 0⟩

/-- The tree of a text. If there is none yet, the text is parsed, and of all trees those remain that
were used last. -/
def load (capacity : Nat) (source : String) (s : Registry) :
    Except Rejection (Program Nat) × Registry :=
  match s.cache.find? fun entry => entry.1 = source with
  | some entry =>
    (.ok entry.2, { s with cache := entry :: s.cache.eraseP fun entry => entry.1 = source })
  | none =>
    match parseSource source with
    | .error r => (.error r, s)
    | .ok p =>
      let q := Stmt.numberAll s.fresh p
      (.ok q, { s with
        cache := ((source, q) :: s.cache).take capacity
        fresh := s.fresh + (Stmt.allKeys p).length })

/-- The tree of a text, after the resolver has walked over it. What the resolver has registered
stays in the table, also if there are misplaced returns. -/
def compile (capacity : Nat) (source : String) : EStateM Failure Registry (Program Nat) := fun s =>
  match s.load capacity source with
  | (.error r, s) => .error (.rejected r) s
  | (.ok q, s) =>
    let walk := q.register
    let s := { s with depths := record s.depths walk.registrations }
    match walk.problems with
    | [] => .ok q s
    | d :: ds => .error (.rejected (.diagnostics (d :: ds))) s

/-- Names are found by what the table has for their keys. -/
def names (s : Registry) : Names := .through fun key => key.bind s.depths

/-- Compiles a text and runs it. -/
def run (capacity depth : Nat) (source : String) : EStateM Failure Registry Unit := fun s =>
  match compile capacity source s with
  | .error f s => .error f s
  | .ok q s =>
    match Stmt.execAll s.names (Caller.ofDepth s.names depth) globalScope (Stmt.mapAll some q)
        s.machine with
    | .ok _ m => .ok () { s with machine := m }
    | .error f m => .error (.fault f) { s with machine := m }

/-- The machine with distances in place of the keys. -/
def view (s : Registry) : Machine := s.machine.recast (Stmt.mapAll fun key => key.bind s.depths)

/-! ## Keys and their trees -/

/-- The key, if it is less than `n`. -/
def below (n : Nat) (key : Option Nat) : Option Nat := key.filter (· < n)

/-- The text has the tree, with keys that are in use and with its distances in the table. -/
structure Has (s : Registry) (source : String) (q : Program Nat) : Prop where
  parsed : parseSource source = .ok (Stmt.mapAll untag q)
  nodup : (Stmt.allKeys q).Nodup
  below : ∀ key ∈ Stmt.allKeys q, key < s.fresh
  depths : ∀ tag ∈ Stmt.allTags [] q, s.depths tag.1 = tag.2

/-- There is nothing in the table for keys that are not in use, the trees that are kept are those of
their texts, and all keys of the machine are in use. -/
structure Sound (s : Registry) : Prop where
  unused : ∀ key, s.fresh ≤ key → s.depths key = none
  cached : ∀ entry ∈ s.cache, s.Has entry.1 entry.2
  machine : s.machine.recast (Stmt.mapAll (below s.fresh)) = s.machine

/-- The second session has the same machine, and more keys in use. -/
structure Extends (s s' : Registry) : Prop where
  machine : s'.machine = s.machine
  fresh : s.fresh ≤ s'.fresh
  depths : ∀ key < s.fresh, s'.depths key = s.depths key

variable {s s' : Registry} {source : String} {q : Program Nat} {capacity : Nat}

theorem Has.mono (h : s.Has source q) (hs : s.Extends s') : s'.Has source q where
  parsed := h.parsed
  nodup := h.nodup
  below := fun key hkey => Nat.lt_of_lt_of_le (h.below key hkey) hs.fresh
  depths := by
    intro tag htag
    have hkey : tag.1 ∈ Stmt.allKeys q := by
      rw [← Stmt.map_fst_allTags q []]
      exact List.mem_map_of_mem htag
    rw [hs.depths _ (h.below _ hkey)]
    exact h.depths tag htag

/-- Of a machine whose keys are in use, other tables show the same if they agree on these keys. -/
theorem recast_congr {n : Nat} {m : Machine} (hm : m.recast (Stmt.mapAll (below n)) = m)
    {f g : Option Nat → Option Nat} (h : ∀ key, f (below n key) = g (below n key)) :
    m.recast (Stmt.mapAll f) = m.recast (Stmt.mapAll g) := by
  have hbelow : ∀ f : Option Nat → Option Nat,
      m.recast (Stmt.mapAll f) = m.recast (Stmt.mapAll fun key => f (below n key)) := by
    intro f
    rw [← hm, Machine.recast_recast, hm]
    simp only [Stmt.mapAll_mapAll]
  rw [hbelow f, hbelow g, funext h]

theorem below_of_lt {n k : Nat} (h : k < n) : below n (some k) = some k := by
  simp [below, h]

theorem below_of_le {n k : Nat} (h : n ≤ k) : below n (some k) = none := by
  simp [below, h]

theorem below_cases (n : Nat) (key : Option Nat) :
    below n key = none ∨ ∃ k < n, below n key = some k := by
  cases key with
  | none => exact .inl rfl
  | some k =>
    rcases Nat.lt_or_ge k n with hk | hk
    · exact .inr ⟨k, hk, below_of_lt hk⟩
    · exact .inl (below_of_le hk)

/-- The functions of the machine keep what their keys stand for. -/
theorem Extends.view_eq (h : s.Extends s') (hs : s.Sound) : s'.view = s.view := by
  rw [view, view, h.machine]
  refine recast_congr hs.machine fun key => ?_
  rcases below_cases s.fresh key with hk | ⟨k, hk, heq⟩
  · rw [hk]
    rfl
  · rw [heq]
    exact h.depths k hk

theorem Extends.machine_below (h : s.Extends s') (hs : s.Sound) :
    s'.machine.recast (Stmt.mapAll (below s'.fresh)) = s'.machine := by
  rw [h.machine]
  refine Eq.trans (recast_congr hs.machine fun key => ?_) hs.machine
  rcases below_cases s.fresh key with hk | ⟨k, hk, heq⟩
  · rw [hk]
    rfl
  · rw [heq, below_of_lt hk, below_of_lt (Nat.lt_of_lt_of_le hk h.fresh)]

/-! ## Compilation -/

/-- What is in the table already is registered again without a change. -/
theorem record_eq_self {depths : Nat → Option Nat} {tags : List (Nat × Option Nat)}
    (hnodup : (tags.map Prod.fst).Nodup) (h : ∀ tag ∈ tags, depths tag.1 = tag.2) :
    record depths (found tags) = depths := by
  funext key
  by_cases hkey : key ∈ tags.map Prod.fst
  · obtain ⟨tag, htag, rfl⟩ := List.mem_map.mp hkey
    rw [record_found hnodup (fun tag htag => .inr (h tag htag)) tag htag, h tag htag]
  · exact record_of_notMem fun hc => hkey ((map_fst_found_sublist tags).subset hc)

/-- What holds of a session, except that other trees are kept. -/
theorem Sound.setCache (hs : s.Sound) {cache : List (String × Program Nat)}
    (h : ∀ entry ∈ cache, s.Has entry.1 entry.2) : Sound { s with cache := cache } :=
  ⟨hs.unused, fun entry hentry => { h entry hentry with }, hs.machine⟩

/-- What holds of a session, except that it has another machine with keys that are in use. -/
theorem Sound.setMachine (hs : s.Sound) {m : Machine}
    (h : m.recast (Stmt.mapAll (below s.fresh)) = m) : Sound { s with machine := m } :=
  ⟨hs.unused, fun entry hentry => { hs.cached entry hentry with }, h⟩

/-- A tree that is kept has been walked over before, so the table does not change. -/
theorem sound_cached (hs : s.Sound) (hq : s.Has source q) {cache : List (String × Program Nat)}
    (hcache : ∀ entry ∈ cache, s.Has entry.1 entry.2) :
    let s' := { s with cache := cache, depths := record s.depths q.register.registrations }
    s'.Sound ∧ s.Extends s' ∧ s'.Has source q := by
  have hnodup := hq.nodup
  rw [← Stmt.map_fst_allTags q []] at hnodup
  rw [Program.register_eq, record_eq_self hnodup hq.depths]
  exact ⟨hs.setCache hcache, ⟨rfl, Nat.le_refl _, fun _ _ => rfl⟩, { hq with }⟩

/-- A new tree has new keys, for which there was nothing in the table. -/
theorem sound_parsed (hs : s.Sound) {p : Program Unit} (hp : parseSource source = .ok p)
    (capacity : Nat) :
    let q := Stmt.numberAll s.fresh p
    let s' : Registry :=
      { machine := s.machine
        depths := record s.depths (Program.register q).registrations
        cache := ((source, q) :: s.cache).take capacity
        fresh := s.fresh + (Stmt.allKeys p).length }
    s'.Sound ∧ s.Extends s' ∧ s'.Has source q := by
  intro q s'
  have hkeys : Stmt.allKeys q = List.range' s.fresh (Stmt.allKeys p).length :=
    Stmt.allKeys_numberAll s.fresh p
  have hnodup : (Stmt.allKeys q).Nodup := hkeys ▸ List.nodup_range'
  have htags : (Stmt.allTags [] q).map Prod.fst = Stmt.allKeys q := Stmt.map_fst_allTags q []
  have hmem : ∀ key, key ∈ Stmt.allKeys q ↔
      s.fresh ≤ key ∧ key < s.fresh + (Stmt.allKeys p).length := by
    intro key
    rw [hkeys, List.mem_range'_1]
  have hdepths : s'.depths = record s.depths (found (Stmt.allTags [] q)) := by
    show record s.depths (Program.register q).registrations = _
    rw [Program.register_eq]
  -- the walk writes only under the keys of the new tree
  have hother : ∀ key, key ∉ Stmt.allKeys q → s'.depths key = s.depths key := by
    intro key hkey
    rw [hdepths]
    exact record_of_notMem fun hc => hkey (htags ▸ (map_fst_found_sublist _).subset hc)
  have hextends : s.Extends s' := by
    refine ⟨rfl, Nat.le_add_right _ _, fun key hkey => hother key fun hc => ?_⟩
    exact Nat.not_le_of_lt hkey ((hmem key).mp hc).1
  have hhas : s'.Has source q := by
    refine ⟨?_, hnodup, fun key hkey => ((hmem key).mp hkey).2, ?_⟩
    · rw [hp, Stmt.untag_numberAll]
    · rw [hdepths]
      refine record_found (htags ▸ hnodup) fun tag htag => .inl (hs.unused _ ?_)
      exact ((hmem _).mp (htags ▸ List.mem_map_of_mem htag)).1
  refine ⟨⟨?_, ?_, hextends.machine_below hs⟩, hextends, hhas⟩
  · intro key hkey
    rw [hother key fun hc => Nat.not_lt_of_le hkey ((hmem key).mp hc).2]
    exact hs.unused key (Nat.le_trans (Nat.le_add_right _ _) hkey)
  · intro entry hentry
    rcases List.mem_cons.mp (List.mem_of_mem_take hentry) with rfl | hentry
    · exact hhas
    · exact (hs.cached entry hentry).mono hextends

/-- A text that is not a program leaves the session as it is. Otherwise its tree is loaded, and
after the walk of the resolver the session is as it should be. -/
theorem load_cases (hs : s.Sound) (capacity : Nat) (source : String) :
    (∃ r, parseSource source = .error r ∧ s.load capacity source = (.error r, s)) ∨
      ∃ q s₁, s.load capacity source = (.ok q, s₁) ∧
        let s' := { s₁ with depths := record s₁.depths q.register.registrations }
        s'.Sound ∧ s.Extends s' ∧ s'.Has source q := by
  rw [load]
  cases hfind : s.cache.find? fun entry => entry.1 = source with
  | some entry =>
    have hentry : entry.1 = source := by simpa using List.find?_some hfind
    have hkept := hs.cached entry (List.mem_of_find?_eq_some hfind)
    rw [hentry] at hkept
    refine .inr ⟨_, _, rfl, sound_cached hs hkept ?_⟩
    rw [List.forall_mem_cons, hentry]
    exact ⟨hkept, fun entry h => hs.cached entry (List.mem_of_mem_eraseP h)⟩
  | none =>
    cases hp : parseSource source with
    | error r => exact .inl ⟨r, rfl, rfl⟩
    | ok p => exact .inr ⟨_, _, rfl, sound_parsed hs hp capacity⟩

/-- A text is accepted when it is accepted without a table, and the distances are the same. Whatever
comes out of it, the machine stays and what its functions see in the table. -/
theorem exists_compile (hs : s.Sound) (capacity : Nat) (source : String) :
    ∃ s', s'.Sound ∧ s.Extends s' ∧
      match compileSource source with
      | .error r => compile capacity source s = .error (.rejected r) s'
      | .ok p => ∃ q, compile capacity source s = .ok q s' ∧ s'.Has source q ∧
        Stmt.mapAll s'.depths q = p := by
  rcases load_cases hs capacity source with ⟨r, hr, hload⟩ | ⟨q, s₁, hload, hs', hextends, hq⟩
  · refine ⟨s, hs, ⟨rfl, Nat.le_refl _, fun _ _ => rfl⟩, ?_⟩
    rw [compileSource, hr, compile, hload]
    rfl
  · refine ⟨_, hs', hextends, ?_⟩
    have hproblems : q.register.problems = Program.scopeProblems (Stmt.mapAll untag q) := by
      rw [Program.register_eq]
      show q.scopeProblems = _
      rw [Program.scopeProblems, Program.scopeProblems, Stmt.allStrayReturns_mapAll]
    rw [compileSource, hq.parsed, Except.bind, Program.compile, compile, hload]
    dsimp only
    rw [hproblems]
    cases Program.scopeProblems (Stmt.mapAll untag q) with
    | cons d ds => rfl
    | nil => exact ⟨q, rfl, hq, Stmt.mapAll_eq_resolveAll q [] hq.depths⟩

/-! ## Runs -/

/-- The session after a step, however the step ended. -/
def after {α : Type} : EStateM.Result Failure Registry α → Registry
  | .ok _ s => s
  | .error _ s => s

/-- The outcome of a step, with the machine as it is seen through the table. -/
def viewed {α : Type} :
    EStateM.Result Failure Registry α → EStateM.Result Failure Machine α
  | .ok a s => .ok a s.view
  | .error f s => .error f s.view

/-- The program is run as it is without a table. -/
theorem execAll_view (s : Registry) (q : Program Nat) (depth : Nat) :
    Stmt.execAll .tagged (.ofDepth .tagged depth) globalScope (Stmt.mapAll s.depths q) s.view =
      recastResult (Stmt.mapAll fun key => key.bind s.depths)
        (Completion.recast (Stmt.mapAll fun key => key.bind s.depths))
        (Stmt.execAll s.names (.ofDepth s.names depth) globalScope (Stmt.mapAll some q)
          s.machine) := by
  have hkeyed := Recasting.retag_program (·.bind s.depths) id (·.bind s.depths) (fun _ => rfl)
    (Stmt.mapAll some q) depth s.machine
  rw [Stmt.mapAll_mapAll, Names.through_id] at hkeyed
  exact hkeyed

/-- While a program with keys that are in use is run, all keys of the machine stay in use. -/
theorem execAll_below (hs : s.Sound) (hq : ∀ key ∈ Stmt.allKeys q, key < s.fresh) (depth : Nat) :
    let r := Stmt.execAll s.names (.ofDepth s.names depth) globalScope (Stmt.mapAll some q)
      s.machine
    (machineAfter r).recast (Stmt.mapAll (below s.fresh)) = machineAfter r := by
  have hdepths : ∀ key, (below s.fresh key).bind s.depths = key.bind s.depths := by
    intro key
    cases key with
    | none => rfl
    | some k =>
      rcases Nat.lt_or_ge k s.fresh with hk | hk
      · rw [below_of_lt hk]
      · rw [below_of_le hk]
        exact (hs.unused k hk).symm
  -- without the keys that are not in use, the run would be the same
  have hclipped := Recasting.retag_program (·.bind s.depths) (·.bind s.depths) (below s.fresh)
    hdepths (Stmt.mapAll some q) depth s.machine
  have hprogram : Stmt.mapAll (below s.fresh) (Stmt.mapAll some q) = Stmt.mapAll some q := by
    rw [Stmt.mapAll_mapAll]
    exact Stmt.mapAll_congr q fun key hkey => below_of_lt (hq key hkey)
  rw [hprogram, hs.machine] at hclipped
  intro r
  have hr : r = recastResult (Stmt.mapAll (below s.fresh))
      (Completion.recast (Stmt.mapAll (below s.fresh))) r := hclipped
  have hmachine := congrArg machineAfter hr
  cases hcases : r with
  | ok c m =>
    rw [hcases] at hmachine
    exact hmachine.symm
  | error f m =>
    rw [hcases] at hmachine
    exact hmachine.symm

/-- **Seen through its table, a session does what a plain session does.** -/
theorem run_view (hs : s.Sound) (capacity depth : Nat) (source : String) :
    Session.run depth source s.view = viewed (run capacity depth source s) ∧
      (after (run capacity depth source s)).Sound := by
  obtain ⟨s', hs', hextends, hcompile⟩ := exists_compile hs capacity source
  rw [← hextends.view_eq hs, run]
  cases hsource : compileSource source with
  | error r =>
    rw [hsource] at hcompile
    rw [Session.run, Session.runWith_of_rejected hsource, hcompile]
    exact ⟨rfl, hs'⟩
  | ok p =>
    rw [hsource] at hcompile
    obtain ⟨q, hq, hhas, rfl⟩ := hcompile
    have hbelow := execAll_below hs' hhas.below depth
    rw [Session.run, Session.runWith_of_compiled hsource, execAll_view, hq]
    dsimp only
    generalize Stmt.execAll s'.names (.ofDepth s'.names depth) globalScope (Stmt.mapAll some q)
      s'.machine = r at hbelow ⊢
    cases r with
    | ok c m => exact ⟨rfl, hs'.setMachine hbelow⟩
    | error f m => exact ⟨rfl, hs'.setMachine hbelow⟩

/-- A text that is rejected changes nothing but the table and the trees. -/
theorem extends_of_run_rejected (hs : s.Sound) {depth : Nat} {r : Rejection}
    (h : run capacity depth source s = .error (.rejected r) s') :
    compileSource source = .error r ∧ s.Extends s' := by
  obtain ⟨s₁, _, hextends, hcompile⟩ := exists_compile hs capacity source
  rw [run] at h
  cases hsource : compileSource source with
  | error r₁ =>
    rw [hsource] at hcompile
    rw [hcompile] at h
    cases h
    exact ⟨rfl, hextends⟩
  | ok p =>
    rw [hsource] at hcompile
    obtain ⟨q, hq, _⟩ := hcompile
    rw [hq] at h
    dsimp only at h
    split at h <;> cases h

/-- A new machine has no functions but the native ones. -/
theorem recast_initial (console : Console) (f : Recast) :
    (Machine.initial console).recast f = .initial console := by
  have hnatives : ∀ (i : ScopeId) (natives : List Native) (scopes : Scopes),
      (natives.foldl (fun s g => s.set i g.name (.native g ownSession)) scopes).recast f =
        natives.foldl (fun s g => s.set i g.name (.native g ownSession)) (scopes.recast f) := by
    intro i natives
    induction natives with
    | nil => exact fun _ => rfl
    | cons g natives ih =>
      intro scopes
      rw [List.foldl_cons, List.foldl_cons, ih, ← Scopes.set_recast]
      rfl
  have hempty : (Scopes.empty.create none).2.recast f = (Scopes.empty.create none).2 := by
    simp [Scopes.create, Scopes.empty, Scopes.recast, Scope.recast, recastBindings]
  have hscopes : Scopes.initial.recast f = Scopes.initial := by
    simp only [Scopes.initial, hnatives, hempty]
  rw [Machine.initial, Machine.recast, hscopes]

theorem view_initial (console : Console) : (initial console).view = .initial console :=
  recast_initial console _

theorem initial_sound (console : Console) : (initial console).Sound where
  unused := fun _ _ => rfl
  cached := List.forall_mem_nil _
  machine := recast_initial console _

/-- The outcomes of a session are those of a plain session, which ends with the machine that is seen
through the table. -/
theorem outcomes_view (hs : s.Sound) (capacity : Nat) (steps : List (Nat × String)) :
    outcomes Session.run steps s.view =
        ((outcomes (run capacity) steps s).1, (outcomes (run capacity) steps s).2.view) ∧
      (outcomes (run capacity) steps s).2.Sound := by
  induction steps generalizing s with
  | nil => exact ⟨rfl, hs⟩
  | cons step steps ih =>
    obtain ⟨depth, source⟩ := step
    obtain ⟨hrun, hsound⟩ := run_view hs capacity depth source
    rw [outcomes, outcomes, hrun]
    cases hr : run capacity depth source s with
    | ok a s' =>
      rw [hr] at hsound
      obtain ⟨hview, hsound⟩ := ih (s := s') hsound
      dsimp only [viewed]
      rw [hview]
      exact ⟨rfl, hsound⟩
    | error f s' =>
      rw [hr] at hsound
      obtain ⟨hview, hsound⟩ := ih (s := s') hsound
      dsimp only [viewed]
      rw [hview]
      exact ⟨rfl, hsound⟩

end Registry

/-! ## Reports -/

/-- The report has all problems that were recorded, in the order of their lines. In each line, the
problems of characters come first, then those of grammar, both in the order in which they were
recorded. -/
structure IsReport (ds lexical grammatical : List Diagnostic) : Prop where
  perm : ds.Perm (lexical ++ grammatical)
  sorted : ds.Pairwise fun a b => a.line ≤ b.line
  stable : ∀ n, ds.filter (fun d => d.line = n) =
    lexical.filter (fun d => d.line = n) ++ grammatical.filter (fun d => d.line = n)

theorem line_le_trans (a b c : Diagnostic) (hab : decide (a.line ≤ b.line) = true)
    (hbc : decide (b.line ≤ c.line) = true) : decide (a.line ≤ c.line) = true :=
  decide_eq_true (Nat.le_trans (of_decide_eq_true hab) (of_decide_eq_true hbc))

theorem line_le_total (a b : Diagnostic) :
    (decide (a.line ≤ b.line) || decide (b.line ≤ a.line)) = true := by
  simp only [Bool.or_eq_true, decide_eq_true_eq]
  exact Nat.le_total a.line b.line

/-- Sorting by line keeps the order in each line. -/
theorem filter_sortByLine (ds : List Diagnostic) (n : Nat) :
    (sortByLine ds).filter (fun d => d.line = n) = ds.filter (fun d => d.line = n) := by
  -- the problems of one line are in order already
  have hline : (ds.filter fun d => d.line = n).Pairwise fun a b => decide (a.line ≤ b.line) := by
    refine List.pairwise_of_forall_mem_list ?_
    intro a ha b hb
    have ha := (List.mem_filter.mp ha).2
    have hb := (List.mem_filter.mp hb).2
    simp_all
  have hsublist : List.Sublist (ds.filter fun d => d.line = n) (sortByLine ds) :=
    List.sublist_mergeSort line_le_trans line_le_total hline List.filter_sublist
  have hfiltered := hsublist.filter fun d => d.line = n
  rw [List.filter_filter, List.filter_congr fun d _ => Bool.and_self _] at hfiltered
  refine (hfiltered.eq_of_length ?_).symm
  exact ((List.mergeSort_perm ds _).filter _).length_eq.symm

theorem isReport_sortByLine (lexical grammatical : List Diagnostic) :
    IsReport (sortByLine (lexical ++ grammatical)) lexical grammatical where
  perm := List.mergeSort_perm _ _
  sorted := (List.pairwise_mergeSort line_le_trans line_le_total _).imp of_decide_eq_true
  stable := by
    intro n
    rw [filter_sortByLine, List.filter_append]

/-- What is reported of a text that is no program. -/
theorem isReport_of_parseSource {source : String} {ds : List Diagnostic}
    (h : parseSource source = .error (.diagnostics ds)) :
    ∃ scanned, scan source = some scanned ∧
      IsReport ds scanned.problems (parseProgram scanned.eof scanned.tokens).2 := by
  rw [parseSource] at h
  cases hscan : scan source with
  | none =>
    rw [hscan] at h
    cases h
  | some scanned =>
    rw [hscan] at h
    refine ⟨scanned, rfl, ?_⟩
    dsimp only at h
    split at h
    · cases h
    · next d rest hrecorded =>
      cases h
      rw [← hrecorded]
      exact isReport_sortByLine _ _

theorem eq_scopeProblems_of_compile {p : Program Unit} {ds : List Diagnostic}
    (h : p.compile = .error (.diagnostics ds)) : ds = p.scopeProblems := by
  rw [Program.compile] at h
  split at h
  · cases h
  · next d rest hproblems =>
    cases h
    exact hproblems.symm

/-! ## Rejected texts -/

/-- **A text that is rejected leaves no trace.** Let a session be in a state that it can reach. Seen
through its table, it is a plain session after the same steps. If it rejects a text with
diagnostics,

* the machine is the same as before: the console, the scopes and the functions;
* the steps that follow have the same outcomes as without the text, and they end with the same
  machine, when distances are put in the place of keys;
* there is at least one diagnostic. If the text is no program, the diagnostics are those of the
  scanner and of the parser in the order of their lines, and otherwise those of the resolver. -/
theorem run_rejected (capacity : Nat) (console : Console) (steps : List (Nat × String)) :
    let start := Registry.initial console
    let s := (outcomes (Registry.run capacity) steps start).2
    outcomes Session.run steps (.initial console) =
        ((outcomes (Registry.run capacity) steps start).1, s.view) ∧
      ∀ (depth : Nat) (source : String) (ds : List Diagnostic) (s' : Registry),
        Registry.run capacity depth source s = .error (.rejected (.diagnostics ds)) s' →
        s'.machine = s.machine ∧
          (∀ later, (outcomes (Registry.run capacity) later s').1 =
              (outcomes (Registry.run capacity) later s).1 ∧
            (outcomes (Registry.run capacity) later s').2.view =
              (outcomes (Registry.run capacity) later s).2.view) ∧
          ds ≠ [] ∧
          match parseSource source with
          | .error _ => ∃ scanned, scan source = some scanned ∧
            IsReport ds scanned.problems (parseProgram scanned.eof scanned.tokens).2
          | .ok p => ds = p.scopeProblems := by
  intro start s
  obtain ⟨hsteps, hs⟩ := Registry.outcomes_view (Registry.initial_sound console) capacity steps
  rw [Registry.view_initial] at hsteps
  refine ⟨hsteps, fun depth source ds s' hrun => ?_⟩
  obtain ⟨hrejected, hextends⟩ := Registry.extends_of_run_rejected hs hrun
  have hs' : s'.Sound := by
    have hsound := (Registry.run_view hs capacity depth source).2
    rw [hrun] at hsound
    exact hsound
  refine ⟨hextends.machine, ?_, diagnostics_ne_nil_of_compileSource hrejected, ?_⟩
  · intro later
    obtain ⟨hlater, _⟩ := Registry.outcomes_view hs capacity later
    obtain ⟨hlater', _⟩ := Registry.outcomes_view hs' capacity later
    rw [hextends.view_eq hs, hlater] at hlater'
    exact ⟨(congrArg Prod.fst hlater').symm, (congrArg Prod.snd hlater').symm⟩
  · rw [compileSource] at hrejected
    cases hp : parseSource source with
    | error r =>
      rw [hp] at hrejected
      cases hrejected
      exact isReport_of_parseSource hp
    | ok p =>
      rw [hp] at hrejected
      exact eq_scopeProblems_of_compile hrejected

/-! ### A sample

The text `{let a;a;return;}` is rejected after the resolver has registered a distance. It stays in
the table, and the session goes on as if the text had not been there.
-/

namespace Stray

open Captured (tok)

def source : String := "\x7blet a;a;return;\x7d"

def tokens : List Token :=
  [tok .leftBrace "\x7b" 0, tok .letWord "let" 1, tok .identifier "a" 5, tok .semicolon ";" 6,
    tok .identifier "a" 7, tok .semicolon ";" 8, tok .returnWord "return" 9, tok .semicolon ";" 15,
    tok .rightBrace "\x7d" 16]

def program : Program Unit :=
  [.block [.letDecl (tok .identifier "a" 5) none none,
    .expr (.reference (tok .identifier "a" 7) ()), .returnStmt (tok .returnWord "return" 9) none]]

theorem scan_source : scan source = some ⟨tokens, .atEnd 1 17, []⟩ := by cbv

theorem parseSource_source : parseSource source = .ok program := by
  obtain ⟨hclean, htokens⟩ := scan_eq_some_iff.mp ⟨_, scan_source⟩
  refine parseSource_eq_ok_iff.mpr ⟨hclean, ?_, ?_⟩
  · simp [Program.Grammatical, program, Stmt.AllGrammatical, Stmt.Grammatical, Expr.Grammatical,
      tok]
  · rw [← htokens]
    simp [Program.WrittenAs, program, tokens, Stmt.allSymbols, Stmt.symbols, Expr.symbols,
      initSymbols, optionSymbols, declarationWord, Symbol.Shows, tok]

/-- The session after the text. -/
def rejected : Registry :=
  { machine := .initial .awaiting
    depths := record (fun _ => none) [(0, 0)]
    cache := [(source, Stmt.numberAll 0 program)]
    fresh := 1 }

theorem run_source : Registry.run 1 1 source (.initial .awaiting) =
    .error (.rejected (.diagnostics [⟨.misplacedReturn, 1, .atText "return"⟩])) rejected := by
  have hload : (Registry.initial .awaiting).load 1 source =
      (.ok (Stmt.numberAll 0 program), { rejected with depths := fun _ => none }) := by
    rw [Registry.load, parseSource_source]
    rfl
  rw [Registry.run, Registry.compile, hload]
  rfl

end Stray

theorem stray_run_rejected :
    Registry.run 1 1 Stray.source (.initial .awaiting) =
        .error (.rejected (.diagnostics [⟨.misplacedReturn, 1, .atText "return"⟩])) Stray.rejected ∧
      Stray.rejected.depths 0 = some 0 ∧
      Stray.rejected.machine = .initial .awaiting ∧
      ∀ later, (outcomes (Registry.run 1) later Stray.rejected).1 =
        (outcomes (Registry.run 1) later (.initial .awaiting)).1 := by
  obtain ⟨_, hrun⟩ := run_rejected 1 .awaiting []
  obtain ⟨hmachine, hlater, _⟩ := hrun 1 Stray.source _ _ Stray.run_source
  exact ⟨Stray.run_source, rfl, hmachine, fun later => (hlater later).1⟩

end RadixScript
