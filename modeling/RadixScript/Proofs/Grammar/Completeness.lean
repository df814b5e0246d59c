import RadixScript.Proofs.Grammar.Soundness

/-!
# What is written is read

The parser reads every grammatical tree back from its written form, without a diagnostic and
without touching the tokens behind it, as long as these cannot belong to the tree.

A loop of the parser extends a tree by whatever follows. So what is shown of an operand that is
still on the left of an operator is not that it is read, but that reading it *goes on* with the
loop: `Expr.CallReadable` and `Expr.LevelReadable` are stated with the outcome of the loop. This is
what makes the induction along chains of operators and of calls go through, because such chains
lean to the left. At the end of a chain the loop stops (`Stops`), and the tree has been read
(`Expr.OperandReadable`, `Expr.Readable`).
-/

namespace RadixScript

/-! ## Attempts that succeed -/

namespace Attempt

variable {n m : Nat} {α β : Type}

/-- The attempt reads the value without a diagnostic and leaves the given tokens. -/
def Reads (a : Attempt n α) (value : α) (rest : List Token) : Prop :=
  ∃ h, a = parsed value rest [] h

theorem reads_done (v : α) (rest : List Token) : (done v rest).Reads v rest := ⟨_, rfl⟩

theorem Reads.relax {a : Attempt n α} {v : α} {rest : List Token} (h : a.Reads v rest)
    (hle : n ≤ m) : (a.relax hle).Reads v rest := by
  obtain ⟨hr, rfl⟩ := h
  exact ⟨_, rfl⟩

theorem Reads.behind {a : Attempt n α} {v : α} {rest : List Token} (h : a.Reads v rest) :
    a.behind.Reads v rest := h.relax (Nat.le_succ n)

theorem Reads.map {a : Attempt n α} {v : α} {rest : List Token} (h : a.Reads v rest) (f : α → β) :
    (a.map f).Reads (f v) rest := by
  obtain ⟨hr, rfl⟩ := h
  exact ⟨_, rfl⟩

theorem Reads.noting {a : Attempt n α} {v : α} {rest : List Token} (h : a.Reads v rest)
    {ds : List Diagnostic} (hds : ds = []) : (a.noting ds).Reads v rest := by
  obtain ⟨hr, rfl⟩ := h
  rw [hds]
  exact ⟨_, rfl⟩

theorem Reads.andThen {a : Attempt n α} {v : α} {w : β} {rest rest' : List Token}
    {k : (value : α) → (rest : List Token) → rest.length < n → Attempt (rest.length + 1) β}
    (h : a.Reads v rest) (hk : ∀ hr, (k v rest hr).Reads w rest') :
    (a.andThen k).Reads w rest' := by
  obtain ⟨hr, rfl⟩ := h
  exact ((hk hr).relax hr).noting rfl

theorem Reads.next {a : Attempt n α} {v : α} {w : β} {rest rest' : List Token}
    {k : (value : α) → (rest : List Token) → rest.length < n → Attempt rest.length β}
    (h : a.Reads v rest) (hk : ∀ hr, (k v rest hr).Reads w rest') : (a.next k).Reads w rest' :=
  h.andThen fun hr => (hk hr).behind

end Attempt

open Attempt

theorem expect_reads (eof : Token) {what : Expected} {t : Token} (rest : List Token)
    (h : t.kind = what.kind) : (expect eof what (t :: rest)).Reads t rest := by
  rw [expect, if_pos h]
  exact reads_done t rest

/-- Reading the one token that a mark is spelled with. -/
theorem expect_reads_of_spells (eof : Token) (what : Expected) {ts rest : List Token}
    (h : Spells [.mark what.kind] ts rest) : ∃ t, (expect eof what ts).Reads t rest := by
  simp only [spells_mark, spells_nil] at h
  obtain ⟨t, _, rfl, ht, rfl⟩ := h
  exact ⟨t, expect_reads eof _ ht⟩

theorem crowding_eq_nil {eof : Token} {list : BoundedList} {count : Nat} {ts : List Token}
    (h : count < listLimit) : crowding eof list count ts = [] := by
  rw [crowding, if_neg (Nat.not_le_of_lt h)]

/-! ## First tokens -/

/-- Whether an expression can begin with a token of the kind. -/
def Kind.startsExpr : Kind → Bool
  | .falseWord | .trueWord | .nullWord | .identifier | .leftParen | .bang | .minus => true
  | kind => kind.isLiteral

theorem Token.startsExpr_of_value? {t : Token} {v : Literal} (h : t.value? = some v) :
    t.kind.startsExpr = true ∧ t.kind.isUnary = false := by
  unfold Token.value? at h
  cases hk : t.kind <;> rw [hk] at h <;> simp_all [Kind.startsExpr, Kind.isUnary, Kind.isLiteral]

/-- Operands that are joined by an operator do not hold together like a call. -/
theorem Kind.not_tight_of_precedence? {k : Kind} {level : Nat} (h : k.precedence? = some level) :
    ¬ levelCount + 2 ≤ k.precedence?.getD 0 + 1 := by
  have hlt := Kind.precedence?_lt h
  rw [h, Option.getD_some]
  omega

/-- The first token of an expression. That of a call or a single operand is no unary operator. -/
theorem Expr.exists_first : ∀ (e : Expr Unit) {ts rest : List Token}, e.Grammatical →
    Spells e.symbols ts rest → ∃ t ts', ts = t :: ts' ∧ t.kind.startsExpr = true ∧
      (levelCount + 2 ≤ e.strength → t.kind.isUnary = false)
  | .literal v, ts, rest, _, h => by
    rw [Expr.symbols, spells_value] at h
    obtain ⟨t, ts', rfl, ht, _⟩ := h
    obtain ⟨hs, hu⟩ := Token.startsExpr_of_value? ht
    exact ⟨t, ts', rfl, hs, fun _ => hu⟩
  | .group e, ts, rest, _, h => by
    rw [Expr.symbols, spells_mark] at h
    obtain ⟨t, ts', rfl, hk, _⟩ := h
    exact ⟨t, ts', rfl, by rw [hk]; rfl, fun _ => by rw [hk]; rfl⟩
  | .unary op e, ts, rest, hg, h => by
    rw [Expr.symbols, spells_token] at h
    obtain ⟨ts', rfl, _⟩ := h
    refine ⟨op, ts', rfl, ?_, fun hs => absurd hs (by simp [Expr.strength])⟩
    have hop := hg.1
    cases hk : op.kind <;> rw [hk] at hop <;> simp_all [Kind.isUnary, Kind.startsExpr]
  | .binary l op r, ts, rest, hg, h => by
    obtain ⟨level, hop, _, hl, _⟩ := hg
    simp only [Expr.symbols, spells_append] at h
    obtain ⟨mid, hls, _⟩ := h
    obtain ⟨t, ts', rfl, ht, _⟩ := l.exists_first hl hls
    exact ⟨t, ts', rfl, ht, fun hs => absurd hs (Kind.not_tight_of_precedence? hop)⟩
  | .logical l op r, ts, rest, hg, h => by
    obtain ⟨level, hop, _, hl, _⟩ := hg
    simp only [Expr.symbols, spells_append] at h
    obtain ⟨mid, hls, _⟩ := h
    obtain ⟨t, ts', rfl, ht, _⟩ := l.exists_first hl hls
    exact ⟨t, ts', rfl, ht, fun hs => absurd hs (Kind.not_tight_of_precedence? hop)⟩
  | .reference name _, ts, rest, hg, h => by
    rw [Expr.symbols, spells_token] at h
    obtain ⟨ts', rfl, _⟩ := h
    have hk : name.kind = .identifier := hg
    exact ⟨name, ts', rfl, by rw [hk]; rfl, fun _ => by rw [hk]; rfl⟩
  | .assign name _ e, ts, rest, hg, h => by
    rw [Expr.symbols, spells_token] at h
    obtain ⟨ts', rfl, _⟩ := h
    have hk : name.kind = .identifier := hg.1
    exact ⟨name, ts', rfl, by rw [hk]; rfl, fun _ => by rw [hk]; rfl⟩
  | .call callee paren args, ts, rest, hg, h => by
    simp only [Expr.symbols, spells_append] at h
    obtain ⟨mid, hc, _⟩ := h
    obtain ⟨t, ts', rfl, ht, hu⟩ := callee.exists_first hg.1 hc
    exact ⟨t, ts', rfl, ht, fun _ => hu hg.2.1⟩

/-! ## Where an expression ends -/

/-- No argument list follows, and no operator of level `l` or tighter. -/
def Stops (l : Nat) (ts : List Token) : Prop :=
  ∀ t ∈ ts.head?, t.kind ≠ .leftParen ∧ ∀ p, t.kind.precedence? = some p → p < l

theorem stops_cons {l : Nat} {t : Token} {ts : List Token} (hp : t.kind ≠ .leftParen)
    (ho : ∀ p, t.kind.precedence? = some p → p < l) : Stops l (t :: ts) := by
  rintro _ ⟨⟩
  exact ⟨hp, ho⟩

theorem Stops.mono {l l' : Nat} {ts : List Token} (h : Stops l ts) (hle : l ≤ l') :
    Stops l' ts := by
  intro t ht
  exact ⟨(h t ht).1, fun p hp => Nat.lt_of_lt_of_le ((h t ht).2 p hp) hle⟩

variable {eof : Token}

theorem parseOperators_of_stops {l : Nat} (e : Expr Unit) {ts : List Token} (h : Stops l ts) :
    (parseOperators eof l e ts).Reads e ts := by
  cases ts with
  | nil =>
    rw [parseOperators]
    exact reads_done e []
  | cons op rest =>
    have hne : op.kind.precedence? ≠ some l := by
      intro hop
      exact absurd ((h op rfl).2 l hop) (Nat.lt_irrefl l)
    rw [parseOperators, if_neg hne]
    exact reads_done e _

theorem parseCalls_of_stops {l : Nat} (e : Expr Unit) {ts : List Token} (h : Stops l ts) :
    (parseCalls eof e ts).Reads e ts := by
  cases ts with
  | nil =>
    rw [parseCalls]
    exact reads_done e []
  | cons t rest =>
    rw [parseCalls, if_neg (h t rfl).1]
    exact reads_done e _

/-! ## Ways of reading an expression -/

namespace Expr

variable (eof) (e : Expr Unit)

/-- Reading the expression as a callee goes on with the calls behind it. -/
def CallReadable : Prop :=
  ∀ ts rest, Spells e.symbols ts rest → ∀ e' rest', (parseCalls eof e rest).Reads e' rest' →
    (parseCall eof ts).Reads e' rest'

/-- The expression is read as an operand of a unary operator. -/
def UnaryReadable : Prop :=
  ∀ ts rest, Spells e.symbols ts rest → Stops levelCount rest → (parseUnary eof ts).Reads e rest

/-- Reading the expression at a level goes on with the operators of that level behind it. -/
def LevelReadable (l : Nat) : Prop :=
  ∀ ts rest, Spells e.symbols ts rest → Stops (l + 1) rest →
    ∀ e' rest', (parseOperators eof l e rest).Reads e' rest' → (parseLevel eof l ts).Reads e' rest'

/-- The expression is read at a level. -/
def OperandReadable (l : Nat) : Prop :=
  ∀ ts rest, Spells e.symbols ts rest → Stops l rest → (parseLevel eof l ts).Reads e rest

/-- The expression is read where any expression may stand. -/
def Readable : Prop :=
  ∀ ts rest, Spells e.symbols ts rest → Stops 0 rest → (∀ t ∈ rest.head?, t.kind ≠ .equal) →
    (parseExpr eof ts).Reads e rest

/-- The expression is read in every place that it is tight enough for. -/
structure ReadableInPlace : Prop where
  asCallee : levelCount + 2 ≤ e.strength → e.CallReadable eof
  asUnary : levelCount + 1 ≤ e.strength → e.UnaryReadable eof
  asLeft : ∀ l < levelCount, l + 1 ≤ e.strength → e.LevelReadable eof l
  anywhere : e.Readable eof

variable {eof e}

theorem LevelReadable.operandReadable {l : Nat} (h : e.LevelReadable eof l) :
    e.OperandReadable eof l := by
  intro ts rest hsp hstop
  exact h ts rest hsp (hstop.mono (Nat.le_succ l)) e rest (parseOperators_of_stops e hstop)

theorem UnaryReadable.operandReadable (h : e.UnaryReadable eof) :
    e.OperandReadable eof levelCount := by
  intro ts rest hsp hstop
  rw [parseLevel, if_neg (Nat.lt_irrefl _)]
  exact h ts rest hsp hstop

theorem OperandReadable.levelReadable {l : Nat} (hl : l < levelCount)
    (h : e.OperandReadable eof (l + 1)) : e.LevelReadable eof l := by
  intro ts rest hsp hstop e' rest' hops
  rw [parseLevel, if_pos hl]
  exact (h ts rest hsp hstop).andThen fun _ => hops

/-- What is read at a level is read at every looser one. -/
theorem OperandReadable.descend {k : Nat} (hk : k ≤ levelCount) (h : e.OperandReadable eof k) :
    ∀ l < k, e.LevelReadable eof l := by
  induction k with
  | zero => exact fun l hl => absurd hl (Nat.not_lt_zero l)
  | succ k ih =>
    intro l hl
    have hlevel : e.LevelReadable eof k := h.levelReadable hk
    rcases Nat.lt_succ_iff_lt_or_eq.mp hl with hlt | rfl
    · exact ih (Nat.le_of_succ_le hk) hlevel.operandReadable l hlt
    · exact hlevel

theorem OperandReadable.readable (h : e.OperandReadable eof 0) : e.Readable eof := by
  intro ts rest hsp hstop hequal
  rw [parseExpr]
  refine (h ts rest hsp hstop).andThen fun hr => ?_
  cases rest with
  | nil => exact reads_done e []
  | cons op rest =>
    dsimp only
    rw [if_neg (hequal op rfl)]
    exact reads_done e _

/-- A call or a single operand is no unary expression, so it is read as a call. -/
theorem CallReadable.unaryReadable (hg : e.Grammatical) (hs : levelCount + 2 ≤ e.strength)
    (h : e.CallReadable eof) : e.UnaryReadable eof := by
  intro ts rest hsp hstop
  obtain ⟨t, ts', rfl, _, hunary⟩ := e.exists_first hg hsp
  rw [parseUnary, if_neg (by simp [hunary hs])]
  exact h _ rest hsp e rest (parseCalls_of_stops e hstop)

/-! ### The tightest place decides -/

theorem readableInPlace_of_level {k : Nat} (hk : k < levelCount) (hs : e.strength = k + 1)
    (h : e.LevelReadable eof k) : e.ReadableInPlace eof := by
  have hoperand := h.operandReadable
  have hloose : ∀ l ≤ k, e.LevelReadable eof l := by
    intro l hl
    rcases Nat.lt_or_eq_of_le hl with hlt | rfl
    · exact hoperand.descend (Nat.le_of_lt hk) l hlt
    · exact h
  refine ⟨fun hc => by omega, fun hu => by omega, ?_, ?_⟩
  · intro l _ hl
    exact hloose l (by omega)
  · exact (hloose 0 (Nat.zero_le k)).operandReadable.readable

theorem readableInPlace_of_unary (hs : e.strength ≤ levelCount + 1) (h : e.UnaryReadable eof) :
    e.ReadableInPlace eof := by
  have hloose := h.operandReadable.descend (Nat.le_refl _)
  refine ⟨fun hc => by omega, fun _ => h, fun l hl _ => hloose l hl, ?_⟩
  exact (hloose 0 (by decide)).operandReadable.readable

theorem readableInPlace_of_call (hg : e.Grammatical) (hs : levelCount + 2 ≤ e.strength)
    (h : e.CallReadable eof) : e.ReadableInPlace eof := by
  have hunary := h.unaryReadable hg hs
  have hloose := hunary.operandReadable.descend (Nat.le_refl _)
  refine ⟨fun _ => h, fun _ => hunary, fun l hl _ => hloose l hl, ?_⟩
  exact (hloose 0 (by decide)).operandReadable.readable

theorem ReadableInPlace.operandReadable (h : e.ReadableInPlace eof) {l : Nat} (hl : l ≤ levelCount)
    (hs : l + 1 ≤ e.strength) : e.OperandReadable eof l := by
  rcases Nat.lt_or_eq_of_le hl with hlt | rfl
  · exact (h.asLeft l hlt hs).operandReadable
  · exact (h.asUnary hs).operandReadable

/-- The marks that stand behind an expression end it. -/
theorem Readable.reads_before (h : e.Readable eof) {t : Token} {ts rest : List Token}
    (ht : t.kind = .rightParen ∨ t.kind = .comma ∨ t.kind = .semicolon)
    (hsp : Spells e.symbols ts (t :: rest)) : (parseExpr eof ts).Reads e (t :: rest) := by
  refine h ts (t :: rest) hsp (stops_cons ?_ ?_) ?_
  · rcases ht with hk | hk | hk <;> simp [hk]
  · rcases ht with hk | hk | hk <;> simp [hk, Kind.precedence?]
  · rintro _ ⟨⟩
    rcases ht with hk | hk | hk <;> simp [hk]

/-! ### One lemma for each form -/

theorem callReadable_of_primary
    (h : ∀ ts rest, Spells e.symbols ts rest → (parsePrimary eof ts).Reads e rest) :
    e.CallReadable eof := by
  intro ts rest hsp e' rest' hcalls
  rw [parseCall]
  exact (h ts rest hsp).andThen fun _ => hcalls

theorem literal_readable (v : Literal) : (literal v : Expr Unit).ReadableInPlace eof := by
  refine readableInPlace_of_call trivial (Nat.le_succ _) (callReadable_of_primary ?_)
  intro ts rest hsp
  simp only [symbols, spells_value, spells_nil] at hsp
  obtain ⟨t, _, rfl, hv, rfl⟩ := hsp
  unfold Token.value? at hv
  rw [parsePrimary]
  cases hk : t.kind <;> simp only [hk, Kind.isLiteral, Bool.false_eq_true, reduceIte,
    reduceCtorEq, Option.some.injEq] at hv ⊢
  all_goals
    subst hv
    exact reads_done _ _

theorem reference_readable {name : Token} (hg : name.kind = .identifier) :
    (reference name () : Expr Unit).ReadableInPlace eof := by
  refine readableInPlace_of_call hg (Nat.le_succ _) (callReadable_of_primary ?_)
  intro ts rest hsp
  simp only [symbols, spells_token, spells_nil] at hsp
  obtain ⟨_, rfl, rfl⟩ := hsp
  rw [parsePrimary]
  simp only [hg]
  exact reads_done _ _

theorem group_readable (hg : e.Grammatical) (h : e.Readable eof) :
    (group e).ReadableInPlace eof := by
  refine readableInPlace_of_call hg (Nat.le_succ _) (callReadable_of_primary ?_)
  intro ts rest hsp
  simp only [symbols, spells_mark, spells_append, spells_nil] at hsp
  obtain ⟨t, ts', rfl, hk, _, hinner, close, _, rfl, hclose, rfl⟩ := hsp
  rw [parsePrimary]
  simp only [hk]
  refine Reads.behind ((h.reads_before (Or.inl hclose) hinner).next fun hr => ?_)
  exact (expect_reads eof _ hclose).map _

theorem unary_readable {op : Token} (hop : op.kind.isUnary = true) (h : e.UnaryReadable eof) :
    (unary op e).ReadableInPlace eof := by
  refine readableInPlace_of_unary (Nat.le_refl _) ?_
  intro ts rest hsp hstop
  rw [symbols, spells_token] at hsp
  obtain ⟨ts', rfl, hoperand⟩ := hsp
  rw [parseUnary, if_pos hop]
  exact ((h ts' rest hoperand hstop).map _).behind

/-- Operands joined by an operator are read at the level of the operator: reading goes on with the
left operand, then the operator is found, and the right operand is read one level tighter. -/
theorem join_readable {l r : Expr Unit} {op : Token} {level : Nat}
    (hop : op.kind.precedence? = some level) (hl : l.LevelReadable eof level)
    (hr : r.OperandReadable eof (level + 1)) : (l.join op r).ReadableInPlace eof := by
  have hlt := Kind.precedence?_lt hop
  refine readableInPlace_of_level hlt (strength_join l r hop) ?_
  intro ts rest hsp hstop e' rest' hops
  rw [symbols_join, spells_append] at hsp
  obtain ⟨mid, hleft, hright⟩ := hsp
  rw [spells_token] at hright
  obtain ⟨mid', rfl, hright⟩ := hright
  -- the operator itself is too loose to be taken into the left operand
  have hnext : Stops (level + 1) (op :: mid') := by
    refine stops_cons ?_ ?_
    · intro hk
      rw [hk] at hop
      cases hop
    · intro p hp
      rw [hop] at hp
      cases hp
      exact Nat.lt_succ_self _
  refine hl ts _ hleft hnext e' rest' ?_
  rw [parseOperators, if_pos hop]
  exact ((hr mid' rest hright hstop).andThen fun _ => hops).behind.behind

theorem assign_readable {name : Token} (hg : name.kind = .identifier) (h : e.Readable eof) :
    (assign name () e).ReadableInPlace eof := by
  -- an assignment is no operand of anything
  refine ⟨fun hs => absurd hs (by simp [strength]), fun hs => absurd hs (by simp [strength]),
    fun l _ hs => absurd hs (by simp [strength]), ?_⟩
  intro ts rest hsp hstop hequal
  simp only [symbols, spells_token, spells_mark] at hsp
  obtain ⟨_, rfl, op, ts', rfl, hk, hvalue⟩ := hsp
  have htarget : (reference name () : Expr Unit).OperandReadable eof 0 :=
    (reference_readable hg).operandReadable (Nat.zero_le _) (by simp [strength])
  rw [parseExpr]
  refine (htarget _ (op :: ts') ?_ ?_).andThen fun hr => ?_
  · simp [symbols]
  · exact stops_cons (by simp [hk]) (by simp [hk, Kind.precedence?])
  · dsimp only
    rw [if_pos hk]
    exact ((h ts' rest hvalue hstop hequal).andThen fun _ => reads_done _ _).behind.behind

/-! ### Calls -/

theorem parseArgumentList_reads {paren : Token} (hparen : paren.kind = .rightParen)
    {args : List (Expr Unit)} (hne : args ≠ []) (h : ∀ e ∈ args, e.Readable eof) {count : Nat}
    (hcount : count + args.length ≤ listLimit) {ts rest : List Token}
    (hsp : Spells (Symbol.commas (symbolLists args) ++ [.token paren]) ts rest) :
    (parseArgumentList eof count ts).Reads (args, paren) rest := by
  induction args generalizing count ts with
  | nil => exact absurd rfl hne
  | cons arg args ih =>
    have harg := h arg List.mem_cons_self
    rw [List.length_cons] at hcount
    rw [parseArgumentList]
    refine Reads.noting ?_ (crowding_eq_nil (by omega))
    cases args with
    | nil =>
      rw [spells_append] at hsp
      obtain ⟨mid, hfirst, hclose⟩ := hsp
      simp only [spells_token, spells_nil] at hclose
      obtain ⟨_, rfl, rfl⟩ := hclose
      refine (harg.reads_before (Or.inl hparen) hfirst).next fun hr => ?_
      dsimp only
      rw [if_neg (by simp [hparen])]
      exact (expect_reads eof _ hparen).map _
    | cons arg' args =>
      rw [symbolLists, Symbol.commas_cons (by simp [symbolLists]), List.append_assoc,
        List.cons_append, spells_append] at hsp
      obtain ⟨mid, hfirst, hmore⟩ := hsp
      rw [spells_mark] at hmore
      obtain ⟨comma, mid', rfl, hk, hmore⟩ := hmore
      refine (harg.reads_before (Or.inr (Or.inl hk)) hfirst).next fun hr => ?_
      dsimp only
      rw [if_pos hk]
      have hrest := ih (List.cons_ne_nil _ _) (fun e he => h e (List.mem_cons_of_mem _ he))
        (by omega : count + 1 + (arg' :: args).length ≤ listLimit) hmore
      exact (hrest.map _).behind

theorem parseArguments_reads {paren : Token} (hparen : paren.kind = .rightParen)
    {args : List (Expr Unit)} (hg : AllGrammatical args) (h : ∀ e ∈ args, e.Readable eof)
    (hcount : args.length ≤ listLimit) {ts rest : List Token}
    (hsp : Spells (Symbol.commas (symbolLists args) ++ [.token paren]) ts rest) :
    (parseArguments eof ts).Reads (args, paren) rest := by
  cases args with
  | nil =>
    simp only [symbolLists, Symbol.commas, List.nil_append, spells_token, spells_nil] at hsp
    obtain ⟨_, rfl, rfl⟩ := hsp
    rw [parseArguments, if_pos hparen]
    exact reads_done _ _
  | cons arg args =>
    have hread := parseArgumentList_reads hparen (List.cons_ne_nil arg args) h
      (by rw [Nat.zero_add]; exact hcount) hsp
    -- the list is not taken for an empty one, since no argument begins with a parenthesis
    obtain ⟨more, hmore⟩ : ∃ more, Symbol.commas (symbolLists (arg :: args)) ++ [.token paren]
        = arg.symbols ++ more := by
      cases args with
      | nil => exact ⟨_, rfl⟩
      | cons arg' args => exact ⟨_, List.append_assoc _ _ _⟩
    rw [hmore, spells_append] at hsp
    obtain ⟨mid, hfirst, _⟩ := hsp
    obtain ⟨t, ts', rfl, ht, _⟩ := arg.exists_first hg.1 hfirst
    have hne : t.kind ≠ .rightParen := by
      intro hk
      rw [hk] at ht
      cases ht
    rw [parseArguments, if_neg hne]
    exact hread

theorem call_readable {callee : Expr Unit} {paren : Token} {args : List (Expr Unit)}
    (hg : (call callee paren args).Grammatical) (hcallee : callee.CallReadable eof)
    (hargs : ∀ e ∈ args, e.Readable eof) : (call callee paren args).ReadableInPlace eof := by
  refine readableInPlace_of_call hg (Nat.le_refl _) ?_
  obtain ⟨_, _, hparen, hcount, hag⟩ := hg
  intro ts rest hsp e' rest' hcalls
  rw [symbols, spells_append] at hsp
  obtain ⟨mid, hfirst, hmore⟩ := hsp
  rw [spells_mark] at hmore
  obtain ⟨t, mid', rfl, hk, hmore⟩ := hmore
  refine hcallee ts _ hfirst e' rest' ?_
  rw [parseCalls, if_pos hk]
  exact ((parseArguments_reads hparen hag hargs hcount hmore).andThen fun _ => hcalls).behind.behind

end Expr

/-! ## Every grammatical expression is read -/

theorem Expr.join_of_binary {δ : Type} {l r : Expr δ} {op : Token}
    (h : op.kind.isLogical = false) : Expr.binary l op r = l.join op r := by
  simp [Expr.join, h]

theorem Expr.join_of_logical {δ : Type} {l r : Expr δ} {op : Token}
    (h : op.kind.isLogical = true) : Expr.logical l op r = l.join op r := by
  simp [Expr.join, h]

mutual

theorem Expr.readableInPlace (eof : Token) :
    (e : Expr Unit) → e.Grammatical → e.ReadableInPlace eof
  | .literal v, _ => literal_readable v
  | .group e, hg => group_readable hg (e.readableInPlace eof hg).anywhere
  | .unary op e, hg => by
    obtain ⟨hop, he, hs⟩ := hg
    exact unary_readable hop ((e.readableInPlace eof he).asUnary hs)
  | .binary l op r, hg => by
    obtain ⟨level, hop, hlog, hl, hls, hr, hrs⟩ := hg
    have hlt := Kind.precedence?_lt hop
    rw [Expr.join_of_binary hlog]
    exact join_readable hop ((l.readableInPlace eof hl).asLeft level hlt hls)
      ((r.readableInPlace eof hr).operandReadable hlt hrs)
  | .logical l op r, hg => by
    obtain ⟨level, hop, hlog, hl, hls, hr, hrs⟩ := hg
    have hlt := Kind.precedence?_lt hop
    rw [Expr.join_of_logical hlog]
    exact join_readable hop ((l.readableInPlace eof hl).asLeft level hlt hls)
      ((r.readableInPlace eof hr).operandReadable hlt hrs)
  | .reference name _, hg => reference_readable hg
  | .assign name _ e, hg => assign_readable hg.1 (e.readableInPlace eof hg.2).anywhere
  | .call callee paren args, hg => by
    have hcallee := (callee.readableInPlace eof hg.1).asCallee hg.2.1
    exact call_readable hg hcallee (Expr.all_readable eof args hg.2.2.2.2)

theorem Expr.all_readable (eof : Token) :
    (es : List (Expr Unit)) → Expr.AllGrammatical es → ∀ e ∈ es, e.Readable eof
  | [], _ => fun _ he => absurd he List.not_mem_nil
  | e :: es, hg => by
    have hfirst := (e.readableInPlace eof hg.1).anywhere
    have hmore := Expr.all_readable eof es hg.2
    intro e' he
    rcases List.mem_cons.mp he with rfl | he
    · exact hfirst
    · exact hmore e' he

end

theorem Expr.readable (eof : Token) {e : Expr Unit} (hg : e.Grammatical) : e.Readable eof :=
  (e.readableInPlace eof hg).anywhere

/-! ## Parts of statements -/

theorem parseParameterList_reads {params : List Token} (hne : params ≠ [])
    (h : ∀ p ∈ params, p.kind = .identifier) {count : Nat}
    (hcount : count + params.length ≤ listLimit) {ts rest : List Token}
    (hsp : Spells (paramSymbols params ++ [.mark .rightParen]) ts rest) :
    (parseParameterList eof count ts).Reads params rest := by
  induction params generalizing count ts with
  | nil => exact absurd rfl hne
  | cons name params ih =>
    have hname : name.kind = .identifier := h name List.mem_cons_self
    rw [List.length_cons] at hcount
    rw [parseParameterList]
    refine Reads.noting ?_ (crowding_eq_nil (by omega))
    cases params with
    | nil =>
      simp only [paramSymbols, List.map_cons, List.map_nil, Symbol.commas, List.cons_append,
        List.nil_append, spells_token, spells_mark, spells_nil] at hsp
      obtain ⟨_, rfl, close, _, rfl, hk, rfl⟩ := hsp
      refine (expect_reads eof _ hname).next fun hr => ?_
      dsimp only
      rw [if_neg (by simp [hk])]
      exact (expect_reads eof _ hk).map _
    | cons name' params =>
      rw [paramSymbols_cons (List.cons_ne_nil _ _)] at hsp
      simp only [List.cons_append, spells_token, spells_mark] at hsp
      obtain ⟨_, rfl, comma, ts', rfl, hk, hmore⟩ := hsp
      refine (expect_reads eof _ hname).next fun hr => ?_
      dsimp only
      rw [if_pos hk]
      have hrest := ih (List.cons_ne_nil _ _) (fun p hp => h p (List.mem_cons_of_mem _ hp))
        (by omega : count + 1 + (name' :: params).length ≤ listLimit) hmore
      exact (hrest.map _).behind

theorem parseParameters_reads {params : List Token} (h : ∀ p ∈ params, p.kind = .identifier)
    (hcount : params.length ≤ listLimit) {ts rest : List Token}
    (hsp : Spells (paramSymbols params ++ [.mark .rightParen]) ts rest) :
    (parseParameters eof ts).Reads params rest := by
  cases params with
  | nil =>
    simp only [paramSymbols, List.map_nil, Symbol.commas, List.nil_append, spells_mark,
      spells_nil] at hsp
    obtain ⟨close, _, rfl, hclose, rfl⟩ := hsp
    rw [parseParameters, if_pos hclose]
    exact reads_done _ _
  | cons name params =>
    have hread : (parseParameterList eof 0 ts).Reads (name :: params) rest :=
      parseParameterList_reads (List.cons_ne_nil name params) h
        (by rw [Nat.zero_add]; exact hcount) hsp
    obtain ⟨more, hmore⟩ : ∃ more, paramSymbols (name :: params) = .token name :: more := by
      cases params with
      | nil => exact ⟨_, rfl⟩
      | cons name' params => exact ⟨_, paramSymbols_cons (List.cons_ne_nil _ _)⟩
    rw [hmore, List.cons_append, spells_token] at hsp
    obtain ⟨ts', rfl, _⟩ := hsp
    rw [parseParameters, if_neg (by simp [h name List.mem_cons_self])]
    exact hread

/-- An expression is read up to the mark that has to stand behind it. -/
theorem parseExpr_expect_reads {e : Expr Unit} (hg : e.Grammatical) (what : Expected)
    (hw : what.kind = .semicolon ∨ what.kind = .rightParen) {ts rest : List Token}
    (hsp : Spells (e.symbols ++ [.mark what.kind]) ts rest) {α : Type} (f : Expr Unit → α) :
    ((parseExpr eof ts).next fun e rest _ => (expect eof what rest).map fun _ => f e).Reads
      (f e) rest := by
  rw [spells_append] at hsp
  obtain ⟨mid, hfirst, hlast⟩ := hsp
  simp only [spells_mark, spells_nil] at hlast
  obtain ⟨t, _, rfl, hk, rfl⟩ := hlast
  have hend : t.kind = .rightParen ∨ t.kind = .comma ∨ t.kind = .semicolon := by
    rw [hk]
    rcases hw with hw | hw
    · exact Or.inr (Or.inr hw)
    · exact Or.inl hw
  refine ((Expr.readable eof hg).reads_before hend hfirst).next fun hr => ?_
  exact (expect_reads eof _ hk).map _

theorem parseInitializer_reads {init : Option (Expr Unit)} (hg : ∀ e ∈ init, e.Grammatical)
    {ts rest : List Token} (hsp : Spells (initSymbols init ++ [.mark .semicolon]) ts rest) :
    (parseInitializer eof ts).Reads init rest := by
  cases init with
  | none =>
    simp only [initSymbols, List.nil_append, spells_mark, spells_nil] at hsp
    obtain ⟨t, _, rfl, hk, rfl⟩ := hsp
    rw [parseInitializer, if_neg (by simp [hk])]
    exact (expect_reads eof _ hk).map _
  | some e =>
    rw [initSymbols, List.cons_append, spells_mark] at hsp
    obtain ⟨t, ts', rfl, hk, hsp⟩ := hsp
    rw [parseInitializer, if_pos hk]
    exact (parseExpr_expect_reads (hg e rfl) .semicolonAfterDeclaration (Or.inl rfl) hsp
      some).behind

theorem parseLet_reads {name : Token} {init : Option (Expr Unit)} {type : Option Token}
    (hg : (Stmt.letDecl name init type).Grammatical) {ts rest : List Token}
    (hsp : Spells (.token name :: (initSymbols init ++ [.mark .semicolon])) ts rest) :
    (parseLet eof type ts).Reads (.letDecl name init type) rest := by
  obtain ⟨hname, hinit, _⟩ := hg
  rw [spells_token] at hsp
  obtain ⟨ts', rfl, hsp⟩ := hsp
  rw [parseLet]
  refine (expect_reads eof _ hname).next fun hr => ?_
  exact (parseInitializer_reads hinit hsp).map _

theorem parseReturn_reads {keyword : Token} {value : Option (Expr Unit)}
    (hg : ∀ e ∈ value, e.Grammatical) {ts rest : List Token}
    (hsp : Spells (optionSymbols value ++ [.mark .semicolon]) ts rest) :
    (parseReturn eof keyword ts).Reads (.returnStmt keyword value) rest := by
  cases value with
  | none =>
    simp only [optionSymbols, List.nil_append, spells_mark, spells_nil] at hsp
    obtain ⟨t, _, rfl, hk, rfl⟩ := hsp
    rw [parseReturn, if_pos hk]
    exact reads_done _ _
  | some e =>
    obtain ⟨mid, hfirst, _⟩ := spells_append.mp hsp
    obtain ⟨t, ts', rfl, ht, _⟩ := e.exists_first (hg e rfl) hfirst
    have hne : t.kind ≠ .semicolon := by
      intro hk
      rw [hk] at ht
      cases ht
    rw [parseReturn, if_neg hne]
    have hvalue : (parseReturnValue eof (t :: ts')).Reads e rest :=
      parseExpr_expect_reads (hg e rfl) .semicolonAfterReturn (Or.inl rfl) hsp id
    exact hvalue.map _

theorem parseCondition_reads {c : Expr Unit} (hg : c.Grammatical) {ts rest : List Token}
    (hsp : Spells (.mark .leftParen :: (c.symbols ++ [.mark .rightParen])) ts rest) :
    (parseCondition eof ts).Reads c rest := by
  rw [spells_mark] at hsp
  obtain ⟨t, ts', rfl, hk, hsp⟩ := hsp
  rw [parseCondition]
  refine (expect_reads eof _ hk).next fun hr => ?_
  exact parseExpr_expect_reads hg .parenAfterCondition (Or.inr rfl) hsp id

theorem parseSignature_reads {name : Token} {params : List Token} (hname : name.kind = .identifier)
    (hp : ∀ p ∈ params, p.kind = .identifier) (hcount : params.length ≤ listLimit)
    {ts rest : List Token}
    (hsp : Spells (.token name :: .mark .leftParen :: (paramSymbols params ++
      [.mark .rightParen, .mark .leftBrace])) ts rest) :
    (parseSignature eof ts).Reads (name, params) rest := by
  rw [show paramSymbols params ++ [.mark .rightParen, .mark .leftBrace]
      = (paramSymbols params ++ [.mark .rightParen]) ++ [.mark .leftBrace] by simp] at hsp
  rw [spells_token] at hsp
  obtain ⟨_, rfl, hsp⟩ := hsp
  rw [spells_mark] at hsp
  obtain ⟨t, ts', rfl, hk, hsp⟩ := hsp
  obtain ⟨mid, hparams, hbrace⟩ := spells_append.mp hsp
  obtain ⟨_, hbrace⟩ := expect_reads_of_spells eof .braceBeforeFunctionBody hbrace
  rw [parseSignature]
  refine (expect_reads eof _ hname).next fun hr => ?_
  refine (expect_reads eof _ hk).next fun hr' => ?_
  refine (parseParameters_reads hp hcount hparams).next fun hr'' => ?_
  exact hbrace.map _

theorem parseNamespaceHead_reads {name : Token} (hname : name.kind = .identifier)
    {ts rest : List Token} (hsp : Spells [.token name, .mark .leftBrace] ts rest) :
    (parseNamespaceHead eof ts).Reads name rest := by
  simp only [spells_token, spells_mark, spells_nil] at hsp
  obtain ⟨_, rfl, t, _, rfl, hk, rfl⟩ := hsp
  rw [parseNamespaceHead]
  refine (expect_reads eof _ hname).next fun hr => ?_
  exact (expect_reads eof _ hk).map _

/-! ## Statements -/

/-- Whether a statement that is no declaration can begin with a token of the kind. -/
def Kind.startsPlain : Kind → Bool
  | .ifWord | .returnWord | .leftBrace => true
  | kind => kind.startsExpr

theorem Kind.startsPlain_of_startsExpr {k : Kind} (h : k.startsExpr = true) :
    k.startsPlain = true := by
  cases k <;> first | rfl | exact h

theorem parseDeclaration_of_startsPlain {t : Token} {ts : List Token}
    (h : t.kind.startsPlain = true) :
    parseDeclaration eof t ts = (parseStatement eof (t :: ts)).declared (Nat.succ_pos _) := by
  rw [parseDeclaration]
  cases hk : t.kind <;> rw [hk] at h <;> first | rfl | exact absurd h (by decide)

theorem parseStatement_of_startsExpr {t : Token} {ts : List Token}
    (h : t.kind.startsExpr = true) :
    parseStatement eof (t :: ts) = parseExprStmt eof (t :: ts) := by
  rw [parseStatement]
  cases hk : t.kind <;> rw [hk] at h <;> first | rfl | exact absurd h (by decide)

/-- The declaration is read without a diagnostic. -/
def Declared.Reads {n : Nat} (d : Declared n) (s : Stmt Unit) (rest : List Token) : Prop :=
  d.stmt? = some s ∧ d.rest = rest ∧ d.errors = []

theorem Attempt.Reads.declared {n : Nat} (hn : 0 < n) {a : Attempt n (Stmt Unit)} {s : Stmt Unit}
    {rest : List Token} (h : a.Reads s rest) : (a.declared hn).Reads s rest := by
  obtain ⟨hr, rfl⟩ := h
  exact ⟨rfl, rfl, rfl⟩

namespace Stmt

variable (eof) (s : Stmt Unit)

/-- The statement is read where no declaration may stand. -/
def PlainReadable : Prop :=
  ∀ ts rest, Spells s.symbols ts rest → (s.endsOpen = true → NoElse rest) →
    (parseStatement eof ts).Reads s rest

/-- The statement is read where a declaration may stand. -/
def Readable : Prop :=
  ∀ t ts rest, Spells s.symbols (t :: ts) rest → (s.endsOpen = true → NoElse rest) →
    (parseDeclaration eof t ts).Reads s rest

variable {eof s}

/-- The first token of a statement that is no declaration. -/
theorem exists_first_plain (hg : s.Grammatical) (hd : s.isDeclaration = false)
    {ts rest : List Token} (hsp : Spells s.symbols ts rest) :
    ∃ t ts', ts = t :: ts' ∧ t.kind.startsPlain = true := by
  match s with
  | .expr e =>
    rw [symbols, spells_append] at hsp
    obtain ⟨mid, hfirst, _⟩ := hsp
    obtain ⟨t, ts', rfl, ht, _⟩ := e.exists_first hg hfirst
    exact ⟨t, ts', rfl, Kind.startsPlain_of_startsExpr ht⟩
  | .letDecl _ _ _ | .functionDecl _ _ _ | .namespaceDecl _ _ => cases hd
  | .block body =>
    rw [symbols, spells_mark] at hsp
    obtain ⟨t, ts', rfl, hk, _⟩ := hsp
    exact ⟨t, ts', rfl, by rw [hk]; rfl⟩
  | .branch c s none | .branch c s (some s') =>
    rw [symbols, spells_mark] at hsp
    obtain ⟨t, ts', rfl, hk, _⟩ := hsp
    exact ⟨t, ts', rfl, by rw [hk]; rfl⟩
  | .returnStmt keyword value =>
    rw [symbols, spells_token] at hsp
    obtain ⟨ts', rfl, _⟩ := hsp
    exact ⟨keyword, ts', rfl, by rw [hg.1]; rfl⟩

/-- No statement begins with a closing brace or an `else`. -/
theorem exists_first (hg : s.Grammatical) {ts rest : List Token} (hsp : Spells s.symbols ts rest) :
    ∃ t ts', ts = t :: ts' ∧ t.kind ≠ .rightBrace ∧ t.kind ≠ .elseWord := by
  cases hd : s.isDeclaration with
  | false =>
    obtain ⟨t, ts', rfl, ht⟩ := exists_first_plain hg hd hsp
    refine ⟨t, ts', rfl, fun hk => ?_, fun hk => ?_⟩ <;>
    · rw [hk] at ht
      cases ht
  | true =>
    match s with
    | .letDecl name init none =>
      rw [symbols, declarationWord, spells_mark] at hsp
      obtain ⟨t, ts', rfl, hk, _⟩ := hsp
      exact ⟨t, ts', rfl, by simp [hk], by simp [hk]⟩
    | .letDecl name init (some type) =>
      rw [symbols, declarationWord, spells_token] at hsp
      obtain ⟨ts', rfl, _⟩ := hsp
      have htype := hg.2.2 type rfl
      refine ⟨type, ts', rfl, fun hk => ?_, fun hk => ?_⟩ <;>
      · rw [hk] at htype
        cases htype
    | .functionDecl name params body | .namespaceDecl name body =>
      rw [symbols, spells_mark] at hsp
      obtain ⟨t, ts', rfl, hk, _⟩ := hsp
      exact ⟨t, ts', rfl, by simp [hk], by simp [hk]⟩
    | .expr _ | .block _ | .branch _ _ _ | .returnStmt _ _ => cases hd

/-- No `else` follows where statements stand, unless it comes behind them. -/
theorem noElse_of_spells {ss : List (Stmt Unit)} (hg : AllGrammatical ss) {ts rest : List Token}
    (hsp : Spells (allSymbols ss) ts rest) (hrest : NoElse rest) : NoElse ts := by
  cases ss with
  | nil =>
    rw [allSymbols, spells_nil] at hsp
    rwa [hsp]
  | cons s ss =>
    rw [allSymbols, spells_append] at hsp
    obtain ⟨mid, hfirst, _⟩ := hsp
    obtain ⟨t, _, rfl, _, hk⟩ := exists_first hg.1 hfirst
    rintro _ ⟨⟩
    exact hk

theorem PlainReadable.readable (hg : s.Grammatical) (hd : s.isDeclaration = false)
    (h : s.PlainReadable eof) : s.Readable eof := by
  intro t ts rest hsp hopen
  obtain ⟨_, _, heq, ht⟩ := exists_first_plain hg hd hsp
  cases heq
  rw [parseDeclaration_of_startsPlain ht]
  exact (h (t :: ts) rest hsp hopen).declared _

/-! ### One lemma for each form -/

theorem expr_readable {e : Expr Unit} (hg : e.Grammatical) : (expr e).PlainReadable eof := by
  intro ts rest hsp _
  have hread : (parseExprStmt eof ts).Reads (expr e) rest :=
    parseExpr_expect_reads hg .semicolonAfterExpression (Or.inl rfl) hsp expr
  rw [symbols, spells_append] at hsp
  obtain ⟨mid, hfirst, _⟩ := hsp
  obtain ⟨t, ts', rfl, ht, _⟩ := e.exists_first hg hfirst
  rw [parseStatement_of_startsExpr ht]
  exact hread

theorem returnStmt_readable {keyword : Token} {value : Option (Expr Unit)}
    (hg : (returnStmt keyword value).Grammatical) :
    (returnStmt keyword value).PlainReadable eof := by
  intro ts rest hsp _
  rw [symbols, spells_token] at hsp
  obtain ⟨ts', rfl, hsp⟩ := hsp
  rw [parseStatement]
  simp only [hg.1]
  exact (parseReturn_reads hg.2 hsp).behind

theorem letDecl_readable {name : Token} {init : Option (Expr Unit)} {type : Option Token}
    (hg : (letDecl name init type).Grammatical) : (letDecl name init type).Readable eof := by
  intro t ts rest hsp _
  rw [parseDeclaration]
  refine Reads.declared _ ?_
  cases type with
  | none =>
    rw [symbols, declarationWord, spells_mark] at hsp
    obtain ⟨_, _, ⟨⟩, hk, hsp⟩ := hsp
    simp only [hk]
    exact (parseLet_reads hg hsp).behind
  | some type =>
    rw [symbols, declarationWord, spells_token] at hsp
    obtain ⟨_, ⟨⟩, hsp⟩ := hsp
    have hlet : (parseLet eof (some t) ts).behind.Reads _ rest := (parseLet_reads hg hsp).behind
    have htype := hg.2.2 t rfl
    cases hk : t.kind <;> rw [hk] at htype <;>
      first | exact hlet | exact absurd htype (by decide)

/-- Statements behind each other are read up to the closing brace. -/
theorem parseBlock_reads {body : List (Stmt Unit)} (hg : AllGrammatical body)
    (h : ∀ s ∈ body, s.Readable eof) {closing : Expected} {ts rest : List Token}
    (hsp : Spells (allSymbols body ++ [.mark .rightBrace]) ts rest) :
    (parseBlock eof closing ts).Reads body rest := by
  induction body generalizing ts with
  | nil =>
    simp only [allSymbols, List.nil_append, spells_mark, spells_nil] at hsp
    obtain ⟨t, _, rfl, hk, rfl⟩ := hsp
    rw [parseBlock, if_pos hk]
    exact reads_done _ _
  | cons s body ih =>
    rw [allSymbols, List.append_assoc, spells_append] at hsp
    obtain ⟨mid, hfirst, hmore⟩ := hsp
    obtain ⟨t, ts', rfl, hne, _⟩ := exists_first hg.1 hfirst
    have hno : NoElse mid := by
      obtain ⟨mid', hnext, hbrace⟩ := spells_append.mp hmore
      obtain ⟨brace, _, rfl, hk, _⟩ := spells_mark.mp hbrace
      refine noElse_of_spells hg.2 hnext ?_
      rintro _ ⟨⟩
      simp [hk]
    obtain ⟨hstmt, hrest, herr⟩ := h s List.mem_cons_self t ts' mid hfirst fun _ => hno
    have hbody := ih hg.2 (fun s' hs' => h s' (List.mem_cons_of_mem _ hs')) hmore
    rw [← hrest] at hbody
    rw [parseBlock, if_neg hne]
    refine Reads.relax (Reads.noting ?_ herr) _
    rw [hstmt]
    exact hbody.map _

theorem block_readable {body : List (Stmt Unit)} (hg : AllGrammatical body)
    (h : ∀ s ∈ body, s.Readable eof) : (block body).PlainReadable eof := by
  intro ts rest hsp _
  rw [symbols, spells_mark] at hsp
  obtain ⟨t, ts', rfl, hk, hsp⟩ := hsp
  rw [parseStatement]
  simp only [hk]
  exact ((parseBlock_reads hg h hsp).map block).behind

theorem functionDecl_readable {name : Token} {params : List Token} {body : List (Stmt Unit)}
    (hg : (functionDecl name params body).Grammatical) (h : ∀ s ∈ body, s.Readable eof) :
    (functionDecl name params body).Readable eof := by
  obtain ⟨hname, hparams, hcount, hbody⟩ := hg
  intro t ts rest hsp _
  rw [symbols_functionDecl, spells_mark] at hsp
  obtain ⟨_, _, ⟨⟩, hk, hsp⟩ := hsp
  obtain ⟨mid, hhead, hsp⟩ := spells_append.mp hsp
  rw [parseDeclaration]
  refine Reads.declared _ ?_
  simp only [hk]
  refine Reads.behind ((parseSignature_reads hname hparams hcount hhead).next fun hr => ?_)
  exact (parseBlock_reads hbody h hsp).map _

theorem namespaceDecl_readable {name : Token} {body : List (Stmt Unit)}
    (hg : (namespaceDecl name body).Grammatical) (h : ∀ s ∈ body, s.Readable eof) :
    (namespaceDecl name body).Readable eof := by
  intro t ts rest hsp _
  rw [symbols_namespaceDecl, spells_mark] at hsp
  obtain ⟨_, _, ⟨⟩, hk, hsp⟩ := hsp
  obtain ⟨mid, hhead, hsp⟩ := spells_append.mp hsp
  rw [parseDeclaration]
  refine Reads.declared _ ?_
  simp only [hk]
  refine Reads.behind ((parseNamespaceHead_reads hg.1 hhead).next fun hr => ?_)
  exact (parseBlock_reads hg.2 h hsp).map _

theorem branch_readable {c : Expr Unit} {s : Stmt Unit} (hc : c.Grammatical)
    (hs : s.PlainReadable eof) : (branch c s none).PlainReadable eof := by
  intro ts rest hsp hopen
  have hno : NoElse rest := hopen rfl
  rw [symbols_branch, spells_mark] at hsp
  obtain ⟨t, ts', rfl, hk, hsp⟩ := hsp
  obtain ⟨mid, hcond, hthen⟩ := spells_append.mp hsp
  rw [parseStatement]
  simp only [hk]
  refine Reads.behind ((parseCondition_reads hc hcond).next fun hr => ?_)
  refine (hs mid rest hthen fun _ => hno).andThen fun hr' => ?_
  cases rest with
  | nil => exact reads_done _ _
  | cons word more =>
    dsimp only
    rw [if_neg (hno word rfl)]
    exact reads_done _ _

/-- The first branch is closed, so the `else` behind it belongs to this `if`. -/
theorem branch_else_readable {c : Expr Unit} {s s' : Stmt Unit} (hc : c.Grammatical)
    (hs : s.PlainReadable eof) (hclosed : s.endsOpen = false) (hs' : s'.PlainReadable eof) :
    (branch c s (some s')).PlainReadable eof := by
  intro ts rest hsp hopen
  rw [symbols_branch_else, spells_mark] at hsp
  obtain ⟨t, ts', rfl, hk, hsp⟩ := hsp
  obtain ⟨mid, hcond, hsp⟩ := spells_append.mp hsp
  obtain ⟨mid', hthen, hsp⟩ := spells_append.mp hsp
  obtain ⟨word, more, rfl, hword, helse⟩ := spells_mark.mp hsp
  rw [parseStatement]
  simp only [hk]
  refine Reads.behind ((parseCondition_reads hc hcond).next fun hr => ?_)
  refine (hs mid _ hthen fun ho => absurd ho (by simp [hclosed])).andThen fun hr' => ?_
  dsimp only
  rw [if_pos hword]
  exact ((hs' more rest helse hopen).map _).behind.behind

end Stmt

/-! ## Every grammatical program is read -/

theorem Stmt.PlainReadable.both {s : Stmt Unit} (hg : s.Grammatical) (hd : s.isDeclaration = false)
    (h : s.PlainReadable eof) :
    (s.isDeclaration = false → s.PlainReadable eof) ∧ s.Readable eof :=
  ⟨fun _ => h, h.readable hg hd⟩

mutual

theorem Stmt.readable (eof : Token) : (s : Stmt Unit) → s.Grammatical →
    (s.isDeclaration = false → s.PlainReadable eof) ∧ s.Readable eof
  | .expr e, hg => (expr_readable hg).both hg rfl
  | .letDecl name init type, hg => ⟨fun hd => Bool.noConfusion hd, letDecl_readable hg⟩
  | .block body, hg => (block_readable hg (Stmt.all_readable eof body hg)).both hg rfl
  | .branch c t none, hg => by
    obtain ⟨hc, ht, hdecl⟩ := hg
    exact (branch_readable hc ((t.readable eof ht).1 hdecl)).both ⟨hc, ht, hdecl⟩ rfl
  | .branch c t (some e), hg => by
    obtain ⟨hc, ht, hdecl, hclosed, he, hdecl'⟩ := hg
    exact (branch_else_readable hc ((t.readable eof ht).1 hdecl) hclosed
      ((e.readable eof he).1 hdecl')).both ⟨hc, ht, hdecl, hclosed, he, hdecl'⟩ rfl
  | .returnStmt keyword value, hg => (returnStmt_readable hg).both hg rfl
  | .functionDecl name params body, hg =>
    ⟨fun hd => Bool.noConfusion hd,
      functionDecl_readable hg (Stmt.all_readable eof body hg.2.2.2)⟩
  | .namespaceDecl name body, hg =>
    ⟨fun hd => Bool.noConfusion hd, namespaceDecl_readable hg (Stmt.all_readable eof body hg.2)⟩

theorem Stmt.all_readable (eof : Token) :
    (ss : List (Stmt Unit)) → Stmt.AllGrammatical ss → ∀ s ∈ ss, s.Readable eof
  | [], _ => fun _ hs => absurd hs List.not_mem_nil
  | s :: ss, hg => by
    have hfirst := (s.readable eof hg.1).2
    have hmore := Stmt.all_readable eof ss hg.2
    intro s' hs
    rcases List.mem_cons.mp hs with rfl | hs
    · exact hfirst
    · exact hmore s' hs

end

/-- Statements at the front of the tokens are read, and what follows is read as if it stood alone.
Only an `else` could belong to what is in front of it. -/
theorem parseProgram_of_spells {p : Program Unit} (hg : Stmt.AllGrammatical p)
    {ts rest : List Token} (hsp : Spells (Stmt.allSymbols p) ts rest) (hrest : NoElse rest) :
    parseProgram eof ts = (p ++ (parseProgram eof rest).1, (parseProgram eof rest).2) := by
  induction p generalizing ts with
  | nil =>
    rw [Stmt.allSymbols, spells_nil] at hsp
    rw [hsp, List.nil_append]
  | cons s p ih =>
    rw [Stmt.allSymbols, spells_append] at hsp
    obtain ⟨mid, hfirst, hmore⟩ := hsp
    obtain ⟨t, ts', rfl, _⟩ := Stmt.exists_first hg.1 hfirst
    have hno : NoElse mid := Stmt.noElse_of_spells hg.2 hmore hrest
    obtain ⟨hstmt, hmid, herr⟩ := (s.readable eof hg.1).2 t ts' mid hfirst fun _ => hno
    rw [parseProgram]
    simp only [hstmt, hmid, herr, ih hg.2 hmore]
    rfl

theorem parseProgram_reads {p : Program Unit} (hg : Stmt.AllGrammatical p) {ts : List Token}
    (hsp : Spells (Stmt.allSymbols p) ts []) : parseProgram eof ts = (p, []) := by
  have hno : NoElse [] := by rintro _ ⟨⟩
  rw [parseProgram_of_spells hg hsp hno, parseProgram, List.append_nil]

/-! ## Reading and writing -/

/-- **What is written is read.** A grammatical program is read back from any tokens that it is
written out as, without a diagnostic. `eof` is the end of input behind them. -/
theorem parseProgram_of_writtenAs {p : Program Unit} {ts : List Token} (hg : p.Grammatical)
    (hw : p.WrittenAs ts) (eof : Token) : parseProgram eof ts = (p, []) :=
  parseProgram_reads hg (program_writtenAs_iff.mp hw)

/-- **What is read is written there.** If nothing is wrong with the tokens in front of the end of
input `eof`, the statements that are read are grammatical, and written out they are these tokens. -/
theorem writtenAs_of_parseProgram (eof : Token) (ts : List Token)
    (h : (parseProgram eof ts).2 = []) :
    (parseProgram eof ts).1.Grammatical ∧ (parseProgram eof ts).1.WrittenAs ts := by
  obtain ⟨hg, hsp⟩ := parseProgram_spells eof ts h
  exact ⟨hg, program_writtenAs_iff.mpr hsp⟩

/-! ### A sample

`do f(a) { if (a) return a; else { a = f(-1)(a) + 2 * (a); } } int b;`
-/

namespace Sample

/-- A token without a value, in the first line. -/
def tok (k : Kind) (text : String) : Token := ⟨k, text, none, 1, 0, 0⟩

/-- The token of an integer. -/
def num (n : Nat) : Token := ⟨.intLiteral, toString n, some (.int n), 1, 0, 0⟩

def tokens : List Token :=
  [tok .doWord "do", tok .identifier "f", tok .leftParen "(", tok .identifier "a",
    tok .rightParen ")", tok .leftBrace "\x7b",
    tok .ifWord "if", tok .leftParen "(", tok .identifier "a", tok .rightParen ")",
    tok .returnWord "return", tok .identifier "a", tok .semicolon ";",
    tok .elseWord "else", tok .leftBrace "\x7b",
    tok .identifier "a", tok .equal "=", tok .identifier "f", tok .leftParen "(", tok .minus "-",
    num 1, tok .rightParen ")", tok .leftParen "(", tok .identifier "a", tok .rightParen ")",
    tok .plus "+", num 2, tok .star "*", tok .leftParen "(", tok .identifier "a",
    tok .rightParen ")", tok .semicolon ";",
    tok .rightBrace "\x7d", tok .rightBrace "\x7d",
    tok .intType "int", tok .identifier "b", tok .semicolon ";"]

/-- `f(-1)(a) + 2 * (a)` -/
def sum : Expr Unit :=
  .binary
    (.call
      (.call (.reference (tok .identifier "f") ()) (tok .rightParen ")")
        [.unary (tok .minus "-") (.literal (.int 1))])
      (tok .rightParen ")") [.reference (tok .identifier "a") ()])
    (tok .plus "+")
    (.binary (.literal (.int 2)) (tok .star "*") (.group (.reference (tok .identifier "a") ())))

def program : Program Unit :=
  [.functionDecl (tok .identifier "f") [tok .identifier "a"]
    [.branch (.reference (tok .identifier "a") ())
      (.returnStmt (tok .returnWord "return") (some (.reference (tok .identifier "a") ())))
      (some (.block [.expr (.assign (tok .identifier "a") () sum)]))],
    .letDecl (tok .identifier "b") none (some (tok .intType "int"))]

theorem program_grammatical : program.Grammatical := by
  simp [Program.Grammatical, program, sum, Stmt.AllGrammatical, Stmt.Grammatical,
    Expr.Grammatical, Expr.AllGrammatical, Expr.strength, Stmt.isDeclaration, Stmt.endsOpen, tok,
    Kind.precedence?, Kind.isLogical, Kind.isUnary, Kind.isTypeWord, levelCount, listLimit]

theorem program_writtenAs : program.WrittenAs tokens := by
  simp [Program.WrittenAs, program, sum, tokens, Stmt.allSymbols, Stmt.symbols, Expr.symbols,
    Expr.symbolLists, Symbol.commas, paramSymbols, initSymbols, optionSymbols, declarationWord,
    Symbol.Shows, Token.value?, tok, num, Kind.isLiteral]

end Sample

theorem sample_reads_written : Sample.program.Grammatical ∧ Sample.program.WrittenAs Sample.tokens ∧
    parseProgram (Sample.tok .endOfInput "") Sample.tokens = (Sample.program, []) :=
  ⟨Sample.program_grammatical, Sample.program_writtenAs,
    parseProgram_of_writtenAs Sample.program_grammatical Sample.program_writtenAs _⟩

theorem sample_written_reads :
    (parseProgram (Sample.tok .endOfInput "") Sample.tokens).2 = [] ∧
      (parseProgram (Sample.tok .endOfInput "") Sample.tokens).1.Grammatical ∧
      (parseProgram (Sample.tok .endOfInput "") Sample.tokens).1.WrittenAs Sample.tokens := by
  have h : (parseProgram (Sample.tok .endOfInput "") Sample.tokens).2 = [] := by
    rw [parseProgram_reads Sample.program_grammatical
      (program_writtenAs_iff.mp Sample.program_writtenAs)]
  exact ⟨h, writtenAs_of_parseProgram _ _ h⟩

end RadixScript
