import Mathlib.Data.List.Permutation
import Mathlib.Order.Bounds.Defs
import RadixScript.Proofs.Recovery.Declarations
import RadixScript.Token.Scan

/-!
# Where reading resumes

A statement may begin in front of a word that starts one, behind a semicolon, and at the end of
input (`IsBoundary`). After an abandoned declaration, reading resumes at the first such place that
is behind the offence (`abandoned_resumes`). That is the first one of all, unless the offence itself
is a word that starts a statement: then the statement that begins there is passed over, although
reading it would have been a step forward.
-/

namespace RadixScript

variable {eof t : Token} {ts us l : List Token} {e j k : Nat}

/-! ## Boundaries -/

/-- A word that starts a statement is at the index. -/
def StartsAt (ts : List Token) (j : Nat) : Prop :=
  ∃ t, ts[j]? = some t ∧ t.kind.startsStatement = true

/-- A statement may begin at index `j`, for a reader who has come to index `e`. -/
def IsBoundary (ts : List Token) (e j : Nat) : Prop :=
  e ≤ j ∧ (j = ts.length ∨ StartsAt ts j ∨ e < j ∧ ∃ t, ts[j - 1]? = some t ∧ t.kind = .semicolon)

theorem isBoundary_one_cons (t : Token) (l : List Token) :
    IsBoundary (t :: l) 0 1 ↔ l = [] ∨ StartsAt l 0 ∨ t.kind = .semicolon := by
  simp [IsBoundary, StartsAt]

theorem isBoundary_succ_cons (t : Token) (l : List Token) (k : Nat) :
    IsBoundary (t :: l) 0 (k + 2) ↔ IsBoundary l 0 (k + 1) := by
  simp [IsBoundary, StartsAt]

/-- Boundaries are the same when they are counted from the offence. -/
theorem isBoundary_drop (he : e ≤ ts.length) :
    IsBoundary (ts.drop e) 0 k ↔ IsBoundary ts e (e + k) := by
  have hlength : k = (ts.drop e).length ↔ e + k = ts.length := by
    rw [List.length_drop]
    omega
  have hstarts : StartsAt (ts.drop e) k ↔ StartsAt ts (e + k) := by
    rw [StartsAt, StartsAt, List.getElem?_drop]
  have hbehind : (0 < k ∧ ∃ t, (ts.drop e)[k - 1]? = some t ∧ t.kind = .semicolon) ↔
      e < e + k ∧ ∃ t, ts[e + k - 1]? = some t ∧ t.kind = .semicolon := by
    rw [List.getElem?_drop, Nat.lt_add_right_iff_pos]
    refine and_congr_right fun hk => ?_
    rw [Nat.add_sub_assoc hk]
  rw [IsBoundary, IsBoundary, hlength, hstarts, hbehind]
  simp

/-! ## Recovery -/

theorem recover_cons_of_isBoundary (h : IsBoundary (t :: l) 0 1) : recover (t :: l) = l := by
  rw [isBoundary_one_cons] at h
  unfold recover
  split
  · rfl
  · cases l with
    | nil => rfl
    | cons next rest => simp_all [StartsAt]

theorem recover_cons_of_not_isBoundary (h : ¬ IsBoundary (t :: l) 0 1) :
    recover (t :: l) = recover l := by
  rw [isBoundary_one_cons] at h
  cases l with
  | nil => simp at h
  | cons next rest =>
    rw [recover]
    simp_all [StartsAt]

/-- Recovery drops the first token, and all behind it up to a boundary. -/
theorem recover_eq_drop (l : List Token) :
    ∃ k, recover l = l.drop k ∧ IsLeast {k | IsBoundary l 0 k ∧ (0 < k ∨ l = [])} k := by
  induction l with
  | nil => exact ⟨0, rfl, ⟨⟨Nat.le_refl 0, .inl rfl⟩, .inr rfl⟩, fun m _ => Nat.zero_le m⟩
  | cons t rest ih =>
    by_cases hone : IsBoundary (t :: rest) 0 1
    · refine ⟨1, ?_, ⟨hone, .inl Nat.one_pos⟩, ?_⟩
      · rw [recover_cons_of_isBoundary hone, List.drop_one, List.tail_cons]
      · rintro m ⟨-, hm | hm⟩
        · exact hm
        · cases hm
    · -- the boundaries of the rest are those of the whole, one index further on
      obtain ⟨k, hk, ⟨hboundary, hpos⟩, hleast⟩ := ih
      have hrest : rest ≠ [] := fun hnil => hone ((isBoundary_one_cons t rest).mpr (.inl hnil))
      obtain ⟨k, rfl⟩ := Nat.exists_eq_add_one.mpr (hpos.resolve_right hrest)
      have hlater := (isBoundary_succ_cons t rest k).mpr hboundary
      refine ⟨k + 2, ?_, ⟨hlater, .inl (by omega)⟩, ?_⟩
      · rw [recover_cons_of_not_isBoundary hone, hk, List.drop_succ_cons]
      · rintro m ⟨hm, hpos | hnil⟩
        · rcases Nat.eq_or_lt_of_le hpos with rfl | hlt
          · exact absurd hm hone
          · obtain ⟨m, rfl⟩ := Nat.exists_eq_add_of_le' hlt
            have hle := hleast ⟨(isBoundary_succ_cons t rest m).mp hm, .inl (Nat.succ_pos m)⟩
            omega
        · cases hnil

/-- Recovery from index `e` ends at the first boundary behind it. -/
theorem recover_drop (he : e ≤ ts.length) :
    ∃ j, recover (ts.drop e) = ts.drop j ∧
      IsLeast {j | IsBoundary ts e j ∧ (e < j ∨ e = ts.length)} j := by
  obtain ⟨k, hk, ⟨hboundary, hpos⟩, hleast⟩ := recover_eq_drop (ts.drop e)
  have hnil : ts.drop e = [] ↔ e = ts.length := by
    rw [List.drop_eq_nil_iff]
    omega
  rw [hnil] at hpos
  refine ⟨e + k, ?_, ⟨(isBoundary_drop he).mp hboundary, by omega⟩, ?_⟩
  · rw [hk, List.drop_drop]
  · rintro m ⟨hm, hlt⟩
    obtain ⟨d, rfl⟩ := Nat.exists_eq_add_of_le hm.1
    have hle := hleast ⟨(isBoundary_drop he).mpr hm, by rw [hnil]; omega⟩
    omega

/-- The first boundary behind index `e` is the first of all, unless there is one at `e` already. -/
theorem isLeast_boundary_iff
    (h : IsLeast {j | IsBoundary ts e j ∧ (e < j ∨ e = ts.length)} j) :
    IsLeast {j | IsBoundary ts e j} j ↔ ¬ StartsAt ts e := by
  obtain ⟨⟨hboundary, hbehind⟩, hleast⟩ := h
  constructor
  · rintro ⟨-, hfirst⟩ hstarts
    have hle : j ≤ e := hfirst ⟨Nat.le_refl e, .inr (.inl hstarts)⟩
    obtain ⟨t, ht, -⟩ := hstarts
    obtain ⟨hlt, -⟩ := List.getElem?_eq_some_iff.mp ht
    omega
  · intro hstarts
    refine ⟨hboundary, ?_⟩
    rintro m ⟨hle, hm⟩
    refine hleast ⟨⟨hle, hm⟩, ?_⟩
    rcases hm with hend | hword | hsemicolon
    · omega
    · rcases Nat.eq_or_lt_of_le hle with rfl | hlt
      · exact absurd hword hstarts
      · exact .inl hlt
    · exact .inl hsemicolon.1

/-! ## The offence -/

/-- A word that starts a statement is read before anything can go wrong. -/
theorem exists_behind_of_startsStatement (eof : Token) (ts : List Token)
    (h : t.kind.startsStatement = true) :
    ∃ a : Attempt ts.length (Stmt Unit), attemptDeclaration eof t ts = a.behind := by
  unfold Kind.startsStatement at h
  split at h
  case h_1 hkind | h_2 hkind | h_5 hkind =>
    rw [attemptDeclaration, hkind]
    exact ⟨_, rfl⟩
  case h_3 hkind | h_4 hkind =>
    simp only [attemptDeclaration, hkind, parseStatement]
    exact ⟨_, rfl⟩
  case h_6 => cases h

/-- A declaration that begins with such a word is not abandoned at it. -/
theorem offence_shorter {offence : List Token} {errors : List Diagnostic}
    {hle : offence.length ≤ ts.length + 1} (h : t.kind.startsStatement = true)
    (ha : attemptDeclaration eof t ts = .abandoned offence errors hle) :
    offence.length < (t :: ts).length := by
  obtain ⟨a, hbehind⟩ := exists_behind_of_startsStatement eof ts h
  rw [hbehind] at ha
  cases a with
  | parsed s rest errors' hr => cases ha
  | abandoned rest errors' hr =>
    cases ha
    exact Nat.lt_succ_of_le hr

/-- A declaration begins at index `i` of `ts` and is abandoned at index `e`, and reading resumes at
index `j`. -/
structure Resumes (eof : Token) (ts : List Token) (u : Token) (us : List Token) (i e j : Nat) :
    Prop where
  begins : ts.drop i = u :: us
  i_le : i ≤ e
  e_le : e ≤ ts.length
  /-- The last problem is at index `e`. -/
  abandoned : ∃ before p hle, attemptDeclaration eof u us =
    .abandoned (ts.drop e) (before ++ [.ofToken (ts[e]?.getD eof) (.grammatical p)]) hle
  rest_eq : (parseDeclaration eof u us).rest = ts.drop j
  isLeast_behind : IsLeast {j | IsBoundary ts e j ∧ (e < j ∨ e = ts.length)} j
  /-- No boundary is passed over, unless one is at index `e` already. -/
  isLeast_iff : IsLeast {j | IsBoundary ts e j} j ↔ ¬ StartsAt ts e
  /-- To resume there would have been a step forward. -/
  i_lt : StartsAt ts e → i < e

/-- **Reading resumes at the first boundary behind the offence.** This holds of every declaration
that is abandoned, however deep in blocks and branches it is. -/
theorem abandoned_resumes {u : Token} (h : Reading.Reaches eof (.program ts) (.declaration u us))
    (hnone : (parseDeclaration eof u us).stmt? = none) :
    ∃ i e j, Resumes eof ts u us i e j := by
  have hbegin : u :: us <:+ ts := h.tokens_suffix
  obtain ⟨offence, before, p, hle, hoffence, ha⟩ := exists_offence hnone
  have hoffenceLe := hoffence.length_le
  have hbeginLe := hbegin.length_le
  have hdrop := List.suffix_iff_eq_drop.mp (hoffence.trans hbegin)
  generalize he : ts.length - offence.length = e at hdrop
  have hee : e ≤ ts.length := by omega
  obtain ⟨j, hresume, hleast⟩ := recover_drop hee
  refine ⟨ts.length - (u :: us).length, e, j, ?_, by omega, hee, ⟨before, p, ?_⟩, ?_, hleast,
    isLeast_boundary_iff hleast, ?_⟩
  · exact (List.suffix_iff_eq_drop.mp hbegin).symm
  · subst hdrop
    rw [← List.head?_drop]
    exact ⟨hle, ha⟩
  · rw [← hresume, ← hdrop, parseDeclaration_eq, ha]
    rfl
  · -- the offence is not the first token, since a word that starts a statement is read
    rintro ⟨t, ht, hstarts⟩
    rw [← List.head?_drop, ← hdrop] at ht
    have hshort : offence.length ≠ (u :: us).length := by
      intro hlength
      rw [hoffence.eq_of_length hlength] at ht
      cases ht
      exact absurd hlength (Nat.ne_of_lt (offence_shorter hstarts ha))
    omega

/-- In a block, `let 1` is abandoned at the number. -/
theorem abandoned_resumes_in_block :
    ∃ s, scan "\x7b let 1; x; \x7d" = some s ∧
      ∃ u us, Reading.Reaches s.eof (.program s.tokens) (.declaration u us) ∧
        (parseDeclaration s.eof u us).stmt? = none ∧
        ∃ i e j, Resumes s.eof s.tokens u us i e j := by
  have h : ∃ s, scan "\x7b let 1; x; \x7d" = some s ∧
      ∃ u us, Reading.Reaches s.eof (.program s.tokens) (.declaration u us) ∧
        (parseDeclaration s.eof u us).stmt? = none := by
    refine ⟨_, by cbv, _, _, .head (.programFirst _ _) (.head
      (.statement (by decide) (by decide) (by decide) (by decide)) (.head (.blockBody rfl)
        (.single (.blockFirst _ _ _ (by decide))))), by cbv⟩
  obtain ⟨s, hs, u, us, hreaches, hnone⟩ := h
  exact ⟨s, hs, u, us, hreaches, hnone, abandoned_resumes hreaches hnone⟩

/-- The semicolon behind `print(1)` is missing, so the declaration is abandoned at `let`, where a
statement begins. The parser resumes behind it: the variable, in which there is no problem, is not
declared. -/
theorem let_behind_abandoned_statement :
    ∃ s, scan "print(1) let x = 2;" = some s ∧
      ∃ u us, Reading.Reaches s.eof (.program s.tokens) (.declaration u us) ∧
        (∃ errors hle, attemptDeclaration s.eof u us = .abandoned (s.tokens.drop 4) errors hle) ∧
        IsLeast {j | IsBoundary s.tokens 4 j} 4 ∧
        (parseDeclaration s.eof u us).rest = s.tokens.drop 9 ∧
        (∃ problem, parseProgram s.eof s.tokens = ([], [problem])) ∧
        ∃ stmt, parseProgram s.eof (s.tokens.drop 4) = ([stmt], []) := by
  refine ⟨_, by cbv, _, _, .single (.programFirst _ _), ⟨_, by decide, by cbv⟩, ?_, by cbv,
    ⟨_, by cbv⟩, ⟨_, by cbv⟩⟩
  exact ⟨⟨Nat.le_refl 4, .inr (.inl ⟨_, rfl, rfl⟩)⟩, fun j hj => hj.1⟩

end RadixScript
