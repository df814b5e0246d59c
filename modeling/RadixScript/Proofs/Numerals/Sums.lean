import Mathlib.Algebra.Order.Group.Unbundled.Int
import Mathlib.Data.List.Perm.Basic
import RadixScript.Proofs.Numerals.Operands

/-!
# Sums and distances of numerals

Sums and distances depend on the numbers that the operands stand for, and not on how these are
written. Since encoding a number leaves no choice, results are equal digit by digit: the order of
the summands, zeros in front of them and the way they are grouped make no difference, and taking
away a summand again gives the canonical form of the other one (`Radix.add_subtract_laws`).
-/

namespace RadixScript

/-! ## Zeros in front of an operand -/

/-- The numeral with `k` zeros in front of its digits. -/
def Numeral.pad (k : Nat) (x : Numeral) : Numeral where
  base := x.base
  digits := List.replicate k ⟨0, Nat.lt_of_succ_lt x.base.one_lt_radix⟩ ++ x.digits
  digits_ne_nil := List.append_ne_nil_of_right_ne_nil _ x.digits_ne_nil

theorem Numeral.toNat_pad (k : Nat) (x : Numeral) : (x.pad k).toNat = x.toNat := by
  refine ofDigitList_zeros_append ?_ x.digits
  intro d hd
  rw [List.eq_of_mem_replicate hd]

theorem Numeral.toList_digitText_pad (k : Nat) (x : Numeral) :
    (x.pad k).digitText.toList = List.replicate k '0' ++ x.digitText.toList := by
  rw [toList_digitText, toList_digitText, pad, List.map_append, List.map_replicate]
  rfl

theorem Text.upper_replicate_zero (k : Nat) :
    Text.upper (List.replicate k '0') = List.replicate k '0' := by
  have hzero : Text.upperChar '0' = ['0'] := by decide +kernel
  induction k with
  | zero => rfl
  | succ k ih =>
    rw [List.replicate_succ, Text.upper, List.flatMap_cons, hzero, ← Text.upper, ih]
    rfl

namespace Radix

variable {b : Base} {v w : Value} {us vs ws : List Value} {x y z : Numeral} {xs : List Numeral}

/-- The operand with `k` zeros in front of its digits, and behind its tag if it is a text. -/
def padZeros (k : Nat) : Value → Value
  | .numeral x => .numeral (x.pad k)
  | .text s =>
    .text (String.ofList (s.toList.take 2 ++ List.replicate k '0' ++ s.toList.drop 2))
  | v => v

theorem Denotes.padZeros (h : Denotes v x) (k : Nat) : Denotes (padZeros k v) (x.pad k) := by
  cases h with
  | numeral x => exact .numeral (x.pad k)
  | @text s x body hs hbody =>
    rw [Numeral.toList_tag] at hs
    have hpad : Text.upper (List.replicate k '0' ++ body) = (x.pad k).digitText.toList := by
      rw [Text.upper_append, Text.upper_replicate_zero, hbody, Numeral.toList_digitText_pad]
    refine .text ?_ hpad
    rw [Numeral.toList_tag, String.toList_ofList, hs]
    rfl

theorem OfBase.padZeros (h : OfBase b v) (k : Nat) : OfBase b (padZeros k v) := by
  obtain ⟨x, hx, hb⟩ := h
  exact ⟨x.pad k, hx.padZeros k, hb⟩

/-! ## Sums -/

/-- The number that an operand stands for. -/
def magnitude (v : Value) : Nat := ((numeral? v).map Numeral.toNat).getD 0

theorem Denotes.magnitude_eq (h : Denotes v x) : magnitude v = x.toNat := by
  rw [magnitude, numeral?_eq_some_iff.mpr h]
  rfl

theorem magnitude_padZeros (h : OfBase b v) (k : Nat) : magnitude (padZeros k v) = magnitude v := by
  obtain ⟨x, hx, -⟩ := h
  rw [(hx.padZeros k).magnitude_eq, hx.magnitude_eq, Numeral.toNat_pad]

theorem map_magnitude (h : List.Forall₂ Denotes vs xs) :
    vs.map magnitude = xs.map Numeral.toNat := by
  induction h with
  | nil => rfl
  | cons hx _ ih => rw [List.map_cons, List.map_cons, hx.magnitude_eq, ih]

theorem forall_ofBase (h : List.Forall₂ Denotes vs xs) (hb : ∀ x ∈ xs, x.base = b) :
    ∀ v ∈ vs, OfBase b v := by
  induction h with
  | nil => exact List.forall_mem_nil _
  | cons hx _ ih =>
    rw [List.forall_mem_cons] at hb ⊢
    exact ⟨⟨_, hx, hb.1⟩, ih hb.2⟩

theorem exists_forall₂_denotes (h : ∀ v ∈ vs, OfBase b v) :
    ∃ xs, List.Forall₂ Denotes vs xs ∧ ∀ x ∈ xs, x.base = b := by
  induction vs with
  | nil => exact ⟨[], .nil, List.forall_mem_nil _⟩
  | cons v vs ih =>
    rw [List.forall_mem_cons] at h
    obtain ⟨x, hx, hb⟩ := h.1
    obtain ⟨xs, hxs, hbs⟩ := ih h.2
    exact ⟨x :: xs, .cons hx hxs, List.forall_mem_cons.mpr ⟨hb, hbs⟩⟩

theorem sum_eq_ofNat (b : Base) (xs : List Numeral) :
    Numeral.sum b xs = .ofNat b (xs.map Numeral.toNat).sum := by
  rw [Numeral.sum, List.sum, List.foldr_map]
  simp only [Numeral.toDecimal_eq_toNat]

/-- A sum succeeds when there are operands and all have one base. -/
theorem add_eq_ok_iff :
    add vs = .ok z ↔
      vs ≠ [] ∧ ∃ b, (∀ v ∈ vs, OfBase b v) ∧ z = .ofNat b (vs.map magnitude).sum := by
  cases vs with
  | nil =>
    constructor
    · nofun
    · rintro ⟨hne, -⟩
      exact absurd rfl hne
  | cons v vs =>
    have hadd : add (v :: vs) = (v :: vs).mapM (operand .add) >>= fun xs =>
      commonBase .add xs >>= fun b => pure (.sum b xs) := rfl
    simp only [hadd, bind_eq_ok_iff, pure_eq_ok_iff, mapM_operand_eq_ok_iff, commonBase_eq_ok_iff]
    constructor
    · rintro ⟨xs, hxs, b, ⟨-, hb⟩, rfl⟩
      refine ⟨List.cons_ne_nil v vs, b, forall_ofBase hxs hb, ?_⟩
      rw [sum_eq_ofNat, map_magnitude hxs]
    · rintro ⟨-, b, hb, rfl⟩
      obtain ⟨xs, hxs, hbs⟩ := exists_forall₂_denotes hb
      have hne : xs ≠ [] := by
        rintro rfl
        cases hxs
      refine ⟨xs, hxs, b, ⟨hne, hbs⟩, ?_⟩
      rw [sum_eq_ofNat, map_magnitude hxs]

theorem add_of_ofBase (hne : vs ≠ []) (h : ∀ v ∈ vs, OfBase b v) :
    add vs = .ok (.ofNat b (vs.map magnitude).sum) :=
  add_eq_ok_iff.mpr ⟨hne, b, h, rfl⟩

/-- Sums of the same numbers in the same base are the same. -/
theorem add_congr (hne : vs ≠ []) (hne' : ws ≠ []) (h : ∀ v ∈ vs, OfBase b v)
    (h' : ∀ w ∈ ws, OfBase b w) (hsum : (ws.map magnitude).sum = (vs.map magnitude).sum) :
    add ws = add vs := by
  rw [add_of_ofBase hne h, add_of_ofBase hne' h', hsum]

/-- The order of the summands makes no difference. -/
theorem add_perm (hne : vs ≠ []) (h : ∀ v ∈ vs, OfBase b v) (hperm : ws.Perm vs) :
    add ws = add vs := by
  refine add_congr hne ?_ h (fun w hw => h w (hperm.subset hw)) (hperm.map magnitude).sum_nat
  rintro rfl
  exact hne hperm.nil_eq.symm

/-- Zeros in front of the summands make no difference. -/
theorem add_padZeros (hne : vs ≠ []) (h : ∀ v ∈ vs, OfBase b v)
    (hpad : List.Forall₂ (fun v w => ∃ k, w = padZeros k v) vs ws) : add ws = add vs := by
  have hboth : (∀ w ∈ ws, OfBase b w) ∧ ws.map magnitude = vs.map magnitude := by
    clear hne
    induction hpad with
    | nil => exact ⟨List.forall_mem_nil _, rfl⟩
    | cons hk _ ih =>
      obtain ⟨k, rfl⟩ := hk
      rw [List.forall_mem_cons] at h ⊢
      obtain ⟨hbase, hmag⟩ := ih h.2
      refine ⟨⟨h.1.padZeros k, hbase⟩, ?_⟩
      rw [List.map_cons, List.map_cons, magnitude_padZeros h.1, hmag]
  refine add_congr hne ?_ h hboth.1 (congrArg List.sum hboth.2)
  rintro rfl
  cases hpad
  exact hne rfl

/-- Some of the summands can be added first. -/
theorem add_regroup (hne : us ≠ []) (h : ∀ v ∈ us ++ ws, OfBase b v) :
    ∃ z, add us = .ok z ∧ add (.numeral z :: ws) = add (us ++ ws) := by
  have hfirst : ∀ v ∈ us, OfBase b v := fun v hv => h v (List.mem_append_left ws hv)
  have hrest : ∀ v ∈ ws, OfBase b v := fun v hv => h v (List.mem_append_right us hv)
  refine ⟨_, add_of_ofBase hne hfirst, ?_⟩
  set z := Numeral.ofNat b (us.map magnitude).sum with hz
  have hden : Denotes (.numeral z) z := .numeral z
  refine add_congr (List.append_ne_nil_of_left_ne_nil hne ws) (List.cons_ne_nil _ _) h ?_ ?_
  · exact List.forall_mem_cons.mpr ⟨⟨z, hden, rfl⟩, hrest⟩
  · rw [List.map_cons, List.sum_cons, hden.magnitude_eq, hz, Numeral.toNat_ofNat, List.map_append,
      List.sum_append]

theorem add_fails_iff : (∃ p, add vs = .error p) ↔ vs = [] ∨ Unfit vs := by
  rw [fails_iff, ← not_iff_not, not_not, not_or]
  constructor
  · rintro ⟨z, hz⟩
    obtain ⟨hne, b, hb, -⟩ := add_eq_ok_iff.mp hz
    exact ⟨hne, (not_unfit_iff hne).mpr ⟨b, hb⟩⟩
  · rintro ⟨hne, hfit⟩
    obtain ⟨b, hb⟩ := (not_unfit_iff hne).mp hfit
    exact ⟨_, add_of_ofBase hne hb⟩

/-! ## Distances -/

theorem subtract_eq_onPair : subtract v w = onPair .subtract Numeral.distance v w := rfl

theorem distance_eq_ofNat (b : Base) (x y : Numeral) :
    Numeral.distance b x y = .ofNat b ((x.toNat : Int) - y.toNat).natAbs := by
  rw [Numeral.distance, Numeral.toDecimal_eq_toNat, Numeral.toDecimal_eq_toNat]

theorem subtract_of_denotes (hx : Denotes v x) (hy : Denotes w y) (hb : x.base = y.base) :
    subtract v w = .ok (.ofNat x.base ((x.toNat : Int) - y.toNat).natAbs) := by
  rw [subtract_eq_onPair, onPair_of_denotes hx hy hb, distance_eq_ofNat]

theorem subtract_comm_of_denotes (hx : Denotes v x) (hy : Denotes w y) (hb : x.base = y.base) :
    subtract v w = subtract w v := by
  rw [subtract_of_denotes hx hy hb, subtract_of_denotes hy hx hb.symm, hb, ← Int.natAbs_neg,
    Int.neg_sub]

/-- Taking a summand away again leaves the canonical form of the other one. -/
theorem subtract_add (hx : Denotes v x) (hy : Denotes w y) (hb : x.base = y.base) :
    ∃ z, add [v, w] = .ok z ∧ subtract (.numeral z) w = .ok x.canonical := by
  have hbase : ∀ u ∈ [v, w], OfBase x.base u :=
    List.forall_mem_cons.mpr ⟨⟨x, hx, rfl⟩, List.forall_mem_singleton.mpr ⟨y, hy, hb.symm⟩⟩
  have hsum : ([v, w].map magnitude).sum = x.toNat + y.toNat := by
    simp [hx.magnitude_eq, hy.magnitude_eq]
  refine ⟨_, add_of_ofBase (List.cons_ne_nil v [w]) hbase, ?_⟩
  have hback : ((x.toNat + y.toNat : Nat) - y.toNat : Int).natAbs = x.toNat := by omega
  rw [hsum, subtract_of_denotes (.numeral (.ofNat x.base _)) hy hb, Numeral.toNat_ofNat, hback,
    Numeral.base_ofNat, Numeral.ofNat_toNat]

/-- **Sums and distances of operands.** Operands denote numerals of one base.

* Their sum is the canonical numeral of that base for the sum of the numbers. It stays the same in
  any order of the operands, with any zeros in front of them, and when some of them are added first.
* The distance of two operands is the canonical numeral for the absolute difference. It stays the
  same when they change places, and a sum less its second operand is the first in canonical form.
* A sum fails exactly without operands or with unfit ones, a distance exactly with unfit ones. -/
theorem add_subtract_laws :
    (∀ b vs xs, vs ≠ [] → List.Forall₂ Denotes vs xs → (∀ x ∈ xs, x.base = b) →
      (∃ z, add vs = .ok z ∧ z.base = b ∧ z.IsCanonical ∧
        z.toNat = (xs.map Numeral.toNat).sum) ∧
      (∀ ws, ws.Perm vs → add ws = add vs) ∧
      (∀ ws, List.Forall₂ (fun v w => ∃ k, w = padZeros k v) vs ws → add ws = add vs) ∧
      ∀ us ws, us ≠ [] → (us ++ ws).Perm vs →
        ∃ z, add us = .ok z ∧ add (.numeral z :: ws) = add vs) ∧
    (∀ v w x y, Denotes v x → Denotes w y → x.base = y.base →
      (∃ z, subtract v w = .ok z ∧ z.base = x.base ∧ z.IsCanonical ∧
        (z.toNat : Int) = |(x.toNat : Int) - y.toNat|) ∧
      subtract v w = subtract w v ∧
      ∃ z, add [v, w] = .ok z ∧ subtract (.numeral z) w = .ok x.canonical) ∧
    (∀ vs, (∃ p, add vs = .error p) ↔ vs = [] ∨ Unfit vs) ∧
    (∀ v w, (∃ p, subtract v w = .error p) ↔ Unfit [v, w]) := by
  refine ⟨fun b vs xs hne hxs hb => ?_, fun v w x y hx hy hb => ?_, fun vs => add_fails_iff,
    fun v w => onPair_fails_iff⟩
  · have h : ∀ v ∈ vs, OfBase b v := forall_ofBase hxs hb
    refine ⟨⟨_, add_of_ofBase hne h, rfl, Numeral.isCanonical_ofNat _ _, ?_⟩,
      fun ws => add_perm hne h, fun ws => add_padZeros hne h, fun us ws hus hperm => ?_⟩
    · rw [Numeral.toNat_ofNat, map_magnitude hxs]
    · obtain ⟨z, hz, hadd⟩ := add_regroup hus fun v hv => h v (hperm.subset hv)
      exact ⟨z, hz, hadd.trans (add_perm hne h hperm)⟩
  · refine ⟨⟨_, subtract_of_denotes hx hy hb, rfl, Numeral.isCanonical_ofNat _ _, ?_⟩,
      subtract_comm_of_denotes hx hy hb, subtract_add hx hy hb⟩
    rw [Numeral.toNat_ofNat, Int.natCast_natAbs]

/-- The number fifteen with a zero in front of its digit. -/
def paddedFifteen : Numeral where
  base := .hexadecimal
  digits := [⟨0, by decide⟩, ⟨15, by decide⟩]
  digits_ne_nil := List.cons_ne_nil _ _

theorem denotes_paddedFifteen : Denotes (.text "0x0f") paddedFifteen :=
  @Denotes.text _ _ ['0', 'f'] (by decide +kernel) (by decide +kernel)

theorem add_subtract_laws_paddedFifteen :
    (∃ z, add [.text "0x0f", .numeral (.ofNat .hexadecimal 1)] = .ok z ∧ z.toNat = 16) ∧
    add [.text "0x000f", .numeral (.ofNat .hexadecimal 1)]
      = add [.text "0x0f", .numeral (.ofNat .hexadecimal 1)] ∧
    ∃ z, subtract (.numeral (.ofNat .hexadecimal 1)) (.text "0x0f") = .ok z ∧
      (z.toNat : Int) = 14 := by
  have hone : Denotes (.numeral (.ofNat .hexadecimal 1)) (.ofNat .hexadecimal 1) := .numeral _
  obtain ⟨⟨z, hz, -, -, hsum⟩, -, hpad, -⟩ := add_subtract_laws.1 .hexadecimal _ _
    (List.cons_ne_nil _ _) (.cons denotes_paddedFifteen (.cons hone .nil))
    (List.forall_mem_cons.mpr ⟨rfl, List.forall_mem_singleton.mpr rfl⟩)
  obtain ⟨⟨z', hz', -, -, hdiff⟩, -⟩ :=
    add_subtract_laws.2.1 _ _ _ _ hone denotes_paddedFifteen rfl
  have htext : Value.text "0x000f" = padZeros 2 (.text "0x0f") :=
    congrArg Value.text (by decide +kernel)
  have hself : Value.numeral (.ofNat .hexadecimal 1)
      = padZeros 0 (.numeral (.ofNat .hexadecimal 1)) := rfl
  rw [List.map_cons, List.map_singleton, Numeral.toNat_ofNat] at hsum
  rw [Numeral.toNat_ofNat] at hdiff
  exact ⟨⟨z, hz, hsum⟩, hpad _ (.cons ⟨2, htext⟩ (.cons ⟨0, hself⟩ .nil)), ⟨z', hz', hdiff⟩⟩

end Radix

end RadixScript
