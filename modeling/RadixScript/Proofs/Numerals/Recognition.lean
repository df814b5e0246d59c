import RadixScript.Proofs.Numerals.Spelling
import RadixScript.Proofs.Pieces.Segments

/-!
# Three readers of numerals

Bare digits, tagged texts and literals in a program are read by three functions. The first two
upper-case the text as a whole and the scanner looks at one character at a time, so they could
disagree on a character whose upper case is more than one digit. There is exactly one, the ligature
of two letters `f`: `recognisers_differ_on_ligature` says that the three readers agree on every
other text, and that the scanner alone keeps to the digits of the base in either case.

All of it comes down to the tables of upper case. Only the run of the ASCII letters reaches a digit
(`Text.toUpper_of_upperChar`), and only one expansion consists of digits
(`Text.eq_ligature_of_upperChar`).
-/

namespace RadixScript

/-! ## Upper case of digits -/

namespace Text

variable {c u : Char} {cs : List Char}

/-- The ligature of two letters `f`, whose upper case is two digits of base sixteen. -/
def ligature : Char := '\ufb00'

theorem upperChar_ligature : upperChar ligature = ['F', 'F'] := by decide +kernel

/-- An upper case is an entry of the table of expansions, or one character. -/
theorem upperChar_cases (c : Char) :
    (∃ ns, (c.toNat, ns) ∈ caseExpansions ∧ upperChar c = ns.map Char.ofNat) ∨
      ∃ u, upperChar c = [u] := by
  unfold upperChar
  split
  · next ns hns =>
    obtain ⟨_, _, hsplit, -⟩ := List.lookup_eq_some_iff.mp hns
    exact .inl ⟨ns, hsplit ▸ by simp, rfl⟩
  · split <;> exact .inr ⟨_, rfl⟩

theorem upperChar_ne_nil (c : Char) : upperChar c ≠ [] := by
  have hall : ∀ e ∈ caseExpansions, e.2 ≠ [] := by decide +kernel
  rcases upperChar_cases c with ⟨ns, hmem, hupper⟩ | ⟨u, hupper⟩
  · rw [hupper]
    simpa using hall _ hmem
  · simp [hupper]

/-- Upper-casing never makes a text shorter. -/
theorem length_le_upper (cs : List Char) : cs.length ≤ (upper cs).length := by
  induction cs with
  | nil => exact Nat.le_refl _
  | cons c cs ih =>
    have hpos := List.length_pos_iff.mpr (upperChar_ne_nil c)
    rw [upper, List.flatMap_cons, ← upper, List.length_append, List.length_cons]
    omega

/-- Only the ligature becomes several digits. -/
theorem eq_ligature_of_upperChar (h : ∀ u ∈ upperChar c, (digitOf? u).isSome = true) :
    c = ligature ∨ ∃ u, upperChar c = [u] := by
  have hall : ∀ e ∈ caseExpansions,
      (∀ n ∈ e.2, (digitOf? (Char.ofNat n)).isSome = true) → e.1 = 0xFB00 := by decide +kernel
  refine (upperChar_cases c).imp_left ?_
  rintro ⟨ns, hmem, hupper⟩
  have hcode : c.toNat = 0xFB00 := by
    refine hall _ hmem fun n hn => h _ ?_
    rw [hupper]
    exact List.mem_map_of_mem hn
  rw [← Char.ofNat_toNat c, hcode]
  rfl

theorem toUpper_of_isLower (hlo : 0x61 ≤ c.toNat) (hhi : c.toNat ≤ 0x7A) :
    c.toUpper = Char.ofNat (c.toNat - 0x20) := by
  have hall : ∀ n < 0x7B, 0x61 ≤ n → (Char.ofNat n).toUpper = Char.ofNat (n - 0x20) := by
    decide +kernel
  have hupper := hall c.toNat (Nat.lt_succ_of_le hhi) hlo
  rwa [Char.ofNat_toNat] at hupper

theorem CaseRun.of_image?_eq_some {r : CaseRun} {n m : Nat} (h : r.image? n = some m) :
    r.first ≤ n ∧ n ≤ r.last ∧ m = r.target + (n - r.first) := by
  rw [image?] at h
  split at h
  · next hheld => exact ⟨hheld.1, hheld.2.1, (Option.some.inj h).symm⟩
  · cases h

/-- A number that is no code point stands for the null character, so any other has its number. -/
theorem toNat_ofNat_of_pos {n : Nat} (h : 0 < (Char.ofNat n).toNat) : (Char.ofNat n).toNat = n := by
  by_cases hvalid : n.isValidChar
  · rw [Char.ofNat, dif_pos hvalid]
    rfl
  · rw [Char.ofNat, dif_neg hvalid] at h
    exact absurd h (Nat.lt_irrefl 0)

/-- What becomes one digit is that digit, in either case. -/
theorem toUpper_of_upperChar {k : Nat} (hk : k < 16) (h : upperChar c = [digitChar k]) :
    c.toUpper = digitChar k := by
  have hlong : ∀ e ∈ caseExpansions, 1 < e.2.length := by decide +kernel
  -- every run but the one of the ASCII letters lies above the digits
  have hruns : ∀ r ∈ caseRuns,
      (r.first = 0x61 ∧ r.last = 0x7A ∧ r.target = 0x41) ∨ 0x46 < r.target := by decide +kernel
  have hcode : ∀ k < 16, 0 < (digitChar k).toNat ∧ (digitChar k).toNat ≤ 0x46 ∧
      (digitChar k).toUpper = digitChar k := by decide
  obtain ⟨hpos, hle, hsame⟩ := hcode k hk
  unfold upperChar at h
  split at h
  · next ns hns =>
    obtain ⟨_, _, hsplit, -⟩ := List.lookup_eq_some_iff.mp hns
    have hone : 1 < ns.length := hlong (c.toNat, ns) (hsplit ▸ by simp)
    have hlength := congrArg List.length h
    simp only [List.length_map, List.length_singleton] at hlength
    omega
  · split at h
    · next n hn =>
      obtain ⟨r, hr, himage⟩ := List.exists_of_findSome?_eq_some hn
      obtain ⟨hlo, hhi, htarget⟩ := CaseRun.of_image?_eq_some himage
      have hdigit : Char.ofNat n = digitChar k := by simpa using h
      have hn : n = (digitChar k).toNat := by
        rw [← hdigit] at hpos ⊢
        exact (toNat_ofNat_of_pos hpos).symm
      rcases hruns r hr with ⟨hfirst, hlast, hletter⟩ | habove
      · have hpartner : n = c.toNat - 0x20 := by omega
        rw [toUpper_of_isLower (by omega) (by omega), ← hpartner, hdigit]
      · omega
    · obtain rfl : c = digitChar k := by simpa using h
      exact hsame

end Text

/-! ## Digits of a base -/

namespace Base

open Text

variable {b : Base} {c : Char} {cs : List Char} {ds : List (Fin b.radix)}

theorem digitAnyCase?_eq_some_iff {d : Fin b.radix} :
    b.digitAnyCase? c = some d ↔ c.toUpper = digitChar d.val := by
  refine ⟨fun h => ?_, digitAnyCase?_of_toUpper⟩
  unfold digitAnyCase? at h
  split at h
  · next u hu =>
    obtain rfl := digit?_eq_some_iff.mp h
    exact toUpper_of_upperChar (Nat.lt_of_lt_of_le d.isLt b.radix_le_sixteen) hu
  · cases h

/-- **The scanner takes the digits of the base in either case, and nothing else.** -/
theorem isDigit_iff : b.isDigit c = true ↔ c.toUpper ∈ b.alphabet := by
  rw [isDigit, Option.isSome_iff_exists, alphabet_eq, List.mem_map]
  constructor
  · rintro ⟨d, hd⟩
    exact ⟨d.val, List.mem_range.mpr d.isLt, (digitAnyCase?_eq_some_iff.mp hd).symm⟩
  · rintro ⟨n, hn, hdigit⟩
    exact ⟨⟨n, List.mem_range.mp hn⟩, digitAnyCase?_eq_some_iff.mpr hdigit.symm⟩

theorem isDigit_ligature (b : Base) : b.isDigit ligature = false := by
  cases b <;> decide +kernel

theorem upperChar_of_digitAnyCase? {d : Fin b.radix} (h : b.digitAnyCase? c = some d) :
    upperChar c = [digitChar d.val] := by
  unfold digitAnyCase? at h
  split at h
  · next u hu => rw [hu, digit?_eq_some_iff.mp h]
  · cases h

theorem ligature_notMem (h : ∀ c ∈ cs, b.isDigit c = true) : ligature ∉ cs :=
  fun hmem => Bool.false_ne_true (b.isDigit_ligature.symm.trans (h _ hmem))

/-- A run of digits is the upper case of what it is read as. -/
theorem upper_of_isDigit (h : ∀ c ∈ cs, b.isDigit c = true) :
    upper cs = (b.digitsOf cs).map fun d => digitChar d.val := by
  induction cs with
  | nil => rfl
  | cons c cs ih =>
    rw [List.forall_mem_cons] at h
    obtain ⟨d, hd⟩ := Option.isSome_iff_exists.mp h.1
    have hcons : b.digitsOf (c :: cs) = d :: b.digitsOf cs := List.filterMap_cons_some hd
    rw [upper, List.flatMap_cons, ← upper, upperChar_of_digitAnyCase? hd, ih h.2, hcons]
    rfl

/-- Without the ligature, a text whose upper case is digits is a run of digits. -/
theorem isDigit_of_upper (h : upper cs = ds.map fun d => digitChar d.val)
    (hligature : ligature ∉ cs) : ∀ c ∈ cs, b.isDigit c = true := by
  induction cs generalizing ds with
  | nil => nofun
  | cons c cs ih =>
    rw [List.mem_cons, not_or] at hligature
    rw [upper, List.flatMap_cons, ← upper] at h
    have hdigits : ∀ u ∈ upperChar c, (digitOf? u).isSome = true := by
      intro u hu
      have hmem : u ∈ ds.map fun d => digitChar d.val := h ▸ List.mem_append_left _ hu
      obtain ⟨d, -, rfl⟩ := List.mem_map.mp hmem
      rw [digitOf?_digitChar (Nat.lt_of_lt_of_le d.isLt b.radix_le_sixteen)]
      rfl
    obtain ⟨u, hu⟩ := (eq_ligature_of_upperChar hdigits).resolve_left (Ne.symm hligature.1)
    rw [hu] at h
    cases ds with
    | nil => cases h
    | cons d ds =>
      obtain ⟨rfl, hcs⟩ := List.cons.inj h
      have hd : b.digitAnyCase? c = some d := by
        rw [digitAnyCase?, hu]
        exact digit?_digitChar b d
      exact List.forall_mem_cons.mpr ⟨by rw [isDigit, hd]; rfl, ih hcs hligature.2⟩

/-- The ligature is what makes the upper case of a text longer. -/
theorem length_eq_iff_of_upper (h : upper cs = ds.map fun d => digitChar d.val) :
    ds.length = cs.length ↔ ligature ∉ cs := by
  have hlength : (upper cs).length = ds.length := by rw [h, List.length_map]
  constructor
  · intro heq hmem
    obtain ⟨front, back, rfl⟩ := List.append_of_mem hmem
    have hfront := length_le_upper front
    have hback := length_le_upper back
    have hcons : upper (ligature :: back) = ['F', 'F'] ++ upper back := by
      rw [upper, List.flatMap_cons, upperChar_ligature, ← upper]
    rw [upper_append, hcons] at hlength
    simp only [List.length_append, List.length_cons, List.length_nil] at hlength heq
    omega
  · intro hligature
    have hdigits := isDigit_of_upper h hligature
    have heq := upper_of_isDigit hdigits
    rw [← hlength, heq, List.length_map, length_digitsOf hdigits]

/-- In base two no text is read with a ligature in it. -/
theorem eq_hexadecimal_of_ligature (h : upper cs = ds.map fun d => digitChar d.val)
    (hligature : ligature ∈ cs) : b = .hexadecimal := by
  have hmem : 'F' ∈ upper cs :=
    List.mem_flatMap.mpr ⟨ligature, hligature, upperChar_ligature ▸ List.mem_cons_self⟩
  rw [h] at hmem
  obtain ⟨d, -, hd⟩ := List.mem_map.mp hmem
  cases b with
  | hexadecimal => rfl
  | binary =>
    have hall : ∀ d : Fin 2, digitChar d.val ≠ 'F' := by decide
    exact absurd hd (hall d)

end Base

/-! ## Bare digits and tagged texts -/

namespace Numeral

variable {b : Base} {d : String} {x : Numeral}

theorem ofText_of_isDigit (h : ∀ c ∈ d.toList, b.isDigit c = true)
    (hne : b.digitsOf d.toList ≠ []) : ofText b d = .ok ⟨b, b.digitsOf d.toList, hne⟩ :=
  ofText_eq_ok_iff.mpr ⟨rfl, by rw [toList_digitText, Base.upper_of_isDigit h]⟩

theorem toList_tagged (b : Base) (d : String) :
    (b.tag ++ d).toList = '0' :: b.letter :: d.toList := by
  rw [String.toList_append, toList_tag]
  rfl

/-- **A tagged text is read as its digits are.** -/
theorem ofTagged?_tag_append : ofTagged? (b.tag ++ d) = some x ↔ ofText b d = .ok x := by
  rw [ofText_eq_ok_iff, ofTagged?_eq_some_iff, toList_tagged, toList_tag]
  constructor
  · rintro ⟨body, htext, hupper⟩
    obtain ⟨hletter, rfl⟩ := List.cons.inj (List.cons.inj htext).2
    have hbase := Base.ofLetter?_eq_some_iff.mpr hletter
    rw [Base.ofLetter?_eq_some_iff.mpr rfl, Option.some.injEq] at hbase
    exact ⟨hbase.symm, hupper⟩
  · rintro ⟨rfl, hupper⟩
    exact ⟨d.toList, rfl, hupper⟩

end Numeral

/-! ## Literals -/

/-- The text is one literal of the base and nothing else: the token goes over the whole text, and
what follows it is the end. -/
def IsLiteral (b : Base) (source : String) (t : Token) : Prop :=
  ∃ e, scanStrict source = .ok [t, e] ∧ t.kind = .ofBase b ∧ t.span = ⟨0, source.length⟩ ∧
    e.kind = .endOfInput

/-- The token of the digits `d`, with their tag in front of them, when they are read as `x`. -/
def literalToken (b : Base) (d : String) (x : Numeral) : Token :=
  ⟨.ofBase b, b.tag ++ d, some (.numeral x), 1, 0, (b.tag ++ d).length⟩

section Literals

variable {b : Base} {d : String} {t : Token} {x : Numeral}

theorem pieces_tagged (b : Base) (cs : List Char) :
    pieces ('0' :: b.letter :: cs) =
      (Piece.cutNumeral b b.letter cs).1 :: pieces (Piece.cutNumeral b b.letter cs).2 := by
  have hcut : Piece.cut '0' (b.letter :: cs) = Piece.cutNumeral b b.letter cs := by
    rw [Piece.cut_of_ofMark?_eq_none rfl rfl,
      Piece.cutOther_numeral (Base.ofLetter?_eq_some_iff.mpr rfl)]
  rw [pieces, hcut]

/-- The strict scanner begins with the token of the first piece. -/
theorem scanStrict_of_lexeme {source : String} {kind : Kind} {literal : Option Literal}
    {text : List Char} {ps : List Piece}
    (h : pieces source.toList = .lexeme kind literal text :: ps) :
    ∃ e : Token, e.kind = .endOfInput ∧ scanStrict source =
      (collectStrict (locate (1 + text.count '\n') text.length ps).1).map fun ts =>
        ⟨kind, String.ofList text, literal, 1, 0, text.length⟩ :: (ts ++ [e]) := by
  refine ⟨(locate (1 + text.count '\n') text.length ps).2, by rw [locate_snd]; rfl, ?_⟩
  rw [scanStrict, h]
  simp only [locate, Piece.finding?, Piece.lineBreaks, Piece.text, Option.toList_some,
    List.singleton_append, collectStrict, Nat.zero_add]
  cases collectStrict (locate (1 + text.count '\n') text.length ps).1 <;> rfl

/-- A text that is read as a numeral, and has no ligature in it, is a literal. -/
theorem isLiteral_of_ofText (hx : Numeral.ofText b d = .ok x)
    (hligature : Text.ligature ∉ d.toList) :
    IsLiteral b (b.tag ++ d) (literalToken b d x) := by
  obtain ⟨rfl, hupper⟩ := Numeral.ofText_eq_ok_iff.mp hx
  rw [Numeral.toList_digitText] at hupper
  have hdigits := Base.isDigit_of_upper hupper hligature
  have hvalues : x.base.digitsOf d.toList = x.digits := by
    refine List.map_injective_iff.mpr ?_ ((Base.upper_of_isDigit hdigits).symm.trans hupper)
    intro d e hde
    rw [Fin.ext_iff, ← Base.idxOf_digitChar d, ← Base.idxOf_digitChar e]
    exact congrArg x.base.alphabet.idxOf hde
  have hcut : Piece.cutNumeral x.base x.base.letter d.toList =
      (.lexeme (.ofBase x.base) (some (.numeral x)) ('0' :: x.base.letter :: d.toList), []) := by
    have htake := Piece.takeWhile_append (r := []) hdigits nofun
    have hdrop := Piece.dropWhile_append (r := []) hdigits nofun
    rw [List.append_nil] at htake hdrop
    have hnumeral := Numeral.ofDigits?_eq_some_iff.mpr ⟨x.digits_ne_nil, rfl⟩
    simp only [Piece.cutNumeral, htake, hdrop, hvalues, hnumeral]
  have hpieces := pieces_tagged x.base d.toList
  rw [hcut, pieces] at hpieces
  rw [← Numeral.toList_tagged] at hpieces
  obtain ⟨e, he, hscan⟩ := scanStrict_of_lexeme hpieces
  refine ⟨e, ?_, rfl, rfl, he⟩
  rw [hscan, literalToken, String.ofList_toList, String.length_toList]
  rfl

/-- A literal is read as a numeral from its digits, and has no ligature in it. -/
theorem exists_ofText_of_isLiteral (h : IsLiteral b (b.tag ++ d) t) :
    ∃ x, Numeral.ofText b d = .ok x ∧ Text.ligature ∉ d.toList ∧ t = literalToken b d x := by
  obtain ⟨e, hscan, -, hspan, -⟩ := h
  obtain ⟨w, r, hd, hw, hr⟩ := Piece.exists_run b.isDigit d.toList
  have hpieces := pieces_tagged b d.toList
  rw [← Numeral.toList_tagged] at hpieces
  unfold Piece.cutNumeral at hpieces
  simp only [hd, Piece.takeWhile_append hw hr, Piece.dropWhile_append hw hr] at hpieces
  split at hpieces
  · next x hx =>
    obtain ⟨e', -, hscan'⟩ := scanStrict_of_lexeme hpieces
    rw [hscan] at hscan'
    cases hrest : collectStrict (locate (1 + ('0' :: b.letter :: w).count '\n')
        ('0' :: b.letter :: w).length (pieces r)).1 with
    | error stop =>
      rw [hrest] at hscan'
      cases hscan'
    | ok ts =>
      rw [hrest] at hscan'
      obtain ⟨rfl, -⟩ := List.cons.inj (Except.ok.inj hscan')
      -- the token goes over the whole text, so nothing is left behind the run of digits
      have hlength : ('0' :: b.letter :: w).length = (b.tag ++ d).length :=
        congrArg Span.stop hspan
      rw [← String.length_toList, Numeral.toList_tagged, hd] at hlength
      obtain rfl : r = [] := by
        rw [← List.length_eq_zero_iff]
        simp only [List.length_cons, List.length_append] at hlength
        omega
      rw [List.append_nil] at hd
      subst hd
      obtain ⟨hne, rfl⟩ := Numeral.ofDigits?_eq_some_iff.mp hx
      refine ⟨_, Numeral.ofText_of_isDigit hw hne, Base.ligature_notMem hw, ?_⟩
      rw [literalToken, ← Numeral.toList_tagged, String.ofList_toList, String.length_toList]
  · -- without a digit the scanner stops
    rw [scanStrict, hpieces] at hscan
    cases hscan

/-- **Where the readers of numerals differ.** Bare digits and tagged texts are always read alike.
The scanner takes the digits of the base in either case and nothing else, and gives the same numeral
as the other two. What these take in addition are texts of base sixteen with the ligature in them,
and just there a numeral has more digits than were written. -/
theorem recognisers_differ_on_ligature (b : Base) (d : String) :
    (∀ x, Numeral.ofTagged? (b.tag ++ d) = some x ↔ Numeral.ofText b d = .ok x) ∧
    (∀ t, IsLiteral b (b.tag ++ d) t ↔ ∃ x, Numeral.ofText b d = .ok x ∧
      Text.ligature ∉ d.toList ∧ t = literalToken b d x) ∧
    ((∃ t, IsLiteral b (b.tag ++ d) t) ↔ d ≠ "" ∧ ∀ c ∈ d.toList, c.toUpper ∈ b.alphabet) ∧
    (∀ x, Numeral.ofText b d = .ok x → x.base = b ∧
      (x.digitText.length = d.length ↔ Text.ligature ∉ d.toList) ∧
      (Text.ligature ∈ d.toList → b = .hexadecimal)) := by
  have hliteral : ∀ t, IsLiteral b (b.tag ++ d) t ↔ ∃ x, Numeral.ofText b d = .ok x ∧
      Text.ligature ∉ d.toList ∧ t = literalToken b d x := by
    refine fun t => ⟨exists_ofText_of_isLiteral, ?_⟩
    rintro ⟨x, hx, hligature, rfl⟩
    exact isLiteral_of_ofText hx hligature
  refine ⟨fun x => Numeral.ofTagged?_tag_append, hliteral, ?_, fun x hx => ?_⟩
  · constructor
    · rintro ⟨t, ht⟩
      obtain ⟨x, hx, hligature, -⟩ := (hliteral t).mp ht
      obtain ⟨rfl, hupper⟩ := Numeral.ofText_eq_ok_iff.mp hx
      rw [Numeral.toList_digitText] at hupper
      refine ⟨?_, fun c hc => Base.isDigit_iff.mp (Base.isDigit_of_upper hupper hligature c hc)⟩
      rintro rfl
      exact x.digits_ne_nil (List.map_eq_nil_iff.mp hupper.symm)
    · rintro ⟨hne, halphabet⟩
      have hdigits : ∀ c ∈ d.toList, b.isDigit c = true :=
        fun c hc => Base.isDigit_iff.mpr (halphabet c hc)
      have hvalues : b.digitsOf d.toList ≠ [] := by
        rw [← List.length_pos_iff, Base.length_digitsOf hdigits, List.length_pos_iff]
        exact mt String.toList_eq_nil_iff.mp hne
      exact ⟨_, isLiteral_of_ofText (Numeral.ofText_of_isDigit hdigits hvalues)
        (Base.ligature_notMem hdigits)⟩
  · obtain ⟨rfl, hupper⟩ := Numeral.ofText_eq_ok_iff.mp hx
    rw [Numeral.toList_digitText] at hupper
    refine ⟨rfl, ?_, Base.eq_hexadecimal_of_ligature hupper⟩
    rw [← Base.length_eq_iff_of_upper hupper, ← String.length_toList, ← String.length_toList,
      Numeral.toList_digitText, List.length_map]

end Literals

/-- The ligature is read as two digits, bare or behind its tag, and is no literal. -/
theorem ligature_is_no_literal :
    (Numeral.ofText .hexadecimal "\ufb00").toOption.map Numeral.digitText = some "FF" ∧
      (Numeral.ofTagged? "0x\ufb00").map Numeral.digitText = some "FF" ∧
      ¬ ∃ t, IsLiteral .hexadecimal "0x\ufb00" t := by
  refine ⟨by decide +kernel, by decide +kernel, ?_⟩
  rintro ⟨t, ht⟩
  obtain ⟨x, -, hligature, -⟩ :=
    exists_ofText_of_isLiteral (b := .hexadecimal) (d := "\ufb00") ht
  exact hligature (by decide)

end RadixScript
