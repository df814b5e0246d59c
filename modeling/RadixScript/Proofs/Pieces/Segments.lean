import Mathlib.Data.List.Permutation
import RadixScript.Proofs.Pieces.Shapes

/-!
# How a text is divided

Whatever a text is, the scanner divides it into tokens, skipped text and rejected fragments, and
records one diagnostic for each fragment (`scan_divides`). Only an integer literal with too many
digits keeps it from giving an answer.

A `Segment` is a piece with the line and the offset that the scanner has counted for it. Tokens,
fragments and diagnostics are all read off the segments of the text, which follow each other without
a gap. The line that is counted is the right one up to the line ends in rejected character literals
(`scan_lines`).
-/

namespace RadixScript

/-! ## Spans -/

/-- The offsets of the first character of a stretch of text and of the character behind it. -/
structure Span where
  start : Nat
  stop : Nat

namespace Span

def Before (a b : Span) : Prop := a.stop ≤ b.start

/-- The spans have no character in common. -/
def Apart (a b : Span) : Prop := a.Before b ∨ b.Before a

def Covers (a : Span) (i : Nat) : Prop := a.start ≤ i ∧ i < a.stop

/-- The characters of a text that are in the span. -/
def cutFrom (a : Span) (text : List Char) : List Char :=
  (text.drop a.start).take (a.stop - a.start)

end Span

def Token.span (t : Token) : Span := ⟨t.start, t.stop⟩

/-- A stretch of text that is rejected. -/
structure Fragment where
  problem : LexicalProblem
  start : Nat
  text : List Char

namespace Fragment

def span (f : Fragment) : Span := ⟨f.start, f.start + f.text.length⟩

/-- Whether the fragment begins as a character literal. -/
def isCharacter (f : Fragment) : Bool :=
  match f.problem with
  | .badCharacter | .openCharacter => true
  | _ => false

/-- The line ends in the fragment that are not counted. -/
def missedBreaks (f : Fragment) : Nat := if f.isCharacter then f.text.count '\n' else 0

end Fragment

/-! ## Segments -/

/-- A piece with the line and the offset where the scanner has come to it. -/
structure Segment where
  line : Nat
  start : Nat
  piece : Piece

namespace Segment

def span (x : Segment) : Span := ⟨x.start, x.start + x.piece.text.length⟩

def token? (x : Segment) : Option Token := x.piece.token? x.line x.start

def finding? (x : Segment) : Option Finding := x.piece.finding? x.line x.start

def fragment? (x : Segment) : Option Fragment :=
  match x.piece with
  | .rejected problem text => some ⟨problem, x.start, text⟩
  | _ => none

def diagnostic? (x : Segment) : Option Diagnostic :=
  match x.piece with
  | .rejected problem _ => some ⟨.lexical problem, x.line + x.piece.lineBreaks, .unnamed⟩
  | _ => none

end Segment

/-- The segments of pieces that stand at the given line and offset. -/
def segmentsAt : Nat → Nat → List Piece → List Segment
  | _, _, [] => []
  | line, offset, p :: ps =>
    ⟨line, offset, p⟩ :: segmentsAt (line + p.lineBreaks) (offset + p.text.length) ps

/-- The segments of a text. -/
def segmentsOf (source : String) : List Segment := segmentsAt 1 0 (pieces source.toList)

/-- The fragments of a text that are rejected. -/
def fragmentsOf (source : String) : List Fragment := (segmentsOf source).filterMap Segment.fragment?

variable {ps : List Piece} {line offset : Nat} {x y : Segment}

theorem locate_fst_eq_filterMap (line offset : Nat) (ps : List Piece) :
    (locate line offset ps).1 = (segmentsAt line offset ps).filterMap Segment.finding? := by
  induction ps generalizing line offset with
  | nil => rfl
  | cons p ps ih =>
    show (p.finding? line offset).toList ++ (locate _ _ ps).1 = _
    rw [segmentsAt, List.filterMap_cons, ih]
    cases h : Segment.finding? ⟨line, offset, p⟩ <;> simp_all [Segment.finding?]

/-- The scanner comes to the end in the line and at the offset behind all pieces. -/
theorem locate_snd (line offset : Nat) (ps : List Piece) :
    (locate line offset ps).2 = .atEnd (line + (ps.map Piece.lineBreaks).sum)
      (offset + (ps.flatMap Piece.text).length) := by
  induction ps generalizing line offset with
  | nil => rfl
  | cons p ps ih =>
    show (locate _ _ ps).2 = _
    rw [ih]
    simp [Nat.add_assoc]

/-- What is in front of a segment decides where it stands. -/
theorem exists_split_of_mem_segmentsAt (h : x ∈ segmentsAt line offset ps) :
    ∃ front back, ps = front ++ x.piece :: back ∧
      x.line = line + (front.map Piece.lineBreaks).sum ∧
      x.start = offset + (front.flatMap Piece.text).length := by
  induction ps generalizing line offset with
  | nil => cases h
  | cons p ps ih =>
    rcases List.mem_cons.mp h with rfl | h
    · exact ⟨[], ps, rfl, rfl, rfl⟩
    · obtain ⟨front, back, rfl, hline, hstart⟩ := ih h
      refine ⟨p :: front, back, rfl, ?_, ?_⟩
      · rw [hline, List.map_cons, List.sum_cons, Nat.add_assoc]
      · rw [hstart, List.flatMap_cons, List.length_append, Nat.add_assoc]

theorem le_start_of_mem_segmentsAt (h : x ∈ segmentsAt line offset ps) : offset ≤ x.start := by
  obtain ⟨front, _, _, _, hstart⟩ := exists_split_of_mem_segmentsAt h
  omega

/-- Segments follow each other. -/
theorem pairwise_segmentsAt (line offset : Nat) (ps : List Piece) :
    (segmentsAt line offset ps).Pairwise fun x y => x.span.Before y.span := by
  induction ps generalizing line offset with
  | nil => exact .nil
  | cons p ps ih => exact .cons (fun y hy => le_start_of_mem_segmentsAt hy) (ih _ _)

theorem apart_of_mem_segmentsAt (hx : x ∈ segmentsAt line offset ps)
    (hy : y ∈ segmentsAt line offset ps) (hne : x ≠ y) : x.span.Apart y.span := by
  have hsymm : Std.Symm fun x y : Segment => x.span.Apart y.span := ⟨fun _ _ h => h.symm⟩
  have hapart := (pairwise_segmentsAt line offset ps).imp (S := fun x y => x.span.Apart y.span)
    fun h => Or.inl h
  exact hapart.forall hx hy hne

/-- Segments leave no character out. -/
theorem exists_segment_covers {i : Nat} (line : Nat) (hi : offset ≤ i)
    (hlt : i < offset + (ps.flatMap Piece.text).length) :
    ∃ x ∈ segmentsAt line offset ps, x.span.Covers i := by
  induction ps generalizing line offset with
  | nil =>
    simp only [List.flatMap_nil, List.length_nil] at hlt
    omega
  | cons p ps ih =>
    by_cases hp : i < offset + p.text.length
    · exact ⟨⟨line, offset, p⟩, List.mem_cons_self, hi, hp⟩
    · rw [List.flatMap_cons, List.length_append] at hlt
      obtain ⟨x, hx, hcovers⟩ := ih (line + p.lineBreaks) (Nat.le_of_not_lt hp) (by omega)
      exact ⟨x, List.mem_cons_of_mem _ hx, hcovers⟩

/-! ## Segments of a text -/

/-- The piece of a segment stands in the text at its span, and looks like what it is there. -/
theorem Segment.exists_split {source : String} (h : x ∈ segmentsOf source) :
    ∃ before behind, source.toList = before ++ (x.piece.text ++ behind) ∧
      x.start = before.length ∧ x.piece.Leads behind := by
  obtain ⟨front, back, hps, -, hstart⟩ := exists_split_of_mem_segmentsAt h
  refine ⟨front.flatMap Piece.text, back.flatMap Piece.text, ?_, ?_, ?_⟩
  · rw [← flatMap_text_pieces source.toList, hps, List.flatMap_append, List.flatMap_cons]
  · rw [hstart, Nat.zero_add]
  · have hseparated := separated_pieces source.toList
    rw [hps] at hseparated
    exact hseparated.leads

theorem Segment.span_cutFrom {source : String} (h : x ∈ segmentsOf source) :
    x.span.cutFrom source.toList = x.piece.text ∧ x.span.start < x.span.stop ∧
      x.span.stop ≤ source.toList.length ∧ x.piece.Formed (source.toList.drop x.span.stop) := by
  obtain ⟨before, behind, htext, hstart, hleads⟩ := x.exists_split h
  have hpos := List.length_pos_iff.mpr hleads.text_ne_nil
  have hdrop : source.toList.drop x.span.stop = behind := by
    rw [htext, span, hstart, ← List.append_assoc, ← List.length_append, List.drop_left]
  refine ⟨?_, ?_, ?_, ?_⟩
  · rw [Span.cutFrom, span, htext, hstart, List.drop_left, Nat.add_sub_cancel_left, List.take_left]
  · show x.start < x.start + x.piece.text.length
    omega
  · show x.start + x.piece.text.length ≤ _
    rw [htext, hstart]
    simp only [List.length_append]
    omega
  · rw [hdrop]
    exact hleads.formed

/-! ## What the scanner gives -/

theorem collect_of_mem_overlong {fs : List Finding} (h : .overlong ∈ fs) : collect fs = none := by
  fun_induction collect fs with
  | case1 => cases h
  | case2 t fs ih => rw [ih (by simpa using h), Option.map_none]
  | case3 d fs ih => rw [ih (by simpa using h), Option.map_none]
  | case4 fs => rfl

theorem collect_filterMap {xs : List Segment} (h : ∀ x ∈ xs, ∀ text, x.piece ≠ .overlong text) :
    collect (xs.filterMap Segment.finding?) =
      some (xs.filterMap Segment.token?, xs.filterMap Segment.diagnostic?) := by
  induction xs with
  | nil => rfl
  | cons x xs ih =>
    rw [List.forall_mem_cons] at h
    obtain ⟨line, start, piece⟩ := x
    cases piece with
    | gap text => exact ih h.2
    | overlong text => exact absurd rfl (h.1 text)
    | lexeme kind literal text =>
      show (collect (xs.filterMap Segment.finding?)).map _ = _
      rw [ih h.2]
      rfl
    | rejected problem text =>
      show (collect (xs.filterMap Segment.finding?)).map _ = _
      rw [ih h.2]
      rfl

/-- The scanner gives an answer exactly if no integer literal is too long, and reads it off the
segments. -/
theorem scan_eq_some_iff_segments {source : String} {s : Scan} :
    scan source = some s ↔
      (∀ x ∈ segmentsOf source, ∀ text, x.piece ≠ .overlong text) ∧
        s.tokens = (segmentsOf source).filterMap Segment.token? ∧
        s.eof = .atEnd (1 + ((pieces source.toList).map Piece.lineBreaks).sum)
          source.toList.length ∧
        s.problems = (segmentsOf source).filterMap Segment.diagnostic? := by
  have heof := locate_snd 1 0 (pieces source.toList)
  rw [Nat.zero_add, flatMap_text_pieces] at heof
  have hscan : scan source = (collect ((segmentsOf source).filterMap Segment.finding?)).map
      fun found => ⟨found.1, (locate 1 0 (pieces source.toList)).2, found.2⟩ := by
    rw [segmentsOf, ← locate_fst_eq_filterMap]
    rfl
  rw [hscan, heof]
  by_cases h : ∀ x ∈ segmentsOf source, ∀ text, x.piece ≠ .overlong text
  · rw [collect_filterMap h]
    obtain ⟨tokens, eof, problems⟩ := s
    simp only [Option.map_some, Option.some.injEq, Scan.mk.injEq]
    constructor
    · rintro ⟨rfl, rfl, rfl⟩
      exact ⟨h, rfl, rfl, rfl⟩
    · rintro ⟨-, rfl, rfl, rfl⟩
      exact ⟨rfl, rfl, rfl⟩
  · simp only [h, false_and, iff_false]
    simp only [Classical.not_forall, Classical.not_not] at h
    obtain ⟨x, hx, text, hoverlong⟩ := h
    have hfinding : x.finding? = some .overlong := by
      rw [Segment.finding?, hoverlong]
      rfl
    rw [collect_of_mem_overlong (List.mem_filterMap.mpr ⟨x, hx, hfinding⟩)]
    simp

/-! ## Lines -/

/-- The line ends in the fragments in front of an offset that are not counted. -/
def missedBefore (fragments : List Fragment) (offset : Nat) : Nat :=
  ((fragments.filter fun f => f.span.stop ≤ offset).map Fragment.missedBreaks).sum

theorem missedBefore_eq_zero_iff {fragments : List Fragment} {offset : Nat} :
    missedBefore fragments offset = 0 ↔
      ∀ f ∈ fragments, f.span.stop ≤ offset → f.isCharacter = true → '\n' ∉ f.text := by
  rw [missedBefore, List.sum_eq_zero_iff_forall_eq_nat, List.forall_mem_map]
  simp only [List.mem_filter, decide_eq_true_eq, and_imp, Fragment.missedBreaks, ite_eq_right_iff,
    List.count_eq_zero]

theorem segmentsAt_append (line offset : Nat) (front back : List Piece) :
    segmentsAt line offset (front ++ back) = segmentsAt line offset front ++
      segmentsAt (line + (front.map Piece.lineBreaks).sum)
        (offset + (front.flatMap Piece.text).length) back := by
  induction front generalizing line offset with
  | nil => rfl
  | cons p front ih =>
    rw [List.cons_append, segmentsAt, segmentsAt, ih, List.cons_append]
    simp [Nat.add_assoc]

theorem count_of_rejects {problem : LexicalProblem} {text rest : List Char}
    (h : Rejects problem text rest) (start : Nat) :
    (Piece.rejected problem text).lineBreaks + (Fragment.mk problem start text).missedBreaks =
      text.count '\n' := by
  cases h with
  | @unexpected c hblank hlexeme =>
    have hline : c ≠ '\n' := by
      rintro rfl
      exact hblank (by decide)
    simp [Piece.lineBreaks, Fragment.missedBreaks, Fragment.isCharacter, hline]
  | missingDigits b => cases b <;> rfl
  | openString => simp [Piece.lineBreaks, Fragment.missedBreaks, Fragment.isCharacter]
  | badCharacter => simp [Piece.lineBreaks, Fragment.missedBreaks, Fragment.isCharacter]
  | openCharacter => simp [Piece.lineBreaks, Fragment.missedBreaks, Fragment.isCharacter]

/-- Every line end is counted, or missed in a fragment. -/
theorem sum_lineBreaks_add (h : ∀ p ∈ ps, ∃ rest, p.Formed rest) (line offset : Nat) :
    (ps.map Piece.lineBreaks).sum +
        (((segmentsAt line offset ps).filterMap Segment.fragment?).map Fragment.missedBreaks).sum =
      (ps.flatMap Piece.text).count '\n' := by
  induction ps generalizing line offset with
  | nil => rfl
  | cons p ps ih =>
    rw [List.forall_mem_cons] at h
    have hps := ih h.2 (line + p.lineBreaks) (offset + p.text.length)
    rw [List.map_cons, List.sum_cons, List.flatMap_cons, List.count_append, ← hps, segmentsAt]
    cases p with
    | rejected problem text =>
      obtain ⟨rest, hrejects⟩ := h.1
      have hcount := count_of_rejects hrejects offset
      have hfragment : Segment.fragment? ⟨line, offset, .rejected problem text⟩ =
          some ⟨problem, offset, text⟩ := rfl
      rw [List.filterMap_cons_some hfragment, List.map_cons, List.sum_cons, Piece.text]
      omega
    | gap | lexeme | overlong =>
      rw [List.filterMap_cons_none (f := Segment.fragment?) rfl, Nat.add_assoc]
      rfl

theorem fragment?_eq_some {f : Fragment} (h : x.fragment? = some f) :
    x.piece = .rejected f.problem f.text ∧ f.start = x.start := by
  obtain ⟨line, start, piece⟩ := x
  cases piece with
  | rejected problem text =>
    cases h
    exact ⟨rfl, rfl⟩
  | gap | lexeme | overlong => cases h

theorem span_of_fragment? {f : Fragment} (h : x.fragment? = some f) : f.span = x.span := by
  obtain ⟨hpiece, hstart⟩ := fragment?_eq_some h
  rw [Fragment.span, Segment.span, hpiece, hstart]
  rfl

/-- The token of a segment is its piece, with the line and the span of the segment. -/
theorem token?_eq_some {t : Token} (h : x.token? = some t) :
    ∃ text, x.piece = .lexeme t.kind t.literal text ∧ t.text = String.ofList text ∧
      t.line = x.line ∧ t.span = x.span := by
  obtain ⟨line, start, piece⟩ := x
  cases piece with
  | lexeme kind literal text =>
    cases h
    exact ⟨text, rfl, rfl, rfl, rfl⟩
  | gap | rejected | overlong => cases h

/-- Where the scanner stands behind some of the pieces of a text, the line it has counted is too
small by the line ends that it has missed. -/
theorem line_add_missedBefore {source : String} {front back : List Piece}
    (h : pieces source.toList = front ++ back) :
    1 + (front.map Piece.lineBreaks).sum +
        missedBefore (fragmentsOf source) (front.flatMap Piece.text).length =
      1 + (source.toList.take (front.flatMap Piece.text).length).count '\n' := by
  have htext : source.toList = front.flatMap Piece.text ++ back.flatMap Piece.text := by
    rw [← List.flatMap_append, ← h, flatMap_text_pieces]
  have hseparated := separated_pieces source.toList
  rw [h] at hseparated
  -- the fragments that end in front of the offset are those among the pieces in front of it
  have hfragments : (fragmentsOf source).filter
      (fun f => f.span.stop ≤ (front.flatMap Piece.text).length) =
        (segmentsAt 1 0 front).filterMap Segment.fragment? := by
    rw [fragmentsOf, segmentsOf, h, segmentsAt_append, List.filterMap_append, List.filter_append,
      List.filter_eq_self.mpr, List.filter_eq_nil_iff.mpr, List.append_nil]
    · intro f hf
      obtain ⟨x, hx, hfragment⟩ := List.mem_filterMap.mp hf
      obtain ⟨mid, rest, rfl, -, hstart⟩ := exists_split_of_mem_segmentsAt hx
      rw [← List.append_assoc] at hseparated
      have hpos := List.length_pos_iff.mpr hseparated.leads.text_ne_nil
      intro hle
      have hle : x.start + x.piece.text.length ≤ (front.flatMap Piece.text).length := by
        simpa [span_of_fragment? hfragment, Segment.span] using hle
      omega
    · intro f hf
      obtain ⟨x, hx, hfragment⟩ := List.mem_filterMap.mp hf
      obtain ⟨mid, rest, rfl, -, hstart⟩ := exists_split_of_mem_segmentsAt hx
      rw [span_of_fragment? hfragment]
      simp only [Segment.span, List.flatMap_append, List.flatMap_cons, List.length_append,
        decide_eq_true_eq]
      omega
  have hformed : ∀ p ∈ front, ∃ rest, p.Formed rest := by
    intro p hp
    obtain ⟨mid, rest, rfl⟩ := List.append_of_mem hp
    rw [List.append_assoc, List.cons_append] at hseparated
    exact ⟨_, hseparated.leads.formed⟩
  have hsum := sum_lineBreaks_add hformed 1 0
  rw [missedBefore, hfragments, htext, List.take_left]
  omega

/-- Every token stands behind some of the pieces, and in the line that is counted along them. -/
theorem exists_front_of_mem_tokens {source : String} {s : Scan} (hs : scan source = some s)
    {t : Token} (ht : t ∈ s.tokens ++ [s.eof]) :
    ∃ front back, pieces source.toList = front ++ back ∧
      t.line = 1 + (front.map Piece.lineBreaks).sum ∧
      t.start = (front.flatMap Piece.text).length := by
  obtain ⟨-, htokens, heof, -⟩ := scan_eq_some_iff_segments.mp hs
  rcases List.mem_append.mp ht with ht | ht
  · rw [htokens] at ht
    obtain ⟨x, hx, hxt⟩ := List.mem_filterMap.mp ht
    obtain ⟨text, -, -, hline, hspan⟩ := token?_eq_some hxt
    obtain ⟨front, back, hps, hxline, hxstart⟩ := exists_split_of_mem_segmentsAt hx
    refine ⟨front, x.piece :: back, hps, hline.trans hxline, ?_⟩
    have hstart : t.start = x.start := congrArg Span.start hspan
    rw [hstart, hxstart, Nat.zero_add]
  · rw [List.mem_singleton, heof] at ht
    subst ht
    refine ⟨pieces source.toList, [], (List.append_nil _).symm, rfl, ?_⟩
    rw [flatMap_text_pieces]
    rfl

/-- **Where line numbers go wrong.** The line of a token, and of the end, is too small by the line
ends in the rejected character literals in front of it. So it is right exactly if none of them has a
line end in it; no other error makes a difference. -/
theorem scan_lines {source : String} {s : Scan} (hs : scan source = some s) :
    ∀ t ∈ s.tokens ++ [s.eof],
      t.line + missedBefore (fragmentsOf source) t.start =
          1 + (source.toList.take t.start).count '\n' ∧
        (t.line = 1 + (source.toList.take t.start).count '\n' ↔
          ∀ f ∈ fragmentsOf source, f.span.stop ≤ t.start → f.isCharacter = true →
            '\n' ∉ f.text) := by
  intro t ht
  obtain ⟨front, back, hps, hline, hstart⟩ := exists_front_of_mem_tokens hs ht
  have hcount := line_add_missedBefore hps
  rw [← hline, ← hstart] at hcount
  refine ⟨hcount, ?_⟩
  rw [← missedBefore_eq_zero_iff]
  omega

/-- A literal that is rejected, with a line end in it, between errors that make no difference. -/
theorem scan_lines_behind_errors :
    ∃ s, scan "@\n'a\n' x \"\n" = some s ∧
      ∀ t ∈ s.tokens ++ [s.eof],
        t.line + missedBefore (fragmentsOf "@\n'a\n' x \"\n") t.start =
            1 + ("@\n'a\n' x \"\n".toList.take t.start).count '\n' ∧
          (t.line = 1 + ("@\n'a\n' x \"\n".toList.take t.start).count '\n' ↔
            ∀ f ∈ fragmentsOf "@\n'a\n' x \"\n", f.span.stop ≤ t.start → f.isCharacter = true →
              '\n' ∉ f.text) := by
  obtain ⟨s, hs⟩ : ∃ s, scan "@\n'a\n' x \"\n" = some s := ⟨_, by cbv⟩
  exact ⟨s, hs, scan_lines hs⟩

/-- The line end in the literal that is rejected is missed: `x` stands in the second line, and so
does the end. -/
theorem line_behind_badCharacter :
    scan "'a\n' x" = some ⟨[⟨.identifier, "x", none, 1, 5, 6⟩], .atEnd 1 6,
        [⟨.lexical .badCharacter, 1, .unnamed⟩]⟩ ∧
      1 + ("'a\n' x".toList.take 5).count '\n' = 2 ∧
      1 + ("'a\n' x".toList.take 6).count '\n' = 2 := by
  refine ⟨?_, by decide, by decide⟩
  cbv

/-! ## The text as a whole -/

/-- The text is divided into the tokens, the fragments that are rejected, and text that is
skipped. -/
structure Scan.Divides (s : Scan) (text : List Char) (rejected : List Fragment) : Prop where
  eof_kind : s.eof.kind = .endOfInput
  eof_span : s.eof.span = ⟨text.length, text.length⟩
  kind_ne : ∀ t ∈ s.tokens, t.kind ≠ .endOfInput
  token_span : ∀ t ∈ s.tokens, t.start < t.stop ∧ t.stop ≤ text.length ∧
    t.text = String.ofList (t.span.cutFrom text)
  tokens_ordered : s.tokens.Pairwise fun t u => t.span.Before u.span
  fragment_span : ∀ f ∈ rejected, f.span.start < f.span.stop ∧ f.span.stop ≤ text.length ∧
    f.text = f.span.cutFrom text ∧ Rejects f.problem f.text (text.drop f.span.stop)
  fragments_ordered : rejected.Pairwise fun f g => f.span.Before g.span
  apart : ∀ t ∈ s.tokens, ∀ f ∈ rejected, t.span.Apart f.span
  /-- A character that is in no token and in no fragment is in a stretch that is skipped. -/
  covered : ∀ i < text.length, (∃ t ∈ s.tokens, t.span.Covers i) ∨
    (∃ f ∈ rejected, f.span.Covers i) ∨
    ∃ a : Span, a.Covers i ∧ Skipped (a.cutFrom text) (text.drop a.stop) ∧
      (∀ t ∈ s.tokens, a.Apart t.span) ∧ ∀ f ∈ rejected, a.Apart f.span
  /-- There is one diagnostic for each fragment. -/
  problems : s.problems.map Diagnostic.problem = rejected.map fun f => .lexical f.problem
  lines : s.problems = [] →
    ∀ t ∈ s.tokens ++ [s.eof], t.line = 1 + (text.take t.start).count '\n'

theorem problems_eq_fragments (xs : List Segment) :
    (xs.filterMap Segment.diagnostic?).map Diagnostic.problem =
      (xs.filterMap Segment.fragment?).map fun f => .lexical f.problem := by
  rw [List.map_filterMap, List.map_filterMap]
  congr 1
  funext x
  obtain ⟨line, start, piece⟩ := x
  cases piece <;> rfl

theorem span_eq_of_token? {t : Token} (h : x.token? = some t) : t.span = x.span := by
  obtain ⟨_, -, -, -, hspan⟩ := token?_eq_some h
  exact hspan

/-- What is a token is no fragment, and neither of them is a gap. -/
theorem not_gap_of_token? {t : Token} (h : x.token? = some t) :
    x.fragment? = none ∧ ∀ text, x.piece ≠ .gap text := by
  obtain ⟨text, hpiece, -, -, -⟩ := token?_eq_some h
  rw [Segment.fragment?, hpiece]
  refine ⟨rfl, ?_⟩
  rintro text ⟨⟩

theorem not_gap_of_fragment? {f : Fragment} (h : x.fragment? = some f) :
    ∀ text, x.piece ≠ .gap text := by
  rw [(fragment?_eq_some h).1]
  rintro text ⟨⟩

/-- A character belongs to the token, the fragment or the gap of the segment that covers it. -/
theorem covered_of_segments {source : String} {i : Nat}
    (hno : ∀ x ∈ segmentsOf source, ∀ text, x.piece ≠ .overlong text)
    (hi : i < source.toList.length) :
    (∃ t ∈ (segmentsOf source).filterMap Segment.token?, t.span.Covers i) ∨
    (∃ f ∈ fragmentsOf source, f.span.Covers i) ∨
    ∃ a : Span, a.Covers i ∧ Skipped (a.cutFrom source.toList) (source.toList.drop a.stop) ∧
      (∀ t ∈ (segmentsOf source).filterMap Segment.token?, a.Apart t.span) ∧
      ∀ f ∈ fragmentsOf source, a.Apart f.span := by
  have hlength : i < 0 + ((pieces source.toList).flatMap Piece.text).length := by
    rwa [flatMap_text_pieces, Nat.zero_add]
  obtain ⟨x, hx, hcovers⟩ := exists_segment_covers 1 (Nat.zero_le i) hlength
  obtain ⟨hcut, -, -, hformed⟩ := x.span_cutFrom hx
  cases hpiece : x.piece with
  | overlong text => exact absurd hpiece (hno x hx text)
  | lexeme kind literal text =>
    have htoken : x.token? = some ⟨kind, String.ofList text, literal, x.line, x.start,
        x.start + text.length⟩ := by
      rw [Segment.token?, hpiece]
      rfl
    refine .inl ⟨_, List.mem_filterMap.mpr ⟨x, hx, htoken⟩, ?_⟩
    rw [span_eq_of_token? htoken]
    exact hcovers
  | rejected problem text =>
    have hfragment : x.fragment? = some ⟨problem, x.start, text⟩ := by
      rw [Segment.fragment?, hpiece]
    refine .inr (.inl ⟨_, List.mem_filterMap.mpr ⟨x, hx, hfragment⟩, ?_⟩)
    rw [span_of_fragment? hfragment]
    exact hcovers
  | gap text =>
    refine .inr (.inr ⟨x.span, hcovers, ?_, ?_, ?_⟩)
    · rw [hpiece] at hcut hformed
      rw [hcut]
      exact hformed
    · intro t ht
      obtain ⟨y, hy, htoken⟩ := List.mem_filterMap.mp ht
      rw [span_eq_of_token? htoken]
      refine apart_of_mem_segmentsAt hx hy ?_
      rintro rfl
      exact (not_gap_of_token? htoken).2 text hpiece
    · intro f hf
      obtain ⟨y, hy, hfragment⟩ := List.mem_filterMap.mp hf
      rw [span_of_fragment? hfragment]
      refine apart_of_mem_segmentsAt hx hy ?_
      rintro rfl
      exact not_gap_of_fragment? hfragment text hpiece

theorem divides_of_scan {source : String} {s : Scan} (hs : scan source = some s) :
    s.Divides source.toList (fragmentsOf source) := by
  obtain ⟨hno, htokens, heof, hproblems⟩ := scan_eq_some_iff_segments.mp hs
  have hpairwise := pairwise_segmentsAt 1 0 (pieces source.toList)
  constructor
  case eof_kind => rw [heof]; rfl
  case eof_span => rw [heof]; rfl
  case kind_ne =>
    rw [htokens]
    intro t ht
    obtain ⟨x, hx, htoken⟩ := List.mem_filterMap.mp ht
    obtain ⟨text, hpiece, -, -, -⟩ := token?_eq_some htoken
    have hformed := (x.span_cutFrom hx).2.2.2
    rwa [hpiece] at hformed
  case token_span =>
    rw [htokens]
    intro t ht
    obtain ⟨x, hx, htoken⟩ := List.mem_filterMap.mp ht
    obtain ⟨text, hpiece, htext, -, hspan⟩ := token?_eq_some htoken
    obtain ⟨hcut, hpos, hle, -⟩ := x.span_cutFrom hx
    rw [← hspan] at hcut hpos hle
    rw [hpiece] at hcut
    exact ⟨hpos, hle, by rw [htext, hcut]; rfl⟩
  case tokens_ordered =>
    rw [htokens]
    refine List.pairwise_filterMap.mpr (hpairwise.imp fun hbefore t ht u hu => ?_)
    rwa [span_eq_of_token? ht, span_eq_of_token? hu]
  case fragment_span =>
    intro f hf
    obtain ⟨x, hx, hfragment⟩ := List.mem_filterMap.mp hf
    obtain ⟨hcut, hpos, hle, hformed⟩ := x.span_cutFrom hx
    rw [← span_of_fragment? hfragment, (fragment?_eq_some hfragment).1] at hcut hformed
    rw [← span_of_fragment? hfragment] at hpos hle
    exact ⟨hpos, hle, hcut.symm, hformed⟩
  case fragments_ordered =>
    refine List.pairwise_filterMap.mpr (hpairwise.imp fun hbefore f hf g hg => ?_)
    rwa [span_of_fragment? hf, span_of_fragment? hg]
  case apart =>
    rw [htokens]
    intro t ht f hf
    obtain ⟨x, hx, htoken⟩ := List.mem_filterMap.mp ht
    obtain ⟨y, hy, hfragment⟩ := List.mem_filterMap.mp hf
    rw [span_eq_of_token? htoken, span_of_fragment? hfragment]
    refine apart_of_mem_segmentsAt hx hy ?_
    rintro rfl
    rw [(not_gap_of_token? htoken).1] at hfragment
    cases hfragment
  case covered =>
    rw [htokens]
    exact fun i hi => covered_of_segments hno hi
  case problems =>
    rw [hproblems]
    exact problems_eq_fragments _
  case lines =>
    intro hclean t ht
    obtain ⟨front, back, hps, hline, hstart⟩ := exists_front_of_mem_tokens hs ht
    have hnone : fragmentsOf source = [] := by
      have hproblem := problems_eq_fragments (segmentsOf source)
      rw [← hproblems, hclean] at hproblem
      exact List.map_eq_nil_iff.mp hproblem.symm
    have hcount := line_add_missedBefore hps
    rw [hnone, ← hline, ← hstart] at hcount
    exact hcount

/-- Only an integer literal with too many digits keeps the scanner from its answer. -/
theorem exists_scan_eq_some {source : String}
    (h : ∀ p ∈ pieces source.toList, ¬ Piece.IsOverlong p.text) : ∃ s, scan source = some s := by
  refine ⟨⟨_, _, _⟩, scan_eq_some_iff_segments.mpr ⟨?_, rfl, rfl, rfl⟩⟩
  intro x hx text hoverlong
  obtain ⟨front, back, hps, -, -⟩ := exists_split_of_mem_segmentsAt hx
  have hmem : .overlong text ∈ pieces source.toList := by
    rw [hps, hoverlong]
    exact List.mem_append_right _ List.mem_cons_self
  exact h _ hmem (isOverlong_of_mem_pieces hmem)

/-- **Every text is divided into tokens, skipped text and rejected fragments.** Only an integer
literal with too many digits keeps the scanner from its answer. -/
theorem scan_divides (source : String)
    (h : ∀ p ∈ pieces source.toList, ¬ Piece.IsOverlong p.text) :
    ∃ s, scan source = some s ∧ s.Divides source.toList (fragmentsOf source) := by
  obtain ⟨s, hs⟩ := exists_scan_eq_some h
  exact ⟨s, hs, divides_of_scan hs⟩

/-- A text with a comment, rejected fragments, and an escape that the end of the text cuts off. -/
theorem scan_divides_with_errors :
    (∀ p ∈ pieces "x // y\n@ 'ab' 12 '\\".toList, ¬ Piece.IsOverlong p.text) ∧
      ∃ s, scan "x // y\n@ 'ab' 12 '\\" = some s ∧
        s.Divides "x // y\n@ 'ab' 12 '\\".toList (fragmentsOf "x // y\n@ 'ab' 12 '\\") := by
  have hshort : ∀ p ∈ pieces "x // y\n@ 'ab' 12 '\\".toList, ¬ Piece.IsOverlong p.text := by
    have hall : (pieces "x // y\n@ 'ab' 12 '\\".toList).all
        (fun p => p.text.length ≤ Decimal.digitLimit) = true := by cbv
    intro p hp hoverlong
    have hle := of_decide_eq_true (List.all_eq_true.mp hall p hp)
    exact absurd hoverlong.1 (Nat.not_lt_of_le hle)
  exact ⟨hshort, scan_divides _ hshort⟩

end RadixScript
