import RadixScript.Proofs.Pieces.Segments

/-!
# Stopping at the first error

The scanner can record what it rejects and go on, or stop at the first such fragment. Up to that
fragment both do the same: `scanStrict` gives the tokens that `scan` gives, unless `scan` has
recorded something, and then it stops with what was recorded first (`scanStrict_eq`).

That the first diagnostic is also the one with the least line is a fact about the lines of segments:
they never decrease, and a diagnostic stands between its segment and the next one.
-/

namespace RadixScript

/-! ## Findings -/

/-- The tokens, unless a diagnostic stops the scan: the first one does. -/
def stopAtFirst (tokens : List Token) : List Diagnostic → Except ScanStop (List Token)
  | [] => .ok tokens
  | d :: _ => .error (.problem d)

theorem map_stopAtFirst (f : List Token → List Token) (tokens : List Token)
    (problems : List Diagnostic) :
    (stopAtFirst tokens problems).map f = stopAtFirst (f tokens) problems := by
  cases problems <;> rfl

/-- Up to the first problem, findings are collected in the same way. -/
theorem collectStrict_of_collect {fs : List Finding} {tokens : List Token}
    {problems : List Diagnostic} (h : collect fs = some (tokens, problems)) :
    collectStrict fs = stopAtFirst tokens problems := by
  induction fs generalizing tokens problems with
  | nil =>
    cases h
    rfl
  | cons f fs ih =>
    cases f with
    | token t =>
      obtain ⟨⟨ts, ds⟩, hfs, hfound⟩ := Option.map_eq_some_iff.mp h
      obtain ⟨rfl, rfl⟩ := Prod.mk.inj hfound
      rw [collectStrict, ih hfs, map_stopAtFirst]
    | problem d =>
      -- whatever is behind the problem is not looked at
      obtain ⟨⟨ts, ds⟩, -, hfound⟩ := Option.map_eq_some_iff.mp h
      obtain ⟨rfl, rfl⟩ := Prod.mk.inj hfound
      rfl
    | overlong => cases h

/-- **The scanner that stops at the first error gives what the other one has found up to there.** -/
theorem scanStrict_eq {source : String} {s : Scan} (h : scan source = some s) :
    scanStrict source = stopAtFirst (s.tokens ++ [s.eof]) s.problems := by
  obtain ⟨⟨tokens, problems⟩, hcollect, rfl⟩ := Option.map_eq_some_iff.mp h
  show (collectStrict _).map _ = _
  rw [collectStrict_of_collect hcollect, map_stopAtFirst]

theorem stopAtFirst_eq_error_iff {tokens : List Token} {problems : List Diagnostic}
    {d : Diagnostic} :
    stopAtFirst tokens problems = .error (.problem d) ↔ problems.head? = some d := by
  cases problems <;> simp [stopAtFirst]

/-! ## Lines -/

theorem le_line_of_mem_segmentsAt {ps : List Piece} {line offset : Nat} {x : Segment}
    (h : x ∈ segmentsAt line offset ps) : line ≤ x.line := by
  obtain ⟨front, _, _, hline, _⟩ := exists_split_of_mem_segmentsAt h
  omega

/-- A segment begins in the line where the one in front of it ends, or in a later one. -/
theorem pairwise_line_segmentsAt (line offset : Nat) (ps : List Piece) :
    (segmentsAt line offset ps).Pairwise fun x y => x.line + x.piece.lineBreaks ≤ y.line := by
  induction ps generalizing line offset with
  | nil => exact .nil
  | cons p ps ih => exact .cons (fun y hy => le_line_of_mem_segmentsAt hy) (ih _ _)

theorem line_of_diagnostic? {x : Segment} {d : Diagnostic} (h : x.diagnostic? = some d) :
    d.line = x.line + x.piece.lineBreaks := by
  obtain ⟨line, start, piece⟩ := x
  cases piece with
  | rejected problem text =>
    cases h
    rfl
  | gap | lexeme | overlong => cases h

/-- The lines of diagnostics never decrease. -/
theorem pairwise_line_problems {source : String} {s : Scan} (h : scan source = some s) :
    s.problems.Pairwise fun d e => d.line ≤ e.line := by
  obtain ⟨-, -, -, hproblems⟩ := scan_eq_some_iff_segments.mp h
  rw [hproblems]
  refine List.pairwise_filterMap.mpr ?_
  refine (pairwise_line_segmentsAt 1 0 _).imp fun hle d hd e he => ?_
  rw [line_of_diagnostic? hd, line_of_diagnostic? he]
  exact Nat.le_trans hle (Nat.le_add_right _ _)

/-! ## Both ways to scan -/

/-- **Recording errors and stopping at the first one agree.** The strict scanner stops with a
diagnostic exactly if one is recorded, and it is the first; if none is recorded both give the same
tokens. What is recorded first stands in the least line. -/
theorem scanStrict_agrees (source : String)
    (h : ∀ p ∈ pieces source.toList, ¬ Piece.IsOverlong p.text) :
    ∃ s, scan source = some s ∧
      ((∃ d, scanStrict source = .error (.problem d)) ↔ s.problems ≠ []) ∧
      (∀ d, scanStrict source = .error (.problem d) → s.problems.head? = some d) ∧
      (s.problems = [] → scanStrict source = .ok (s.tokens ++ [s.eof])) ∧
      s.problems.Pairwise fun d e => d.line ≤ e.line := by
  obtain ⟨s, hs⟩ := exists_scan_eq_some h
  have hstop : ∀ d, scanStrict source = .error (.problem d) ↔ s.problems.head? = some d := by
    intro d
    rw [scanStrict_eq hs, stopAtFirst_eq_error_iff]
  refine ⟨s, hs, ?_, fun d => (hstop d).mp, ?_, pairwise_line_problems hs⟩
  · simp only [hstop, ← Option.isSome_iff_exists, List.isSome_head?]
  · intro hnone
    rw [scanStrict_eq hs, hnone]
    rfl

/-- Two errors behind a string that goes over a line end: the scanner stops with the first. -/
theorem scanStrict_agrees_behind_string :
    (∀ p ∈ pieces "\"a\n\" @ 0x".toList, ¬ Piece.IsOverlong p.text) ∧
      ∃ s, scan "\"a\n\" @ 0x" = some s ∧
        ((∃ d, scanStrict "\"a\n\" @ 0x" = .error (.problem d)) ↔ s.problems ≠ []) ∧
        (∀ d, scanStrict "\"a\n\" @ 0x" = .error (.problem d) → s.problems.head? = some d) ∧
        (s.problems = [] → scanStrict "\"a\n\" @ 0x" = .ok (s.tokens ++ [s.eof])) ∧
        s.problems.Pairwise fun d e => d.line ≤ e.line := by
  have hshort : ∀ p ∈ pieces "\"a\n\" @ 0x".toList, ¬ Piece.IsOverlong p.text := by
    have hall : (pieces "\"a\n\" @ 0x".toList).all
        (fun p => p.text.length ≤ Decimal.digitLimit) = true := by cbv
    intro p hp hoverlong
    have hle := of_decide_eq_true (List.all_eq_true.mp hall p hp)
    exact absurd hoverlong.1 (Nat.not_lt_of_le hle)
  exact ⟨hshort, scanStrict_agrees _ hshort⟩

end RadixScript
