import RadixScript.Proofs.Grammar.Completeness

/-!
# A program in front of other tokens

Every statement ends with a token of its own, and the parser stops there without looking further,
but for one case: behind an `if`, it looks for an `else`. So a program that stands in front of other
tokens is read as if it stood alone, and so are the tokens behind it, however malformed they are
(`parseProgram_append`). Recovery from their problems does not reach back into the program.
-/

namespace RadixScript

theorem Spells.append {ss : List Symbol} {ts rest : List Token} (h : Spells ss ts rest)
    (us : List Token) : Spells ss (ts ++ us) (rest ++ us) := by
  obtain ⟨front, hfront, rfl⟩ := h
  exact ⟨front, hfront, List.append_assoc front rest us⟩

/-- **What follows a program makes no difference to it, nor it to what follows.** Let nothing be
wrong with the tokens `ts`, and let `us` be any tokens that do not begin with `else`. Then `ts` and
`us` together give the statements of `ts` and behind them those of `us`, and exactly the problems of
`us`. -/
theorem parseProgram_append {eof eof' : Token} {ts us : List Token}
    (h : (parseProgram eof' ts).2 = []) (hus : NoElse us) :
    parseProgram eof (ts ++ us) =
      ((parseProgram eof' ts).1 ++ (parseProgram eof us).1, (parseProgram eof us).2) := by
  obtain ⟨hg, hsp⟩ := parseProgram_spells eof' ts h
  exact parseProgram_of_spells hg (hsp.append us) hus

/-! ### A sample

The program `if (a) b;` stands in front of `); let c; d`. There, the closing parenthesis is no
expression, and the semicolon behind `d` is missing.
-/

namespace Malformed

open Sample (tok)

def front : List Token :=
  [tok .ifWord "if", tok .leftParen "(", tok .identifier "a", tok .rightParen ")",
    tok .identifier "b", tok .semicolon ";"]

def behind : List Token :=
  [tok .rightParen ")", tok .semicolon ";", tok .letWord "let", tok .identifier "c",
    tok .semicolon ";", tok .identifier "d"]

end Malformed

theorem malformed_parseProgram_append :
    (parseProgram (Sample.tok .endOfInput "") Malformed.front).2 = [] ∧ NoElse Malformed.behind ∧
      parseProgram (Sample.tok .endOfInput "") (Malformed.front ++ Malformed.behind) =
        ([.branch (.reference (Sample.tok .identifier "a") ())
            (.expr (.reference (Sample.tok .identifier "b") ())) none,
          .letDecl (Sample.tok .identifier "c") none none],
        [.ofToken (Sample.tok .rightParen ")") (.grammatical .noExpression),
          .ofToken (Sample.tok .endOfInput "")
            (.grammatical (.missing .semicolonAfterExpression))]) := by
  have hfront : parseProgram (Sample.tok .endOfInput "") Malformed.front =
      ([.branch (.reference (Sample.tok .identifier "a") ())
        (.expr (.reference (Sample.tok .identifier "b") ())) none], []) := by cbv
  have hbehind : parseProgram (Sample.tok .endOfInput "") Malformed.behind =
      ([.letDecl (Sample.tok .identifier "c") none none],
      [.ofToken (Sample.tok .rightParen ")") (.grammatical .noExpression),
        .ofToken (Sample.tok .endOfInput "")
          (.grammatical (.missing .semicolonAfterExpression))]) := by cbv
  have hclean : (parseProgram (Sample.tok .endOfInput "") Malformed.front).2 = [] := by
    rw [hfront]
  have helse : NoElse Malformed.behind := by
    rintro _ ⟨⟩
    decide
  refine ⟨hclean, helse, ?_⟩
  rw [parseProgram_append hclean helse, hfront, hbehind]
  rfl

end RadixScript
