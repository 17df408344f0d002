/-
# Texts with blanks between them

Two texts with blanks between them have the tokens of the first and then those
of the second, which stand behind the first text and the blanks. If the second
has a lexeme at fault, so have the two together, at the place to which it was
put. The first text is scanned as if it ended at the blanks
(`Layout.scans_blanks`), and what is behind them is scanned as if it began
there, for the scanner sees places only to report them (`Layout.shift`,
`Faulty.shift`).

Key definition: `LexError.move`.
Key theorems: `Faulty.shift`, `scan_separated`.
-/
import NestedQuery.Proofs.LexicalErrors

namespace NestedQuery

/-- The error at another place. -/
def LexError.move (f : Nat → Nat) : LexError → LexError
  | unexpected ch position => .unexpected ch (f position)
  | unterminated position => .unterminated (f position)
  | invalidEscape ch position => .invalidEscape ch (f position)
  | invalidNumber text position => .invalidNumber text (f position)

/-- The same lexeme further behind is at fault there. -/
theorem Defect.shift {p : Nat} {cs : List Char} {e : LexError} (n : Nat) (h : Defect p cs e) :
    Defect (n + p) cs (e.move (n + ·)) := by
  cases h with
  | unexpected hb h => exact .unexpected hb h
  | unterminated hq h => exact .unterminated hq h
  | @invalidEscape quote c body text cs hq h hc =>
    have hplace : n + (p + 1 + body.length + 1) = n + p + 1 + body.length + 1 := by omega
    rw [LexError.move, hplace]
    exact .invalidEscape hq h hc
  | invalidNumber hd hm hv => exact .invalidNumber hd hm hv

/-- The same characters further behind have the same lexeme at fault. -/
theorem Faulty.shift {p : Nat} {cs : List Char} {e : LexError} (n : Nat) (h : Faulty p cs e) :
    Faulty (n + p) cs (e.move (n + ·)) := by
  induction h with
  | here hb h =>
    refine .here hb ?_
    rw [Nat.add_assoc]
    exact h.shift n
  | behind hb hs he _ ih =>
    refine .behind hb hs he ?_
    rwa [Nat.add_assoc, Nat.add_assoc, ← Nat.add_assoc _ _ (List.length _)]

/-- **Scanning respects blanks between texts.** With blanks between them, two texts have the tokens
of the first and those of the second, shifted by the length of the first and of the blanks. If the
second has none, its error is that of both, shifted alike. -/
theorem scan_separated {a blanks : String} {ts : List Token} (ha : scan a = .ok ts)
    (hb : Blank blanks.toList) (hne : blanks ≠ "") (b : String) :
    let n := (a ++ blanks).length
    (∀ us, scan b = .ok us → scan (a ++ blanks ++ b) = .ok (ts ++ us.map (Token.move (n + ·)))) ∧
      ∀ e, scan b = .error e → scan (a ++ blanks ++ b) = .error (e.move (n + ·)) := by
  intro n
  have hnil : blanks.toList ≠ [] := fun he => hne (String.toList_eq_nil_iff.1 he)
  have hfirst : Scans 0 (a.toList ++ blanks.toList) ts :=
    (Layout.of_scanFrom ha).scans_blanks hb hnil
  have hboth : scan (a ++ blanks ++ b) = (scanFrom (n + 0) b.toList).map (ts ++ ·) := by
    rw [scan, String.toList_append, String.toList_append, hfirst, Nat.zero_add, Nat.add_zero,
      ← String.toList_append, String.length_toList]
  constructor
  · intro us hus
    rw [hboth, ((Layout.of_scanFrom hus).shift n).scanFrom_eq]
    rfl
  · intro e he
    rw [hboth, ((Faulty.of_scanFrom he).shift n).scanFrom_eq]
    rfl

/-- A tab between words, and in front of a literal that is not closed. -/
theorem scan_separated_tab :
    let a : Token := ⟨.identifier, "a", 0⟩
    scan "a" = .ok [a] ∧ Blank "\t".toList ∧
      scan "a\ta" = .ok [a, ⟨.identifier, "a", 2⟩] ∧ scan "a\t'b" = .error (.unterminated 2) := by
  intro a
  have hscan : scan "a" = .ok [a] := by
    set_option maxRecDepth 2000 in cbv
  have htab : Blank "\t".toList := by decide
  have hopen : scan "'b" = .error (.unterminated 0) := by
    set_option maxRecDepth 2000 in cbv
  have hne : "\t" ≠ "" := by decide
  exact ⟨hscan, htab, (scan_separated hscan htab hne "a").1 _ hscan,
    (scan_separated hscan htab hne "'b").2 _ hopen⟩

end NestedQuery
