/-
# Runs in lock step

Two evaluations agree if they do the same up to the values they work on: from
the same generator they report the same, leave the generator alike, and both
fail with the same error or both give values that are related. The first one
may also stop early, with an error that allows it, and then what it reported
is where the reports of the other one begin. The ways to combine evaluations
keep this, so that it carries over from the parts of a program to the whole.

Key definitions: `Agree`, `Outcome.Agree`, `Eval.Agree`, `Never`.
Key theorems: `Agree.bind`, `Eval.Agree.bind`, `Eval.Agree.forEach`,
`Eval.Agree.shuffle`, `Agree.arrange`.
-/
import Mathlib.Data.List.Forall2
import NestedQuery.Evaluator.Modifier
import NestedQuery.Proofs.SortedRuns

namespace NestedQuery

variable {α β γ δ : Type} {Stop : EvalError → Prop} {R : α → β → Prop} {S : γ → δ → Prop}

/-- No error allows a run to stop early. -/
def Never (_ : EvalError) : Prop := False

/-! ### Results -/

/-- Two results that are related, or the same error; or else the first one is an error that
allows its run to stop, whatever the other result. -/
inductive Agree (Stop : EvalError → Prop) (R : α → β → Prop) :
    Except EvalError α → Except EvalError β → Prop
  | ok {a : α} {b : β} : R a b → Agree Stop R (.ok a) (.ok b)
  | error (e : EvalError) : Agree Stop R (.error e) (.error e)
  | stopped {e : EvalError} {y : Except EvalError β} : Stop e → Agree Stop R (.error e) y

namespace Agree

theorem bind {x : Except EvalError α} {y : Except EvalError β} {f : α → Except EvalError γ}
    {k : β → Except EvalError δ} (h : Agree Stop R x y)
    (hf : ∀ {a b}, R a b → Agree Stop S (f a) (k b)) : Agree Stop S (x.bind f) (y.bind k) := by
  cases h with
  | ok hab => exact hf hab
  | error e => exact .error e
  | stopped hs => exact .stopped hs

theorem map {x : Except EvalError α} {y : Except EvalError β} {f : α → γ} {k : β → δ}
    (h : Agree Stop R x y) (hf : ∀ {a b}, R a b → S (f a) (k b)) :
    Agree Stop S (x.map f) (y.map k) := by
  cases h with
  | ok hab => exact .ok (hf hab)
  | error e => exact .error e
  | stopped hs => exact .stopped hs

/-- Results of a run that never stops early agree for every other reason to stop. -/
theorem of_never {x : Except EvalError α} {y : Except EvalError β} (h : Agree Never R x y) :
    Agree Stop R x y := by
  cases h with
  | ok hab => exact .ok hab
  | error e => exact .error e
  | stopped hs => exact hs.elim

theorem refl {R : α → α → Prop} {x : Except EvalError α} (h : ∀ a, x = .ok a → R a a) :
    Agree Stop R x x := by
  cases x with
  | ok a => exact .ok (h a rfl)
  | error e => exact .error e

end Agree

/-! ### Outcomes and evaluations -/

/-- Outcomes that agree in their results and are the same otherwise; or else the first run
stopped, and the second one began by reporting the same. -/
inductive Outcome.Agree (Stop : EvalError → Prop) (R : α → β → Prop) :
    Outcome α → Outcome β → Prop
  | ok {a : α} {b : β} {ds : List Diagnostic} {g : Generator} :
    R a b → Agree Stop R ⟨.ok a, ds, g⟩ ⟨.ok b, ds, g⟩
  | error (e : EvalError) (ds : List Diagnostic) (g : Generator) :
    Agree Stop R ⟨.error e, ds, g⟩ ⟨.error e, ds, g⟩
  | stopped {e : EvalError} {ds : List Diagnostic} {g : Generator} {o : Outcome β} :
    Stop e → ds <+: o.reports → Agree Stop R ⟨.error e, ds, g⟩ o

/-- Outcomes still agree with the same reports in front of both. -/
theorem Outcome.Agree.prepend {o : Outcome α} {o' : Outcome β} (ds : List Diagnostic)
    (h : o.Agree Stop R o') :
    Outcome.Agree Stop R ⟨o.result, ds ++ o.reports, o.generator⟩
      ⟨o'.result, ds ++ o'.reports, o'.generator⟩ := by
  cases h with
  | ok hab => exact .ok hab
  | error e ds' g => exact .error e _ g
  | stopped hs hp => exact .stopped hs ((List.prefix_append_right_inj ds).2 hp)

namespace Eval

/-- Two evaluations that agree from every state of the generator. -/
def Agree (Stop : EvalError → Prop) (R : α → β → Prop) (x : Eval α) (y : Eval β) : Prop :=
  ∀ g, (x g).Agree Stop R (y g)

/-- What an evaluation reports comes first, whatever follows it. -/
theorem reports_prefix_bind (x : Eval α) (f : α → Eval γ) (g : Generator) :
    (x g).reports <+: ((x >>= f) g).reports := by
  rcases h : x g with ⟨r, ds, g'⟩
  cases r with
  | ok a =>
    rw [ok_bind h]
    exact List.prefix_append ds _
  | error e => exact ⟨[], by rw [error_bind h, List.append_nil]⟩

namespace Agree

theorem pure {a : α} {b : β} (h : R a b) : Agree Stop R (pure a : Eval α) (pure b : Eval β) :=
  fun _ => .ok h

theorem bind {x : Eval α} {y : Eval β} {f : α → Eval γ} {k : β → Eval δ} (h : Agree Stop R x y)
    (hf : ∀ {a b}, R a b → Agree Stop S (f a) (k b)) : Agree Stop S (x >>= f) (y >>= k) := by
  intro g
  have hg := h g
  have hpre := reports_prefix_bind y k g
  generalize hx : x g = o at hg
  generalize hy : y g = o' at hg hpre
  cases hg with
  | ok hab =>
    rw [ok_bind hx, ok_bind hy]
    exact (hf hab _).prepend _
  | error e ds g' =>
    rw [error_bind hx, error_bind hy]
    exact .error e ds g'
  | stopped hs hp =>
    rw [error_bind hx]
    exact .stopped hs (hp.trans hpre)

theorem map {x : Eval α} {y : Eval β} {f : α → γ} {k : β → δ} (h : Agree Stop R x y)
    (hf : ∀ {a b}, R a b → S (f a) (k b)) : Agree Stop S (f <$> x) (k <$> y) := by
  rw [map_eq_pure_bind, map_eq_pure_bind]
  exact h.bind fun hab => pure (hf hab)

/-- Results may be related more loosely. -/
theorem mono {R' : α → β → Prop} {x : Eval α} {y : Eval β} (h : Agree Stop R x y)
    (hR : ∀ {a b}, R a b → R' a b) : Agree Stop R' x y := by
  intro g
  have hg := h g
  generalize x g = o at hg
  generalize y g = o' at hg
  cases hg with
  | ok hab => exact .ok (hR hab)
  | error e ds g' => exact .error e ds g'
  | stopped hs hp => exact .stopped hs hp

theorem ofExcept {x : Except EvalError α} {y : Except EvalError β}
    (h : NestedQuery.Agree Stop R x y) : Agree Stop R (ofExcept x) (ofExcept y) := by
  intro g
  cases h with
  | ok hab => exact .ok hab
  | error e => exact .error e [] g
  | stopped hs => exact .stopped hs List.nil_prefix

theorem report (d : Diagnostic) : Agree Stop Eq (report d) (report d) := fun _ => .ok rfl

theorem reportAll (ds : List Diagnostic) : Agree Stop Eq (reportAll ds) (reportAll ds) :=
  fun _ => .ok rfl

/-- A loop over items that are related pairwise. -/
theorem forEach {f : α → Eval γ} {k : β → Eval δ} {xs : List α} {ys : List β}
    (hf : ∀ a b, R a b → Agree Stop S (f a) (k b)) (h : List.Forall₂ R xs ys) :
    Agree Stop (List.Forall₂ S) (forEach f xs) (forEach k ys) := by
  induction h with
  | nil => exact pure .nil
  | cons hab _ ih => exact (hf _ _ hab).bind fun hcd => ih.bind fun hcds => pure (.cons hcd hcds)

end Agree
end Eval

/-! ### Lists that are related pairwise

Such lists are the two sides of one list of pairs, so what commutes with
maps does the same to both. -/

/-- Pairs of related items. -/
abbrev Pairs (R : α → β → Prop) := {p : α × β // R p.1 p.2}

theorem exists_pairs {xs : List α} {ys : List β} (h : List.Forall₂ R xs ys) :
    ∃ ps : List (Pairs R), xs = ps.map (·.1.1) ∧ ys = ps.map (·.1.2) := by
  induction h with
  | nil => exact ⟨[], rfl, rfl⟩
  | @cons a b _ _ hab _ ih =>
    obtain ⟨ps, hx, hy⟩ := ih
    exact ⟨⟨(a, b), hab⟩ :: ps, by rw [hx, List.map_cons], by rw [hy, List.map_cons]⟩

theorem forall₂_pairs (ps : List (Pairs R)) :
    List.Forall₂ R (ps.map (·.1.1)) (ps.map (·.1.2)) := by
  rw [List.forall₂_map_left_iff, List.forall₂_map_right_iff, List.forall₂_same]
  exact fun p _ => p.2

/-- Related items are drawn in the same order. -/
theorem Eval.Agree.shuffle {xs : List α} {ys : List β} (h : List.Forall₂ R xs ys) :
    Eval.Agree Stop (List.Forall₂ R) (Eval.shuffle xs) (Eval.shuffle ys) := by
  obtain ⟨ps, rfl, rfl⟩ := exists_pairs h
  intro g
  simp only [Eval.shuffle, Generator.shuffle_map]
  exact .ok (forall₂_pairs _)

/-- Related items are arranged alike if their orders are, or neither list is. -/
theorem Agree.arrange {before : α → α → Bool} {before' : β → β → Bool}
    (hR : ∀ a b c d, R a c → R b d → before a b = before' c d) {xs : List α} {ys : List β}
    (h : List.Forall₂ R xs ys) :
    Agree Stop (List.Forall₂ R) (consistent (Sorting.arrange before xs))
      (consistent (Sorting.arrange before' ys)) := by
  obtain ⟨ps, rfl, rfl⟩ := exists_pairs h
  have hx : ∀ p q : Pairs R, before p.1.1 q.1.1 = before p.1.1 q.1.1 := fun _ _ => rfl
  have hy : ∀ p q : Pairs R, before' p.1.2 q.1.2 = before p.1.1 q.1.1 :=
    fun p q => (hR _ _ _ _ p.2 q.2).symm
  rw [Sorting.arrange_map hx, Sorting.arrange_map hy]
  cases Sorting.arrange (fun p q : Pairs R => before p.1.1 q.1.1) ps with
  | none => exact .error _
  | some places => exact .ok (forall₂_pairs places)

end NestedQuery
