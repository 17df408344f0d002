/-
# Evaluations

An evaluation gives a value or fails, reports diagnostics on the way, and may
draw on the generator of random words. What was reported before a failure is
kept, and so is the state that the generator was left in.

Key definitions: `Outcome`, `Eval`, `Eval.report`, `Eval.ofExcept`,
`Eval.shuffle`, `Eval.forEach`.
Key theorems: `Eval.ok_bind`, `Eval.error_bind` and the monad laws.
-/
import NestedQuery.Diagnostic
import NestedQuery.Error
import NestedQuery.Shuffle

namespace NestedQuery

/-- How an evaluation ends. -/
structure Outcome (α : Type) where
  result : Except EvalError α
  /-- The diagnostics, in the order in which they were reported. -/
  reports : List Diagnostic
  /-- The generator as it was left. -/
  generator : Generator

/-- A computation that may fail, report, and draw random words. -/
def Eval (α : Type) := Generator → Outcome α

namespace Eval

variable {α β : Type}

/-- Gives a value and does nothing else. -/
protected def pure (a : α) : Eval α := fun g => ⟨.ok a, [], g⟩

/-- Two evaluations one after the other, unless the first one fails. -/
protected def bind (x : Eval α) (f : α → Eval β) : Eval β := fun g =>
  match x g with
  | ⟨.error e, reports, g'⟩ => ⟨.error e, reports, g'⟩
  | ⟨.ok a, reports, g'⟩ =>
    let y := f a g'
    ⟨y.result, reports ++ y.reports, y.generator⟩

instance : Monad Eval where
  pure := Eval.pure
  bind := Eval.bind

theorem ok_bind {x : Eval α} {f : α → Eval β} {g g' : Generator} {a : α} {ds : List Diagnostic}
    (h : x g = ⟨.ok a, ds, g'⟩) :
    (x >>= f) g = ⟨(f a g').result, ds ++ (f a g').reports, (f a g').generator⟩ := by
  show Eval.bind x f g = _
  simp [Eval.bind, h]

theorem error_bind {x : Eval α} {f : α → Eval β} {g g' : Generator} {e : EvalError}
    {ds : List Diagnostic} (h : x g = ⟨.error e, ds, g'⟩) : (x >>= f) g = ⟨.error e, ds, g'⟩ := by
  show Eval.bind x f g = _
  simp [Eval.bind, h]

theorem pure_bind (a : α) (f : α → Eval β) : (pure a >>= f) = f a := rfl

theorem id_map (x : Eval α) : id <$> x = x := by
  funext g
  show Eval.bind x (fun a => Eval.pure (id a)) g = x g
  rcases h : x g with ⟨r, ds, g'⟩
  cases r <;> simp [Eval.bind, Eval.pure, h]

theorem bind_assoc {γ : Type} (x : Eval α) (f : α → Eval β) (k : β → Eval γ) :
    x >>= f >>= k = x >>= fun a => f a >>= k := by
  funext g
  show Eval.bind (Eval.bind x f) k g = Eval.bind x (fun a => Eval.bind (f a) k) g
  rcases hx : x g with ⟨r, ds, g'⟩
  cases r with
  | error e => simp [Eval.bind, hx]
  | ok a =>
    rcases hf : f a g' with ⟨r, ds', g''⟩
    cases r <;> simp [Eval.bind, hx, hf]

instance : LawfulMonad Eval := LawfulMonad.mk' Eval id_map pure_bind bind_assoc

/-- Fails unless there is a value. -/
def ofExcept (x : Except EvalError α) : Eval α := fun g => ⟨x, [], g⟩

/-- Reports a diagnostic. -/
def report (diagnostic : Diagnostic) : Eval Unit := fun g => ⟨.ok (), [diagnostic], g⟩

/-- Reports diagnostics in order. -/
def reportAll (diagnostics : List Diagnostic) : Eval Unit := fun g => ⟨.ok (), diagnostics, g⟩

/-- The items in a random order. -/
def shuffle (items : List α) : Eval (List α) := fun g =>
  let (shuffled, g') := g.shuffle items
  ⟨.ok shuffled, [], g'⟩

/-- One evaluation for each item, in order. -/
def forEach (f : α → Eval β) : List α → Eval (List β)
  | [] => pure []
  | x :: xs => do
    let y ← f x
    let ys ← forEach f xs
    pure (y :: ys)

end Eval
end NestedQuery
