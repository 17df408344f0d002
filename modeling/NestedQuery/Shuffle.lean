/-
# Shuffling

A generator of pseudo-random words, which a seed starts, and the shuffle that
draws on it: the first item is drawn from all, the second one from the rest,
and so on. A shuffle permutes its items, and which permutation it is depends
on their number and on the generator only.

Key definitions: `Generator`, `Generator.draw`, `Generator.shuffle`.
Key theorems: `Generator.shuffle_perm`, `Generator.shuffle_map`.
-/
namespace NestedQuery

/-- The state of a generator of pseudo-random words. -/
structure Generator where
  state : UInt64
  deriving DecidableEq

namespace Generator

/-- The generator that a seed starts. -/
def ofSeed (seed : Nat) : Generator := ⟨UInt64.ofNat seed⟩

/-- The next word: the state moves on by a fixed odd step and is then mixed. -/
def next (g : Generator) : UInt64 × Generator :=
  let state := g.state + 0x9e3779b97f4a7c15
  let a := (state ^^^ (state >>> 30)) * 0xbf58476d1ce4e5b9
  let b := (a ^^^ (a >>> 27)) * 0x94d049bb133111eb
  (b ^^^ (b >>> 31), ⟨state⟩)

/-- A position among the first `n + 1` ones. -/
def draw (g : Generator) (n : Nat) : Fin (n + 1) × Generator :=
  (Fin.ofNat (n + 1) g.next.1.toNat, g.next.2)

/-- The items in the order in which they are drawn, `n` of them. -/
def shuffleFirst {α : Type} : Nat → List α → Generator → List α × Generator
  | 0, items, g => (items, g)
  | n + 1, items, g =>
    let (i, g') := g.draw n
    match items[i.val]? with
    | none => (items, g')
    | some item =>
      let (rest, g'') := shuffleFirst n (items.eraseIdx i) g'
      (item :: rest, g'')

/-- All items in a new order. -/
def shuffle {α : Type} (items : List α) (g : Generator) : List α × Generator :=
  shuffleFirst items.length items g

theorem cons_eraseIdx_perm {α : Type} : ∀ {items : List α} {i : Nat} {item : α},
    items[i]? = some item → (item :: items.eraseIdx i).Perm items
  | [], _, _, h => by simp at h
  | x :: xs, 0, item, h => by
    simp only [List.getElem?_cons_zero, Option.some.injEq] at h
    simp [h]
  | x :: xs, i + 1, item, h => by
    simp only [List.getElem?_cons_succ] at h
    simpa using (List.Perm.swap x item _).trans ((cons_eraseIdx_perm h).cons x)

theorem shuffleFirst_perm {α : Type} (n : Nat) (items : List α) (g : Generator) :
    (shuffleFirst n items g).1.Perm items := by
  induction n generalizing items g with
  | zero => exact List.Perm.refl _
  | succ n ih =>
    simp only [shuffleFirst]
    split
    · exact List.Perm.refl _
    · next item h => exact ((ih _ _).cons item).trans (cons_eraseIdx_perm h)

/-- A shuffle permutes its items. -/
theorem shuffle_perm {α : Type} (items : List α) (g : Generator) :
    (shuffle items g).1.Perm items := shuffleFirst_perm _ _ _

theorem shuffleFirst_map {α β : Type} (f : α → β) (n : Nat) (items : List α) (g : Generator) :
    shuffleFirst n (items.map f) g =
      ((shuffleFirst n items g).1.map f, (shuffleFirst n items g).2) := by
  induction n generalizing items g with
  | zero => rfl
  | succ n ih =>
    simp only [shuffleFirst, List.getElem?_map]
    cases items[(g.draw n).1.val]? with
    | none => rfl
    | some item =>
      have h : (items.map f).eraseIdx (g.draw n).1 = (items.eraseIdx (g.draw n).1).map f := by
        simp [List.eraseIdx_eq_take_drop_succ, List.map_take, List.map_drop]
      simp [h, ih]

/-- The permutation of a shuffle does not depend on what the items are. -/
theorem shuffle_map {α β : Type} (f : α → β) (items : List α) (g : Generator) :
    shuffle (items.map f) g = ((shuffle items g).1.map f, (shuffle items g).2) := by
  simp [shuffle, shuffleFirst_map]

end Generator
end NestedQuery
