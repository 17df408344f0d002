/-
# Where the parser stops

An unexpected token is the first one that no query goes on with. What was read
before it can be completed: a few words behind it make a phrase that is read
to its end. And whatever stands behind the unexpected token, the parser stops
at it with the same error, since it never looks further. This is shown for
each phrase, for the phrases it is made of first; a phrase that goes on
behind another one, or ends in it, passes on where that one stops.

A completed query may still have siblings that share an alias.

Key definitions: `Parser.Filler`, `Parser.Accepted`, `Parser.Completable`,
`Parser.Stuck`.
Key theorems: `Parser.Stuck.lift`, `Parser.Stuck.enclosed`,
`Parser.stuck_path`, `Parser.stuck_modifier`, `Parser.stuck_heading`.
-/
import Mathlib.Data.List.Forall2
import NestedQuery.Proofs.Grammar.Follow

namespace NestedQuery

namespace Parser

open Grammar

/-! ### Completions -/

/-- The words that complete phrases. -/
inductive Filler where
  | name
  | colon
  | number
  | closing

namespace Filler

/-- The kind of the word's token. -/
def kind : Filler → Kind
  | name => .identifier
  | colon => .colon
  | number => .integer
  | closing => .closeCurly

/-- The word itself. -/
def text : Filler → String
  | name => "x"
  | colon => ":"
  | number => "0"
  | closing => "\x7d"

end Filler

/-- The tokens are these words, wherever they stand. -/
def Fill : List Filler → List Token → Prop :=
  List.Forall₂ fun filler token => token.kind = filler.kind ∧ token.text = filler.text

/-- The phrase was read up to the tokens behind it, or siblings in it share an alias. -/
inductive Accepted {α : Type} (behind : List Token) : Reading α → Prop
  | read (a : α) : Accepted behind (.ok (a, behind))
  | duplicate (aliasName : String) (position : Nat) :
    Accepted behind (.error (.duplicateAlias aliasName position))

/-- Some words behind the tokens complete the phrase in front of a closing brace or the end. -/
def Completable {α : Type} (f : List Token → Reading α) (tokens : List Token) : Prop :=
  ∃ fillers, fillers ≠ [] ∧ ∀ words behind, Fill fillers words → Begins [.closeCurly] behind →
    Accepted behind (f (tokens ++ (words ++ behind)))

/-- The phrase stops somewhere in these tokens. What is before that place can be completed, and
of what is behind it only the first token, or that there is none, is to blame. -/
inductive Stuck {α : Type} (f : List Token → Reading α) : List Token → ParseError → Prop
  | mk {expected : Expectation} {phrase : Option Phrase} (tokens behind : List Token)
    (hf : ∀ other : List Token, other.head? = behind.head? →
      f (tokens ++ other) = .error (unexpected expected phrase behind))
    (hc : Completable f tokens) : Stuck f (tokens ++ behind) (unexpected expected phrase behind)

variable {α β : Type} {f : List Token → Reading α} {g : List Token → Reading β}
  {tokens rest : List Token} {err : ParseError} {phrase : Phrase}

theorem fill_singleton_iff {filler : Filler} {words : List Token} :
    Fill [filler] words ↔
      ∃ token, token.kind = filler.kind ∧ token.text = filler.text ∧ words = [token] := by
  simp [Fill, List.forall₂_cons_left_iff, and_assoc]

/-- One word completes what is read with that word behind it. -/
theorem completable_of_word (filler : Filler)
    (h : ∀ {token : Token} {behind : List Token}, token.kind = filler.kind →
      token.text = filler.text → Begins [.closeCurly] behind →
        ∃ a, f (tokens ++ token :: behind) = .ok (a, behind)) : Completable f tokens := by
  refine ⟨[filler], by simp, fun words behind hw hb => ?_⟩
  obtain ⟨token, hk, ht, rfl⟩ := fill_singleton_iff.1 hw
  obtain ⟨a, hread⟩ := h hk ht hb
  rw [List.singleton_append, hread]
  exact .read a

theorem fill_append {fillers others : List Filler} {words : List Token}
    (h : Fill (fillers ++ others) words) :
    ∃ us vs, Fill fillers us ∧ Fill others vs ∧ words = us ++ vs := by
  induction fillers generalizing words with
  | nil => exact ⟨[], words, .nil, h, rfl⟩
  | cons filler fillers ih =>
    obtain ⟨token, words, ht, hw, rfl⟩ := List.forall₂_cons_left_iff.1 h
    obtain ⟨us, vs, hu, hv, rfl⟩ := ih hw
    exact ⟨token :: us, vs, .cons ht hu, hv, rfl⟩

/-- In braces a phrase is completed as it is without them, and a closing brace. -/
theorem Completable.enclosed (h : Completable g tokens) (ts : List Token)
    (hfail : ∀ more e, more ≠ [] → g more = .error e → f (ts ++ more) = .error e)
    (hread : ∀ more b closing behind, g more = .ok (b, closing :: behind) →
      closing.kind = .closeCurly → ∃ a, f (ts ++ more) = .ok (a, behind)) :
    Completable f (ts ++ tokens) := by
  obtain ⟨fillers, -, hc⟩ := h
  refine ⟨fillers ++ [.closing], by simp, fun words behind hw hb => ?_⟩
  obtain ⟨us, vs, hu, hv, rfl⟩ := fill_append hw
  obtain ⟨closing, hk, -, rfl⟩ := fill_singleton_iff.1 hv
  have haccepted := hc us (closing :: behind) hu (begins_cons (List.mem_singleton.2 hk))
  have hmore : tokens ++ (us ++ closing :: behind) ≠ [] := by simp
  rw [List.append_assoc, List.append_assoc us, List.singleton_append]
  generalize hx : g (tokens ++ (us ++ closing :: behind)) = x at haccepted
  cases haccepted with
  | read b =>
    obtain ⟨a, hread⟩ := hread _ b closing behind hx hk
    rw [hread]
    exact .read a
  | duplicate aliasName position =>
    rw [hfail _ _ hmore hx]
    exact .duplicate aliasName position

/-- A phrase stops where its first token alone is at fault. -/
theorem stuck_of_head {expected : Expectation} {phrase : Option Phrase}
    (hf : ∀ other : List Token, other.head? = tokens.head? →
      f other = .error (unexpected expected phrase other))
    (hc : Completable f []) : Stuck f tokens (unexpected expected phrase tokens) := by
  refine .mk [] tokens (fun other ho => ?_) hc
  rw [List.nil_append, hf other ho, unexpected, unexpected, ho]

theorem append_ne_nil_of_head? {before behind other : List Token} (h : before ++ behind ≠ [])
    (ho : other.head? = behind.head?) : before ++ other ≠ [] := by
  intro he
  obtain ⟨rfl, rfl⟩ := List.append_eq_nil_iff.1 he
  exact h (List.head?_eq_none_iff.1 ho.symm)

namespace Stuck

/-- Where one phrase stops behind some tokens, another one stops that fails as the first one does
and is complete where that one is. -/
theorem lift (h : Stuck g rest err) (ts : List Token)
    (hfail : ∀ more e, g more = .error e → f (ts ++ more) = .error e)
    (hread : ∀ more b behind, g more = .ok (b, behind) → Begins [.closeCurly] behind →
      Accepted behind (f (ts ++ more))) : Stuck f (ts ++ rest) err := by
  obtain ⟨tokens, behind, hg, fillers, hne, hc⟩ := h
  rw [← List.append_assoc]
  refine .mk _ behind (fun other ho => ?_) ⟨fillers, hne, fun words behind hw hb => ?_⟩
  · rw [List.append_assoc]
    exact hfail _ _ (hg other ho)
  · have haccepted := hc words behind hw hb
    rw [List.append_assoc]
    generalize hx : g (tokens ++ (words ++ behind)) = x at haccepted
    cases haccepted with
    | read b => exact hread _ b behind hx hb
    | duplicate aliasName position =>
      rw [hfail _ _ hx]
      exact .duplicate aliasName position

theorem behind (ts : List Token) (h : Stuck (fun more => f (ts ++ more)) rest err) :
    Stuck f (ts ++ rest) err := by
  refine h.lift ts (fun _ _ he => he) (fun more b behind hb _ => ?_)
  rw [hb]
  exact .read b

/-- A phrase that ends in another one stops where that one does. -/
theorem map (h : Stuck g rest err) (ts : List Token) (k : β → α)
    (hf : ∀ more, f (ts ++ more) = (g more).map fun r => (k r.1, r.2)) :
    Stuck f (ts ++ rest) err := by
  refine h.lift ts (fun more e he => ?_) (fun more b behind hb _ => ?_)
  · rw [hf, he]
    rfl
  · rw [hf, hb]
    exact .read (k b)

/-- A phrase before a closing brace is completed as it is at the end, and then the brace. -/
theorem enclosed (h : Stuck g rest err) (hr : rest ≠ []) (ts : List Token)
    (hfail : ∀ more e, more ≠ [] → g more = .error e → f (ts ++ more) = .error e)
    (hread : ∀ more b closing behind, g more = .ok (b, closing :: behind) →
      closing.kind = .closeCurly → ∃ a, f (ts ++ more) = .ok (a, behind)) :
    Stuck f (ts ++ rest) err := by
  obtain ⟨tokens, behind, hg, hc⟩ := h
  rw [← List.append_assoc]
  refine .mk _ behind (fun other ho => ?_) (hc.enclosed ts hfail hread)
  rw [List.append_assoc]
  exact hfail _ _ (append_ne_nil_of_head? hr ho) (hg other ho)

/-- What stops at the end although nothing was read can be completed from there. -/
theorem completable_nil (h : Stuck f rest err) (hr : rest = []) : Completable f [] := by
  obtain ⟨tokens, behind, -, hc⟩ := h
  obtain ⟨rfl, -⟩ := List.append_eq_nil_iff.1 hr
  exact hc

end Stuck

/-! ### Single tokens -/

theorem expect_eq_error_iff {kinds : List Kind} :
    expect kinds phrase tokens = .error err ↔
      (∀ token ∈ tokens.head?, token.kind ∉ kinds) ∧
        unexpected (.oneOf kinds) phrase tokens = err := by
  cases tokens with
  | nil => simp [expect]
  | cons token tokens => by_cases hk : token.kind ∈ kinds <;> simp [expect, hk]

theorem name_eq_error_iff :
    name phrase tokens = .error err ↔
      (∀ token ∈ tokens.head?, token.kind ∉ nameKinds) ∧
        unexpected (.oneOf [.identifier]) phrase tokens = err := by
  cases tokens with
  | nil => simp [name]
  | cons token tokens => by_cases hk : token.kind ∈ nameKinds <;> simp [name, hk]

theorem stuck_expect {kinds : List Kind} (filler : Filler) (hk : filler.kind ∈ kinds)
    (h : expect kinds phrase tokens = .error err) : Stuck (expect kinds phrase) tokens err := by
  obtain ⟨hfault, rfl⟩ := expect_eq_error_iff.1 h
  exact stuck_of_head (fun other ho => expect_eq_error_iff.2 ⟨ho ▸ hfault, rfl⟩)
    (completable_of_word filler fun htoken _ _ => ⟨_, expect_eq_ok_iff.2 ⟨htoken ▸ hk, rfl⟩⟩)

theorem mem_nameKinds {token : Token} (h : token.kind = Filler.name.kind) :
    token.kind ∈ nameKinds := by
  rw [h]
  decide

theorem stuck_name (h : name phrase tokens = .error err) : Stuck (name phrase) tokens err := by
  obtain ⟨hfault, rfl⟩ := name_eq_error_iff.1 h
  exact stuck_of_head (fun other ho => name_eq_error_iff.2 ⟨ho ▸ hfault, rfl⟩)
    (completable_of_word .name fun hk _ _ => ⟨_, name_eq_ok_iff.2 ⟨mem_nameKinds hk, rfl⟩⟩)

/-! ### Property paths -/

theorem moreNames_closing {stop : Nat} {behind : List Token} (h : Begins [.closeCurly] behind) :
    moreNames phrase stop behind = .ok ([], behind) := by
  cases behind with
  | nil => rfl
  | cons token behind =>
    have hkind : token.kind ≠ .dot := without_cons.1 (h.without (by decide))
    unfold moreNames
    rw [if_neg fun hd => hkind hd.1]

/-- A point that joins names must have a name behind it. -/
theorem stuck_joined {stop : Nat} {dot : Token} (hd : dot.kind = .dot ∧ dot.position = stop)
    (hfault : ∀ token ∈ tokens.head?, token.kind ∉ nameKinds) :
    Stuck (moreNames phrase stop) (dot :: tokens)
      (unexpected (.oneOf [.identifier]) phrase tokens) := by
  have hfail : ∀ other : List Token, (∀ token ∈ other.head?, token.kind ∉ nameKinds) →
      moreNames phrase stop (dot :: other) =
        .error (unexpected (.oneOf [.identifier]) phrase other) := by
    intro other ho
    unfold moreNames
    rw [if_pos hd]
    cases other with
    | nil => rfl
    | cons token other => exact if_neg (ho token rfl)
  refine Stuck.behind [dot] (stuck_of_head (fun other ho => hfail other (ho ▸ hfault))
    (completable_of_word .name fun {token _} hk _ hb => ⟨[token.text], ?_⟩))
  simp only [List.nil_append, List.singleton_append, moreNames, if_pos hd,
    if_pos (mem_nameKinds hk), moreNames_closing hb, Except.map]

theorem stuck_moreNames {stop : Nat} (h : moreNames phrase stop tokens = .error err) :
    Stuck (moreNames phrase stop) tokens err := by
  fun_induction moreNames phrase stop tokens with
  | case1 => cases h
  | case2 stop dot hd =>
    cases h
    exact stuck_joined hd (by simp)
  | case3 stop dot hd segment tokens hs ih =>
    refine (ih (map_eq_error_iff.1 h)).map [dot, segment] (segment.text :: ·) fun more => ?_
    simp [moreNames, hd, hs]
  | case4 stop dot hd segment tokens hs =>
    cases h
    exact stuck_joined hd (by simpa using hs)
  | case5 => cases h

theorem stuck_path (h : path phrase tokens = .error err) : Stuck (path phrase) tokens err := by
  unfold path at h
  split at h
  · next e hn =>
    cases h
    refine (stuck_name hn).lift [] (fun more e he => ?_) (fun more first behind hf hb => ?_)
    · simp [path, he]
    · simp only [List.nil_append, path, hf, moreNames_closing hb, Except.map]
      exact .read _
  · next first more hn =>
    obtain ⟨hk, rfl⟩ := name_eq_ok_iff.1 hn
    refine (stuck_moreNames (map_eq_error_iff.1 h)).map [first]
      (fun names => ".".intercalate (first.text :: names)) fun more => ?_
    have hfirst : name phrase (first :: more) = .ok (first, more) := name_eq_ok_iff.2 ⟨hk, rfl⟩
    simp [path, hfirst]

/-! ### Modifiers -/

/-- A path in front of a closing brace is a sort term, and the last one. -/
theorem sortTerms_closing {property : String} {behind : List Token}
    (hp : path phrase tokens = .ok (property, behind)) (hb : Begins [.closeCurly] behind) :
    sortTerms phrase tokens = .ok ([⟨property, .ascending⟩], behind) :=
  sortTerms_last hp (direction_eq_iff.2 (.inl ⟨rfl, rfl, hb.without (by decide)⟩))
    (hb.without (by decide))

theorem stuck_sortTerms (h : sortTerms phrase tokens = .error err) :
    Stuck (sortTerms phrase) tokens err := by
  fun_induction sortTerms phrase tokens with
  | case1 tokens e hp =>
    cases h
    refine (stuck_path hp).lift [] (fun more e he => ?_) (fun more property behind hp hb => ?_)
    · rw [List.nil_append, sortTerms_error he]
    · rw [List.nil_append, sortTerms_closing hp hb]
      exact .read _
  | case2 => cases h
  | case3 tokens property more hp d comma others hd hc ih =>
    obtain ⟨ts, ht, rfl⟩ := (term_iff phrase).1 ⟨more, hp, hd⟩
    rw [List.append_cons]
    refine (ih (map_eq_error_iff.1 h)).map _ (⟨property, d⟩ :: ·) fun more' => ?_
    obtain ⟨more, hp, hd⟩ := (term_iff phrase).2
      ⟨ts, ht.follows (.cons comma others more'), rfl⟩
    rw [← List.append_cons, sortTerms_more hp hd hc]
  | case4 => cases h

theorem size_number {token : Token} (hk : token.kind = Filler.number.kind)
    (ht : token.text = Filler.number.text) : Size token 0 := by
  refine ⟨hk, ?_⟩
  rw [ht]
  rfl

theorem size_out_of_range {token : Token} (hk : token.kind = .integer)
    (hw : Numeral.word? token.text.toList = none) (behind : List Token) :
    size phrase (token :: behind) =
      .error (unexpected .integerInRange phrase (token :: behind)) := by
  simp [size, expect, hk, hw]

theorem stuck_size (h : size phrase tokens = .error err) : Stuck (size phrase) tokens err := by
  have hc : Completable (size phrase) [] := completable_of_word .number fun hk ht _ =>
    ⟨0, size_eq_ok_iff.2 ⟨_, size_number hk ht, rfl⟩⟩
  unfold size at h
  split at h
  · next e he =>
    cases h
    obtain ⟨hfault, rfl⟩ := expect_eq_error_iff.1 he
    refine stuck_of_head (fun other ho => ?_) hc
    rw [size, expect_eq_error_iff.2 ⟨ho ▸ hfault, rfl⟩]
  · next token rest he =>
    obtain ⟨hk, rfl⟩ := expect_eq_ok_iff.1 he
    split at h
    · cases h
    · next hw =>
      cases h
      refine stuck_of_head (fun other ho => ?_) hc
      obtain ⟨more, rfl⟩ := List.head?_eq_some_iff.1 ho
      exact size_out_of_range (List.mem_singleton.1 hk) hw more

section

variable {first comma : Token} {n : Nat}

/-- Behind the comma of a limit, the first token alone decides. -/
theorem limitArguments_second (hn : Size first n) (hc : comma.kind = .comma)
    (rest : List Token) :
    (∃ r, limitArguments phrase (first :: comma :: rest) = .ok r) ∨
      ∃ expected, ∀ other : List Token, other.head? = rest.head? →
        limitArguments phrase (first :: comma :: other) =
          .error (unexpected expected phrase other) := by
  have hfirst : ∀ more, size phrase (first :: comma :: more) = .ok (n, comma :: more) :=
    fun more => size_eq_ok_iff.2 ⟨first, hn, rfl⟩
  cases rest with
  | nil =>
    refine .inr ⟨.oneOf [.integer, .nullKeyword], fun other ho => ?_⟩
    rw [List.head?_eq_none_iff.1 ho]
    simp [limitArguments, hfirst, hc]
  | cons token rest =>
    by_cases hi : token.kind = .integer
    · cases hw : Numeral.word? token.text.toList with
      | some m =>
        exact .inl ⟨_, (limitArguments_eq_ok_iff phrase).2
          ⟨[first, comma, token], .offsetAndCount hn hc ⟨hi, hw⟩, rfl⟩⟩
      | none =>
        refine .inr ⟨.integerInRange, fun other ho => ?_⟩
        obtain ⟨more, rfl⟩ := List.head?_eq_some_iff.1 ho
        simp [limitArguments, hfirst, hc, hi, size_out_of_range hi hw, Except.map]
    · by_cases hnull : token.kind = .nullKeyword
      · exact .inl ⟨_, (limitArguments_eq_ok_iff phrase).2
          ⟨[first, comma, token], .offset hn hc hnull, rfl⟩⟩
      · refine .inr ⟨.oneOf [.integer, .nullKeyword], fun other ho => ?_⟩
        obtain ⟨more, rfl⟩ := List.head?_eq_some_iff.1 ho
        simp [limitArguments, hfirst, hc, hi, hnull]

theorem stuck_secondArgument (hn : Size first n) (hc : comma.kind = .comma)
    (h : limitArguments phrase (first :: comma :: rest) = .error err) :
    Stuck (limitArguments phrase) (first :: comma :: rest) err := by
  rcases limitArguments_second hn hc rest with ⟨r, hread⟩ | ⟨expected, hfail⟩
  · rw [hread] at h
    cases h
  · rw [hfail rest rfl] at h
    cases h
    exact Stuck.behind [first, comma] (stuck_of_head hfail
      (completable_of_word .number fun hk ht _ => ⟨_, (limitArguments_eq_ok_iff phrase).2
        ⟨_, .offsetAndCount hn hc (size_number hk ht), rfl⟩⟩))

end

theorem stuck_limitArguments (h : limitArguments phrase tokens = .error err) :
    Stuck (limitArguments phrase) tokens err := by
  cases hs : size phrase tokens with
  | error e =>
    have hfail : ∀ more e, size phrase more = .error e → limitArguments phrase more = .error e := by
      intro more e he
      rw [limitArguments, he]
    rw [hfail _ _ hs] at h
    cases h
    refine (stuck_size hs).lift [] hfail fun more n behind hsize hb => ?_
    obtain ⟨token, hn, rfl⟩ := size_eq_ok_iff.1 hsize
    have hread : limitArguments phrase (token :: behind) = .ok ((0, some n), behind) :=
      (limitArguments_eq_ok_iff phrase).2 ⟨[token], .count hn (hb.without (by decide)), rfl⟩
    rw [List.nil_append, hread]
    exact .read _
  | ok r =>
    obtain ⟨n, rest⟩ := r
    obtain ⟨token, hn, rfl⟩ := size_eq_ok_iff.1 hs
    -- the first argument alone is complete unless a comma follows
    by_cases hb : Without .comma rest
    · have hread : limitArguments phrase (token :: rest) = .ok ((0, some n), rest) :=
        (limitArguments_eq_ok_iff phrase).2 ⟨[token], .count hn hb, rfl⟩
      rw [hread] at h
      cases h
    · cases rest with
      | nil => exact (hb (without_nil _)).elim
      | cons comma rest => exact stuck_secondArgument hn (not_not.1 (mt without_cons.2 hb)) h

/-- A keyword with a grammar of its own stands before a colon and its arguments. -/
theorem stuck_keyword {p : String} {keyword : Token} (phrase : Phrase)
    (arguments : List Token → Reading β) (k : β → Modifier)
    (hm : ∀ more, modifier p (keyword :: more) =
      match expect [.colon] phrase more with
      | .error e => .error e
      | .ok (_, more) => (arguments more).map fun r => (k r.1, r.2))
    (hs : ∀ {more e}, arguments more = .error e → Stuck arguments more e) (filler : Filler)
    (hf : ∀ {token behind}, token.kind = filler.kind → token.text = filler.text →
      Begins [.closeCurly] behind → ∃ b, arguments (token :: behind) = .ok (b, behind))
    (h : modifier p (keyword :: rest) = .error err) : Stuck (modifier p) (keyword :: rest) err := by
  rw [hm] at h
  split at h
  · next e hc =>
    cases h
    obtain ⟨hfault, rfl⟩ := expect_eq_error_iff.1 hc
    refine Stuck.behind [keyword] (stuck_of_head (fun other ho => ?_)
      ⟨[.colon, filler], by simp, fun words behind hw hb => ?_⟩)
    · rw [List.singleton_append, hm, expect_eq_error_iff.2 ⟨ho ▸ hfault, rfl⟩]
    · obtain ⟨colon, words, ⟨hcolon, -⟩, hwords, rfl⟩ := List.forall₂_cons_left_iff.1 hw
      obtain ⟨token, hk, ht, rfl⟩ := fill_singleton_iff.1 hwords
      obtain ⟨b, hread⟩ := hf hk ht hb
      have hsign : expect [.colon] phrase (colon :: token :: behind) =
          .ok (colon, token :: behind) :=
        expect_eq_ok_iff.2 ⟨List.mem_singleton.2 hcolon, rfl⟩
      simp only [List.nil_append, List.cons_append, hm, hsign, hread, Except.map]
      exact .read (k b)
  · next colon more hc =>
    obtain ⟨hcolon, rfl⟩ := expect_eq_ok_iff.1 hc
    refine (hs (map_eq_error_iff.1 h)).map [keyword, colon] k fun more => ?_
    have hread : expect [.colon] phrase (colon :: more) = .ok (colon, more) :=
      expect_eq_ok_iff.2 ⟨hcolon, rfl⟩
    rw [List.cons_append, List.singleton_append, hm, hread]

/-- The word `x` in front of a closing brace is a path. -/
theorem path_name {token : Token} {behind : List Token} (hk : token.kind = Filler.name.kind)
    (hb : Begins [.closeCurly] behind) :
    path phrase (token :: behind) = .ok (token.text, behind) := by
  have hlast : ∀ dot ∈ behind.head?, ¬ Joins token dot :=
    fun dot hd hj => hb.without (by decide) dot hd hj.1
  exact (path_eq_ok_iff phrase).2
    ⟨[token], ⟨_, .last (mem_nameKinds hk) hlast, String.intercalate_singleton.symm⟩, rfl⟩

theorem stuck_modifier {p : String} (h : modifier p tokens = .error err) :
    Stuck (modifier p) tokens err := by
  cases hi : expect [.identifier] (.modifierOf p) tokens with
  | error e =>
    have hfail : ∀ more e, expect [.identifier] (.modifierOf p) more = .error e →
        modifier p more = .error e := by
      intro more e he
      rw [modifier, he]
    rw [hfail _ _ hi] at h
    cases h
    obtain ⟨hfault, rfl⟩ := expect_eq_error_iff.1 hi
    refine stuck_of_head (fun other ho => hfail _ _ (expect_eq_error_iff.2 ⟨ho ▸ hfault, rfl⟩))
      (completable_of_word .name fun {token _} hk ht hb => ?_)
    have hword : token.text ∉ knownWords := by
      rw [ht]
      decide
    exact ⟨_, modifier_of_isModifier (.bare hk hword (hb.without (by decide)))⟩
  | ok r =>
    obtain ⟨keyword, rest⟩ := r
    obtain ⟨hk, rfl⟩ := expect_eq_ok_iff.1 hi
    have hkeyword : ∀ more, expect [.identifier] (.modifierOf p) (keyword :: more) =
        .ok (keyword, more) := fun more => expect_eq_ok_iff.2 ⟨hk, rfl⟩
    by_cases hsort : keyword.text = "sort"
    · refine stuck_keyword (.sortOf p) (sortTerms (.sortOf p)) .sort (fun more => ?_)
        stuck_sortTerms .name
        (fun hk _ hb => ⟨_, sortTerms_closing (path_name hk hb) hb⟩) h
      rw [modifier, hkeyword]
      exact if_pos hsort
    · by_cases hlimit : keyword.text = "limit"
      · refine stuck_keyword (.limitOf p) (limitArguments (.limitOf p))
          (fun r => .limit r.1 r.2) (fun more => ?_) stuck_limitArguments .number
          (fun hk ht hb => ⟨_, (limitArguments_eq_ok_iff _).2
            ⟨_, .count (size_number hk ht) (hb.without (by decide)), rfl⟩⟩) h
        rw [modifier, hkeyword]
        exact (if_neg hsort).trans (if_pos hlimit)
      · -- the other words stand alone or before whatever ends at a separator
        rw [modifier, hkeyword] at h
        simp only [if_neg hsort, if_neg hlimit] at h
        split at h <;> cases h

section

variable {p : String} {pipe : Token}

theorem modifiers_closing {behind : List Token} (h : Begins [.closeCurly] behind) :
    modifiers p behind = .ok ([], behind) :=
  modifiers_of_derived (.done (h.without (by decide)))

/-- Where a modifier fails, all of them fail. -/
theorem modifiers_error (hp : pipe.kind = .pipe) (hm : modifier p tokens = .error err) :
    modifiers p (pipe :: tokens) = .error err := by
  rw [modifiers, if_pos hp]
  split
  · next he =>
    rw [hm] at he
    cases he
    rfl
  · next he =>
    rw [hm] at he
    cases he

/-- A modifier is read before those behind it. -/
theorem modifiers_more {m : Modifier} (hp : pipe.kind = .pipe)
    (hm : modifier p tokens = .ok (m, rest)) :
    modifiers p (pipe :: tokens) = (modifiers p rest).map fun r => (m :: r.1, r.2) := by
  rw [modifiers, if_pos hp]
  split
  · next he =>
    rw [hm] at he
    cases he
  · next he =>
    rw [hm] at he
    cases he
    rfl

/-- Modifiers stop behind the first `|`, which no other phrase needs to look beyond. -/
theorem stuck_modifiers (h : modifiers p tokens = .error err) :
    ∃ pipe more, pipe.kind = .pipe ∧ tokens = pipe :: more ∧
      Stuck (fun others => modifiers p (pipe :: others)) more err := by
  fun_induction modifiers p tokens with
  | case1 => cases h
  | case2 pipe tokens hp e hm =>
    cases h
    refine ⟨pipe, tokens, hp, rfl, (stuck_modifier hm).lift []
      (fun more e he => modifiers_error hp he) fun more m behind hm hb => ?_⟩
    rw [List.nil_append, modifiers_more hp hm, modifiers_closing hb]
    exact .read _
  | case3 pipe tokens hp m more hm ih =>
    obtain ⟨next, more, hnext, rfl, hs⟩ := ih (map_eq_error_iff.1 h)
    obtain ⟨ts, ht, rfl⟩ := modifier_eq_ok_iff.1 hm
    refine ⟨pipe, _, hp, rfl, ?_⟩
    rw [List.append_cons]
    refine hs.map (ts ++ [next]) (m :: ·) fun others => ?_
    have hm : modifier p (ts ++ next :: others) = .ok (m, next :: others) :=
      modifier_of_isModifier (ht.follows (.cons next more others))
    rw [← List.append_cons, modifiers_more hp hm]
  | case4 => cases h

end

/-! ### Headings -/

section

variable {mark : Kind} {kinds : List Kind}

theorem marked_closing {behind : List Token} (hm : mark ≠ .closeCurly)
    (h : Begins [.closeCurly] behind) : marked mark kinds phrase behind = .ok (none, behind) :=
  (marked_eq_ok_iff phrase).2 ⟨[], .absent (h.without (by simpa using hm)), rfl⟩

theorem marked_of_sign {sign : Token} (hs : sign.kind = mark) (tokens : List Token) :
    marked mark kinds phrase (sign :: tokens) =
      (expect kinds phrase tokens).map fun r => (some r.1.text, r.2) :=
  if_pos hs

/-- An optional part stops behind its mark. -/
theorem stuck_marked (hk : .identifier ∈ kinds)
    (h : marked mark kinds phrase tokens = .error err) :
    ∃ sign more, sign.kind = mark ∧ tokens = sign :: more ∧
      Stuck (fun others => marked mark kinds phrase (sign :: others)) more err := by
  unfold marked at h
  split at h
  · cases h
  · next sign more =>
    split at h
    · next hs =>
      have hx : Filler.name.kind ∈ kinds := hk
      refine ⟨sign, more, hs, rfl, (stuck_expect .name hx (map_eq_error_iff.1 h)).map []
        (fun token => some token.text) fun others => ?_⟩
      rw [List.nil_append, marked_of_sign hs]
    · cases h

end

/-- The parts of a heading that are there are read before those that are not. -/
theorem heading_eq {p : String} {more behind : List Token} {identifier aliasName : Option String}
    (hp : path .entity tokens = .ok (p, rest))
    (hi : marked .sharp [.integer, .identifier, .string] (.entityAt p) rest =
      .ok (identifier, more))
    (ha : marked .asKeyword [.identifier] (.entityAt p) more = .ok (aliasName, behind)) :
    heading tokens = (modifiers p behind).map fun r =>
      (⟨aliasName.getD p, p, identifier, none, r.1⟩, r.2) := by
  simp [heading, hp, hi, ha]

section

variable {p : String} {ps is as : List Token} {identifier aliasName : Option String}

theorem stuck_identifier (gp : Path rest ps p)
    (h : marked .sharp [.integer, .identifier, .string] (.entityAt p) rest = .error err) :
    Stuck heading (ps ++ rest) err := by
  obtain ⟨sign, more, -, rfl, hs⟩ := stuck_marked (by decide) h
  have hp : ∀ others, path .entity (ps ++ sign :: others) = .ok (p, sign :: others) :=
    fun others => (path_eq_ok_iff _).2 ⟨ps, gp.follows (.cons sign more others), rfl⟩
  rw [List.append_cons]
  refine hs.lift _ (fun others e he => ?_) fun others text behind hi hb => ?_
  · simp [heading, hp, he]
  · rw [← List.append_cons, heading_eq (hp others) hi (marked_closing (by decide) hb),
      modifiers_closing hb]
    exact .read _

theorem stuck_alias (gp : Path (is ++ rest) ps p)
    (gi : Marked .sharp [.integer, .identifier, .string] rest is identifier)
    (h : marked .asKeyword [.identifier] (.entityAt p) rest = .error err) :
    Stuck heading (ps ++ is ++ rest) err := by
  obtain ⟨sign, more, -, rfl, hs⟩ := stuck_marked (by decide) h
  have hf : ∀ others, Follows (sign :: more) (sign :: others) := Follows.cons sign more
  have hp : ∀ others, path .entity (ps ++ (is ++ sign :: others)) = .ok (p, is ++ sign :: others) :=
    fun others => (path_eq_ok_iff _).2 ⟨ps, gp.follows ((hf others).append is), rfl⟩
  have hi : ∀ others, marked .sharp [.integer, .identifier, .string] (.entityAt p)
      (is ++ sign :: others) = .ok (identifier, sign :: others) :=
    fun others => (marked_eq_ok_iff _).2 ⟨is, gi.follows (by decide) (hf others), rfl⟩
  rw [List.append_cons]
  refine hs.lift _ (fun others e he => ?_) fun others text behind ha hb => ?_
  · simp [heading, hp, hi, he]
  · rw [← List.append_cons, List.append_assoc, heading_eq (hp others) (hi others) ha,
      modifiers_closing hb]
    exact .read _

theorem stuck_headingModifiers (gp : Path (is ++ (as ++ rest)) ps p)
    (gi : Marked .sharp [.integer, .identifier, .string] (as ++ rest) is identifier)
    (ga : Marked .asKeyword [.identifier] rest as aliasName)
    (h : modifiers p rest = .error err) : Stuck heading (ps ++ is ++ as ++ rest) err := by
  obtain ⟨pipe, more, -, rfl, hs⟩ := stuck_modifiers h
  rw [List.append_cons]
  refine hs.map _ (fun ms => ⟨aliasName.getD p, p, identifier, none, ms⟩) fun others => ?_
  have hf : Follows (pipe :: more) (pipe :: others) := .cons pipe more others
  rw [← List.append_cons, List.append_assoc, List.append_assoc]
  exact heading_eq ((path_eq_ok_iff _).2 ⟨ps, gp.follows ((hf.append as).append is), rfl⟩)
    ((marked_eq_ok_iff _).2 ⟨is, gi.follows (by decide) (hf.append as), rfl⟩)
    ((marked_eq_ok_iff _).2 ⟨as, ga.follows (by decide) hf, rfl⟩)

end

theorem stuck_heading (h : heading tokens = .error err) : Stuck heading tokens err := by
  unfold heading at h
  split at h
  · next e hp =>
    cases h
    refine (stuck_path hp).lift [] (fun more e he => ?_) fun more p behind hp hb => ?_
    · simp [heading, he]
    · rw [List.nil_append, heading_eq hp (marked_closing (by decide) hb)
        (marked_closing (by decide) hb), modifiers_closing hb]
      exact .read _
  · next p behindPath hp =>
    obtain ⟨ps, gp, rfl⟩ := (path_eq_ok_iff _).1 hp
    split at h
    · next e hi =>
      cases h
      exact stuck_identifier gp hi
    · next identifier behindIdentifier hi =>
      obtain ⟨is, gi, rfl⟩ := (marked_eq_ok_iff _).1 hi
      split at h
      · next e ha =>
        cases h
        rw [← List.append_assoc]
        exact stuck_alias gp gi ha
      · next aliasName behindAlias ha =>
        obtain ⟨as, ga, rfl⟩ := (marked_eq_ok_iff _).1 ha
        rw [← List.append_assoc, ← List.append_assoc]
        exact stuck_headingModifiers gp gi ga (map_eq_error_iff.1 h)

end Parser
end NestedQuery
