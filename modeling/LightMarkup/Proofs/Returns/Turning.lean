import LightMarkup.Construct.Heading
import LightMarkup.Proofs.Returns.Matching

/-!
Repetitions, and what a whole pattern makes of the rest. A repetition that reads carriage returns takes one more round at
the end of a line, so its rest has to know both places there.
-/

namespace LightMarkup
namespace Pattern

open Cursor (Facing)

variable {α β : Type} {exact : List Nat} {C : Captures → Captures → Prop} {R : α → α → Prop} {rest rest' : Rest α}
  {k l : Accord} {p q : Pattern} {c c' : Cursor} {g g' : Captures} {set : CharSet} {lazily : Bool}

-- Rounds of a pattern, and what is left to match after them.
def rounds (p : Pattern) (lazily : Bool) (left : List β) (rest : Rest α) : Rest α :=
  fun c g => firstWay (waysUpTo p.ways lazily left c) g rest

theorem rounds_nil (p : Pattern) (lazily : Bool) (rest : Rest α) : p.rounds lazily ([] : List β) rest = rest := by
  funext c g
  exact firstWay_one c g rest

theorem rounds_cons (p : Pattern) (lazily : Bool) (item : β) (left : List β) (rest : Rest α) :
    p.rounds lazily (item :: left) rest = fun c g =>
      if lazily then (rest c g).or (p.followed (p.rounds lazily left rest) c g)
      else (p.followed (p.rounds lazily left rest) c g).or (rest c g) := by
  funext c g
  simp only [rounds,waysUpTo]
  split
  · rw [← List.singleton_append,firstWay_append,firstWay_one,firstWay_then]
    rfl
  · rw [firstWay_append,firstWay_one,firstWay_then]
    rfl

-- Rounds of a pattern that turns what is left into the same kind.
theorem turns_rounds (turns : p.Turns exact k l) (le : l.le k = true) (lazily : Bool) (left : List β)
    (closed : Closed₂ exact C) (agrees : Agrees C R rest rest' k) :
    Agrees C R (p.rounds lazily left rest) (p.rounds lazily left rest') k := by
  induction left with
  | nil => rwa [rounds_nil,rounds_nil]
  | cons item left ih =>
    have round := (turns closed ih).mono le
    rw [rounds_cons,rounds_cons]
    cases lazily with
    | true => exact agrees.or round
    | false => exact round.or agrees

-- However much room there is for rounds, if each takes something.
def allRounds (p : Pattern) (lazily : Bool) (rest : Rest α) : Rest α :=
  fun c g => p.rounds lazily c.after rest c g

theorem allRounds_eq (needed : p.needs (fun _ => true) = true) (lazily : Bool) (rest : Rest α) {left : List β}
    (enough : c.after.length ≤ left.length) (g : Captures) : p.allRounds lazily rest c g = p.rounds lazily left rest c g := by
  rw [allRounds,rounds,upTo_enough (needs_eats needed) lazily (Nat.le_refl _) enough]
  rfl

theorem turns_allRounds (turns : p.Turns exact k l) (le : l.le k = true) (needed : p.needs (fun _ => true) = true)
    (lazily : Bool) (closed : Closed₂ exact C) (agrees : Agrees C R rest rest' k) :
    Agrees C R (p.allRounds lazily rest) (p.allRounds lazily rest') k := by
  -- Each text has room enough for the other.
  have both : ∀ (c c' : Cursor), ∃ left : List Char,
      (∀ g, p.allRounds lazily rest c g = p.rounds lazily left rest c g) ∧
      ∀ g, p.allRounds lazily rest' c' g = p.rounds lazily left rest' c' g := fun c c' =>
    ⟨c.after ++ c'.after,allRounds_eq needed lazily rest (by simp),allRounds_eq needed lazily rest' (by simp)⟩
  have each : ∀ {D : Captures → Captures → Prop} {S : α → α → Prop} {m : Accord},
      (∀ left : List Char, Agree D S (p.rounds lazily left rest) (p.rounds lazily left rest') m) →
        Agree D S (p.allRounds lazily rest) (p.allRounds lazily rest') m := by
    intro D S m agree
    refine ⟨fun {c c' g g'} meets captures => ?_,fun other {c c' g g'} facing captures => ?_,fun isApart {c g} newline => ?_⟩
    · obtain ⟨left,one,two⟩ := both c c'
      rw [one,two]
      exact (agree left).meets meets captures
    · obtain ⟨left,one,two⟩ := both c c'
      rw [one,two]
      exact (agree left).dead other facing captures
    · exact (agree c.after).apart isApart newline
  exact ⟨each fun left => (turns_rounds turns le lazily left closed agrees).blind,
    each fun left => (turns_rounds turns le lazily left closed agrees).agree⟩

theorem followed_exactly (p : Pattern) (n : Nat) (rest : Rest α) :
    (fun c g => firstWay (waysExactly p.ways (n + 1) c) g rest) =
      p.followed fun c g => firstWay (waysExactly p.ways n c) g rest := by
  funext c g
  exact firstWay_then _ _ _ _

theorem turns_exactly (turns : p.Turns exact k l) (le : l.le k = true) (n : Nat) (closed : Closed₂ exact C)
    (agrees : Agrees C R rest rest' k) :
    Agrees C R (fun c g => firstWay (waysExactly p.ways n c) g rest) (fun c g => firstWay (waysExactly p.ways n c) g rest')
      (if n = 0 then k else l) := by
  induction n with
  | zero =>
    have none : ∀ rest : Rest α, (fun c g => firstWay (waysExactly p.ways 0 c) g rest) = rest :=
      fun rest => funext fun c => funext fun g => firstWay_one c g rest
    rwa [none,none]
  | succ n ih =>
    rw [followed_exactly,followed_exactly,if_neg (Nat.succ_ne_zero n)]
    exact turns closed (ih.mono (by split <;> [exact (by cases k <;> rfl); exact le]))

theorem followed_repeated (lazily : Bool) (least : Nat) (most : Option Nat) (p : Pattern) (rest : Rest α) :
    (Pattern.repeated lazily least most p).followed rest = fun c g => firstWay (waysExactly p.ways least c) g
      (match most with
        | none => p.allRounds lazily rest
        | some most => p.rounds lazily (List.range (most - least)) rest) := by
  funext c g
  refine (firstWay_then _ _ _ _).trans ?_
  cases most <;> rfl

theorem turns_repeated (turns : p.Turns exact k l) (le : l.le k = true) (lazily : Bool) (least : Nat) {most : Option Nat}
    (bounded : most.isSome = true ∨ p.needs (fun _ => true) = true) :
    (Pattern.repeated lazily least most p).Turns exact k (if least = 0 then k else l) := by
  intro α C R rest rest' closed agrees
  rw [followed_repeated,followed_repeated]
  refine turns_exactly turns le least closed ?_
  cases most with
  | none => exact turns_allRounds turns le (bounded.resolve_left (by decide)) lazily closed agrees
  | some most => exact turns_rounds turns le lazily _ closed agrees

-- Characters one after the other, carriage returns among them.

theorem char_ended (set : CharSet) (lazily : Bool) (rest : Rest α) (ended : c.after = []) (g : Captures) :
    (Pattern.char set).allRounds lazily rest c g = rest c g := by
  rw [allRounds,ended,rounds_nil]

theorem char_next (set : CharSet) (lazily : Bool) (rest : Rest α) {x : Char} {t : Text} (begins : c.after = x :: t)
    (g : Captures) : (Pattern.char set).allRounds lazily rest c g =
      let more := if set.contains x then (Pattern.char set).allRounds lazily rest (c.past 1) g else none
      if lazily then (rest c g).or more else more.or (rest c g) := by
  have step : (c.past 1).after = t := by simp [begins]
  rw [allRounds,begins,rounds_cons]
  simp only [followed_cons set _ begins,allRounds,step]

theorem rel_next {a a' b : Option α} {more more' : Option α} (one : Option.Rel R a a') (none : a = none → b = none)
    (next : Option.Rel R more more') : Option.Rel R (a.or more) (a'.or (b.or more')) := by
  cases one with
  | none => rw [none rfl]; exact next
  | some related => exact .some related

-- A lazy one stops before the carriage return, if it can stop there.
theorem lazy_meets (other : k ≠ .loose) (return_ : set.contains '\r' = true)
    (meets : ∀ {c c' g g'}, k.Meets c c' → C g g' → Option.Rel R (rest c g) (rest' c' g'))
    (dead : ∀ {c c' g g'}, Facing c c' → rest c g = none → rest' c' g' = none) (captures : C g g') (facing : Facing c c')
    (here : k.Meets c c') :
    Option.Rel R ((Pattern.char set).allRounds true rest c g) ((Pattern.char set).allRounds true rest' c' g') := by
  induction facing using Cursor.facing_induct with
  | step facing later =>
    rename_i c c'
    have stops := meets here captures
    cases facing.ahead with
    | ended none none' => rwa [char_ended _ _ _ none,char_ended _ _ _ none']
    | inner _ _ begins begins' next | between begins begins' next =>
      rw [char_next _ _ _ begins,char_next _ _ _ begins']
      exact rel_or stops (rel_if _ (later (by simp [begins]) next (Accord.meets_level next other)))
    | newline begins begins' between =>
      have behind : (c'.past 1).after = '\n' :: Text.withReturns _ := between.ahead
      rw [char_next _ _ _ begins,char_next _ _ _ begins',return_]
      simp only [↓reduceIte,char_next _ _ _ behind]
      exact rel_next stops (dead between.facing)
        (rel_if _ (later (by simp [begins]) between.next (Accord.meets_level between.next other)))

theorem exactly_none (p : Pattern) (rest : Rest α) : (fun c g => firstWay (waysExactly p.ways 0 c) g rest) = rest := by
  funext c g
  exact firstWay_one c g rest

theorem followed_free (lazily : Bool) (p : Pattern) (rest : Rest α) :
    (Pattern.repeated lazily 0 none p).followed rest = p.allRounds lazily rest := by
  rw [followed_repeated,exactly_none]

theorem followed_once (lazily : Bool) (p : Pattern) (rest : Rest α) :
    (Pattern.repeated lazily 1 none p).followed rest = p.followed (p.allRounds lazily rest) := by
  rw [followed_repeated,followed_exactly,exactly_none]

theorem turns_lazily (some : k = .same ∨ k = .level) (return_ : set.contains '\r' = true) :
    (lazyMany (.char set)).Turns exact k k := by
  have other : k ≠ .loose := by rcases some with rfl | rfl <;> decide
  intro α C R rest rest' closed agrees
  rw [lazyMany,followed_free,followed_free]
  have dead : ∀ {c c' g g'}, Facing c c' → rest c g = none → rest' c' g' = none :=
    fun facing none => agrees.none facing none _
  have blind : Agree Anyhow Anyhow ((Pattern.char set).allRounds true rest) ((Pattern.char set).allRounds true rest') .same := by
    have same : Agree Anyhow Anyhow rest rest' .same := by rcases some with rfl | rfl <;> exact agrees.blind
    exact .of_same fun facing captures => lazy_meets (by decide) return_ same.meets dead captures facing facing
  have agree : ∀ {c c' g g'}, k.Meets c c' → C g g' →
      Option.Rel R ((Pattern.char set).allRounds true rest c g) ((Pattern.char set).allRounds true rest' c' g') :=
    fun meets captures => lazy_meets other return_ agrees.agree.meets dead captures meets.facing meets
  rcases some with rfl | rfl
  · exact ⟨blind,.of_same agree⟩
  · exact ⟨blind,agree,fun other => absurd rfl other,fun isApart => nomatch isApart⟩

-- A greedy one inside a line goes on behind the carriage return, and there its rest stands before the newline too.
theorem turns_greedily (return_ : set.contains '\r' = true) (newline : set.contains '\n' = false) :
    (many (.char set)).Turns exact .loose .same := by
  refine turns_of (by decide) fun {α C R rest rest'} agree => ?_
  rw [many,followed_free,followed_free]
  refine .of_same fun {c c' g g'} facing captures => ?_
  induction facing using Cursor.facing_induct with
  | step facing later =>
    rename_i c c'
    cases facing.ahead with
    | ended none none' =>
      rw [char_ended _ _ _ none,char_ended _ _ _ none']
      exact agree.meets ⟨facing,by simp [none']⟩ captures
    | inner _ other begins begins' next =>
      rw [char_next _ _ _ begins,char_next _ _ _ begins']
      refine rel_or (rel_if _ (later (by simp [begins]) next)) (agree.meets ⟨facing,?_⟩ captures)
      simpa [begins'] using other
    | between begins begins' next =>
      rw [char_next _ _ _ begins,char_next _ _ _ begins']
      exact rel_or (rel_if _ (later (by simp [begins]) next)) (agree.meets ⟨facing,by simp [begins']⟩ captures)
    | newline begins begins' between =>
      have behind : (c'.past 1).after = '\n' :: Text.withReturns _ := between.ahead
      rw [char_next _ _ _ begins,char_next _ _ _ begins',return_,newline]
      simp only [↓reduceIte,char_next _ _ _ behind,newline,Bool.false_eq_true,Option.none_or]
      exact rel_twice (agree.meets ⟨between.facing,by rw [behind]; simp⟩ captures) (agree.dead (by decide) facing captures)

-- If the rest finds nothing at the end of a line, a place there leads to the next line or nowhere.
theorem char_newline (lazily : Bool) {t : Text} (begins : c.after = '\n' :: t) (none : rest c g = none) :
    (Pattern.char set).allRounds lazily rest c g =
      if set.contains '\n' then (Pattern.char set).allRounds lazily rest (c.past 1) g else .none := by
  rw [char_next _ _ _ begins,none]
  cases lazily <;> simp

theorem apart_meets (agree : Agree C R rest rest' .apart) (return_ : set.contains '\r' = true) (lazily : Bool)
    (captures : C g g') (facing : Facing c c') :
    Option.Rel R ((Pattern.char set).allRounds lazily rest c g) ((Pattern.char set).allRounds lazily rest' c' g') := by
  induction facing using Cursor.facing_induct with
  | step facing later =>
    rename_i c c'
    have here := agree.meets facing captures
    have dead : c.after.head? = some '\n' → ∀ {d'}, Facing c d' → rest' d' g' = none := fun head _ stops =>
      agree.dead (by decide) stops captures (agree.apart rfl (g := g) head)
    cases facing.ahead with
    | ended none none' => rwa [char_ended _ _ _ none,char_ended _ _ _ none']
    | inner _ _ begins begins' next =>
      have later := later (by simp [begins]) next
      rw [char_next _ _ _ begins,char_next _ _ _ begins']
      cases lazily with
      | true => exact rel_or here (rel_if _ later)
      | false => exact rel_or (rel_if _ later) here
    | between begins begins' next =>
      rw [char_newline lazily begins (agree.apart rfl (g := g) (by rw [begins]; rfl)),
        char_newline lazily begins' (dead (by rw [begins]; rfl) facing)]
      exact rel_if _ (later (by simp [begins]) next)
    | newline begins begins' between =>
      have behind : (c'.past 1).after = '\n' :: Text.withReturns _ := between.ahead
      have head : c.after.head? = some '\n' := by rw [begins]; rfl
      rw [char_newline lazily begins (agree.apart rfl (g := g) head),char_next _ _ _ begins',return_]
      simp only [↓reduceIte,char_newline lazily behind (dead head between.facing),dead head facing]
      have more := rel_if (set.contains '\n') (later (by simp [begins]) between.next)
      cases lazily with
      | true => simpa using more
      | false => simpa using more

theorem turns_apart (return_ : set.contains '\r' = true) (lazily : Bool) :
    (Pattern.repeated lazily 0 none (.char set)).Turns exact .apart .same := by
  refine turns_of (by decide) fun {α C R rest rest'} agree => ?_
  rw [followed_free,followed_free]
  exact .of_same fun facing captures => apart_meets agree return_ lazily captures facing

theorem turns_apart_once (return_ : set.contains '\r' = true) (lazily : Bool) :
    (Pattern.repeated lazily 1 none (.char set)).Turns exact .apart .same := by
  refine turns_of (by decide) fun {α C R rest rest'} agree => ?_
  rw [followed_once,followed_once]
  refine .of_same fun {c c' g g'} facing captures => ?_
  have later : ∀ {d d'}, Facing d d' → _ := fun facing => apart_meets agree return_ lazily captures facing
  cases facing.ahead with
  | ended none none' =>
    rw [followed_nil _ _ none,followed_nil _ _ none']
    exact .none
  | inner _ _ begins begins' next | between begins begins' next =>
    rw [followed_cons _ _ begins,followed_cons _ _ begins']
    exact rel_if _ (later next.facing)
  | newline begins begins' between =>
    have behind : (c'.past 1).after = '\n' :: Text.withReturns _ := between.ahead
    have dead : rest' (c'.past 1) g' = none :=
      agree.dead (by decide) between.facing captures (agree.apart rfl (g := g) (by rw [begins]; rfl))
    rw [followed_cons _ _ begins,followed_cons _ _ begins',return_,if_pos rfl,char_newline lazily behind dead]
    exact rel_if _ (later between.next.facing)

-- An optional carriage return leads behind it, to where the rest knows the end of a line.

theorem agree_return (agree : Agree C R rest rest' .loose) :
    Agree C R (fun c g => ((Pattern.char (.one '\r')).followed rest c g).or (rest c g))
      (fun c g => ((Pattern.char (.one '\r')).followed rest' c g).or (rest' c g)) .same := by
  refine .of_same fun {c c' g g'} facing captures => ?_
  have passed : ∀ {rest : Rest α} {c : Cursor} {g : Captures}, c.after.head? ≠ some '\r' →
      (Pattern.char (.one '\r')).followed rest c g = none := by
    intro rest c g other
    cases begins : c.after with
    | nil => exact followed_nil _ _ begins g
    | cons x t =>
      have different : x ≠ '\r' := by simpa [begins] using other
      rw [followed_cons _ _ begins]
      simp [CharSet.contains,different]
  by_cases return_ : c'.after.head? = some '\r'
  · cases facing.ahead with
    | ended _ none' => simp [none'] at return_
    | inner _ other _ begins' => simp [begins',other] at return_
    | between _ begins' => simp [begins'] at return_
    | newline begins begins' between =>
      have behind : (c'.past 1).after = '\n' :: Text.withReturns _ := between.ahead
      rw [passed (by rw [begins]; simp),followed_cons _ _ begins',Option.none_or,if_pos (by decide)]
      exact rel_twice (agree.meets ⟨between.facing,by rw [behind]; simp⟩ captures) (agree.dead (by decide) facing captures)
  · have other : c.after.head? ≠ some '\r' := by
      cases facing.ahead with
      | ended none => simp [none]
      | inner _ other begins => simpa [begins] using other
      | newline begins | between begins => simp [begins]
    rw [passed other,passed return_]
    exact agree.meets ⟨facing,return_⟩ captures

theorem turns_return : (maybe (.char (.one '\r'))).Turns exact .loose .same := by
  refine turns_of (by decide) fun {α C R rest rest'} agree => ?_
  rw [followed_maybe,followed_maybe]
  exact agree_return agree

-- The same after what may stand in its place.
theorem turns_orReturn (turns : p.Turns exact .loose .apart) :
    (maybe (p.choice (.char (.one '\r')))).Turns exact .loose .same := by
  intro α C R rest rest' closed agrees
  have one := (turns closed agrees).mono (l := .same) rfl
  have two : Agrees C R _ _ .same := ⟨agree_return agrees.blind,agree_return agrees.agree⟩
  have both := one.or two
  rw [followed_maybe,followed_maybe,followed_choice,followed_choice]
  simpa only [Option.or_assoc] using both

-- What stands behind the key of a tag, or the carriage return.
def valueOrReturn : Pattern :=
  (.char CharSet.gap ++ many Inline.onLine) <|> Inline.char '\r'

-- A character of a set that has carriage returns.
def returns? : Pattern → Option CharSet
  | .char set => if set.contains '\r' then some set else none
  | _ => none

def turnChars (lazily : Bool) (least : Nat) (most : Option Nat) (set : CharSet) (k : Accord) : Option Accord :=
  if most ≠ none then none
  else if k = .apart ∧ (least = 0 ∨ least = 1) then some .same
  else if least ≠ 0 then none
  else if lazily then if k = .same ∨ k = .level then some k else none
  else if set.contains '\n' = false ∧ k.le .loose then some .same
  else none

-- The kind that a pattern makes of the kind of its rest, if that is known.
def turn (exact : List Nat) : Pattern → Accord → Option Accord
  | .empty, k => some k
  | .char set, k =>
    if set.contains '\r' = false ∧ k.le .level then some (if set.contains '\n' then .loose else .apart) else none
  | .seq first second, k => (turn exact second k).bind (turn exact first)
  | .choice first second, k => (turn exact first k).bind fun l => (turn exact second k).bind l.join?
  | .repeated lazily least most body, k =>
    if lazily = false ∧ least = 0 ∧ most = some 1 then
      if body = .char (.one '\r') ∨ body = valueOrReturn then if k.le .loose then some .same else none
      else (turn exact body k).bind (·.join? k)
    else match returns? body with
      | some set => turnChars lazily least most set k
      | none => (turn exact body k).bind fun l =>
        if l.le k ∧ (most.isSome ∨ body.needs fun _ => true) then some (if least = 0 then k else l) else none
  | .group number _ body, k =>
    if number ∈ exact then
      if k.le .level then
        (turn exact body (if k = .apart then .apart else .level)).bind fun l => if l.le .level then some .level else none
      else none
    else turn exact body k
  | .ahead body, k =>
    if body.groups = [] then (turn exact body .same).bind fun l =>
      if l.le .same then some k else if l.le .loose ∧ k.le .same then some .loose else none
    else none
  | .notAhead body, k => (turn exact body .same).bind fun l => if l.le .same then some k else none
  | .textEnd, _ => some .apart
  | .lineStart, k => if k = .apart then some .apart else none
  | .lineEnd, k => if k.le .loose then some .loose else none
  | .notBehind _, _ | .textStart, _ | .lastLineEnd, _ => none

theorem turns_chars {least : Nat} {most : Option Nat} (return_ : set.contains '\r' = true)
    (turned : turnChars lazily least most set k = some l) : (Pattern.repeated lazily least most (.char set)).Turns exact k l := by
  unfold turnChars at turned
  split at turned
  · cases turned
  rename_i unbounded
  obtain rfl : most = none := Classical.not_not.mp unbounded
  split at turned
  · rename_i known
    obtain ⟨rfl,rfl | rfl⟩ := known <;> cases turned
    · exact turns_apart return_ lazily
    · exact turns_apart_once return_ lazily
  split at turned
  · cases turned
  rename_i zero
  obtain rfl : least = 0 := Classical.not_not.mp zero
  split at turned
  · rename_i isLazy
    subst isLazy
    split at turned <;> cases turned
    exact turns_lazily ‹_› return_
  · rename_i isGreedy
    obtain rfl : lazily = false := Bool.not_eq_true _ ▸ isGreedy
    split at turned <;> cases turned
    rename_i known
    exact (turns_greedily return_ known.1).weaken known.2

section

variable {body : Pattern} (inner : ∀ {k l}, body.turn exact k = some l → body.Turns exact k l)
include inner

theorem turn_repeated {least : Nat} {most : Option Nat} (turned : (Pattern.repeated lazily least most body).turn exact k = some l) :
    (Pattern.repeated lazily least most body).Turns exact k l := by
  unfold turn at turned
  split at turned
  · rename_i optional
    obtain ⟨rfl,rfl,rfl⟩ := optional
    split at turned
    · rename_i returns
      split at turned <;> cases turned
      rename_i le
      rcases returns with rfl | rfl
      · exact turns_return.weaken le
      · have value : (Pattern.char CharSet.gap ++ many Inline.onLine).Turns exact .loose .apart :=
          turns_seq ((turns_inner (by decide) (by decide)).weaken (by decide)) (turns_greedily (by decide) (by decide))
        exact (turns_orReturn value).weaken le
    · obtain ⟨m,inside,joined⟩ := Option.bind_eq_some_iff.mp turned
      exact turns_maybe (inner inside) joined
  · split at turned
    · rename_i set returns
      unfold returns? at returns
      split at returns
      · split at returns <;> cases returns
        exact turns_chars ‹_› turned
      · cases returns
    · obtain ⟨m,inside,rest⟩ := Option.bind_eq_some_iff.mp turned
      split at rest <;> cases rest
      rename_i known
      exact turns_repeated (inner inside) known.1 lazily least known.2

theorem turn_group {number : Nat} {name : Option String} (turned : (Pattern.group number name body).turn exact k = some l) :
    (Pattern.group number name body).Turns exact k l := by
  unfold turn at turned
  split at turned
  · split at turned
    · rename_i le
      obtain ⟨m,inside,rest⟩ := Option.bind_eq_some_iff.mp turned
      split at rest <;> cases rest
      rename_i isLevel
      split at inside
      · rename_i isApart
        subst isApart
        exact turns_exact (Or.inl rfl) (inner inside) isLevel
      · exact (turns_exact (Or.inr rfl) (inner inside) isLevel).weaken le
    · cases turned
  · exact turns_group ‹_› (inner turned)

end

-- What is known of a pattern holds of it.
theorem turn_turns (turned : p.turn exact k = some l) : p.Turns exact k l := by
  induction p generalizing k l with
  | empty => cases turned; exact turns_empty
  | char set =>
    unfold turn at turned
    split at turned
    · rename_i known
      cases turned
      split
      · exact (turns_char known.1).weaken known.2
      · exact (turns_inner known.1 (Bool.not_eq_true _ ▸ ‹¬ _›)).weaken known.2
    · cases turned
  | seq first second one two =>
    obtain ⟨m,isSecond,isFirst⟩ := Option.bind_eq_some_iff.mp turned
    exact turns_seq (one isFirst) (two isSecond)
  | choice first second one two =>
    obtain ⟨m,isFirst,rest⟩ := Option.bind_eq_some_iff.mp turned
    obtain ⟨n,isSecond,joined⟩ := Option.bind_eq_some_iff.mp rest
    exact turns_choice (one isFirst) (two isSecond) joined
  | repeated lazily least most body ih => exact turn_repeated ih turned
  | group number name body ih => exact turn_group ih turned
  | ahead body ih =>
    unfold turn at turned
    split at turned
    · obtain ⟨m,inside,rest⟩ := Option.bind_eq_some_iff.mp turned
      split at rest
      · cases rest
        exact turns_ahead ‹_› (ih inside) ‹_›
      · split at rest <;> cases rest
        rename_i known
        exact (turns_ahead_loose ‹_› (ih inside) known.1).weaken known.2
    · cases turned
  | notAhead body ih =>
    obtain ⟨m,inside,rest⟩ := Option.bind_eq_some_iff.mp turned
    split at rest <;> cases rest
    exact turns_notAhead (ih inside) ‹_›
  | textEnd => cases turned; exact turns_textEnd
  | lineStart =>
    unfold turn at turned
    split at turned <;> cases turned
    rename_i isApart
    subst isApart
    exact turns_lineStart
  | lineEnd =>
    unfold turn at turned
    split at turned <;> cases turned
    exact turns_lineEnd.weaken ‹_›
  | notBehind | textStart | lastLineEnd => cases turned

end Pattern
end LightMarkup
