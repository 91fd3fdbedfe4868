import LightMarkup.Construct.Heading
import LightMarkup.Proofs.Blanks.Heeding

/-!
Repetitions, and the kind that a whole pattern makes of the kind of its rest. A repetition of gaps reads the gap that is in
one text only as well, so that its rest need not find the same before that gap.
-/

namespace LightMarkup
namespace Pattern

open Cursor (Aligned)

variable {α β : Type} {exact : List Nat} {C : Captures → Captures → Prop} {R : α → α → Prop} {rest rest' : Rest α}
  {k l m : Heed} {p q : Pattern} {c c' : Cursor} {g g' : Captures} {set : CharSet} {lazily : Bool}

theorem Carries.of_followed (carries : Carries exact p k l)
    (same : ∀ {α : Type} (rest : Rest α), q.followed rest = p.followed rest) : Carries exact q k l :=
  carries_of (fun rest bars => same rest ▸ carries.bars rest bars) fun extend known => by
    rw [same,same]
    exact carries.tallies extend known

-- A pattern that makes of each rest one that it may have again.

theorem barred_rounds (carries : Carries exact p k l) (le : l.le k = true) (lazily : Bool) (left : List β)
    (bars : Barred k rest) : Barred k (p.rounds lazily left rest) := by
  induction left with
  | nil => rwa [rounds_nil]
  | cons item left ih =>
    intro c g barred
    have here := bars g barred
    have more := carries.bars _ ih g (barred.mono le)
    rw [rounds_cons]
    cases lazily <;> simp [here,more]

theorem tallies_rounds (carries : Carries exact p k l) (le : l.le k = true) (lazily : Bool) (left : List β)
    (extend : Extends exact C) (known : Tallies C R rest rest' k) :
    Tallies C R (p.rounds lazily left rest) (p.rounds lazily left rest') k := by
  induction left with
  | nil => rwa [rounds_nil,rounds_nil]
  | cons item left ih =>
    have round := (carries.tallies extend ih).mono le
    rw [rounds_cons,rounds_cons]
    cases lazily with
    | true => exact known.or round
    | false => exact round.or known

theorem followed_bounded (lazily : Bool) (most : Nat) (p : Pattern) (rest : Rest α) :
    (Pattern.repeated lazily 0 (some most) p).followed rest = p.rounds lazily (List.range most) rest := by
  rw [followed_repeated,exactly_none]
  rfl

theorem carries_loop (carries : Carries exact p k l) (le : l.le k = true) (lazily : Bool) {most : Option Nat}
    (bounded : most.isSome = true ∨ p.needs (fun _ => true) = true) : Carries exact (.repeated lazily 0 most p) k k := by
  cases most with
  | some most =>
    refine carries_of (fun rest bars => ?_) fun extend known => ?_
    · rw [followed_bounded]
      exact barred_rounds carries le lazily _ bars
    · rw [followed_bounded,followed_bounded]
      exact tallies_rounds carries le lazily _ extend known
  | none =>
    have needed := bounded.resolve_left (by decide)
    refine ⟨fun rest bars c g barred => ?_,fun {α C R rest rest'} extend known c c' g g' aligned sees captures => ?_⟩
    · rw [followed_free]
      exact barred_rounds carries le lazily c.after bars g barred
    · -- Each text has room enough for the other.
      rw [followed_free,followed_free,
        allRounds_eq needed lazily rest (c := c) (show c.after.length ≤ (c.after ++ c'.after).length by simp),
        allRounds_eq needed lazily rest' (c := c') (show c'.after.length ≤ (c.after ++ c'.after).length by simp)]
      exact (tallies_rounds carries le lazily _ extend known).meets aligned sees captures

-- What must be there comes first.

theorem followed_times (n : Nat) (p : Pattern) (rest : Rest α) :
    (exactly n p).followed rest = fun c g => firstWay (waysExactly p.ways n c) g rest := by
  rw [exactly,followed_repeated]
  simp only [Nat.sub_self,List.range_zero,rounds_nil]

theorem followed_least (lazily : Bool) (least : Nat) (most : Option Nat) (p : Pattern) (rest : Rest α) :
    (Pattern.repeated lazily least most p).followed rest =
      (exactly least p ++ Pattern.repeated lazily 0 (most.map (· - least)) p).followed rest := by
  rw [followed_seq,followed_times,followed_repeated]
  cases most with
  | none => rw [Option.map_none,followed_free]
  | some most => rw [Option.map_some,followed_bounded]

-- One kind made of another again and again.
def times (f : Heed → Option Heed) : Nat → Heed → Option Heed
  | 0, k => some k
  | n + 1, k => (times f n k).bind f

theorem carries_times {f : Heed → Option Heed} (sound : ∀ {k l}, f k = some l → Carries exact p k l) {n : Nat}
    (known : times f n k = some l) : Carries exact (exactly n p) k l := by
  induction n generalizing l with
  | zero =>
    cases known
    exact carries_empty.of_followed fun rest => by rw [followed_times,exactly_none,followed_empty]
  | succ n ih =>
    obtain ⟨m,before,last⟩ := Option.bind_eq_some_iff.mp known
    refine (carries_seq (sound last) (ih before)).of_followed fun rest => ?_
    rw [followed_seq,followed_times,followed_times,followed_exactly]

theorem carries_repeated {f : Heed → Option Heed} (sound : ∀ {k l}, f k = some l → Carries exact p k l) {least : Nat}
    {most : Option Nat} (loop : Carries exact (.repeated lazily 0 (most.map (· - least)) p) k m)
    (known : times f least m = some l) : Carries exact (.repeated lazily least most p) k l :=
  (carries_seq (carries_times sound known) loop).of_followed fun rest => followed_least lazily least most p rest

-- Gaps among characters one after the other.

-- Before a gap in both texts they find nothing, if not the same.
theorem Tallies.level (known : Tallies C R rest rest' k) (some : k = .plain ∨ k = .late) (aligned : Aligned c c')
    (same : c.after.head? = c'.after.head?) (captures : C g g') : Option.Rel R (rest c g) (rest' c' g') := by
  rcases some with rfl | rfl
  · exact known.meets aligned trivial captures
  · by_cases gap : c.OnBlank ∧ c.BeforeGap
    · have gap' : c'.OnBlank ∧ c'.BeforeGap := ⟨aligned.onBlank.mp gap.1,by rw [Cursor.BeforeGap,← same]; exact gap.2⟩
      rw [known.bars g gap,known.bars' g' gap']
      exact .none
    · exact known.meets aligned gap captures

theorem char_some (set : CharSet) {found : α} (here : rest c g = some found) :
    (Pattern.char set).allRounds true rest c g = some found := by
  cases begins : c.after with
  | nil => rwa [char_ended _ _ _ begins]
  | cons x t =>
    rw [char_next _ _ _ begins]
    simp [here]

theorem char_none (set : CharSet) (none : (Pattern.char set).allRounds lazily rest c g = none) : rest c g = .none := by
  cases begins : c.after with
  | nil => rwa [char_ended _ _ _ begins] at none
  | cons x t =>
    rw [char_next _ _ _ begins] at none
    cases lazily with
    | true => exact (Option.or_eq_none_iff.mp none).1
    | false => exact (Option.or_eq_none_iff.mp none).2

theorem meets_gaps (all : set.gapful = true) (known : Tallies C R rest rest' k) (some : k = .plain ∨ k = .late)
    (lazily : Bool) (captures : C g g') {n : Nat} (bound : c.after.length ≤ n) (aligned : Aligned c c') :
    Option.Rel R ((Pattern.char set).allRounds lazily rest c g) ((Pattern.char set).allRounds lazily rest' c' g') := by
  induction n generalizing c c' with
  | zero =>
    have none := List.length_eq_zero_iff.mp (Nat.le_zero.mp bound)
    cases aligned.step with
    | ended _ none' =>
      rw [char_ended _ _ _ none,char_ended _ _ _ none']
      exact known.level some aligned (by rw [none,none']) captures
    | inner begins | extra begins => rw [none] at begins; cases begins
  | succ n ih =>
    cases aligned.step with
    | ended none none' =>
      rw [char_ended _ _ _ none,char_ended _ _ _ none']
      exact known.level some aligned (by rw [none,none']) captures
    | inner begins begins' next =>
      have here := known.level some aligned (by rw [begins,begins']; rfl) captures
      have more := ih (by rw [begins] at bound; simpa [begins] using bound) next
      rw [char_next _ _ _ begins,char_next _ _ _ begins']
      cases lazily with
      | true => exact rel_or here (rel_if _ more)
      | false => exact rel_or (rel_if _ more) here
    | extra begins site same next =>
      have more := ih (by rw [begins] at bound; simpa [begins] using bound) next
      rw [char_next _ _ _ begins,CharSet.gapful_gap all site.gap]
      simp only [↓reduceIte]
      rcases some with rfl | rfl
      · have here := known.meets aligned trivial captures
        cases lazily with
        | true =>
          cases found : rest c g with
          | none => exact more
          | some a =>
            rw [found] at here
            obtain ⟨a',found',related⟩ := rel_some here
            rw [char_some set found']
            exact .some related
        | false =>
          cases later : (Pattern.char set).allRounds false rest (c.past 1) g with
          | some a => rwa [later] at more
          | none =>
            have none' := rel_none more later
            rw [char_none set none'] at here
            rw [none']
            exact here
      · have none := known.bars g ⟨Cursor.onBlank_before site begins,_,by rw [begins]; rfl,site.gap⟩
        rw [none]
        cases lazily with
        | true => exact more
        | false =>
          rw [Option.or_none]
          exact more

theorem carries_gaps (all : set.gapful = true) (some : k = .plain ∨ k = .late) (lazily : Bool) :
    Carries exact (.repeated lazily 0 none (.char set)) k .plain where
  bars _ _ _ _ barred := barred.elim
  meets _ known _ _ _ _ aligned _ captures := by
    rw [followed_free,followed_free]
    exact meets_gaps all known some lazily captures (Nat.le_refl _) aligned

-- The kind that a pattern makes of the kind of its rest.

def carryChar (set : CharSet) (k : Heed) : Option Heed :=
  if set.contains '\n' then
    if k.le .plain then some (if set.gapless then .late else .away) else none
  else if set.gapless ∨ k = .solid then some .solid else some .away

theorem carryChar_carries (known : carryChar set k = some l) : Carries exact (.char set) k l := by
  unfold carryChar at known
  split at known
  · split at known
    · rename_i le
      cases known
      split
      · exact (carries_newline ‹_›).weaken le
      · exact (carries_char set).weaken le
    · cases known
  · have single : set.contains '\n' = false := Bool.not_eq_true _ ▸ ‹¬ _›
    split at known
    · rename_i either
      cases known
      rcases either with none | rfl
      · exact (carries_solid single none).weaken k.le_away
      · exact carries_stays single
    · cases known
      exact (carries_inline single).weaken k.le_away

-- Characters one after the other that may be gaps.
def readsGaps : Option Nat → Pattern → Bool
  | none, .char set => set.gapful
  | _, _ => false

def carryLoop (f : Heed → Option Heed) (most : Option Nat) (body : Pattern) (k : Heed) : Option Heed :=
  let bounded := most.isSome || body.needs fun _ => true
  if bounded ∧ (f k).any (·.le k) then some k
  else if readsGaps most body ∧ k ≠ .away then some .plain
  else if bounded ∧ (f .away).isSome then some .away
  else none

theorem carryLoop_carries {f : Heed → Option Heed} (sound : ∀ {k l}, f k = some l → Carries exact p k l) {most : Option Nat}
    (known : carryLoop f most p k = some l) (lazily : Bool) : Carries exact (.repeated lazily 0 most p) k l := by
  simp only [carryLoop,Bool.or_eq_true] at known
  split at known
  · rename_i again
    cases known
    obtain ⟨bounded,le⟩ := again
    cases made : f k with
    | none => rw [made] at le; cases le
    | some m =>
      rw [made] at le
      exact carries_loop (sound made) le lazily bounded
  split at known
  · rename_i reads
    cases known
    unfold readsGaps at reads
    split at reads
    · rcases Classical.em (k = .late) with rfl | other
      · exact carries_gaps reads.1 (Or.inr rfl) lazily
      · have le : k.le .plain = true := by
          cases k <;> first | rfl | exact absurd rfl other | exact absurd rfl reads.2
        exact (carries_gaps reads.1 (Or.inl rfl) lazily).weaken le
    · cases reads.1
  split at known
  · rename_i away
    cases known
    obtain ⟨m,isMade⟩ := Option.isSome_iff_exists.mp away.2
    exact (carries_loop (sound isMade) m.le_away lazily away.1).weaken k.le_away
  · cases known

def carry (exact : List Nat) : Pattern → Heed → Option Heed
  | .empty, k => some k
  | .char set, k => carryChar set k
  | .seq first second, k => (carry exact second k).bind (carry exact first)
  | .choice first second, k => (carry exact first k).bind fun l => (carry exact second k).map l.join
  | .repeated lazily least most body, k =>
    if lazily = false ∧ least = 0 ∧ most = some 1 then (carry exact body k).map (·.join k)
    else (carryLoop (carry exact body) (most.map (· - least)) body k).bind (times (carry exact body) least)
  | .group number _ body, k =>
    if number ∈ exact then (carry exact body k).map fun l => if l = .solid then .solid else .away
    else carry exact body k
  | .ahead body, k => if body.groups = [] then (carry exact body .plain).map (·.ahead k) else none
  | .notAhead body, k => (carry exact body .plain).map (·.notAhead k)
  | .textEnd, k => some (if k = .plain then .late else k)
  | .lineEnd, k => some (if k = .plain then .late else k)
  | .lineStart, k => some (if k = .solid then .solid else .away)
  | .notBehind _, _ | .textStart, _ | .lastLineEnd, _ => none

theorem carry_carries (known : p.carry exact k = some l) : Carries exact p k l := by
  induction p generalizing k l with
  | empty => cases known; exact carries_empty
  | char set => exact carryChar_carries known
  | seq first second one two =>
    obtain ⟨m,isSecond,isFirst⟩ := Option.bind_eq_some_iff.mp known
    exact carries_seq (one isFirst) (two isSecond)
  | choice first second one two =>
    obtain ⟨m,isFirst,others⟩ := Option.bind_eq_some_iff.mp known
    obtain ⟨n,isSecond,rfl⟩ := Option.map_eq_some_iff.mp others
    exact carries_choice (one isFirst) (two isSecond)
  | repeated lazily least most body ih =>
    unfold carry at known
    split at known
    · rename_i optional
      obtain ⟨rfl,rfl,rfl⟩ := optional
      obtain ⟨m,inside,rfl⟩ := Option.map_eq_some_iff.mp known
      exact carries_maybe (ih inside)
    · obtain ⟨m,loop,first⟩ := Option.bind_eq_some_iff.mp known
      exact carries_repeated ih (carryLoop_carries ih loop lazily) first
  | group number name body ih =>
    unfold carry at known
    split at known
    · obtain ⟨m,inside,rfl⟩ := Option.map_eq_some_iff.mp known
      have le : m.le (if m = .solid then .solid else .away) = true := by cases m <;> rfl
      refine carries_group ((ih inside).widen le) fun _ => ?_
      split <;> simp
    · exact carries_group (ih known) fun member => absurd member ‹_›
  | ahead body ih =>
    unfold carry at known
    split at known
    · obtain ⟨m,inside,rfl⟩ := Option.map_eq_some_iff.mp known
      exact carries_ahead ‹_› (ih inside)
    · cases known
  | notAhead body ih =>
    obtain ⟨m,inside,rfl⟩ := Option.map_eq_some_iff.mp known
    exact carries_notAhead (ih inside)
  | textEnd => cases known; exact carries_textEnd
  | lineEnd => cases known; exact carries_lineEnd
  | lineStart => cases known; exact carries_lineStart
  | notBehind | textStart | lastLineEnd => cases known

end Pattern
end LightMarkup
