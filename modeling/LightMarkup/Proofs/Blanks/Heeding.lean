import LightMarkup.Proofs.Blanks.Aligned
import LightMarkup.Proofs.Returns.Turning

/-!
Matching a text and the text with one gap less on a blank line. What is left to match heeds blank lines more or less, and a
pattern turns one kind of rest into another: a character that cannot stand on a blank line makes all of it stay away from
them, and what looks for the end of a line finds nothing before the gap.
-/

namespace LightMarkup

namespace CharSet

-- No gap is in the set, or each is.
def gapless (set : CharSet) : Bool :=
  !set.contains ' ' && !set.contains '\t'

def gapful (set : CharSet) : Bool :=
  set.contains ' ' && set.contains '\t'

variable {set : CharSet} {x : Char}

theorem gapless_gap (none : set.gapless = true) (isGap : gap.contains x = true) : set.contains x = false := by
  obtain ⟨space,tab⟩ := Bool.and_eq_true_iff.mp none
  rcases gap_cases isGap with rfl | rfl
  · exact Bool.not_eq_true' _ ▸ space
  · exact Bool.not_eq_true' _ ▸ tab

theorem gapful_gap (all : set.gapful = true) (isGap : gap.contains x = true) : set.contains x = true := by
  obtain ⟨space,tab⟩ := Bool.and_eq_true_iff.mp all
  rcases gap_cases isGap with rfl | rfl
  · exact space
  · exact tab

end CharSet

namespace Pattern

open Cursor (Aligned)

-- What is left to match finds nothing on a blank line; it finds the same at all places; it does, but finds nothing before a
-- gap on a blank line; or it finds the same at the places that are not on a blank line.
inductive Heed where
  | solid
  | plain
  | late
  | away
  deriving DecidableEq

namespace Heed

def le : Heed → Heed → Bool
  | .solid, _ => true
  | _, .away => true
  | k, l => k == l

def join (k l : Heed) : Heed :=
  if k.le l then l else if l.le k then k else .away

-- Where nothing is found.
def Bars : Heed → Cursor → Prop
  | .solid, c => c.OnBlank
  | .late, c => c.OnBlank ∧ c.BeforeGap
  | _, _ => False

-- Where the same is found.
def Sees : Heed → Cursor → Prop
  | .plain, _ => True
  | .late, c => ¬ (c.OnBlank ∧ c.BeforeGap)
  | _, c => ¬ c.OnBlank

variable {k l : Heed} {c : Cursor}

theorem le_join (k l : Heed) : k.le (k.join l) = true ∧ l.le (k.join l) = true := by
  cases k <;> cases l <;> decide

theorem le_away (k : Heed) : k.le .away = true := by
  cases k <;> rfl

theorem Bars.mono (le : k.le l = true) (bars : l.Bars c) : k.Bars c := by
  cases k <;> cases l <;> first | exact bars | exact bars.1 | exact bars.elim | cases le

theorem sees_off (k : Heed) (off : ¬ c.OnBlank) : k.Sees c := by
  cases k with
  | plain => trivial
  | late => exact fun blank => off blank.1
  | solid | away => exact off

-- What the greater kind sees the smaller one sees too, or it is a blank line on which that finds nothing.
theorem sees_of (le : k.le l = true) (sees : l.Sees c) : k.Sees c ∨ k = .solid ∧ c.OnBlank := by
  cases k with
  | solid => exact (Classical.em c.OnBlank).symm.imp id (⟨rfl,·⟩)
  | plain => exact Or.inl trivial
  | late => cases l <;> first | exact Or.inl sees | exact Or.inl (sees_off _ sees) | cases le
  | away => cases l <;> first | exact Or.inl sees | cases le

end Heed

-- The same group. If it is one of `exact` it does not begin on a blank line.
structure CaptureAligned (exact : List Nat) (k k' : Capture) : Prop where
  group : k.group = k'.group
  start : Aligned k.start k'.start
  stop : Aligned k.stop k'.stop
  off : k.group ∈ exact → ¬ k.start.OnBlank

abbrev CapturesAligned (exact : List Nat) : Captures → Captures → Prop :=
  List.Forall₂ (CaptureAligned exact)

-- A relation of captures that does not end when a group is captured.
def Extends (exact : List Nat) (C : Captures → Captures → Prop) : Prop :=
  ∀ {k k' g g'}, CaptureAligned exact k k' → C g g' → C (k :: g) (k' :: g')

theorem extends_anyhow (exact : List Nat) : Extends exact Anyhow :=
  fun _ _ => trivial

theorem extends_aligned (exact : List Nat) : Extends exact (CapturesAligned exact) :=
  fun here others => .cons here others

variable {α : Type} {exact : List Nat} {C : Captures → Captures → Prop} {R : α → α → Prop} {rest rest' : Rest α}
  {k l m : Heed} {p q : Pattern} {c c' : Cursor} {g g' : Captures} {set : CharSet}

def Barred (k : Heed) (rest : Rest α) : Prop :=
  ∀ ⦃c⦄ (g : Captures), k.Bars c → rest c g = none

structure Tallies (C : Captures → Captures → Prop) (R : α → α → Prop) (rest rest' : Rest α) (k : Heed) : Prop where
  meets : ∀ {c c' g g'}, Aligned c c' → k.Sees c → C g g' → Option.Rel R (rest c g) (rest' c' g')
  bars : Barred k rest
  bars' : Barred k rest'

namespace Tallies

theorem mono (le : k.le l = true) (tallies : Tallies C R rest rest' k) : Tallies C R rest rest' l where
  meets {c c' g g'} aligned sees captures := by
    rcases Heed.sees_of le sees with sees | ⟨rfl,blank⟩
    · exact tallies.meets aligned sees captures
    · rw [tallies.bars g blank,tallies.bars' g' (aligned.onBlank.mp blank)]
      exact .none
  bars _ g barred := tallies.bars g (barred.mono le)
  bars' _ g barred := tallies.bars' g (barred.mono le)

theorem or {one one' two two' : Rest α} (left : Tallies C R one one' k) (right : Tallies C R two two' k) :
    Tallies C R (fun c g => (one c g).or (two c g)) (fun c g => (one' c g).or (two' c g)) k where
  meets aligned sees captures := rel_or (left.meets aligned sees captures) (right.meets aligned sees captures)
  bars _ g barred := Option.or_eq_none_iff.mpr ⟨left.bars g barred,right.bars g barred⟩
  bars' _ g barred := Option.or_eq_none_iff.mpr ⟨left.bars' g barred,right.bars' g barred⟩

end Tallies

-- The pattern makes one kind of rest another.
structure Carries (exact : List Nat) (p : Pattern) (k l : Heed) : Prop where
  bars : ∀ {α : Type} (rest : Rest α), Barred k rest → Barred l (p.followed rest)
  meets : ∀ {α : Type} {C : Captures → Captures → Prop} {R : α → α → Prop} {rest rest' : Rest α}, Extends exact C →
    Tallies C R rest rest' k → ∀ {c c' g g'}, Aligned c c' → l.Sees c → C g g' →
      Option.Rel R (p.followed rest c g) (p.followed rest' c' g')

theorem Carries.tallies (carries : Carries exact p k l) (extend : Extends exact C) (tallies : Tallies C R rest rest' k) :
    Tallies C R (p.followed rest) (p.followed rest') l :=
  ⟨carries.meets extend tallies,carries.bars _ tallies.bars,carries.bars _ tallies.bars'⟩

-- It is enough to carry every rest, and what is barred.
theorem carries_of (bars : ∀ {α : Type} (rest : Rest α), Barred k rest → Barred l (p.followed rest))
    (tallies : ∀ {α : Type} {C : Captures → Captures → Prop} {R : α → α → Prop} {rest rest' : Rest α}, Extends exact C →
      Tallies C R rest rest' k → Tallies C R (p.followed rest) (p.followed rest') l) : Carries exact p k l :=
  ⟨bars,fun extend known => (tallies extend known).meets⟩

theorem Carries.weaken (carries : Carries exact p k l) (le : m.le k = true) : Carries exact p m l :=
  carries_of (fun rest bars => carries.bars rest fun _ g barred => bars g (barred.mono le)) fun extend known =>
    carries.tallies extend (known.mono le)

theorem Carries.widen (carries : Carries exact p k l) (le : l.le m = true) : Carries exact p k m :=
  carries_of (fun rest bars _ g barred => carries.bars rest bars g (barred.mono le)) fun extend known =>
    (carries.tallies extend known).mono le

theorem carries_empty : Carries exact .empty k k :=
  carries_of (fun rest bars => by rwa [followed_empty]) fun _ known => by rwa [followed_empty,followed_empty]

theorem carries_seq (one : Carries exact p l m) (two : Carries exact q k l) : Carries exact (p ++ q) k m :=
  carries_of (fun rest bars => by rw [followed_seq]; exact one.bars _ (two.bars rest bars)) fun extend known => by
    rw [followed_seq,followed_seq]
    exact one.tallies extend (two.tallies extend known)

theorem carries_choice (one : Carries exact p k l) (two : Carries exact q k m) : Carries exact (p.choice q) k (l.join m) := by
  obtain ⟨left,right⟩ := Heed.le_join l m
  refine carries_of (fun rest bars c g barred => ?_) fun extend known => ?_
  · rw [followed_choice]
    exact Option.or_eq_none_iff.mpr ⟨one.bars rest bars g (barred.mono left),two.bars rest bars g (barred.mono right)⟩
  · rw [followed_choice,followed_choice]
    exact ((one.tallies extend known).mono left).or ((two.tallies extend known).mono right)

theorem carries_maybe (one : Carries exact p k l) : Carries exact (maybe p) k (l.join k) := by
  obtain ⟨left,right⟩ := Heed.le_join l k
  refine carries_of (fun rest bars c g barred => ?_) fun extend known => ?_
  · rw [followed_maybe]
    exact Option.or_eq_none_iff.mpr ⟨one.bars rest bars g (barred.mono left),bars g (barred.mono right)⟩
  · rw [followed_maybe,followed_maybe]
    exact ((one.tallies extend known).mono left).or (known.mono right)

-- A character. It stays on its line unless it is a newline.

theorem barred_char (out : ∀ {x : Char} {t : Text}, c.after = x :: t → set.contains x = false) (g : Captures) :
    (Pattern.char set).followed rest c g = none := by
  cases begins : c.after with
  | nil => exact followed_nil _ _ begins g
  | cons x t => rw [followed_cons _ _ begins,out begins]; rfl

theorem meets_char (aligned : Aligned c c') (other : ¬ (c.OnBlank ∧ c.BeforeGap))
    (next : ∀ {x : Char} {t : Text}, c.after = x :: t → set.contains x = true → Aligned (c.past 1) (c'.past 1) →
      Option.Rel R (rest (c.past 1) g) (rest' (c'.past 1) g')) :
    Option.Rel R ((Pattern.char set).followed rest c g) ((Pattern.char set).followed rest' c' g') := by
  cases aligned.step with
  | ended none none' =>
    rw [followed_nil _ _ none,followed_nil _ _ none']
    exact .none
  | @inner x t _ begins begins' later =>
    rw [followed_cons _ _ begins,followed_cons _ _ begins']
    cases inSet : set.contains x with
    | false => exact .none
    | true => exact next begins inSet later
  | extra begins site => exact absurd ⟨Cursor.onBlank_before site begins,_,by rw [begins]; rfl,site.gap⟩ other

theorem off_past {x : Char} {t : Text} (single : set.contains '\n' = false) (begins : c.after = x :: t)
    (inSet : set.contains x = true) : (c.past 1).OnBlank ↔ c.OnBlank := by
  refine Cursor.onBlank_past begins ?_
  rintro rfl
  rw [single] at inSet
  cases inSet

theorem carries_inline (single : set.contains '\n' = false) : Carries exact (.char set) .away .away where
  bars _ _ _ _ barred := barred.elim
  meets _ known _ _ _ _ aligned off captures := meets_char aligned (fun blank => off blank.1) fun begins inSet next =>
    known.meets next (fun blank => off ((off_past single begins inSet).mp blank)) captures

theorem carries_stays (single : set.contains '\n' = false) : Carries exact (.char set) .solid .solid where
  bars rest bars c g blank := by
    cases begins : c.after with
    | nil => exact followed_nil _ _ begins g
    | cons x t =>
      rw [followed_cons _ _ begins]
      cases inSet : set.contains x with
      | false => rfl
      | true => exact bars g ((off_past single begins inSet).mpr blank)
  meets extend known := (carries_inline single).meets extend (known.mono rfl)

-- A character that may not stand on a blank line.
theorem carries_solid (single : set.contains '\n' = false) (none : set.gapless = true) :
    Carries exact (.char set) .away .solid where
  bars _ _ c g blank := barred_char (fun {x t} begins => by
    rcases blank.next begins with rfl | isGap
    · exact single
    · exact CharSet.gapless_gap none isGap) g
  meets := (carries_inline single).meets

theorem carries_newline (none : set.gapless = true) : Carries exact (.char set) .plain .late where
  bars _ _ c g blank := barred_char (fun {x t} begins => by
    obtain ⟨_,y,first,isGap⟩ := blank
    rw [begins] at first
    cases first
    exact CharSet.gapless_gap none isGap) g
  meets _ known _ _ _ _ aligned sees captures := meets_char aligned sees fun _ _ next => known.meets next trivial captures

theorem carries_char (set : CharSet) : Carries exact (.char set) .plain .away where
  bars _ _ _ _ barred := barred.elim
  meets _ known _ _ _ _ aligned off captures := meets_char aligned (fun blank => off blank.1) fun _ _ next =>
    known.meets next trivial captures

-- What reads nothing.

section

variable {holds : Cursor → Bool} (known : ∀ c, p.ways c = waysIf (holds c) c)
include known

theorem barred_if (bars : holds c = true → rest c g = none) : p.followed rest c g = none := by
  rw [congrFun (congrFun (followed_if known rest) c) g]
  cases here : holds c with
  | false => rfl
  | true => exact bars here

theorem meets_if (same : holds c = holds c') (rel : Option.Rel R (rest c g) (rest' c' g')) :
    Option.Rel R (p.followed rest c g) (p.followed rest' c' g') := by
  rw [congrFun (congrFun (followed_if known rest) c) g,congrFun (congrFun (followed_if known rest') c') g',same]
  exact rel_if _ rel

theorem carries_if (same : ∀ {c c'}, Aligned c c' → holds c = holds c') : Carries exact p k k where
  bars _ bars _ g barred := barred_if known fun _ => bars g barred
  meets _ tallies _ _ _ _ aligned sees captures := meets_if known (same aligned) (tallies.meets aligned sees captures)

theorem carries_off (same : ∀ {c c'}, Aligned c c' → ¬ c.OnBlank → holds c = holds c') :
    Carries exact p k (if k = .solid then .solid else .away) where
  bars rest bars c g barred := by
    split at barred
    · subst k
      exact barred_if known fun _ => bars g barred
    · exact barred.elim
  meets _ tallies c _ _ _ aligned sees captures := by
    have off : ¬ c.OnBlank := by split at sees <;> exact sees
    exact meets_if known (same aligned off) (tallies.meets aligned (k.sees_off off) captures)

theorem carries_none (same : ∀ {c c'}, Aligned c c' → ¬ c.OnBlank → holds c = holds c')
    (none : ∀ {c}, c.OnBlank → holds c = false) : Carries exact p .away .solid where
  bars _ _ _ _ blank := barred_if known fun here => absurd here (ne_true_of_eq_false (none blank))
  meets _ tallies _ _ _ _ aligned off captures := meets_if known (same aligned off) (tallies.meets aligned off captures)

theorem carries_late (same : ∀ {c c'}, Aligned c c' → ¬ (c.OnBlank ∧ c.BeforeGap) → holds c = holds c')
    (none : ∀ {c}, c.OnBlank ∧ c.BeforeGap → holds c = false) : Carries exact p k (if k = .plain then .late else k) where
  bars rest bars c g barred := by
    split at barred
    · exact barred_if known fun here => absurd here (ne_true_of_eq_false (none barred))
    · exact barred_if known fun _ => bars g barred
  meets _ tallies c _ _ _ aligned sees captures := by
    split at sees
    · subst k
      exact meets_if known (same aligned sees) (tallies.meets aligned trivial captures)
    · rename_i other
      have before : ¬ (c.OnBlank ∧ c.BeforeGap) := by
        cases k with
        | plain => exact absurd rfl other
        | late => exact sees
        | solid | away => exact fun blank => sees blank.1
      exact meets_if known (same aligned before) (tallies.meets aligned sees captures)

end

theorem not_before (aligned : Aligned c c') (other : ¬ (c.OnBlank ∧ c.BeforeGap)) :
    (c.after = [] ∧ c'.after = []) ∨ ∃ x t t', c.after = x :: t ∧ c'.after = x :: t' := by
  cases aligned.step with
  | ended none none' => exact Or.inl ⟨none,none'⟩
  | inner begins begins' => exact Or.inr ⟨_,_,_,begins,begins'⟩
  | extra begins site => exact absurd ⟨Cursor.onBlank_before site begins,_,by rw [begins]; rfl,site.gap⟩ other

-- What looks at the next character only, and fails at a gap.
theorem carries_head (holds : Option Char → Bool) (known : ∀ c, p.ways c = waysIf (holds c.after.head?) c)
    (gapless : ∀ x, CharSet.gap.contains x = true → holds (some x) = false) :
    Carries exact p k (if k = .plain then .late else k) := by
  refine carries_late known (fun aligned other => ?_) fun before => ?_
  · rcases not_before aligned other with ⟨none,none'⟩ | ⟨x,t,t',begins,begins'⟩
    · rw [none,none']
    · rw [begins,begins']
      rfl
  · obtain ⟨_,x,first,isGap⟩ := before
    rw [Option.mem_def.mp first,gapless x isGap]

theorem carries_textEnd : Carries exact .textEnd k (if k = .plain then .late else k) := by
  refine carries_head Option.isNone (fun c => ?_) fun _ _ => rfl
  obtain ⟨_,t⟩ := c
  cases t <;> rfl

theorem carries_lineEnd : Carries exact .lineEnd k (if k = .plain then .late else k) := by
  refine carries_head (Option.all (· == '\n')) (fun c => ?_) fun x isGap => ?_
  · obtain ⟨_,t⟩ := c
    cases t <;> rfl
  · refine beq_eq_false_iff_ne.mpr ?_
    rintro rfl
    exact absurd isGap (by decide)

theorem carries_lineStart : Carries exact .lineStart k (if k = .solid then .solid else .away) := by
  have known : ∀ c, Pattern.lineStart.ways c = waysIf (isLineStart c) c := fun _ => rfl
  exact carries_off known fun aligned off => aligned.isLineStart off

-- Whether a pattern matches at all.

theorem tallies_unit : Tallies Anyhow Anyhow (fun _ _ => some ()) (fun _ _ => some ()) .plain :=
  ⟨fun _ _ _ => .some trivial,fun _ _ barred => barred.elim,fun _ _ barred => barred.elim⟩

theorem Carries.alive (carries : Carries exact p .plain l) (aligned : Aligned c c') (sees : l.Sees c) : p.alive c = p.alive c' := by
  rw [alive_followed p c [],alive_followed p c' []]
  exact rel_isSome (carries.meets (extends_anyhow exact) tallies_unit aligned sees trivial)

theorem Carries.dead (carries : Carries exact p .plain l) (bars : l.Bars c) : p.alive c = false := by
  rw [alive_followed p c [],carries.bars _ tallies_unit.bars [] bars]
  rfl

-- What looking ahead makes of the rest, if what is looked for is of a kind.
def Heed.ahead : Heed → Heed → Heed
  | .plain, k => k
  | .late, k => if k = .plain then .late else k
  | .away, k => if k = .solid then .solid else .away
  | .solid, _ => .solid

theorem carries_ahead (plain : p.groups = []) (carries : Carries exact p .plain l) :
    Carries exact (.ahead p) k (l.ahead k) := by
  have known := ways_ahead_plain plain
  cases l with
  | plain => exact carries_if known fun aligned => carries.alive aligned trivial
  | late => exact carries_late known (fun aligned sees => carries.alive aligned sees) fun bars => carries.dead bars
  | away => exact carries_off known fun aligned off => carries.alive aligned off
  | solid =>
    have none : Carries exact (.ahead p) .away .solid :=
      carries_none known (fun aligned off => carries.alive aligned off) fun bars => carries.dead bars
    exact none.weaken k.le_away

def Heed.notAhead : Heed → Heed → Heed
  | .plain, k => k
  | .solid, k => k
  | _, k => if k = .solid then .solid else .away

theorem carries_notAhead (carries : Carries exact p .plain l) : Carries exact (.notAhead p) k (l.notAhead k) := by
  have known : ∀ c, (Pattern.notAhead p).ways c = waysIf (p.ways c).isEmpty c := fun _ => rfl
  have all : ∀ {l}, Carries exact p .plain l → l.le .plain = true → Carries exact (.notAhead p) k k := fun carries le =>
    carries_if known fun aligned => Bool.not_inj ((carries.widen le).alive aligned trivial)
  have off : Carries exact (.notAhead p) k (if k = .solid then .solid else .away) :=
    carries_off known fun aligned off => Bool.not_inj (carries.alive aligned (l.sees_off off))
  cases l with
  | plain | solid => exact all carries rfl
  | late | away => exact off

theorem carries_group {number : Nat} {name : Option String} (carries : Carries exact p k l)
    (off : number ∈ exact → l = .solid ∨ l = .away) : Carries exact (.group number name p) k l where
  bars rest bars c g barred := by
    rw [followed_group]
    exact carries.bars (capturing number c rest) (fun _ _ barred => bars _ barred) g barred
  meets {α C R rest rest'} extend tallies c c' g g' aligned sees captures := by
    have exactly : number ∈ exact → ¬ c.OnBlank := fun member => by
      rcases off member with rfl | rfl <;> exact sees
    have held : Tallies C R (capturing number c rest) (capturing number c' rest') k :=
      ⟨fun stops sees captures => tallies.meets stops sees (extend ⟨rfl,aligned,stops,exactly⟩ captures),
        fun _ _ barred => tallies.bars _ barred,fun _ _ barred => tallies.bars' _ barred⟩
    rw [followed_group,followed_group]
    exact carries.meets extend held aligned sees captures

end Pattern
end LightMarkup
