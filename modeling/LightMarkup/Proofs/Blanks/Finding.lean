import LightMarkup.Proofs.Blanks.Styling
import LightMarkup.Proofs.Loading.Passing
import LightMarkup.Proofs.Returns.Tagging

/-!
Searching a text and the text with one gap less on a blank line. What one search finds the other one does, as neither finds
anything at the gap.
-/

namespace LightMarkup

open Cursor (Aligned)
open Pattern (Anyhow Carries CaptureAligned CapturesAligned Finds Heed Tallies foundFrom)

-- Two matches at the same places, with the same groups.
structure Match.Aligns (exact : List Nat) (m m' : Match) : Prop where
  start : Aligned m.start m'.start
  stop : Aligned m.stop m'.stop
  captures : CapturesAligned exact m.captures m'.captures

namespace Match

variable {exact : List Nat} {p : Pattern} {m m' : Match} {n : Nat}

theorem Aligns.capture (aligns : m.Aligns exact m') (numbered : n ≠ 0) :
    Option.Rel (CaptureAligned exact) (m.capture? n) (m'.capture? n) :=
  capture_related (fun here => here.group) aligns.captures numbered

-- What a group holds has at most one gap less.
theorem Aligns.gap (aligns : m.Aligns exact m') (way : m.IsWay p) (way' : m'.IsWay p) (numbered : n ≠ 0) :
    Aligned (.start (m.group n)) (.start (m'.group n)) := by
  rw [Match.group,Match.group]
  rcases groups_read way way' numbered (aligns.capture numbered) with ⟨none,none'⟩ | ⟨held,both⟩
  · rw [none,none']
    exact .refl _
  · obtain ⟨_,_,held',t,t',here,read,read',text,text'⟩ := both
    rw [text,text']
    exact here.start.gap here.stop read read'

-- A group that stays on its line holds the same.
theorem Aligns.group_same (aligns : m.Aligns exact m') (way : m.IsWay p) (way' : m'.IsWay p) (numbered : n ≠ 0)
    (member : n ∈ exact) (avoids : p.groupsAvoid '\n' exact = true) : m'.group? n = m.group? n := by
  rcases groups_read way way' numbered (aligns.capture numbered) with ⟨none,none'⟩ | ⟨held,both⟩
  · rw [none,none']
  · obtain ⟨isHeld,number,held',t,t',here,read,read',text,text'⟩ := both
    obtain ⟨u,reads,single⟩ := Pattern.ways_groupsAvoid avoids _ _ way held isHeld (number ▸ member)
    obtain rfl : u = t := reads.textTo.symm.trans read.textTo
    rw [text,text',here.start.same here.stop read read' single (here.off (number ▸ member))]

end Match

namespace Pattern

variable {α : Type} {exact : List Nat} {p : Pattern} {l : Heed} {c c' d d' : Cursor} {t t' : Text}

-- Attempts in two texts, which no captures matter for.
abbrev Attempts (R : α → α → Prop) (attempt : Cursor → Option α) (k : Heed) : Prop :=
  Tallies Anyhow R (fun c (_ : Captures) => attempt c) (fun c _ => attempt c) k

theorem Tallies.found {attempt : Cursor → Option α} {R : α → α → Prop} {k : Heed} (attempts : Attempts R attempt k)
    (aligned : Aligned c c') (sees : k.Sees c) : Option.Rel R (attempt c) (attempt c') :=
  attempts.meets aligned sees (show Anyhow ([] : Captures) [] from trivial)

theorem Tallies.none {attempt : Cursor → Option α} {R : α → α → Prop} {k : Heed} (attempts : Attempts R attempt k)
    (barred : k.Bars c) : attempt c = .none :=
  attempts.bars [] barred

-- What a pattern finds at a place does not depend on the gap.
theorem Carries.attempts (carries : Carries exact p .plain l) : Attempts (Match.Aligns exact) p.matchAt? l := by
  have found : ∀ c, p.matchAt? c = p.followed (fun stop g => .some ⟨c,stop,g⟩) c [] := fun c => p.run_eq c [] _
  have plain : ∀ start : Cursor, Barred .plain fun stop g => some (⟨start,stop,g⟩ : Match) := fun _ _ _ barred => barred.elim
  have dead : ∀ {c}, l.Bars c → p.matchAt? c = none := fun {c} barred => by
    rw [found]
    exact carries.bars _ (plain c) [] barred
  refine ⟨fun {c c' _ _} aligned sees _ => ?_,fun _ _ => dead,fun _ _ => dead⟩
  have tallies : Tallies (CapturesAligned exact) (Match.Aligns exact) (fun stop g => some (⟨c,stop,g⟩ : Match))
      (fun stop g => some ⟨c',stop,g⟩) .plain :=
    ⟨fun stops _ captures => .some ⟨aligned,stops,captures⟩,plain c,plain c'⟩
  rw [found,found]
  exact carries.meets (extends_aligned exact) tallies aligned sees .nil

theorem Carries.off (carries : Carries exact p .plain .solid) {m : Match} (found : p.matchAt? c = some m) : ¬ c.OnBlank := by
  intro blank
  rw [carries.attempts.none blank] at found
  cases found

-- Attempts that find the same, but nothing before a gap on a blank line, find the same in both texts.
theorem foundFrom_aligned (finds : Finds attempt matchOf) (attempts : Attempts R attempt .late)
    (stops : ∀ {a a'}, R a a' → Aligned (matchOf a).stop (matchOf a').stop) (aligned : Aligned c c') :
    Paired Aligned matchOf R c c' (foundFrom attempt matchOf c) (foundFrom attempt matchOf c') := by
  have one : ∀ {c : Cursor} {x : Char} {u : Text}, c.after = x :: u → c.Reads [x] (c.past 1) := fun begins => .of_after begins
  revert c'
  refine search_induct (P := fun c => ∀ {c'}, Aligned c c' →
    Paired Aligned matchOf R c c' (foundFrom attempt matchOf c) (foundFrom attempt matchOf c')) finds ?_ ?_ ?_ c
  · intro c none c' aligned
    cases aligned.step with
    | ended _ none' =>
      rw [foundFrom_ended finds none,foundFrom_ended finds none']
      exact .nil aligned
    | inner begins | extra begins => rw [none] at begins; cases begins
  · intro c x u begins none next c' aligned
    rw [foundFrom_pass begins none]
    cases aligned.step with
    | ended ended => rw [begins] at ended; cases ended
    | inner begins begins' stop =>
      have none' : attempt c' = .none := by
        have same : c.after.head? = c'.after.head? := by rw [begins,begins']; rfl
        exact rel_none (attempts.level (Or.inr rfl) aligned same (show Anyhow ([] : Captures) [] from trivial)) none
      rw [foundFrom_pass begins' none']
      exact .pass aligned (one begins) (one begins') (next stop)
    | extra begins _ _ stop => exact .pass aligned (one begins) (.refl c') (next stop)
  · intro c a found next c' aligned
    have before : ¬ (c.OnBlank ∧ c.BeforeGap) := fun barred => by
      rw [attempts.none barred] at found
      cases found
    have rel := attempts.found aligned before
    rw [found] at rel
    obtain ⟨a',found',related⟩ := rel_some rel
    obtain ⟨inner,read,_⟩ := finds.reads found
    obtain ⟨inner',read',_⟩ := finds.reads found'
    rw [foundFrom_take finds found,foundFrom_take finds found']
    have later := next (stops related)
    rw [← finds.start found] at read
    rw [← finds.start found'] at read'
    have start : c.Reads [] (matchOf a).start := finds.start found ▸ .refl c
    have start' : c'.Reads [] (matchOf a').start := finds.start found' ▸ .refl c'
    exact .cons aligned start start' read read' related later

-- Two matches of a pattern.
structure FoundBoth (p : Pattern) (exact : List Nat) (m m' : Match) : Prop where
  aligns : m.Aligns exact m'
  found : p.matchAt? m.start = some m
  found' : p.matchAt? m'.start = some m'

theorem Carries.both (carries : Carries exact p .plain l) : Attempts (p.FoundBoth exact) p.matchAt? l where
  bars := carries.attempts.bars
  bars' := carries.attempts.bars'
  meets {c c' g g'} aligned sees _ := by
    have rel := carries.attempts.found aligned sees
    cases found : p.matchAt? c with
    | none =>
      rw [rel_none rel found]
      exact .none
    | some m =>
      rw [found] at rel
      obtain ⟨m',found',aligns⟩ := rel_some rel
      rw [found']
      exact .some ⟨aligns,(matchAt_way found).1 ▸ found,(matchAt_way found').1 ▸ found'⟩

theorem occurrences_aligned (carries : Carries exact p .plain l) (le : l.le .late = true)
    (needed : p.needs (fun _ => true) = true) (aligned : Aligned (.start t) (.start t')) :
    Paired Aligned id (p.FoundBoth exact) (.start t) (.start t') (p.occurrences t) (p.occurrences t') := by
  have same : p.matchSomeAt? = p.matchAt? := funext (needs_some needed)
  have attempts : Attempts (p.FoundBoth exact) p.matchSomeAt? .late := by
    rw [same]
    exact carries.both.mono le
  exact foundFrom_aligned (occurrences_find p) attempts (fun both => both.aligns.stop) aligned

end Pattern

namespace Block

theorem standard_carries {construct : BlockConstruct} (member : construct ∈ standard) :
    Carries [] construct.pattern .plain .solid := by
  have all : ∀ construct ∈ standard, construct.pattern = styledWithId.pattern ∨
      construct.pattern.carry [] .plain = some .solid := by
    have all : standard.all (fun construct => construct.pattern == styledWithId.pattern ||
        construct.pattern.carry [] .plain == some .solid) = true := by
      decide +kernel
    intro construct member
    simpa using List.all_eq_true.mp all construct member
  rcases all construct member with same | known
  · exact same ▸ styledWithId_carries
  · exact Pattern.carry_carries known

end Block

namespace BlockConstruct

variable {construct : BlockConstruct} {c c' : Cursor} {t t' : Text}

-- The same block in both texts.
structure FoundBoth (construct : BlockConstruct) (m m' : Match) : Prop where
  aligns : m.Aligns [] m'
  off : ¬ m.start.OnBlank
  found : construct.blockAt? m.start = some m
  found' : construct.blockAt? m'.start = some m'

theorem blockAt_attempts (member : construct ∈ Block.standard) :
    Pattern.Attempts construct.FoundBoth construct.blockAt? .solid := by
  have carries := Block.standard_carries member
  have dead : ∀ {c}, c.OnBlank → construct.blockAt? c = none := fun blank => blockAt_none (carries.attempts.none blank)
  refine ⟨fun {c c' _ _} aligned off _ => ?_,fun _ _ => dead,fun _ _ => dead⟩
  refine blockAt_related member (carries.both.found aligned off) (fun _ _ _ => aligned.isBlockStart off) ?_
  rintro m m' both rfl found found'
  exact ⟨both.aligns,off,found,found'⟩

-- The blocks of a construct in two texts.
theorem blockMatches_aligned (member : construct ∈ Block.standard) (aligned : Aligned (.start t) (.start t')) :
    ∃ ms ms', construct.blockMatches t = .ok ms ∧ construct.blockMatches t' = .ok ms' ∧
      Pattern.Paired Aligned id construct.FoundBoth (.start t) (.start t') ms ms' := by
  have found : ∀ t, construct.blockMatches t = .ok (foundFrom construct.blockAt? id (.start t)) :=
    fun t => matchesFrom_ok (Block.standard_some member) t [] 0
  exact ⟨_,_,found t,found t',Pattern.foundFrom_aligned construct.blockAt_finds ((blockAt_attempts member).mono rfl)
    (fun both => both.aligns.stop) aligned⟩

end BlockConstruct
end LightMarkup
