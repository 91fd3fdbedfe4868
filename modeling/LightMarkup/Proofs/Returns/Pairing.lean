import LightMarkup.Proofs.Loading.Likeness
import LightMarkup.Proofs.Pattern.Searching
import LightMarkup.Proofs.Returns.Turning

/-!
Searching a text and the text with carriage returns. As one match is found where the other one is, and ends where the
other one ends, the two searches find the same number of matches, with the same text between them.
-/

namespace LightMarkup

open Cursor (Facing)
open Pattern (Accord CapturesFace Finds scanFrom)
open Text (withReturns)

-- Two matches that begin and end at the same places, with the same groups.
structure Match.Faces (exact : List Nat) (k : Accord) (m m' : Match) : Prop where
  start : Facing m.start m'.start
  stop : k.Meets m.stop m'.stop
  captures : CapturesFace exact m.captures m'.captures

namespace Pattern

variable {exact : List Nat} {p : Pattern} {k l : Accord} {c c' : Cursor}

theorem Turns.matches (turns : p.Turns exact k l) (le : l.le .same = true) (some : k = .same ∨ k = .level)
    (facing : Facing c c') : Option.Rel (Match.Faces exact k) (p.matchAt? c) (p.matchAt? c') := by
  have found : ∀ c, p.matchAt? c = p.followed (fun stop g => .some ⟨c,stop,g⟩) c [] := fun c => p.run_eq c [] _
  have agree : Agree (CapturesFace exact) (Match.Faces exact k) (fun stop g => .some (⟨c,stop,g⟩ : Match))
      (fun stop g => .some ⟨c',stop,g⟩) k := by
    refine ⟨fun stops captures => .some ⟨facing,stops,captures⟩,fun _ _ _ _ _ _ _ none => (nomatch none),fun isApart => ?_⟩
    rcases some with rfl | rfl <;> cases isApart
  have blind : Agree Anyhow Anyhow (fun stop g => Option.some (⟨c,stop,g⟩ : Match))
      (fun stop g => .some ⟨c',stop,g⟩) k.blind := by
    have same : k.blind = .same := by rcases some with rfl | rfl <;> rfl
    rw [same]
    exact .of_same fun _ _ => .some trivial
  rw [found,found]
  exact ((turns (closed_face exact) ⟨blind,agree⟩).agree.mono le).meets facing .nil

-- Nothing is found at the end of a line.
theorem Turns.inner (turns : p.Turns exact k .apart) (some : k = .same ∨ k = .level) {m : Match}
    (found : p.matchAt? c = .some m) : c.after.head? ≠ .some '\n' := by
  intro newline
  have blind : Agree Anyhow Anyhow (fun stop g => Option.some (⟨c,stop,g⟩ : Match))
      (fun stop g => .some ⟨c,stop,g⟩) .same := .of_same fun _ _ => .some trivial
  have agrees : Agrees Anyhow Anyhow (fun stop g => Option.some (⟨c,stop,g⟩ : Match))
      (fun stop g => .some ⟨c,stop,g⟩) k := by
    rcases some with rfl | rfl
    · exact ⟨blind,blind⟩
    · exact ⟨blind,blind.mono rfl⟩
  rw [show p.matchAt? c = _ from p.run_eq c [] _] at found
  have none := (turns (closed_anyhow exact) agrees).agree.apart rfl (g := []) newline
  rw [show firstWay _ _ _ = _ from none] at found
  cases found

end Pattern

namespace Cursor

variable {c c' d d' : Cursor} {t t' : Text}

theorem Reads.text (read : c.Reads t d) : d.text = c.text := by
  simp [Cursor.text,read.1,read.2]

theorem Facing.level_of (facing : Facing c c') (other : c.after.head? ≠ some '\n') : Level c c' := by
  rcases facing with level | ⟨rest,between⟩
  · exact level
  · exact absurd (by rw [between.newline]; rfl) other

-- What is read between two pairs of places is the same but for carriage returns; one of them is missing in front if the
-- first place is behind it, and one is left over if the second is.
theorem Facing.between (facing : Facing c c') (stops : Facing d d') (read : c.Reads t d) (read' : c'.Reads t' d') :
    ∃ lead trail, lead ++ t' = withReturns t ++ trail ∧ (lead = [] ∧ Level c c' ∨ lead = ['\r'] ∧ c.after.head? = some '\n') ∧
      (trail = [] ∧ Level d d' ∨ trail = ['\r'] ∧ d.after.head? = some '\n') := by
  have lead : ∀ {c c' : Cursor}, Facing c c' → ∃ lead, lead ++ c'.after = withReturns c.after ∧
      (lead = [] ∧ Level c c' ∨ lead = ['\r'] ∧ c.after.head? = some '\n') := by
    rintro c c' (level | ⟨rest,between⟩)
    · exact ⟨[],level.ahead,Or.inl ⟨rfl,level⟩⟩
    · refine ⟨['\r'],?_,Or.inr ⟨rfl,by rw [between.newline]; rfl⟩⟩
      rw [between.newline,between.ahead,Text.withReturns_newline]
      rfl
  obtain ⟨front,ahead,isFront⟩ := lead facing
  obtain ⟨back,behind,isBack⟩ := lead stops
  refine ⟨front,back,?_,isFront,isBack⟩
  rw [read.1,read'.1,Text.withReturns_append,← behind,← List.append_assoc,← List.append_assoc] at ahead
  exact List.append_cancel_right ahead

theorem Level.between (level : Level c c') (stops : Level d d') (read : c.Reads t d) (read' : c'.Reads t' d') :
    t' = withReturns t ∧ '\r' ∉ t := by
  have ahead := level.ahead
  rw [read.1,read'.1,Text.withReturns_append,stops.ahead] at ahead
  refine ⟨List.append_cancel_right ahead,fun member => level.free ?_⟩
  rw [read.1]
  exact List.mem_append_left _ member

theorem Facing.free (facing : Facing c c') : '\r' ∉ c.after := by
  rcases facing with level | ⟨rest,between⟩
  · exact level.free
  · rw [between.newline]
    exact List.not_mem_cons_of_ne_of_not_mem (by decide) between.free

-- Texts that are the same but for carriage returns, the first of which may be missing.
theorem facing_start {t t' lead : Text} (same : lead ++ t' = withReturns t) (free : '\r' ∉ t)
    (front : lead = [] ∨ lead = ['\r'] ∧ t.head? = some '\n') : Facing (.start t) (.start t') := by
  rcases front with rfl | ⟨rfl,head⟩
  · obtain rfl : t' = withReturns t := same
    exact (level_start free).facing
  · obtain ⟨rest,rfl⟩ := List.head?_eq_some_iff.mp head
    obtain rfl : t' = '\n' :: withReturns rest := (List.cons.inj same).2
    exact (between_start fun member => free (List.mem_cons_of_mem _ member)).facing

theorem Facing.rest (facing : Facing c c') : Facing (.start c.after) (.start c'.after) := by
  rcases facing with level | ⟨rest,between⟩
  · rw [level.ahead]
    exact (level_start level.free).facing
  · rw [between.newline,between.ahead]
    exact (between_start between.free).facing

-- The text before a place inside a line.
theorem Facing.gap (facing : Facing c c') (stops : Facing d d') (inner : d.after.head? ≠ some '\n') (read : c.Reads t d)
    (read' : c'.Reads t' d') : Facing (.start t) (.start t') := by
  have free : '\r' ∉ t := fun member => facing.free (by rw [read.1]; exact List.mem_append_left _ member)
  obtain ⟨lead,trail,same,front,⟨rfl,_⟩ | ⟨_,head⟩⟩ := facing.between stops read read'
  · rw [List.append_nil] at same
    refine facing_start same free (front.imp And.left fun ⟨return_,head⟩ => ⟨return_,?_⟩)
    cases t with
    | nil =>
      have stay : c.after = d.after := read.1
      exact absurd (stay ▸ head) inner
    | cons x t => rwa [read.1] at head
  · exact absurd head inner

theorem Facing.blank (facing : Facing c c') (stops : Facing d d') (read : c.Reads t d) (read' : c'.Reads t' d') :
    Text.isAllBlank t' = Text.isAllBlank t := by
  obtain ⟨lead,trail,same,front,back⟩ := facing.between stops read read'
  have either : ∀ {u : Text} {P Q : Prop}, (u = [] ∧ P ∨ u = ['\r'] ∧ Q) → Text.isAllBlank u = true := by
    rintro u P Q (⟨rfl,_⟩ | ⟨rfl,_⟩) <;> rfl
  have both := congrArg Text.isAllBlank same
  rwa [Text.isAllBlank,Text.isAllBlank,List.all_append,List.all_append,← Text.isAllBlank,← Text.isAllBlank,
    ← Text.isAllBlank,← Text.isAllBlank,either front,either back,Text.isAllBlank_withReturns,Bool.true_and,
    Bool.and_true] at both

end Cursor

namespace Pattern

variable {α : Type} {attempt : Cursor → Option α} {matchOf : α → Match} {R : α → α → Prop} {c c' d d' : Cursor}
  {as as' : List α} {t t' : Text}

section

variable (t t' : Text) (finds : Finds attempt matchOf)
  (meets : ∀ {d d'}, Facing d d' → d.text = t → d'.text = t' → Option.Rel R (attempt d) (attempt d'))
  (stops : ∀ {a a'}, R a a' → Facing (matchOf a).stop (matchOf a').stop)
include finds meets stops

-- Where one of them matches the other does, so that they find the same.
theorem foundFrom_paired (facing : Facing c c') (text : c.text = t) (text' : c'.text = t') :
    Paired Facing matchOf R c c' (foundFrom attempt matchOf c) (foundFrom attempt matchOf c') := by
  have one : ∀ {c : Cursor} {x : Char} {u : Text}, c.after = x :: u → c.Reads [x] (c.past 1) := fun begins => .of_after begins
  revert c'
  refine search_induct (P := fun c => c.text = t → ∀ {c'}, Facing c c' → c'.text = t' →
    Paired Facing matchOf R c c' (foundFrom attempt matchOf c) (foundFrom attempt matchOf c')) finds ?_ ?_ ?_ c text
  · intro c ended _ c' facing _
    rw [foundFrom_ended finds ended,foundFrom_ended finds (facing.ended.mp ended)]
    exact .nil facing
  · intro c x u begins none next text c' facing text'
    have later : (c.past 1).text = t := (one begins).text.trans text
    have none' := rel_none (meets facing text text') none
    cases facing.ahead with
    | ended ended => rw [begins] at ended; cases ended
    | inner _ _ _ begins' level | between _ begins' level =>
      rw [foundFrom_pass begins none,foundFrom_pass begins' none']
      exact .pass facing (one begins) (one begins') (next later level.facing ((one begins').text.trans text'))
    | newline _ begins' between =>
      have read' := (one begins').append (one between.ahead)
      have again := rel_none (meets between.facing text ((one begins').text.trans text')) none
      rw [foundFrom_pass begins none,foundFrom_pass begins' none',foundFrom_pass between.ahead again]
      exact .pass facing (one begins) read' (next later between.next.facing (read'.text.trans text'))
  · intro c a found next text c' facing text'
    have rel := meets facing text text'
    rw [found] at rel
    obtain ⟨a',found',related⟩ := rel_some rel
    obtain ⟨inner,read,_⟩ := finds.reads found
    obtain ⟨inner',read',_⟩ := finds.reads found'
    rw [foundFrom_take finds found,foundFrom_take finds found']
    have later := next (read.text.trans text) (stops related) (read'.text.trans text')
    rw [← finds.start found] at read
    rw [← finds.start found'] at read'
    have start : c.Reads [] (matchOf a).start := finds.start found ▸ .refl c
    have start' : c'.Reads [] (matchOf a').start := finds.start found' ▸ .refl c'
    exact .cons facing start start' read read' related later

end

end Pattern
end LightMarkup
