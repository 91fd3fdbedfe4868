import Mathlib.Data.Option.Basic
import LightMarkup.Proofs.Loading.Leaves

/-!
What loading tells of a text apart from where it stands: the headings, the tags, and the constructs of the paragraphs. Two
runs are alike if both fail or both succeed with the same.
-/

namespace LightMarkup

-- The construct of a paragraph, and those of the paragraphs inside it.
inductive Shape where
  | made (construct : String) (inside : List Shape)

namespace Paragraph

mutual

def shape : Paragraph → Shape
  | .leaf _ construct _ _ => .made construct []
  | .container _ construct _ _ _ nested => .made construct (shapes nested)

def shapes : List Paragraph → List Shape
  | [] => []
  | p :: rest => p.shape :: shapes rest

end

theorem shapes_map (ps : List Paragraph) : shapes ps = ps.map shape := by
  induction ps with
  | nil => rfl
  | cons p rest ih => rw [shapes,ih,List.map_cons]

end Paragraph

-- The content of a block, without the texts of paragraphs.
inductive Gist where
  | heading (heading : Heading)
  | tag (tag : ChapterTag)
  | paragraph (shape : Shape)

def BlockContent.gist : BlockContent → Gist
  | .heading held => .heading held
  | .tag held => .tag held
  | .paragraph held => .paragraph held.shape

namespace PlacedBlock

def gists (blocks : List PlacedBlock) : List Gist :=
  blocks.map fun block => block.content.gist

theorem gists_append (blocks others : List PlacedBlock) : gists (blocks ++ others) = gists blocks ++ gists others :=
  List.map_append

-- The same blocks, wherever they stand.
abbrev SameGists (blocks blocks' : List PlacedBlock) : Prop :=
  gists blocks = gists blocks'

-- And the same level for a heading after them.
def SameAfter (a b : List PlacedBlock × LastLevel) : Prop :=
  SameGists a.1 b.1 ∧ a.2 = b.2

theorem SameGists.append {front front' back back' : List PlacedBlock} (one : SameGists front front')
    (two : SameGists back back') : SameGists (front ++ back) (front' ++ back') := by
  rw [SameGists,gists_append,gists_append,one,two]

theorem gists_place (offset : Nat) (t : Text) (paragraphs : List Paragraph) :
    gists (place offset t paragraphs) = paragraphs.map fun p => .paragraph p.shape := by
  have contents := congrArg (List.map BlockContent.gist) (place_contents offset t paragraphs)
  rw [List.map_map,List.map_map] at contents
  exact contents

end PlacedBlock

-- Both fail, or both succeed with related results.
def Failure.Alike {α : Type} (R : α → α → Prop) (x y : Except Failure α) : Prop :=
  Option.Rel R x.toOption y.toOption

namespace Failure.Alike

variable {α β : Type} {R : α → α → Prop} {S : β → β → Prop} {x y : Except Failure α} {f g : α → Except Failure β}

theorem ok {a b : α} (related : R a b) : Alike R (.ok a) (.ok b) :=
  .some related

theorem error (one two : Failure) : Alike R (.error one) (.error two) :=
  .none

theorem same (refl : ∀ a, R a a) : Alike R x x := by
  cases x with
  | ok a => exact ok (refl a)
  | error failure => exact error failure failure

theorem bind (first : Alike R x y) (later : ∀ a b, R a b → Alike S (f a) (g b)) : Alike S (x >>= f) (y >>= g) := by
  cases x with
  | ok a =>
    cases y with
    | ok b =>
      cases first
      exact later a b ‹_›
    | error failure => cases first
  | error failure =>
    cases y with
    | ok b => cases first
    | error other => exact error failure other

-- Both results, with the runs that they are from.
theorem ran (first : Alike R x y) : Alike (fun a b => R a b ∧ x = .ok a ∧ y = .ok b) x y := by
  cases x with
  | ok a =>
    cases y with
    | ok b =>
      cases first
      exact ok ⟨‹_›,rfl,rfl⟩
    | error failure => cases first
  | error failure =>
    cases y with
    | ok b => cases first
    | error other => exact error failure other

theorem map_eq {f : α → β} (alike : Alike (fun a b => f a = f b) x y) : y.toOption.map f = x.toOption.map f := by
  unfold Alike at alike
  generalize x.toOption = a,y.toOption = b at alike
  cases alike with
  | some same => exact congrArg some same.symm
  | none => rfl

end Failure.Alike

namespace Logged

def Alike {α : Type} (R : α → α → Prop) (x y : Logged α) : Prop :=
  Failure.Alike R x.outcome y.outcome

namespace Alike

variable {α β : Type} {R : α → α → Prop} {S : β → β → Prop} {x y : Logged α} {f g : α → Logged β}

theorem pure {a b : α} (related : R a b) : Alike R (Pure.pure a) (Pure.pure b) :=
  Failure.Alike.ok related

theorem fail (one two : Failure) : Alike R (Logged.fail one) (Logged.fail two) :=
  Failure.Alike.error one two

theorem same (refl : ∀ a, R a a) : Alike R x x :=
  Failure.Alike.same refl

theorem bind (first : Alike R x y) (later : ∀ a b, R a b → Alike S (f a) (g b)) : Alike S (x >>= f) (y >>= g) := by
  unfold Alike at *
  cases ran : x.outcome with
  | ok a =>
    cases also : y.outcome with
    | ok b =>
      rw [ran,also] at first
      cases first
      rw [bind_ok ran,bind_ok also]
      exact later a b ‹_›
    | error failure => rw [ran,also] at first; cases first
  | error failure =>
    cases also : y.outcome with
    | ok b => rw [ran,also] at first; cases first
    | error other =>
      rw [bind_error ran,bind_error also]
      exact Failure.Alike.error failure other

theorem ran (first : Alike R x y) : Alike (fun a b => R a b ∧ x.outcome = .ok a ∧ y.outcome = .ok b) x y :=
  Failure.Alike.ran first

end Alike
end Logged
end LightMarkup
