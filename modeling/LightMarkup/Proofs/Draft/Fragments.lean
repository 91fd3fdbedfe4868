import Mathlib.Logic.Relation
import LightMarkup.Proofs.Draft.Atoms

/-!
Fragments: one text cut into live parts in different ways. A list of parts becomes another by splitting and joining live
parts with equal exclusions and by putting in and taking out empty ones exactly if the atoms of the two are alike
(`fragments_iff`), and no window of a draft and no splice tells alike lists apart.
-/

namespace LightMarkup

namespace Exclusion

variable {x y z : Exclusion}

-- Exclusions that exclude the same, now and when both are combined with another.
structure Likeness (R : Exclusion → Exclusion → Prop) : Prop where
  contains : ∀ {x y}, R x y → x.contains = y.contains
  combine : ∀ {x y}, R x y → ∀ z, R (x.combine z) (y.combine z)

def Agree (x y : Exclusion) : Prop :=
  x.agrees y = true

-- Two lists that name the same constructs, or the same exclusion.
theorem agree_iff : Agree x y ↔
    x = y ∨ ∃ a b, x = .listed a ∧ y = .listed b ∧ ∀ name, name ∈ a ↔ name ∈ b := by
  have listed : ∀ a b : List String, Agree (.listed a) (.listed b) ↔ ∀ name, name ∈ a ↔ name ∈ b := by
    intro a b
    simp only [Agree,agrees,Bool.and_eq_true,List.all_eq_true,List.contains_iff_mem]
    exact ⟨fun ⟨one,two⟩ name => ⟨one name,two name⟩,fun same => ⟨fun name => (same name).mp,fun name => (same name).mpr⟩⟩
  constructor
  · intro same
    cases x with
    | listed a =>
      cases y with
      | listed b => exact Or.inr ⟨a,b,rfl,rfl,(listed a b).mp same⟩
      | everything | nothing => cases same
    | everything | nothing =>
      cases y with
      | everything | nothing => first | exact Or.inl rfl | cases same
      | listed b => cases same
  · rintro (rfl | ⟨a,b,rfl,rfl,same⟩)
    · cases x with
      | listed a => exact (listed a a).mpr fun _ => Iff.rfl
      | everything | nothing => rfl
    · exact (listed a b).mpr same

theorem Agree.refl (x : Exclusion) : Agree x x :=
  agree_iff.mpr (Or.inl rfl)

theorem Agree.symm (same : Agree x y) : Agree y x := by
  rcases agree_iff.mp same with rfl | ⟨a,b,rfl,rfl,listed⟩
  · exact .refl x
  · exact agree_iff.mpr (Or.inr ⟨b,a,rfl,rfl,fun name => (listed name).symm⟩)

theorem Agree.trans (one : Agree x y) (two : Agree y z) : Agree x z := by
  rcases agree_iff.mp one with rfl | ⟨a,b,rfl,rfl,first⟩
  · exact two
  · rcases agree_iff.mp two with rfl | ⟨_,c,same,rfl,second⟩
    · exact one
    · cases same
      exact agree_iff.mpr (Or.inr ⟨a,c,rfl,rfl,fun name => (first name).trans (second name)⟩)

theorem likeness_eq : Likeness Eq :=
  ⟨congrArg _,fun same z => congrArg (combine · z) same⟩

theorem likeness_agree : Likeness Agree where
  contains := by
    intro x y same
    rcases agree_iff.mp same with rfl | ⟨a,b,rfl,rfl,listed⟩
    · rfl
    · funext name
      simp [contains,listed name]
  combine := by
    intro x y same z
    rcases agree_iff.mp same with rfl | ⟨a,b,rfl,rfl,listed⟩
    · exact .refl _
    · cases z with
      | listed c => exact agree_iff.mpr (Or.inr ⟨_,_,rfl,rfl,fun name => by simp [listed name]⟩)
      | everything => rfl
      | nothing => exact same

end Exclusion

-- Equal but for the exclusion.
inductive Part.Alike (R : Exclusion → Exclusion → Prop) : Part → Part → Prop where
  | fixed (content : Text) : Alike R (.fixed content) (.fixed content)
  | live (content : Text) {x y : Exclusion} (same : R x y) : Alike R (.live content x) (.live content y)

theorem Part.Alike.content {R : Exclusion → Exclusion → Prop} {part other : Part} (alike : Alike R part other) :
    part.content = other.content := by
  cases alike <;> rfl

namespace Draft

variable {R : Exclusion → Exclusion → Prop} {scope : Option String} {ends : Boundary}
  {start stop position first last : Nat} {part other : Part} {parts others rest more : List Part}

-- The same atoms but for their exclusions.
def Like (R : Exclusion → Exclusion → Prop) (parts others : List Part) : Prop :=
  List.Forall₂ (Part.Alike R) (atoms parts) (atoms others)

theorem Like.nil : Like R [] [] := List.Forall₂.nil

theorem Like.fixed (content : Text) : Like R [.fixed content] [.fixed content] :=
  List.Forall₂.cons (.fixed content) .nil

theorem Like.append (one : Like R parts others) (two : Like R rest more) : Like R (parts ++ rest) (others ++ more) := by
  rw [Like,atoms_append,atoms_append]
  exact List.rel_append one two

theorem like_eq : Like Eq parts others ↔ atoms parts = atoms others := by
  have same : Part.Alike Eq = Eq := by
    funext one two
    refine propext ⟨fun alike => ?_,fun same => ?_⟩
    · cases alike with
      | fixed content => rfl
      | live content same => rw [same]
    · subst same
      cases one <;> constructor
      rfl
  rw [Like,same,List.forall₂_eq_eq_eq]

section

variable (likeness : Exclusion.Likeness R)
include likeness

theorem alike_visible (alike : Part.Alike R part other) (scope : Option String) :
    part.visibleTo scope = other.visibleTo scope := by
  cases alike with
  | fixed content => rfl
  | live content same =>
    cases scope with
    | none => rfl
    | some name => rw [Part.visibleTo,Part.visibleTo,likeness.contains same]

theorem Like.visibleContentOf (like : Like R parts others) (scope : Option String) :
    visibleContentOf scope parts = visibleContentOf scope others := by
  rw [← visibleContentOf_atoms scope parts,← visibleContentOf_atoms scope others]
  rw [Like] at like
  generalize atoms parts = parts at like
  generalize atoms others = others at like
  induction like with
  | nil => rfl
  | @cons part other _ _ here _ ih =>
    rw [visibleContentOf_cons,visibleContentOf_cons,ih,alike_visible likeness here,here.content]

theorem Like.window (like : Like R parts others) (scope : Option String) (ends : Boundary) (start stop position : Nat) :
    Like R (windowFrom scope ends start stop position parts) (windowFrom scope ends start stop position others) := by
  rw [Like,atoms_window,atoms_window]
  rw [Like] at like
  generalize atoms parts = parts at like
  generalize atoms others = others at like
  induction like generalizing position with
  | nil => exact .nil
  | @cons part other _ _ here _ ih =>
    have seen := alike_visible likeness here scope
    cases visible : other.visibleTo scope with
    | false =>
      rw [windowFrom_hidden (seen.trans visible),windowFrom_hidden visible]
      refine List.rel_append ?_ (ih position)
      split
      · exact .cons here .nil
      · exact .nil
    | true =>
      rw [windowFrom_visible (seen.trans visible),windowFrom_visible visible,here.content]
      refine List.rel_append ?_ (ih _)
      have cut : Part.Alike R (part.between position start stop) (other.between position start stop) := by
        cases here with
        | fixed content => exact .fixed _
        | live content same => exact .live _ same
      rw [Part.keep,Part.keep,cut.content]
      split
      · exact .nil
      · exact .cons cut .nil

theorem Like.spliced {outs made : List (List Part)} (like : Like R parts others) (each : List.Forall₂ (Like R) outs made)
    (scope : Option String) (last first : Nat) (spans : List (Nat × Nat)) :
    Like R (spliced scope parts last first spans outs) (spliced scope others last first spans made) := by
  induction each generalizing first spans with
  | nil => cases spans <;> exact like.window likeness ..
  | cons here later ih =>
    cases spans with
    | nil => exact like.window likeness ..
    | cons span spans => exact (like.window likeness ..).append (here.append (ih _ spans))

end

theorem Like.contentOf (like : Like R parts others) : contentOf parts = contentOf others := by
  rw [← contentOf_atoms parts,← contentOf_atoms others]
  rw [Like] at like
  generalize atoms parts = parts at like
  generalize atoms others = others at like
  induction like with
  | nil => rfl
  | cons here _ ih => exact congrArg₂ (· ++ ·) here.content ih

-- A live part is split, or an empty one is put in. The exclusions of the pieces are equal to that of the whole as sets.
inductive Refragments : List Part → List Part → Prop where
  | split (front back : List Part) (t u : Text) {whole one two : Exclusion} (left : whole.Agree one)
      (right : whole.Agree two) :
      Refragments (front ++ .live (t ++ u) whole :: back) (front ++ .live t one :: .live u two :: back)
  | empty (front back : List Part) (excluded : Exclusion) :
      Refragments (front ++ back) (front ++ .live [] excluded :: back)

-- One list becomes the other by such steps and by taking them back.
def Fragments : List Part → List Part → Prop :=
  Relation.EqvGen Refragments

section

open Exclusion

theorem like_equivalence : Equivalence (Like Agree) where
  refl parts := List.forall₂_same.mpr fun part _ => by
    cases part with
    | fixed content => exact .fixed content
    | live content excluded => exact .live content (.refl excluded)
  symm like := (like.imp fun _ _ here => by
    cases here with
    | fixed content => exact .fixed content
    | live content same => exact .live content same.symm).flip
  trans one two := by
    unfold Like at one two ⊢
    generalize atoms _ = parts at one
    generalize atoms _ = middle at one two
    generalize atoms _ = others at two
    induction one generalizing others with
    | nil => exact two
    | cons here _ ih =>
      cases two with
      | cons there later =>
        refine .cons ?_ (ih _ later)
        cases here with
        | fixed content => exact there
        | live content same =>
          cases there with
          | live _ next => exact .live content (same.trans next)

theorem live_atoms (content : Text) {x y : Exclusion} (same : x.Agree y) :
    List.Forall₂ (Part.Alike Agree) (Part.live content x).atoms (Part.live content y).atoms := by
  rw [Part.atoms,Part.atoms,List.forall₂_map_left_iff,List.forall₂_map_right_iff,List.forall₂_same]
  exact fun c _ => .live [c] same

theorem Refragments.like (step : Refragments parts others) : Like Agree parts others := by
  cases step with
  | @split front back t u whole one two left right =>
    refine (like_equivalence.refl front).append ?_
    have split : Like Agree [.live (t ++ u) whole] [.live t one,.live u two] := by
      simpa [Like,Part.atoms] using List.rel_append (live_atoms t left) (live_atoms u right)
    exact split.append (like_equivalence.refl back)
  | empty front back excluded =>
    have none : atoms (front ++ .live [] excluded :: back) = atoms (front ++ back) := by simp [Part.atoms]
    rw [Like,none]
    exact like_equivalence.refl (front ++ back)

namespace Fragments

theorem cons (part : Part) (same : Fragments parts others) : Fragments (part :: parts) (part :: others) := by
  induction same with
  | rel parts others step =>
    refine .rel _ _ ?_
    cases step with
    | split front back t u left right => exact .split (part :: front) back t u left right
    | empty front back excluded => exact .empty (part :: front) back excluded
  | refl parts => exact .refl _
  | symm _ _ _ ih => exact .symm _ _ ih
  | trans _ _ _ _ _ one two => exact .trans _ _ _ one two

theorem rewrite (content : Text) {x y : Exclusion} (same : x.Agree y) (rest : List Part) :
    Fragments (.live content x :: rest) (.live content y :: rest) := by
  have split := Refragments.split [] rest content [] same same
  rw [List.append_nil] at split
  exact .trans _ _ _ (.rel _ _ split) (.symm _ _ (.rel _ _ (.empty [.live content y] rest y)))

-- Every live part falls apart into its characters.
theorem atoms (parts : List Part) : Fragments parts (Draft.atoms parts) := by
  induction parts with
  | nil => exact .refl []
  | cons part parts ih =>
    cases part with
    | fixed content => exact ih.cons _
    | live content excluded =>
      induction content with
      | nil => exact .trans _ _ _ (.symm _ _ (.rel _ _ (.empty [] parts excluded))) ih
      | cons c content rest =>
        have split := Refragments.split [] parts [c] content (.refl excluded) (.refl excluded)
        exact .trans _ _ _ (.rel _ _ split) (rest.cons _)

theorem of_alike (alike : List.Forall₂ (Part.Alike Agree) parts others) : Fragments parts others := by
  induction alike with
  | nil => exact .refl []
  | cons here _ ih =>
    cases here with
    | fixed content => exact ih.cons _
    | live content same => exact .trans _ _ _ (rewrite content same _) (ih.cons _)

end Fragments

theorem fragments_iff : Fragments parts others ↔ Like Agree parts others := by
  constructor
  · intro same
    have := like_equivalence.isEquiv
    exact Relation.EqvGen.eqvGen_le (fun _ _ step => step.like) _ _ same
  · exact fun like => .trans _ _ _ (Fragments.atoms parts)
      (.trans _ _ _ (Fragments.of_alike like) (.symm _ _ (Fragments.atoms others)))

end

end Draft
end LightMarkup
