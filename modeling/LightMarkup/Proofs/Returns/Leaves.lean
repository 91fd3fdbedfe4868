import LightMarkup.Proofs.Returns.Tagging

/-!
What the headings and the fallback make of a text and of the text with carriage returns: the same headings and tags, and
between them as many paragraphs.
-/

namespace LightMarkup

open Cursor (Facing)
open PlacedBlock (SameAfter)

variable {c c' : Cursor} {t t' : Text}

theorem Cursor.Facing.blank_rest (facing : Facing c c') : Text.isAllBlank c'.after = Text.isAllBlank c.after := by
  rcases facing with level | ⟨rest,between⟩
  · rw [level.ahead,Text.isAllBlank_withReturns]
  · rw [between.newline,between.ahead]
    exact Text.isAllBlank_withReturns rest

namespace Loading

theorem blankLines_turns : blankLines.Turns [] .same .same := by
  have turned : Pattern.turn [] blankLines .same = some .same := by decide
  exact Pattern.turn_turns turned

theorem samePieces_returns (facing : Facing (.start t) (.start t')) : Text.SamePieces t t' :=
  samePieces_of_cut facing.blank_rest <|
    (Pattern.occurrences_paired blankLines_turns rfl blankLines_needs facing).cut (fun facing => facing.blank_rest)
      (fun facing both read read' => facing.blank both.faces.start read read') id

end Loading

namespace HeadingConstruct

variable {found found' : HeadingConstruct × Match}

-- The same heading in both texts.
structure BothHead (found found' : HeadingConstruct × Match) : Prop where
  member : found.1 ∈ standard
  same : found'.1 = found.1
  both : found.1.pattern.BothWays [titleGroup,styleGroup] found.2 found'.2
  inner : found.2.start.after.head? ≠ some '\n'

theorem BothHead.alike (head : BothHead found found') : HeadsAlike found found' := by
  obtain ⟨construct,m⟩ := found
  obtain ⟨construct',m'⟩ := found'
  obtain ⟨member,same,both,_⟩ := head
  obtain rfl : construct' = construct := same
  exact headsAlike_of_ways member both

theorem findAt_both {constructs : List HeadingConstruct} (known : constructs ⊆ standard) (facing : Facing c c') :
    Option.Rel BothHead (findAt? constructs c) (findAt? constructs c') := by
  induction constructs with
  | nil => exact .none
  | cons construct rest ih =>
    obtain ⟨here,others⟩ := List.cons_subset.mp known
    have rel := (standard_turns here).matches rfl (Or.inl rfl) facing
    cases found : construct.pattern.matchAt? c with
    | none =>
      rw [findAt_behind found,findAt_behind (Pattern.rel_none rel found)]
      exact ih others
    | some m =>
      rw [found] at rel
      obtain ⟨m',found',faces⟩ := Pattern.rel_some rel
      rw [findAt_first found,findAt_first found']
      have inner := (standard_turns here).inner (Or.inl rfl) found
      obtain ⟨rfl,way⟩ := Pattern.matchAt_way found
      exact .some ⟨here,rfl,⟨faces,way,(Pattern.matchAt_way found').2⟩,inner⟩

theorem findAll_paired {constructs : List HeadingConstruct} (known : constructs ⊆ standard)
    (facing : Facing (.start t) (.start t')) :
    Pattern.Paired Facing Prod.snd BothHead (.start t) (.start t') (findAll constructs t) (findAll constructs t') :=
  Pattern.foundFrom_paired t t' (findAt_finds known) (fun facing _ _ => findAt_both known facing)
    (fun both => both.both.faces.stop) facing rfl rfl

end HeadingConstruct

namespace Loader

open HeadingConstruct (BothHead HeadsAlike)

variable {loader : Loader}

theorem cut_heads (facing : Facing (.start t) (.start t')) {constructs : List HeadingConstruct}
    (known : constructs ⊆ HeadingConstruct.standard) : Cut Prod.snd Text.SamePieces HeadsAlike 0 t 0 t'
      (HeadingConstruct.findAll constructs t) (HeadingConstruct.findAll constructs t') := by
  refine (HeadingConstruct.findAll_paired known facing).cut (fun facing => Loading.samePieces_returns facing.rest) ?_ ?_
  · exact fun facing head read read' =>
      Loading.samePieces_returns (facing.gap head.both.faces.start head.inner read read')
  · exact fun head => head.alike

theorem leafBlocks_alike (sound : loader.catalogue.Sound) (facing : Facing (.start t) (.start t')) (offset offset' : Nat)
    (last : LastLevel) : Logged.Alike SameAfter (loader.leafBlocks offset t last) (loader.leafBlocks offset' t' last) :=
  leafBlocksFrom_alike sound (cut_heads facing sound.standard_headings) offset offset' last

end Loader
end LightMarkup
