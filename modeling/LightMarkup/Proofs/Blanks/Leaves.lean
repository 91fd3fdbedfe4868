import LightMarkup.Proofs.Blanks.Finding
import LightMarkup.Proofs.Returns.Leaves

/-!
What the headings and the fallback make of a text and of the text with one gap less on a blank line: the same headings and
tags, and between them as many paragraphs.
-/

namespace LightMarkup

open Cursor (Aligned)
open PlacedBlock (SameAfter)
open Pattern (Attempts Carries Paired)

variable {c c' d d' : Cursor} {t t' : Text}

namespace Loading

theorem blankLines_carries : Carries [] blankLines .plain .late := by
  have known : blankLines.carry [] .plain = some .late := by decide
  exact Pattern.carry_carries known

theorem samePieces_aligned (aligned : Aligned (.start t) (.start t')) : Text.SamePieces t t' := by
  have paired := Pattern.occurrences_aligned blankLines_carries rfl blankLines_needs aligned
  exact samePieces_of_cut aligned.blank <| paired.cut (fun aligned => aligned.rest.blank)
    (fun aligned both read read' => (aligned.gap both.aligns.start read read').blank) id

end Loading

namespace HeadingConstruct

variable {construct : HeadingConstruct} {m m' : Match} {found found' : HeadingConstruct × Match}

theorem nonBlankLine_carries : Carries [] nonBlankLine .plain .solid := by
  have known : nonBlankLine.carry [] .plain = some .solid := by decide
  exact Pattern.carry_carries known

-- A line that is not blank is the same.
theorem nonBlankLine_same (both : nonBlankLine.FoundBoth [] m m') : m'.text = m.text := by
  obtain ⟨_,way⟩ := Pattern.matchAt_way both.found
  obtain ⟨_,way'⟩ := Pattern.matchAt_way both.found'
  obtain ⟨t,read,free⟩ := Pattern.ways_only (Block.avoids_only (Bool.and_eq_true_iff.mp nonBlankLine_stays).2) _ _ way
  obtain ⟨t',read'⟩ := way'.reads
  have single : '\n' ∉ t := fun member => free _ member rfl
  have text : m.text = t := read.textTo
  have text' : m'.text = t' := read'.textTo
  have off : ¬ m.start.OnBlank := nonBlankLine_carries.off both.found
  rw [text,text',both.aligns.start.same both.aligns.stop read read' single off]

theorem tags_aligned (aligned : Aligned (.start t) (.start t')) (offset offset' : Nat) :
    Failure.Alike PlacedBlock.SameGists (tags offset t) (tags offset' t') := by
  have paired := Pattern.occurrences_aligned nonBlankLine_carries rfl nonBlankLine_needs aligned
  refine tagsOfLines_alike (paired.related.imp fun _ _ both => ?_) offset offset'
  rw [nonBlankLine_same both]
  exact .same fun _ => rfl

theorem standard_carries (member : construct ∈ standard) : Carries [titleGroup,styleGroup] construct.pattern .plain .solid := by
  have all : standard.all (fun construct =>
      construct.pattern.carry [titleGroup,styleGroup] .plain = some .solid) = true := by decide +kernel
  exact Pattern.carry_carries (of_decide_eq_true (List.all_eq_true.mp all construct member))

theorem headsAlike_of_both (member : construct ∈ standard) (both : construct.pattern.FoundBoth [titleGroup,styleGroup] m m') :
    HeadsAlike (construct,m) (construct,m') := by
  obtain ⟨_,way⟩ := Pattern.matchAt_way both.found
  obtain ⟨_,way'⟩ := Pattern.matchAt_way both.found'
  have same : ∀ n ∈ [titleGroup,styleGroup], m'.group? n = m.group? n := fun n isExact =>
    both.aligns.group_same way way' (by rintro rfl; exact absurd isExact (by decide)) isExact (standard_single member)
  refine ⟨rfl,blocks_alike ?_ (same styleGroup (by decide)) ?_⟩
  · rw [Match.group,same titleGroup (by decide)]
    rfl
  · exact tags_aligned (both.aligns.gap way way' (n := tagsGroup) (by decide))

-- The same heading in both texts.
structure HeadBoth (found found' : HeadingConstruct × Match) : Prop where
  member : found.1 ∈ standard
  same : found'.1 = found.1
  both : found.1.pattern.FoundBoth [titleGroup,styleGroup] found.2 found'.2

theorem HeadBoth.alike (head : HeadBoth found found') : HeadsAlike found found' := by
  obtain ⟨construct,m⟩ := found
  obtain ⟨construct',m'⟩ := found'
  obtain ⟨member,same,both⟩ := head
  obtain rfl : construct' = construct := same
  exact headsAlike_of_both member both

theorem findAt_attempts {constructs : List HeadingConstruct} (known : constructs ⊆ standard) :
    Attempts HeadBoth (findAt? constructs) .solid := by
  induction constructs with
  | nil => exact ⟨fun _ _ _ => .none,fun _ _ _ => rfl,fun _ _ _ => rfl⟩
  | cons construct rest ih =>
    obtain ⟨here,others⟩ := List.cons_subset.mp known
    have attempts := (standard_carries here).both
    have dead : ∀ {c : Cursor}, c.OnBlank → findAt? (construct :: rest) c = none := by
      intro c blank
      rw [findAt_behind (attempts.none blank)]
      exact (ih others).none blank
    refine ⟨fun {c c' _ _} aligned off _ => ?_,fun _ _ => dead,fun _ _ => dead⟩
    have rel := attempts.found aligned off
    cases found : construct.pattern.matchAt? c with
    | none =>
      rw [findAt_behind found,findAt_behind (Pattern.rel_none rel found)]
      exact (ih others).found aligned off
    | some m =>
      rw [found] at rel
      obtain ⟨m',found',both⟩ := Pattern.rel_some rel
      rw [findAt_first found,findAt_first found']
      exact .some ⟨here,rfl,both⟩

theorem findAll_aligned {constructs : List HeadingConstruct} (known : constructs ⊆ standard)
    (aligned : Aligned (.start t) (.start t')) :
    Paired Aligned Prod.snd HeadBoth (.start t) (.start t') (findAll constructs t) (findAll constructs t') :=
  Pattern.foundFrom_aligned (findAt_finds known) ((findAt_attempts known).mono rfl) (fun head => head.both.aligns.stop) aligned

end HeadingConstruct

namespace Loader

variable {loader : Loader}

theorem leafBlocks_aligned (sound : loader.catalogue.Sound) (aligned : Aligned (.start t) (.start t')) (offset offset' : Nat)
    (last : LastLevel) : Logged.Alike SameAfter (loader.leafBlocks offset t last) (loader.leafBlocks offset' t' last) := by
  refine leafBlocksFrom_alike sound ?_ offset offset' last
  exact (HeadingConstruct.findAll_aligned sound.standard_headings aligned).cut
    (fun aligned => Loading.samePieces_aligned aligned.rest)
    (fun aligned head read read' => Loading.samePieces_aligned (aligned.gap head.both.aligns.start read read'))
    fun head => head.alike

end Loader
end LightMarkup
