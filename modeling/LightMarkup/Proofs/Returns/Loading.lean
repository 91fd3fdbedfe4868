import LightMarkup.Proofs.Returns.Blocks

/-!
Loading a text and the text with carriage returns: each construct takes the same blocks out of both, what lies around them
is the same but for carriage returns, and so is the body of every container.
-/

namespace LightMarkup

open Cursor (Facing)
open Text (withReturns)

variable {catalogue : Catalogue} {construct : BlockConstruct} {t t' : Text} {c c' : Cursor}

namespace Catalogue

-- The same block in both texts, the first of which spares the catalogue.
structure BothSpared (catalogue : Catalogue) (construct : BlockConstruct) (m m' : Match) : Prop where
  both : construct.BothFind m m'
  spares : catalogue.Spares m.start.text

theorem cut_spared {ms ms' : List Match} (member : construct ∈ Block.standard)
    (paired : Pattern.Paired Facing id construct.BothFind c c' ms ms') (spares : catalogue.Spares c.after) (whole : catalogue.Spares c.text) :
    Loader.Cut id catalogue.Returned (catalogue.BothSpared construct) c.position c.after c'.position c'.after ms ms' := by
  induction paired with
  | nil facing => exact .nil ⟨facing.rest,spares⟩
  | @cons c c' before before' inner inner' m m' _ _ facing read read' taken taken' both _ ih =>
    have past := read.append taken
    have past' := read'.append taken'
    have ends := Loader.standard_ends member (Option.filter_eq_some_iff.mp both.found).1
    have start : m.start.text = c.text := read.text
    have stop : m.stop.text = c.text := past.text
    have front : c.after = before ++ m.start.after := read.1
    rw [front] at spares
    have rest : catalogue.Spares m.stop.after := by
      rw [show m.start.after = inner ++ m.stop.after from taken.1,← List.append_assoc] at spares
      exact spares.back (Or.inr ends)
    refine .cons ?_ ⟨both,start ▸ whole⟩ ?_
    · rw [read.take,read'.take]
      exact ⟨facing.gap both.faces.start both.inner read read',spares.front⟩
    · rw [past.drop,past'.drop]
      exact ih rest (show catalogue.Spares m.stop.text from stop ▸ whole)

theorem likens_returned (derived : catalogue.Derived) : catalogue.Likens catalogue.Returned catalogue.BothSpared where
  leaves _ _ _ _ related offset offset' last := Loader.leafBlocks_alike derived.sound related.1 offset offset' last
  gaps _ parts t t' related offset offset' last := by
    have empty : t.isEmpty = t'.isEmpty := by
      rw [Bool.eq_iff_iff,List.isEmpty_iff,List.isEmpty_iff]
      exact related.1.ended
    unfold Loader.gapBlocks
    rw [← empty]
    split
    · exact .pure ⟨rfl,rfl⟩
    · exact parts related _ _ _
  cuts {construct loading} isBlock isLoading {t t'} related := by
    obtain ⟨facing,spares⟩ := related
    have member := derived.loads construct isBlock loading isLoading
    obtain ⟨ms,ms',found,found',paired⟩ := BlockConstruct.blockMatches_paired member facing fun todo => spares (todo ▸ isBlock)
    exact ⟨ms,ms',found,found',cut_spared member paired spares spares⟩
  loads {construct loading} isBlock isLoading _ _ inside _ _ both :=
    Loading.load_returned (derived.loads construct isBlock loading isLoading) isLoading both.both both.spares inside

end Catalogue

namespace Loader

section

variable (derived : catalogue.Derived) (settings : LoadSettings)
include derived

-- A text and the text with a carriage return before every newline both fail, or they have the same headings, the same
-- tags and paragraphs of the same constructs, inside each other too. If the catalogue has the construct for a todo
-- without a description, no line with a newline may be such a todo.
theorem returns_unseen (free : '\r' ∉ t) (spares : Block.abridgedTodo ∈ catalogue.blocks → Text.Spared t) :
    (load catalogue settings (withReturns t)).outcome.toOption.map PlacedBlock.gists =
      (load catalogue settings t).outcome.toOption.map PlacedBlock.gists :=
  Failure.Alike.map_eq <| (Catalogue.likens_returned derived).load_alike derived settings
    ⟨(Cursor.level_start free).facing,spares⟩

end

def focusedGists : List Gist := [
  .heading ⟨1,"a",none,none⟩,.tag ⟨.date,some "b"⟩,
  .paragraph (.made "focus-block" [.made "extended-block-quote" [.made "common-paragraph" []]])]

def todoGists : List Gist :=
  [.paragraph (.made "abridged-todo" []),.paragraph (.made "common-paragraph" [])]

def plainGists : List Gist :=
  [.paragraph (.made "common-paragraph" []),.paragraph (.made "common-paragraph" [])]

set_option maxRecDepth 4000 in
theorem load_gists (inline : List Construct) :
    let loaded := fun t => (load ⟨inline,Block.standard,some Block.fallback,HeadingConstruct.standard⟩ {} t).outcome
    (loaded "# a\n@date b\n\n:::c\n> d\n:::").toOption.map PlacedBlock.gists = some focusedGists ∧
      (loaded "TODO\n\nx").toOption.map PlacedBlock.gists = some todoGists ∧
      (loaded (withReturns "TODO\n\nx")).toOption.map PlacedBlock.gists = some plainGists := by
  unfold focusedGists todoGists plainGists Block.standard Block.code Block.math Block.styledWithId Block.identified
    Block.table Block.quote Block.focus Block.list Block.abridgedTodo Block.multilineTodo Block.todo Block.pageBreak
    Block.lineBreakByDashes Block.lineBreakByStars Block.lineBreakByPluses Block.imageRow Block.abridgedImage Block.image
    Block.comment Block.todoOpening Block.nuidTemplate
  repeat rw [Text.ofString_ofList]
  refine ⟨?_,?_,?_⟩ <;> cbv

theorem returns_unseen_focused : Catalogue.standard.Derived ∧ '\r' ∉ ("# a\n@date b\n\n:::c\n> d\n:::" : Text) ∧
    Text.Spared "# a\n@date b\n\n:::c\n> d\n:::" ∧
    (load .standard {} (withReturns "# a\n@date b\n\n:::c\n> d\n:::")).outcome.toOption.map PlacedBlock.gists =
      some focusedGists := by
  have free : '\r' ∉ ("# a\n@date b\n\n:::c\n> d\n:::" : Text) := by decide +kernel
  have spared : Text.Spared "# a\n@date b\n\n:::c\n> d\n:::" := by decide +kernel
  exact ⟨.standard,free,spared,
    (returns_unseen .standard {} free fun _ => spared).trans (load_gists Inline.standard).1⟩

-- The pattern of the construct has no carriage return at the end of its line.
theorem todo_returned : '\r' ∉ ("TODO\n\nx" : Text) ∧ ¬ Text.Spared "TODO\n\nx" ∧
    (load .standard {} "TODO\n\nx").outcome.toOption.map PlacedBlock.gists = some todoGists ∧
    (load .standard {} (withReturns "TODO\n\nx")).outcome.toOption.map PlacedBlock.gists = some plainGists ∧
    todoGists ≠ plainGists := by
  obtain ⟨_,made,plain⟩ := load_gists Inline.standard
  refine ⟨by decide +kernel,by decide +kernel,made,plain,fun same => ?_⟩
  have names := Shape.made.inj (Gist.paragraph.inj (List.cons.inj same).1)
  exact absurd names.1 (by decide)

end Loader
end LightMarkup
