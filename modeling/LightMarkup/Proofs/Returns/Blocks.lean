import LightMarkup.Proofs.Loading.Likening
import LightMarkup.Proofs.Returns.Leaves
import LightMarkup.Proofs.Returns.Sparing

/-!
Loading a block of a text and the same block of the text with carriage returns. What a block is parsed from is cut into
lines or taken out of the block with its carriage returns, and inside a container it is loaded in turn.
-/

namespace LightMarkup

open Cursor (Facing)
open Text (withReturns)

namespace Block

open Pattern

variable {construct : BlockConstruct} {c : Cursor} {m m' : Match}

-- The body of a focus block begins behind a newline.
theorem focus_body (found : focus.pattern.matchAt? c = some m) : ∃ front rest, c.after = (front ++ ['\n']) ++ (m.group 2 ++ rest) := by
  obtain ⟨rfl,_⟩ := matchAt_way found
  obtain ⟨isWay,_⟩ := block_way found
  obtain ⟨_,_,ofFence,toFence,isFence,captures⟩ := seq_parts isWay
  obtain ⟨_,_,ofGap,toGap,isGap,rfl⟩ := seq_parts toFence
  obtain ⟨stop,_,ofLine,toLine,isLine,rfl⟩ := seq_parts toGap
  obtain ⟨start,ofType,ofBody,toBody,isBody,rfl⟩ := seq_parts toLine
  obtain ⟨_,_,_,toBreak,isOpening,_⟩ := seq_parts toBody
  obtain ⟨u,readFront⟩ := ways_reads toBreak
  obtain ⟨b,readBreak,isBreak,_⟩ := mem_break.mp isOpening
  obtain ⟨⟨t,readBody⟩,rfl⟩ := group_parts rfl isBody
  obtain rfl : ofFence = [] := no_captures (literal_groups ":::") isFence
  obtain rfl : ofGap = [] := no_captures (by rfl) isGap
  obtain rfl : ofLine = [] := no_captures (by rfl) isLine
  have whole : m.start.after = u ++ (b ++ (t ++ stop.after)) := by rw [readFront.1,readBreak.1,readBody.1]
  have body : m.group 2 = t := by
    simp [Match.group,Match.group?,Match.capture?,captures,readBody.textTo]
  rw [body,whole]
  rcases isBreak with rfl | rfl
  · exact ⟨u,stop.after,by simp⟩
  · exact ⟨u ++ ['\r'],stop.after,by simp⟩

-- A quote ends where it ends in the other text, so that no carriage return is left out.
theorem quote_text (both : quote.BothFind m m') : m'.text = withReturns m.text ∧ '\r' ∉ m.text := by
  have turned : turn [] quote.pattern .level = some .apart := by decide_cbv
  have rel := (turn_turns turned).matches rfl (Or.inr rfl) both.faces.start
  have matched := (Option.filter_eq_some_iff.mp both.found).1
  have matched' := (Option.filter_eq_some_iff.mp both.found').1
  rw [matched,matched'] at rel
  cases rel with
  | some faces =>
    obtain ⟨t,read⟩ := (matchAt_way matched).2.reads
    obtain ⟨t',read'⟩ := (matchAt_way matched').2.reads
    have text : m.text = t := read.textTo
    have text' : m'.text = t' := read'.textTo
    rw [text,text']
    exact (both.faces.start.level_of both.inner).between faces.stop read read'

end Block

-- What the second group holds has the carriage returns.
theorem BlockConstruct.BothFind.second {construct : BlockConstruct} {m m' : Match} (both : construct.BothFind m m') :
    m'.group 2 = withReturns (m.group 2) ∧ '\r' ∉ m.group 2 := by
  have way := (Pattern.matchAt_way (Option.filter_eq_some_iff.mp both.found).1).2
  have way' := (Pattern.matchAt_way (Option.filter_eq_some_iff.mp both.found').1).2
  refine ⟨?_,fun member => both.faces.start.free (way.group_subset 2 member)⟩
  rw [Match.group,Match.group,both.faces.group? way way' (by decide) (List.mem_singleton_self _)]
  cases m.group? 2 <;> rfl

-- The texts, the first of which spares the catalogue.
def Catalogue.Returned (catalogue : Catalogue) (t t' : Text) : Prop :=
  Facing (.start t) (.start t') ∧ catalogue.Spares t

namespace Loading

variable {catalogue : Catalogue} {construct : BlockConstruct} {loading : Loading} {settings : LoadSettings} {nested : Nested}
  {m m' : Match}

-- The body of a focus block is the same but for carriage returns.
theorem focus_alike (both : Block.focus.BothFind m m') (spares : catalogue.Spares m.start.text)
    (inside : NestsAlike catalogue.Returned nested) :
    Logged.Alike Paragraph.SameShapes (nested (m.group 2)) (nested (m'.group 2)) := by
  obtain ⟨body,free⟩ := both.second
  obtain ⟨front,rest,whole⟩ := Block.focus_body (Option.filter_eq_some_iff.mp both.found).1
  have sparesBody : catalogue.Spares (m.group 2) := by
    have text : m.start.text = (m.start.before.reverse ++ (front ++ ['\n'])) ++ (m.group 2 ++ rest) := by
      rw [Cursor.text,whole]
      simp
    rw [text] at spares
    exact (spares.back (Or.inl (Or.inr ⟨m.start.before.reverse ++ front,by simp⟩))).front
  rw [body]
  exact inside ⟨(Cursor.level_start free).facing,sparesBody⟩

theorem load_returned (member : construct ∈ Block.standard) (isLoading : loading ∈ construct.loading)
    (both : construct.BothFind m m') (spares : catalogue.Spares m.start.text) (inside : NestsAlike catalogue.Returned nested) :
    Logged.Alike Paragraph.SameShapes (loading.load settings nested construct m.text)
      (loading.load settings nested construct m'.text) := by
  refine load_alike member isLoading both.found both.found' ?_ ?_ ?_
  · rintro rfl
    obtain ⟨body,free⟩ := both.second
    rw [body,Text.lines_withReturns free]
    exact .same fun _ => trivial
  · rintro rfl
    obtain ⟨text,free⟩ := Block.quote_text both
    unfold Quote.ofText
    rw [text,Text.lines_withReturns free]
  · rintro rfl
    exact focus_alike both spares inside

end Loading
end LightMarkup
