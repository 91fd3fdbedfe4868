import LightMarkup.Proofs.Loading.Claiming
import LightMarkup.Proofs.Loading.Passing

/-!
What is left for the fallback: paragraphs with blank lines between them. Splitting at the blank lines gives the
paragraphs back.
-/

namespace LightMarkup

open Pattern

namespace Item

def raw? : Item → Option Text
  | gap => none
  | block written => some written.text

-- What is left when so many of the block constructs have been tried.
def Left (tried : Nat) : Item → Prop
  | gap => True
  | block written => tried ≤ written.kind.rank

-- What only the fallback is left for.
def Plain : Item → Prop
  | gap => True
  | block written => written.kind = .paragraph

end Item

namespace Loading

variable {items pending : List Item} {before rest : Text} {c : Cursor} {way : Way} {position : Nat}

-- Blank lines end a block.
theorem blankLines_ends (found : way ∈ blankLines.ways c) : Block.Ends c.after := by
  obtain ⟨_,both,_,_,_⟩ := mem_seq.mp found
  obtain ⟨spaced,front,second,newline,_⟩ := mem_seq.mp both
  obtain ⟨first,begun,_,gaps,rfl⟩ := mem_seq.mp front
  obtain ⟨b,readBreak,isBreak,_⟩ := Block.mem_break.mp begun
  obtain ⟨g,readGaps,isGaps,_⟩ := Block.mem_gaps.mp gaps
  obtain ⟨e,readEnd,isEnd,_⟩ := Block.mem_break.mp newline
  have stops : Block.Stops (e ++ second.1.after) := Or.inr ⟨e,_,rfl,isEnd⟩
  have closes : Block.Closes c.after := by
    refine Or.inr ⟨b,g ++ (e ++ second.1.after),?_,isBreak,Or.inr ⟨g,_,rfl,isGaps,stops⟩⟩
    rw [readBreak.1,readGaps.1,readEnd.1]
  exact ⟨[],_,rfl,List.forall_mem_nil _,closes⟩

theorem blankLines_passed {written : Written} (some : 0 < written.kind.rank) {n : Nat} (inner : n < written.text.length) :
    blankLines.matchSomeAt? ((⟨before,written.text ++ rest⟩ : Cursor).past n) = none := by
  refine matchSomeAt_none.mpr fun way found => ?_
  have ends := blankLines_ends found
  rw [Cursor.past_after,List.drop_append_of_le_length (Nat.le_of_lt inner)] at ends
  exact absurd ends ((Written.solid some).not_ends inner rest)

-- At a gap, what is read is blank and holds two newlines, so it is the gap.
theorem blankLines_stops (solid : ∀ x ∈ rest.head?, Text.isBlank x = false) (begins : c.after = Item.gap.text ++ rest)
    (found : way ∈ blankLines.ways c) : way.1 = c.past 2 := by
  obtain ⟨t,read,blank⟩ := ways_only blankLines_blank c way found
  have whole : '\n' :: '\n' :: rest = t ++ way.1.after := begins.symm.trans read.1
  have two : 2 ≤ t.length := by
    obtain ⟨third,both,stop,rounds,rfl⟩ := mem_seq.mp found
    obtain ⟨second,front,_,newline,rfl⟩ := mem_seq.mp both
    obtain ⟨first,begun,_,gaps,rfl⟩ := mem_seq.mp front
    obtain ⟨b,readBreak,isBreak,_⟩ := Block.mem_break.mp begun
    obtain ⟨g,readGaps,_,_⟩ := Block.mem_gaps.mp gaps
    obtain ⟨e,readEnd,isEnd,_⟩ := Block.mem_break.mp newline
    obtain ⟨r,readRounds⟩ := ways_reads rounds
    have all := (((readBreak.append readGaps).append readEnd).append readRounds).length
    have same : c.after.length = t.length + stop.1.after.length := read.length
    have one : ∀ {t : Text}, Block.Break t → 1 ≤ t.length := by
      rintro t (rfl | rfl) <;> decide
    have oneFirst := one isBreak
    have oneLast := one isEnd
    simp only [List.length_append] at all
    omega
  match t,two with
  | [x,y],_ => exact read.eq_past
  | x :: y :: z :: t,_ =>
    obtain ⟨rfl,later⟩ := List.cons.inj whole
    obtain ⟨rfl,behind⟩ := List.cons.inj later
    have visible := solid z (by rw [behind]; rfl)
    rw [blank z (by simp)] at visible
    cases visible

theorem blankLines_taken (before : Text) (solid : ∀ x ∈ rest.head?, Text.isBlank x = false) :
    ∃ m, blankLines.matchSomeAt? ⟨before,Item.gap.text ++ rest⟩ = some m ∧
      Item.gap.Whole ⟨before,Item.gap.text ++ rest⟩ m := by
  have first : lineBreak.Takes ⟨before,Item.gap.text ++ rest⟩ ['\n'] := Block.takes_newline rfl
  have second : lineBreak.Takes ((⟨before,Item.gap.text ++ rest⟩ : Cursor).past 1) ['\n'] := Block.takes_newline rfl
  obtain ⟨g,found⟩ : blankLines.Takes ⟨before,Item.gap.text ++ rest⟩ ['\n','\n'] :=
    ((first.looking (Block.takes_gaps _)).seq second).looking (takes_none _ _)
  obtain ⟨way,others,ways⟩ := List.exists_cons_of_ne_nil (List.ne_nil_of_mem found)
  have stop := blankLines_stops solid rfl (show way ∈ blankLines.ways _ by rw [ways]; exact List.mem_cons_self ..)
  have whole : Item.gap.Whole ⟨before,Item.gap.text ++ rest⟩ ⟨⟨before,Item.gap.text ++ rest⟩,way.1,way.2⟩ := ⟨rfl,stop⟩
  refine ⟨_,matchSomeAt_some ?_ ?_,whole⟩
  · rw [matchAt_head,ways]
    rfl
  · rw [Match.length,whole.stop_position,whole.start_position]
    simp [Item.text]

-- Blank lines are found in the gaps and nowhere else.
theorem blankLines_cut (plain : ∀ item ∈ items, item.Plain) (alternate : Alternate items) :
    Cut (·.isGap = false) (fun item c m => item.isGap = true ∧ item.Whole c m) [] items
      (blankLines.occurrences (spell items)) := by
  refine scan_cut (occurrences_find blankLines).not_at_end ?_ alternate fun _ _ _ => Or.inl rfl
  intro item member before rest fits
  cases item with
  | gap =>
    obtain ⟨m,found,whole⟩ := blankLines_taken before fits
    refine Or.inr ⟨List.cons_ne_nil _ _,m,found,?_,rfl,whole⟩
    rw [Match.length,whole.stop_position,whole.start_position,Nat.add_sub_cancel_left]
  | block written =>
    have isParagraph : written.kind = .paragraph := plain _ member
    refine Or.inl ⟨rfl,fun n inner => blankLines_passed ?_ inner⟩
    rw [isParagraph]
    exact Nat.succ_pos _

-- Between two gaps there is one block.
theorem between_gaps (alternate : Alternate pending) (kept : ∀ item ∈ pending, item.isGap = false) :
    pending = [] ∨ ∃ written, pending = [.block written] := by
  cases pending with
  | nil => exact Or.inl rfl
  | cons item pending =>
    obtain ⟨first,others⟩ := List.forall_mem_cons.mp kept
    cases item with
    | gap => cases first
    | block written =>
      cases pending with
      | nil => exact Or.inr ⟨written,rfl⟩
      | cons next pending =>
        have second := others next (List.mem_cons_self ..)
        exact absurd (first.trans second.symm) (List.isChain_cons_cons.mp alternate).1

theorem piece_between (plain : ∀ item ∈ pending, item.Plain) (alternate : Alternate pending)
    (kept : ∀ item ∈ pending, item.isGap = false) :
    ([spell pending].map Text.trim).filter (fun piece => !piece.isEmpty) = pending.filterMap Item.raw? := by
  rcases between_gaps alternate kept with rfl | ⟨written,rfl⟩
  · rfl
  · have isParagraph : written.kind = .paragraph := plain _ (List.mem_cons_self ..)
    obtain ⟨x,others,begins,first⟩ := written.text_begins
    obtain ⟨v,y,ends,last⟩ := (Written.solid (by rw [isParagraph]; exact Nat.succ_pos _)).ends
    have whole : spell [.block written] = written.text := List.append_nil _
    rw [whole,List.map_singleton,Text.trim_solid begins first ends last,begins]
    rw [List.filterMap_cons,Item.raw?,begins]
    rfl

theorem gapsBetween_cut {ms : List Match}
    (cut : Cut (·.isGap = false) (fun item c m => item.isGap = true ∧ item.Whole c m) before items ms)
    (plain : ∀ item ∈ pending ++ items, item.Plain) (alternate : Alternate (pending ++ items))
    (kept : ∀ item ∈ pending, item.isGap = false) (placed : before.length = position + (spell pending).length) :
    ((gapsBetween position (spell (pending ++ items)) (ms.map Match.span)).map Text.trim).filter
      (fun piece => !piece.isEmpty) = (pending ++ items).filterMap Item.raw? := by
  induction cut generalizing pending position with
  | nil =>
    rw [List.append_nil] at plain alternate ⊢
    exact piece_between plain alternate kept
  | @pass before item items ms keep later ih =>
    have all : ∀ held ∈ pending ++ [item], held.isGap = false :=
      List.forall_mem_append.mpr ⟨kept,List.forall_mem_singleton.mpr keep⟩
    have split : pending ++ item :: items = pending ++ [item] ++ items := by simp
    rw [split] at plain alternate ⊢
    exact ih plain alternate all (placed_pass placed)
  | @take before item items m ms here later ih =>
    obtain ⟨isGap,whole⟩ := here
    obtain ⟨plainBefore,plainBehind⟩ := List.forall_mem_append.mp plain
    have first := piece_between plainBefore alternate.left kept
    have others : ((gapsBetween m.stop.position (spell ([] ++ items)) (ms.map Match.span)).map Text.trim).filter
        (fun piece => !piece.isEmpty) = items.filterMap Item.raw? :=
      ih (List.forall_mem_cons.mp plainBehind).2 alternate.right.tail (List.forall_mem_nil _) whole.placed
    have none : item.raw? = none := by
      cases item with
      | gap => rfl
      | block => cases isGap
    rw [List.nil_append] at others
    rw [List.map_cons,Match.span,gapsBetween,whole.front placed,whole.back placed,List.map_cons,List.filterMap_append,
      List.filterMap_cons_none none,← others,← first,← List.filter_append]
    rfl

-- The pieces are the blocks.
theorem pieces_spell (plain : ∀ item ∈ items, item.Plain) (alternate : Alternate items) :
    pieces (spell items) = items.filterMap Item.raw? := by
  have all : ∀ item ∈ [] ++ items, item.Plain := plain
  have none : ([] : Text).length = 0 + (spell []).length := rfl
  exact gapsBetween_cut (blankLines_cut plain alternate) all alternate (List.forall_mem_nil _) none

end Loading
namespace PlacedBlock

-- Each paragraph gets a span.
theorem place_contents (offset : Nat) (t : Text) (paragraphs : List Paragraph) :
    (place offset t paragraphs).map (·.content) = paragraphs.map BlockContent.paragraph := by
  have length := spans_length t (paragraphs.map Paragraph.raw)
  rw [List.length_map] at length
  have same : (place offset t paragraphs).map (·.content) =
      ((paragraphs.zip (spans t (paragraphs.map Paragraph.raw))).map Prod.fst).map BlockContent.paragraph := by
    rw [place,List.map_map,List.map_map]
    rfl
  rw [same,List.map_fst_zip (Nat.le_of_eq length.symm)]

end PlacedBlock

namespace Loader

variable {loader : Loader} {items : List Item}

theorem fallback_restores (catalogue : loader.catalogue = Catalogue.standard) (plain : ∀ item ∈ items, item.Plain)
    (alternate : Alternate items) (offset : Nat) :
    ∃ blocks, (loader.fallbackBlocks offset (spell items)).outcome = .ok blocks ∧
      blocks.map (·.content) = contents items := by
  have whole : (items.filterMap Item.raw?).map (fun raw => BlockContent.paragraph (.common raw Block.fallback.name)) =
      contents items := by
    rw [contents,List.map_filterMap]
    refine List.filterMap_congr fun item member => ?_
    cases item with
    | gap => rfl
    | block written =>
      have isParagraph : written.kind = .paragraph := plain _ member
      cases written with
      | paragraph => rfl
      | heading | code | list | table | rule => cases isParagraph
  unfold fallbackBlocks
  split
  · rename_i blank
    refine ⟨[],rfl,?_⟩
    have none : items.filterMap Item.raw? = [] := by
      refine List.filterMap_eq_nil_iff.mpr fun item member => ?_
      cases item with
      | gap => rfl
      | block written =>
        obtain ⟨x,rest,begins,solid⟩ := written.text_begins
        have inside : x ∈ spell items := List.mem_flatMap.mpr ⟨_,member,by rw [Item.text,begins]; exact List.mem_cons_self ..⟩
        rw [List.all_eq_true.mp blank x inside] at solid
        cases solid
    rw [← whole,none]
    rfl
  · rw [catalogue]
    refine ⟨_,Logged.outcome_bind_ok.mpr ⟨_,rfl,rfl⟩,?_⟩
    rw [PlacedBlock.place_contents,Loading.pieces_spell plain alternate,List.map_map,← whole]
    rfl

end Loader
end LightMarkup
