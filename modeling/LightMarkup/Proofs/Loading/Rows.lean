import LightMarkup.Proofs.Loading.Compact
import LightMarkup.Proofs.Paragraph.Images

/-!
Loading a row of images. Its lines begin with images, or with words to align them by, so that the text is compact. The body
of the row reaches the last brackets, whatever brackets stand in the images.
-/

namespace LightMarkup

open Pattern

namespace WrittenLine

variable (line : WrittenLine)

theorem text_holding : Text.Holding line.text := by
  obtain ⟨rest,begins⟩ := line.image.text_begins
  rw [text,begins]
  cases line.alignSelf with
  | none =>
    exact ⟨line.indentation ++ line.space,'!',rest,by simp [Image.colonText],
      List.forall_mem_append.mpr ⟨line.indentationGaps,line.spaceGaps⟩,by decide,by decide,by decide⟩
  | some word =>
    exact ⟨line.indentation,':',word ++ ':' :: (line.space ++ '!' :: rest),by simp [Image.colonText],
      line.indentationGaps,by decide,by decide,by decide⟩

theorem text_single : '\n' ∉ line.text :=
  fun member => absurd (line.text_unbroken _ member) (by decide)

end WrittenLine

namespace WrittenRow

open Block

variable (row : WrittenRow)

theorem text_lines : row.text = Text.join ['\n'] ((['!','!'] ++ Image.colonText row.alignment ++ ['[','[']) ::
    (row.lines.map WrittenLine.text ++ [[']',']']])) := by
  have shift : ∀ lines : List WrittenLine, '\n' :: lines.flatMap (fun line => line.text ++ ['\n']) =
      lines.flatMap (fun line => '\n' :: line.text) ++ ['\n'] := by
    intro lines
    induction lines with
    | nil => rfl
    | cons line lines ih =>
      rw [List.flatMap_cons,List.flatMap_cons,List.append_assoc,List.append_assoc,List.singleton_append,ih]
      rfl
  rw [text,body,shift,Text.join_cons]
  simp [List.flatMap_map]

theorem text_compact : Compact row.text := by
  have opening : Text.Holding (['!','!'] ++ Image.colonText row.alignment ++ ['[','[']) :=
    ⟨[],'!','!' :: (Image.colonText row.alignment ++ ['[','[']),by simp,List.forall_mem_nil _,by decide,by decide,by decide⟩
  have single : '\n' ∉ ['!','!'] ++ Image.colonText row.alignment ++ ['[','['] := by
    have unbroken := Image.colonText_unbroken row.alignmentWord
    have free : '\n' ∉ Image.colonText row.alignment := fun member => absurd (unbroken _ member) (by decide)
    simp [free]
  have closing : Text.Holding [']',']'] := ⟨[],']',[']'],rfl,List.forall_mem_nil _,by decide,by decide,by decide⟩
  have each : ∀ line ∈ (['!','!'] ++ Image.colonText row.alignment ++ ['[','[']) ::
      (row.lines.map WrittenLine.text ++ [[']',']']]), Text.Holding line ∧ '\n' ∉ line :=
    List.forall_mem_cons.mpr ⟨⟨opening,single⟩,List.forall_mem_append.mpr
      ⟨List.forall_mem_map.mpr fun line _ => ⟨line.text_holding,line.text_single⟩,
        List.forall_mem_singleton.mpr ⟨closing,by decide⟩⟩⟩
  obtain ⟨holding,follows⟩ := Text.holding_join (List.cons_ne_nil _ _) each
  rw [← row.text_lines] at holding follows
  exact ⟨⟨'!',_,rfl,by decide⟩,holding,follows⟩

-- The match takes the whole of the text.
theorem row_matches : ∃ m, imageRow.pattern.matchAt? (.start row.text) = some m ∧ m.stop.after = [] ∧
    m.text = row.text ∧ m.start.position = 0 := by
  have ended : blockEnd.Takes ((Cursor.start row.text).past row.text.length) [] := by
    refine takes_nothing (mem_blockEnd.mpr ⟨?_,rfl⟩)
    rw [Cursor.past_after,Cursor.start,List.drop_length]
    exact .nil
  have taken := (row.text_accepted (List.append_nil row.text).symm).looking ended
  have some := taken.found
  rw [← Block.block,← row_pattern] at some
  obtain ⟨m,found⟩ := Option.isSome_iff_exists.mp some
  obtain ⟨split,start,_⟩ := matchAt_front found
  have closed : m.stop.after = [] := by
    rcases List.eq_nil_or_concat m.stop.after with none | ⟨u,y,behind⟩
    · exact none
    · -- The last bracket would stand behind the match, which would end where no block does.
      rw [List.concat_eq_append] at behind
      have last : row.text = (['!','!'] ++ Image.colonText row.alignment ++ ['[','['] ++ row.body ++ [']']) ++ [']'] := by
        simp [text]
      have same := last.symm.trans split
      rw [behind,← List.append_assoc] at same
      obtain rfl : ']' = y := List.singleton_inj.mp (List.append_inj' same rfl).2
      have visible : ']' ∈ m.stop.after := by simp [behind]
      rw [row_pattern] at found
      exact absurd (block_way found).2 (row.text_compact.not_ends split visible (by decide))
  refine ⟨m,found,closed,?_,start⟩
  rwa [closed,List.append_nil,eq_comm] at split

-- The constructs that are tried before the one for rows of images.
theorem before_row {construct : BlockConstruct} (before : construct ∈ standard.take 15) :
    construct ∈ standard ∧ construct.pattern.outset '!' = .dead := by
  have all : (standard.take 15).all (fun construct => construct.pattern.outset '!' == .dead) = true := by decide +kernel
  exact ⟨List.take_subset _ _ before,eq_of_beq (List.all_eq_true.mp all construct before)⟩

-- What it is loaded as.
def paragraph : Paragraph :=
  .leaf row.text imageRow.name none (.imageRow row.images (row.alignment.getD Image.standardAlignment))

end WrittenRow

namespace Loader

variable {loader : Loader} {settings : LoadSettings} (row : WrittenRow)

-- What is noted when a row of images at the begin of a text is loaded.
def rowNotice : Text :=
  "loading " ++ inTicks (Text.ofString Block.imageRow.name) ++ " at " ++ Text.ofNat 0

theorem matchBlocks_row {tried : Nat} {m : Match} (text : m.text = row.text) (start : m.start.position = 0) :
    loader.matchBlocks tried Block.imageRow .imageRow 0 m = (do
      Logged.debug .loading rowNotice
      pure [⟨0,row.text.length,.paragraph row.paragraph⟩]) := by
  have images : Logged.ofExcept (Image.rowOfText row.text) = pure (row.images,row.alignment.getD Image.standardAlignment) :=
    congrArg _ row.rowOfText_written
  simp only [matchBlocks,Loading.load,text,start,images,pure_bind,PlacedBlock.place_single,Nat.zero_add]
  rfl

-- The constructs before the one for rows pass the text, and those behind it have nothing left.
theorem partition_row (before after : List BlockConstruct) (headings : loader.catalogue.headings = HeadingConstruct.standard)
    (passing : before ⊆ Block.standard.take 15) (known : after ⊆ Block.standard) :
    loader.partition (before ++ Block.imageRow :: after) 0 row.text none = (do
      Logged.debug .loading rowNotice
      pure ([⟨0,row.text.length,.paragraph row.paragraph⟩],none)) := by
  obtain ⟨m,matched,ended,text,start⟩ := row.row_matches
  rw [partition_alone before after headings (fun construct member => WrittenRow.before_row (passing member))
    (List.cons_subset.mpr ⟨by simp [Block.standard],known⟩) rfl row.text_compact rfl matched (ended ▸ List.forall_mem_nil _)]
  rw [matchBlocks_row row text start]
  simp only [bind_assoc,pure_bind]

theorem load_row (deep : 0 ≤ settings.maxDepth) : load Catalogue.standard settings row.text = (do
    Logged.debug .loading rowNotice
    pure [⟨0,row.text.length,.paragraph row.paragraph⟩]) := by
  obtain ⟨levels,outside⟩ : ∃ levels, settings.levelsFrom 0 = levels + 1 := by
    refine ⟨settings.maxDepth.toNat,?_⟩
    rw [LoadSettings.levelsFrom]
    omega
  have cut : partition ⟨Catalogue.standard,settings,Nested.within Catalogue.standard settings levels Nested.room⟩
      Block.standard 0 row.text none = _ :=
    partition_row row (Block.standard.take 15) (Block.standard.drop 16) rfl (List.Subset.refl _) (List.drop_subset _ _)
  rw [load,partitionAt,outside]
  show ((partition _ Block.standard 0 _ none >>= _) >>= _) = _
  rw [cut]
  simp only [bind_assoc,pure_bind,sortBlocks,List.mergeSort_singleton]

end Loader

namespace WrittenRow

-- An image is read as it was written, and so is a row of them, which is loaded as a single block.
theorem images_written :
    (∀ (image : WrittenImage) (alignSelf : Option Text), Image.ofText image.text alignSelf = .ok (image.read alignSelf)) ∧
    ∀ (row : WrittenRow) (settings : LoadSettings), 0 ≤ settings.maxDepth →
      (Loader.load Catalogue.standard settings row.text).outcome =
        .ok [⟨0,row.text.length,.paragraph (.leaf row.text Block.imageRow.name none
          (.imageRow row.images (row.alignment.getD Image.standardAlignment)))⟩] := by
  refine ⟨fun image alignSelf => image.ofText_written alignSelf,fun row settings deep => ?_⟩
  rw [Loader.load_row row deep]
  rfl

-- An image with everything.
def fullImage : WrittenImage where
  caption := some ['(','a',')']
  source := ['a','/']
  identifier := some ['b']
  style := some ['r','e','d']
  captionFree := by simp
  sourceSome := by simp
  sourceFree := by simp
  identifierSome := by simp
  identifierWord := by simp; decide +kernel
  styleFree := by simp

-- An abridged image, whose source looks like the end of a row.
def bracketImage : WrittenImage where
  caption := none
  source := [']',']']
  identifier := none
  style := none
  captionFree := nofun
  sourceSome := by simp
  sourceFree := by simp
  identifierSome := nofun
  identifierWord := nofun
  styleFree := nofun

theorem fullImage_unbroken : Text.Unbroken fullImage.text := by
  simp [Text.Unbroken,Text.isLineBreak,WrittenImage.text,fullImage,Image.captionedText,Image.identifierText,Image.styleText]

theorem bracketImage_unbroken : Text.Unbroken bracketImage.text := by
  simp [Text.Unbroken,Text.isLineBreak,WrittenImage.text,bracketImage,Image.abridgedText,Image.identifierText,Image.styleText]

def twoImages : WrittenRow where
  alignment := some ['r']
  lines := [
    { indentation := [' '], alignSelf := some ['e','n','d'], space := [' '], image := fullImage
      indentationGaps := by simp [Block.Gaps]; decide
      alignSelfWord := by simp [Image.Words]; decide +kernel
      spaceGaps := by simp [Block.Gaps]; decide
      unbroken := fullImage_unbroken },
    { indentation := [], alignSelf := none, space := [], image := bracketImage
      indentationGaps := nofun
      alignSelfWord := nofun
      spaceGaps := nofun
      unbroken := bracketImage_unbroken }]
  alignmentSome := by simp
  alignmentWord := by simp [Image.Words]; decide +kernel

theorem images_written_two : 0 ≤ ({} : LoadSettings).maxDepth ∧
    twoImages.text = ("!!:r:[[\n :end: ![(a)]#b(a/)\x7b\x7bred\x7d\x7d\n![(]])]\n]]" : Text) ∧
    (Loader.load Catalogue.standard {} twoImages.text).outcome =
      .ok [⟨0,45,.paragraph (.leaf twoImages.text "multi-image" none (.imageRow [
        ⟨"a/",some "(a)",some "b",some "red",false,some "end"⟩,⟨"]]",none,none,none,true,none⟩] "r"))⟩] := by
  have deep : 0 ≤ ({} : LoadSettings).maxDepth := by decide
  refine ⟨deep,?_,(images_written.2 twoImages {} deep).trans ?_⟩
  · rw [Text.ofString_ofList]
    rfl
  · repeat rw [Text.ofString_ofList]
    rfl

end WrittenRow
end LightMarkup
