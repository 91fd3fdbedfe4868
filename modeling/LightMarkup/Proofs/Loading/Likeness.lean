import LightMarkup.Proofs.Document.Rematching
import LightMarkup.Proofs.Loading.Alike

/-!
Parts of two texts of which loading makes the same. Headings are alike if their titles, styles and tags are, the fallback
makes as many paragraphs of texts with as many pieces, and blocks of one construct are alike if the lines of a row of images,
the text of a quote and the body of a focus block are.
-/

namespace LightMarkup

open PlacedBlock (SameGists SameAfter)

namespace Loader

-- Related texts around pairs of finds.
inductive Cut {α : Type} (matchOf : α → Match) (S : Text → Text → Prop) (B : α → α → Prop) :
    Nat → Text → Nat → Text → List α → List α → Prop where
  | nil {position position' : Nat} {t t' : Text} (related : S t t') : Cut matchOf S B position t position' t' [] []
  | cons {position position' : Nat} {t t' : Text} {a a' : α} {as as' : List α}
      (gap : S (t.take ((matchOf a).start.position - position)) (t'.take ((matchOf a').start.position - position')))
      (both : B a a')
      (later : Cut matchOf S B (matchOf a).stop.position (t.drop ((matchOf a).stop.position - position))
        (matchOf a').stop.position (t'.drop ((matchOf a').stop.position - position')) as as') :
      Cut matchOf S B position t position' t' (a :: as) (a' :: as')

end Loader

namespace Pattern

variable {α : Type} {F : Cursor → Cursor → Prop} {matchOf : α → Match} {R : α → α → Prop} {c c' d d' : Cursor} {t t' : Text}
  {as as' : List α}

-- What two searches find behind a pair of places: pairs of matches, with the text before each of them.
inductive Paired (F : Cursor → Cursor → Prop) (matchOf : α → Match) (R : α → α → Prop) :
    Cursor → Cursor → List α → List α → Prop where
  | nil {c c' : Cursor} (places : F c c') : Paired F matchOf R c c' [] []
  | cons {c c' : Cursor} {gap gap' inner inner' : Text} {a a' : α} {as as' : List α} (places : F c c')
      (read : c.Reads gap (matchOf a).start) (read' : c'.Reads gap' (matchOf a').start)
      (taken : (matchOf a).start.Reads inner (matchOf a).stop) (taken' : (matchOf a').start.Reads inner' (matchOf a').stop)
      (related : R a a') (later : Paired F matchOf R (matchOf a).stop (matchOf a').stop as as') :
      Paired F matchOf R c c' (a :: as) (a' :: as')

theorem Paired.pass (places : F c c') (read : c.Reads t d) (read' : c'.Reads t' d')
    (paired : Paired F matchOf R d d' as as') : Paired F matchOf R c c' as as' := by
  cases paired with
  | nil => exact .nil places
  | cons _ gap gap' taken taken' related later =>
    exact .cons places (read.append gap) (read'.append gap') taken taken' related later

theorem Paired.related (paired : Paired F matchOf R c c' as as') : List.Forall₂ R as as' := by
  induction paired with
  | nil => exact .nil
  | cons _ _ _ _ _ related _ ih => exact .cons related ih

-- If places relate the texts between them, the pairs stand between related texts.
theorem Paired.cut {S : Text → Text → Prop} {B : α → α → Prop} (paired : Paired F matchOf R c c' as as')
    (rest : ∀ {c c'}, F c c' → S c.after c'.after)
    (gap : ∀ {c c' t t' a a'}, F c c' → R a a' → c.Reads t (matchOf a).start → c'.Reads t' (matchOf a').start → S t t')
    (each : ∀ {a a'}, R a a' → B a a') :
    Loader.Cut matchOf S B c.position c.after c'.position c'.after as as' := by
  induction paired with
  | nil places => exact .nil (rest places)
  | cons places read read' taken taken' related _ ih =>
    refine .cons ?_ (each related) ?_
    · rw [read.take,read'.take]
      exact gap places related read read'
    · rw [(read.append taken).drop,(read'.append taken').drop]
      exact ih

end Pattern

namespace HeadingConstruct

variable {m m' : Match} {ms ms' : List Match}

theorem tagsOfLines_alike
    (lines : List.Forall₂ (fun m m' => Failure.Alike Eq (tagOfLine m.text) (tagOfLine m'.text)) ms ms') (offset offset' : Nat) :
    Failure.Alike SameGists (tagsOfLines offset ms) (tagsOfLines offset' ms') := by
  induction lines with
  | nil => exact .ok rfl
  | cons here _ ih =>
    refine here.bind fun tag _ same => ih.bind fun others _ sameOthers => .ok ?_
    subst same
    exact congrArg (Gist.tag tag :: ·) sameOthers

theorem styleTag_gists (style : m'.group? styleGroup = m.group? styleGroup) (offset offset' : Nat) :
    SameGists (styleTag offset m) (styleTag offset' m') := by
  have some : ∀ {m : Match} {offset}, (styleTag offset m).map (fun block => block.content.gist) =
      ((m.group? styleGroup).map fun held => Gist.tag ⟨.style,.some held⟩).toList := by
    intro m offset
    unfold styleTag Match.groupSpan? Match.group?
    cases m.capture? styleGroup <;> rfl
  rw [SameGists,PlacedBlock.gists,PlacedBlock.gists,some,some,style]

theorem blocks_alike {construct : HeadingConstruct} (title : m'.group titleGroup = m.group titleGroup)
    (style : m'.group? styleGroup = m.group? styleGroup)
    (tagged : ∀ offset offset', Failure.Alike SameGists (tags offset (m.group tagsGroup)) (tags offset' (m'.group tagsGroup)))
    (offset offset' : Nat) (last : LastLevel) :
    Logged.Alike SameAfter (construct.blocks offset last m) (construct.blocks offset' last m') := by
  unfold blocks
  rw [title]
  have levels : Logged.Alike Eq (construct.levelAfter last (m.group titleGroup))
      (construct.levelAfter last (m.group titleGroup)) := .same fun _ => rfl
  refine levels.bind fun level _ same => ?_
  subst same
  have read : ∀ offset offset', Logged.Alike SameGists (Logged.ofExcept (tags offset (m.group tagsGroup)))
      (Logged.ofExcept (tags offset' (m'.group tagsGroup))) := tagged
  refine (read _ _).bind fun blocks blocks' same => .pure ⟨?_,rfl⟩
  have heading : ∀ start stop start' stop' held, SameGists [⟨start,stop,.heading held⟩] [⟨start',stop',.heading held⟩] :=
    fun _ _ _ _ _ => rfl
  exact ((heading _ _ _ _ _).append same).append (styleTag_gists style offset offset')

-- The same construct, which makes the same of both.
def HeadsAlike (found found' : HeadingConstruct × Match) : Prop :=
  found'.1 = found.1 ∧ ∀ offset offset' last,
    Logged.Alike SameAfter (found.1.blocks offset last found.2) (found.1.blocks offset' last found'.2)

end HeadingConstruct

-- Both are blank or neither is, and there are as many pieces.
structure Text.SamePieces (t t' : Text) : Prop where
  blank : isAllBlank t' = isAllBlank t
  pieces : (Loading.pieces t').length = (Loading.pieces t).length

theorem Text.trim_blank (t : Text) : (trim t).isEmpty = isAllBlank t := by
  rw [Bool.eq_iff_iff,List.isEmpty_iff,trim,trimEnd,List.reverse_eq_nil_iff,List.dropWhile_eq_nil_iff,isAllBlank,List.all_eq_true]
  refine ⟨fun blank => ?_,fun blank x member => blank x ?_⟩
  · obtain ⟨lead,isLead,split⟩ := trimStart_split t
    intro x member
    rw [split] at member
    exact (List.mem_append.mp member).elim (isLead x) fun member => blank x (List.mem_reverse.mpr member)
  · exact (List.dropWhile_sublist _).subset (List.mem_reverse.mp member)

namespace Loading

theorem blankLines_needs : blankLines.needs (fun _ => true) = true := by decide

theorem gaps_blank {α : Type} {matchOf : α → Match} {B : α → α → Prop} {position position' : Nat} {t t' : Text} {as as' : List α}
    (cut : Loader.Cut matchOf (fun t t' => Text.isAllBlank t' = Text.isAllBlank t) B position t position' t' as as') :
    List.Forall₂ (fun gap gap' => Text.isAllBlank gap' = Text.isAllBlank gap)
      (gapsBetween position t (as.map fun a => (matchOf a).span))
      (gapsBetween position' t' (as'.map fun a => (matchOf a).span)) := by
  induction cut with
  | nil blank => exact .cons blank .nil
  | cons gap _ _ ih => exact .cons gap ih

-- The pieces are what is not blank between blank lines.
theorem samePieces_of_cut {t t' : Text} {B : Match → Match → Prop} (blank : Text.isAllBlank t' = Text.isAllBlank t)
    (cut : Loader.Cut id (fun t t' => Text.isAllBlank t' = Text.isAllBlank t) B 0 t 0 t' (blankLines.occurrences t)
      (blankLines.occurrences t')) : Text.SamePieces t t' := by
  have solid : ∀ t, pieces t = ((blankLines.split t).filter fun gap => !Text.isAllBlank gap).map Text.trim := by
    intro t
    rw [pieces,List.filter_map]
    congr 1
    exact List.filter_congr fun gap _ => by rw [Function.comp_apply,Text.trim_blank]
  refine ⟨blank,?_⟩
  rw [solid,solid,List.length_map,List.length_map]
  exact (List.rel_filter (fun gap gap' same => by simp only [same]) (gaps_blank cut)).length_eq.symm

end Loading

namespace Loader

variable {loader : Loader} {t t' : Text}

theorem fallbackBlocks_alike (sound : loader.catalogue.Sound) (same : Text.SamePieces t t') (offset offset' : Nat) :
    Logged.Alike SameGists (loader.fallbackBlocks offset t) (loader.fallbackBlocks offset' t') := by
  unfold fallbackBlocks
  rw [same.blank]
  split
  · exact .pure rfl
  · split
    · exact .fail _ _
    · rename_i construct loading found
      obtain ⟨fallback,isFallback,mapped⟩ := Option.bind_eq_some_iff.mp found
      obtain ⟨rule,isRule,pair⟩ := Option.map_eq_some_iff.mp mapped
      cases pair
      obtain rfl := sound.fallback _ isFallback _ isRule
      refine .pure ?_
      rw [SameGists,PlacedBlock.gists_place,PlacedBlock.gists_place,List.map_map,List.map_map]
      have all : ∀ pieces : List Text, pieces.map ((fun p : Paragraph => Gist.paragraph p.shape) ∘ fun piece =>
          Paragraph.common piece construct.name) = List.replicate pieces.length (.paragraph (.made construct.name [])) :=
        fun pieces => List.map_eq_replicate_iff.mpr fun piece _ => by rfl
      rw [all,all,same.pieces]

theorem leafBlocksFrom_alike (sound : loader.catalogue.Sound) {position position' : Nat}
    {found found' : List (HeadingConstruct × Match)}
    (cut : Cut Prod.snd Text.SamePieces HeadingConstruct.HeadsAlike position t position' t' found found') (offset offset' : Nat)
    (last : LastLevel) : Logged.Alike SameAfter (loader.leafBlocksFrom offset position t last found)
      (loader.leafBlocksFrom offset' position' t' last found') := by
  induction cut generalizing last with
  | nil same => exact (fallbackBlocks_alike sound same _ _).bind fun _ _ same => .pure ⟨same,rfl⟩
  | cons gap both _ ih =>
    obtain ⟨same,alike⟩ := both
    unfold leafBlocksFrom
    simp only [same]
    refine (fallbackBlocks_alike sound gap _ _).bind fun _ _ before => ?_
    refine (alike offset offset' last).bind fun _ _ here => ?_
    obtain ⟨heading,level⟩ := here
    rw [level]
    exact (ih _).bind fun _ _ after => .pure ⟨(before.append heading).append after.1,after.2⟩

end Loader

namespace Paragraph

-- The same constructs, those inside included.
def SameShapes (ps ps' : List Paragraph) : Prop :=
  ps.map shape = ps'.map shape

theorem sameShapes_refl (ps : List Paragraph) : SameShapes ps ps :=
  rfl

theorem SameShapes.placed {ps ps' : List Paragraph} (same : SameShapes ps ps') (offset offset' : Nat) (t t' : Text) :
    SameGists (PlacedBlock.place offset t ps) (PlacedBlock.place offset' t' ps') := by
  have shaped : ∀ ps : List Paragraph, ps.map (fun p => Gist.paragraph p.shape) = (ps.map shape).map .paragraph :=
    fun ps => List.map_map.symm
  rw [SameGists,PlacedBlock.gists_place,PlacedBlock.gists_place,shaped,shaped,same]

theorem SameShapes.container {ps ps' : List Paragraph} (same : SameShapes ps ps') (kind kind' : ContainerKind) (raw raw' : Text)
    (construct : String) (nuid nuid' : Option Text) (type type' : Text) :
    SameShapes [.container raw construct nuid kind type ps] [.container raw' construct nuid' kind' type' ps'] := by
  show [Shape.made construct (shapes ps)] = [Shape.made construct (shapes ps')]
  rw [shapes_map,shapes_map,same]

end Paragraph

namespace Block

open Pattern

variable {construct : BlockConstruct} {c : Cursor} {m : Match}

-- An image is read.
theorem image_reads (member : construct ∈ [abridgedImage,image]) (found : construct.pattern.matchAt? c = some m)
    (again : construct.pattern.Again m) : ∃ read, Image.ofText m.text none = .ok read := by
  obtain ⟨_,_,_,_,full⟩ := again
  unfold Image.ofText
  rw [image_trimmed (List.mem_cons_of_mem _ member) found]
  simp only
  cases abridged : abridgedImage.pattern.fullMatch? m.text with
  | some n => exact ⟨_,rfl⟩
  | none =>
    rcases List.mem_cons.mp member with rfl | single
    · rw [full] at abridged
      cases abridged
    · obtain rfl := List.mem_singleton.mp single
      rw [full]
      exact ⟨_,rfl⟩

end Block

namespace Loading

open Paragraph (SameShapes)

variable {construct : BlockConstruct} {loading : Loading} {c c' : Cursor} {m m' : Match}

section

variable (settings : LoadSettings) (nested : Nested)

theorem load_image_alike (member : construct ∈ Block.standard) (isLoading : .image ∈ construct.loading)
    (found : construct.blockAt? c = some m) (found' : construct.blockAt? c' = some m') :
    Logged.Alike SameShapes (Loading.image.load settings nested construct m.text)
      (Loading.image.load settings nested construct m'.text) := by
  have kind := Block.loads_image member isLoading
  have reads : ∀ {place m}, construct.blockAt? place = some m → ∃ read, Image.ofText m.text none = .ok read := fun found =>
    Block.image_reads kind (Option.filter_eq_some_iff.mp found).1 (Block.blockAt_again member isLoading (by simp) found)
  obtain ⟨read,isRead⟩ := reads found
  obtain ⟨read',isRead'⟩ := reads found'
  unfold load
  rw [isRead,isRead']
  exact .pure rfl

theorem load_row_alike (found : Block.imageRow.blockAt? c = some m) (found' : Block.imageRow.blockAt? c' = some m')
    (images : Failure.Alike (fun _ _ => True) (Image.ofLines (Text.lines (m.group 2))) (Image.ofLines (Text.lines (m'.group 2)))) :
    Logged.Alike SameShapes (Loading.imageRow.load settings nested Block.imageRow m.text)
      (Loading.imageRow.load settings nested Block.imageRow m'.text) := by
  have member : Block.imageRow ∈ Block.standard := by simp [Block.standard]
  obtain ⟨n,repeats,_,_,full⟩ := Block.blockAt_again member rfl (by simp) found
  obtain ⟨n',repeats',_,_,full'⟩ := Block.blockAt_again member rfl (by simp) found'
  have trimmed : ∀ {place m}, Block.imageRow.blockAt? place = some m → Text.trim m.text = m.text :=
    fun found => Block.image_trimmed (List.mem_cons_self ..) (Option.filter_eq_some_iff.mp found).1
  have group : n.group 2 = m.group 2 := by rw [Match.group,Match.group,repeats.group]
  have group' : n'.group 2 = m'.group 2 := by rw [Match.group,Match.group,repeats'.group]
  have row : Logged.Alike (fun _ _ => True) (Logged.ofExcept (Image.rowOfText m.text))
      (Logged.ofExcept (Image.rowOfText m'.text)) := by
    show Failure.Alike _ (Image.rowOfText m.text) (Image.rowOfText m'.text)
    unfold Image.rowOfText
    rw [trimmed found,trimmed found',full,full']
    simp only [group,group']
    exact images.bind fun _ _ _ => .ok trivial
  exact row.bind fun _ _ _ => .pure rfl

theorem load_quote_alike
    (same : Quote.ofText settings.strictQuotes m'.text = Quote.ofText settings.strictQuotes m.text) :
    Logged.Alike SameShapes (Loading.quote.load settings nested Block.quote m.text)
      (Loading.quote.load settings nested Block.quote m'.text) := by
  unfold load
  rw [same]
  have quoted : Logged.Alike Eq (Quote.ofText settings.strictQuotes m.text) (Quote.ofText settings.strictQuotes m.text) :=
    .same fun _ => rfl
  refine quoted.bind fun typed _ same => ?_
  subst same
  have loaded : Logged.Alike SameShapes (nested typed.2) (nested typed.2) := .same Paragraph.sameShapes_refl
  exact loaded.bind fun _ _ same => .pure (same.container ..)

theorem load_focus_alike (found : Block.focus.blockAt? c = some m) (found' : Block.focus.blockAt? c' = some m')
    (body : Logged.Alike SameShapes (nested (m.group 2)) (nested (m'.group 2))) :
    Logged.Alike SameShapes (Loading.focus.load settings nested Block.focus m.text)
      (Loading.focus.load settings nested Block.focus m'.text) := by
  have member : Block.focus ∈ Block.standard := by simp [Block.standard]
  obtain ⟨n,repeats,_,start,_⟩ := Block.blockAt_again member rfl (by simp) found
  obtain ⟨n',repeats',_,start',_⟩ := Block.blockAt_again member rfl (by simp) found'
  have group : n.group 2 = m.group 2 := by rw [Match.group,Match.group,repeats.group]
  have group' : n'.group 2 = m'.group 2 := by rw [Match.group,Match.group,repeats'.group]
  unfold load
  simp only [start,start',group,group']
  exact body.bind fun _ _ same => .pure (same.container ..)

end

variable {settings : LoadSettings} {nested : Nested}

theorem load_alike (member : construct ∈ Block.standard) (isLoading : loading ∈ construct.loading)
    (found : construct.blockAt? c = some m) (found' : construct.blockAt? c' = some m')
    (row : construct = Block.imageRow →
      Failure.Alike (fun _ _ => True) (Image.ofLines (Text.lines (m.group 2))) (Image.ofLines (Text.lines (m'.group 2))))
    (quote : construct = Block.quote →
      Quote.ofText settings.strictQuotes m'.text = Quote.ofText settings.strictQuotes m.text)
    (focus : construct = Block.focus → Logged.Alike SameShapes (nested (m.group 2)) (nested (m'.group 2))) :
    Logged.Alike SameShapes (loading.load settings nested construct m.text)
      (loading.load settings nested construct m'.text) := by
  cases loading with
  | common => exact absurd (Option.mem_def.mp isLoading) (Catalogue.Derived.standard.sound.blocks construct member)
  | replacement | list | table => exact .pure rfl
  | image => exact load_image_alike settings nested member isLoading found found'
  | imageRow =>
    obtain rfl : construct = Block.imageRow := Block.loads_only rfl member isLoading
    exact load_row_alike settings nested found found' (row rfl)
  | quote =>
    obtain rfl : construct = Block.quote := Block.loads_only rfl member isLoading
    exact load_quote_alike settings nested (quote rfl)
  | focus =>
    obtain rfl : construct = Block.focus := Block.loads_only rfl member isLoading
    exact load_focus_alike settings nested found found' (focus rfl)

end Loading
end LightMarkup
