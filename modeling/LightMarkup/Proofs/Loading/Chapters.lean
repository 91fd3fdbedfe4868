import LightMarkup.Proofs.Document.Folding
import LightMarkup.Proofs.Loading.Below
import LightMarkup.Proofs.Loading.Compact
import LightMarkup.Proofs.Loading.Outline

/-!
Headings with tags and a style as they are written. No block begins on any of their lines, so that the text is left to the
heading constructs, and the match of the only one that reads its mark is the whole text.
-/

namespace LightMarkup

open Pattern

theorem HeadingLevel.mark_sign {mark : Text} {level : HeadingLevel} (known : (mark,level) ∈ marks) : HeadingConstruct.Sign mark := by
  have all : marks.all (fun entry => entry.1.all fun x => !CharSet.gap.contains x && x != '\n') = true := by decide_cbv
  intro x member
  simpa using List.all_eq_true.mp (List.all_eq_true.mp all _ known) x member

theorem HeadingLevel.mark_once {mark : Text} {level level' : HeadingLevel} (known : (mark,level) ∈ marks)
    (known' : (mark,level') ∈ marks) : level = level' := by
  have asked := @asked_mark mark [] level ' ' known rfl
  rw [asked_mark known' rfl] at asked
  exact (Option.some.inj asked).symm

-- A construct that cannot begin where a line of the text begins has no block in it.
theorem Block.passes_lines {construct : BlockConstruct} {lines : List Text} (member : construct ∈ standard) (some : lines ≠ [])
    (each : ∀ line ∈ lines, Text.Tight line ∧ ∀ before u, construct.pattern.ways ⟨before,line ++ u⟩ = []) :
    construct.blockMatches (Text.join ['\n'] lines) = .ok [] := by
  obtain ⟨first,others⟩ := Text.join_lines
    (P := fun s => (∃ x w, s = x :: w ∧ Text.isBlank x = false) ∧ ∀ before, construct.pattern.ways ⟨before,s⟩ = []) some
    fun line isLine => by
      obtain ⟨tight,dead⟩ := each line isLine
      obtain ⟨x,rest,rfl,solid⟩ := tight.first
      exact ⟨tight.single,fun u => ⟨⟨x,rest ++ u,rfl,solid⟩,fun before => dead before u⟩⟩
  refine blockMatches_none member fun n inner => ?_
  obtain ⟨front,line,split,single,ends⟩ := Text.last_line ((Text.join ['\n'] lines).take n)
  have whole : Text.join ['\n'] lines = front ++ (line ++ (Text.join ['\n'] lines).drop n) := by
    rw [← List.append_assoc,← split,List.take_append_drop]
  obtain ⟨⟨x,w,begins,solid⟩,dead⟩ : (∃ x w, line ++ (Text.join ['\n'] lines).drop n = x :: w ∧ Text.isBlank x = false) ∧
      ∀ before, construct.pattern.ways ⟨before,line ++ (Text.join ['\n'] lines).drop n⟩ = [] := by
    rcases ends with rfl | ⟨b,rfl⟩
    · rw [List.nil_append] at whole
      exact whole ▸ first
    · exact others b _ (whole.trans (by simp))
  cases line with
  | nil => exact BlockConstruct.blockAt_dead (dead _)
  | cons y line =>
    refine BlockConstruct.blockAt_elsewhere ?_
    obtain ⟨rfl,_⟩ := List.cons.inj begins
    have visible : Text.isAllBlank (y :: line) = false := by rw [Text.isAllBlank,List.all_cons,solid,Bool.false_and]
    rw [Cursor.past,List.append_nil,split]
    exact Cursor.no_blockStart single ends visible

inductive HeadingMark where
  | extended
  | compact

structure WrittenHeading where
  kind : HeadingMark
  level : Nat
  title : Text
  tags : List WrittenTag
  style : Option Text
  proper : 1 ≤ level ∧ level ≤ 6
  titleTight : Text.Tight title
  styleFree : ∀ s ∈ style, HeadingConstruct.StyleFree s

namespace WrittenHeading

variable (h : WrittenHeading)

def mark : Text :=
  match h.kind with
  | .extended => List.replicate h.level '#'
  | .compact => '#' :: Text.ofNat h.level

def firstLine : Text :=
  h.mark ++ ' ' :: h.title

def styleLines : List Text :=
  h.style.toList.map fun style => '\x7b' :: (style ++ ['\x7d'])

def text : Text :=
  Text.join ['\n'] (h.firstLine :: (h.tags.map WrittenTag.line ++ h.styleLines))

def tagText : Text :=
  h.tags.flatMap fun tag => '\n' :: tag.line

def styleText : Text :=
  h.styleLines.flatMap ('\n' :: ·)

theorem text_parts : h.text = h.mark ++ ' ' :: (h.title ++ (h.tagText ++ h.styleText)) := by
  simp [text,Text.join_cons,firstLine,tagText,styleText,List.flatMap_map]

theorem below_endsLine : Text.EndsLine (h.tagText ++ h.styleText) := by
  rw [tagText,styleText]
  cases h.tags <;> cases h.styleLines <;> simp [Text.EndsLine]

theorem mark_known : (h.mark,.absolute h.level) ∈ HeadingLevel.marks := by
  have numbered := h.proper
  rw [mark,HeadingLevel.marks]
  simp only [List.mem_cons,List.mem_flatMap]
  refine Or.inr (Or.inr (Or.inr ⟨h.level,by omega,?_⟩))
  cases h.kind with
  | extended => exact Or.inl rfl
  | compact => exact Or.inr (Or.inl (by rw [Text.ofString_ofList]; rfl))

theorem mark_hash : ∃ rest, h.mark = '#' :: rest := by
  rw [mark]
  cases h.kind with
  | extended =>
    obtain ⟨n,isLevel⟩ := Nat.exists_eq_succ_of_ne_zero (Nat.one_le_iff_ne_zero.mp h.proper.1)
    exact ⟨List.replicate n '#',by rw [isLevel]; rfl⟩
  | compact => exact ⟨_,rfl⟩

theorem text_some : h.text ≠ [] := by
  obtain ⟨rest,begins⟩ := h.mark_hash
  rw [h.text_parts,begins]
  exact List.cons_ne_nil _ _

theorem firstLine_tight : Text.Tight h.firstLine where
  single := by
    rw [firstLine,List.mem_append,List.mem_cons]
    rintro (inMark | gap | inTitle)
    · exact (HeadingLevel.mark_sign h.mark_known _ inMark).2 rfl
    · cases gap
    · exact h.titleTight.single inTitle
  first := by
    obtain ⟨rest,begins⟩ := h.mark_hash
    exact ⟨'#',rest ++ ' ' :: h.title,by rw [firstLine,begins]; rfl,by decide⟩
  last := by
    obtain ⟨front,x,ends,solid⟩ := h.titleTight.last
    exact ⟨h.mark ++ ' ' :: front,x,by simp [firstLine,ends],solid⟩

theorem styleLines_tight : ∀ line ∈ h.styleLines, Text.Tight line := by
  intro line member
  obtain ⟨style,known,rfl⟩ := List.mem_map.mp member
  have free := h.styleFree style (Option.mem_toList.mp known)
  refine ⟨?_,⟨'\x7b',_,rfl,by decide⟩,⟨'\x7b' :: style,'\x7d',rfl,by decide⟩⟩
  simp only [List.mem_cons,List.mem_append,List.not_mem_nil,or_false]
  rintro (opening | inside | closing)
  · cases opening
  · exact (free _ inside).2.2 rfl
  · cases closing

-- The only construct that begins with a hash is for lines with nothing else.
theorem firstLine_dead {construct : BlockConstruct} (member : construct ∈ Block.standard) (before u : Text) :
    construct.pattern.ways ⟨before,h.firstLine ++ u⟩ = [] := by
  have all : Block.standard.all (fun construct => construct.pattern.outset '#' == .dead || construct == Block.pageBreak) =
      true := by decide +kernel
  have known := List.all_eq_true.mp all construct member
  rw [Bool.or_eq_true,beq_iff_eq,beq_iff_eq] at known
  rcases known with dead | rfl
  · obtain ⟨rest,begins⟩ := h.mark_hash
    exact outset_dead dead (by rw [firstLine,begins]; rfl)
  · obtain ⟨front,x,ends,solid⟩ := h.titleTight.last
    have line : h.firstLine = h.mark ++ ' ' :: front ++ [x] := by simp [firstLine,ends]
    refine Block.rule_dead (v := h.mark ++ ' ' :: front) (y := x) (u := u) ?_ ?_ ⟨' ',by simp,by decide⟩ solid
    · simp [line]
    · rw [← line]
      exact h.firstLine_tight.single

theorem sign_dead {construct : BlockConstruct} (member : construct ∈ Block.standard) :
    construct.pattern.outset '@' = .dead ∧ construct.pattern.outset '\x7b' = .dead := by
  have all : Block.standard.all (fun construct => construct.pattern.outset '@' == .dead &&
      construct.pattern.outset '\x7b' == .dead) = true := by decide +kernel
  simpa using List.all_eq_true.mp all construct member

-- No block construct has a block in the text.
theorem text_passed {construct : BlockConstruct} (member : construct ∈ Block.standard) : construct.blockMatches h.text = .ok [] := by
  obtain ⟨tagless,styleless⟩ := sign_dead member
  refine Block.passes_lines member (List.cons_ne_nil _ _) (List.forall_mem_cons.mpr ⟨⟨h.firstLine_tight,?_⟩,
    List.forall_mem_append.mpr ⟨List.forall_mem_map.mpr fun tag _ => ⟨tag.line_tight,fun before u => ?_⟩,
      fun line isStyle => ⟨h.styleLines_tight line isStyle,fun before u => ?_⟩⟩⟩)
  · exact h.firstLine_dead member
  · exact outset_dead tagless rfl
  · obtain ⟨style,_,rfl⟩ := List.mem_map.mp isStyle
    exact outset_dead styleless rfl

-- A match of the whole text, and what its groups hold.
structure IsMatch (construct : HeadingConstruct) (m : Match) : Prop where
  level : construct.level = .absolute h.level
  start : m.start = .start h.text
  ended : m.stop.after = []
  title : m.group HeadingConstruct.titleGroup = h.title
  tags : m.group HeadingConstruct.tagsGroup = h.tagText
  style : m.group? HeadingConstruct.styleGroup = h.style

open HeadingConstruct

theorem styleText_begins : h.styleText = [] ∨ ∃ w, h.styleText = '\n' :: '\x7b' :: w := by
  rw [styleText,styleLines]
  cases h.style with
  | none => exact Or.inl rfl
  | some style => exact Or.inr ⟨_,rfl⟩

-- Behind the tags the style is preferred, if there is one.
theorem style_head {c : Cursor} {way : Way} (begins : c.after = h.styleText) (head : ((maybe styleLine).ways c).head? = some way) :
    way.1.after = [] ∧ (∀ k ∈ way.2, k.group = styleGroup) ∧
      (way.2.head?.map fun k => k.start.textTo k.stop) = h.style := by
  rw [ways_maybe,List.head?_append] at head
  rw [styleText,styleLines] at begins
  cases known : h.style with
  | none =>
    rw [known] at begins
    rw [styleLine_none (Or.inl begins)] at head
    cases head
    exact ⟨begins,List.forall_mem_nil _,rfl⟩
  | some style =>
    have free := h.styleFree style known
    have ahead : c.after = '\n' :: '\x7b' :: (style ++ ['\x7d']) := by simpa [known] using begins
    obtain ⟨first,isFirst⟩ := (styleLine_takes ahead free).some_head
    rw [isFirst] at head
    cases head
    obtain ⟨ended,start,last,captures,read⟩ := styleLine_reads ahead free (List.mem_of_mem_head? isFirst)
    refine ⟨ended,by simp [captures],?_⟩
    rw [captures]
    exact congrArg some read.textTo

theorem match_written {construct : HeadingConstruct} {m : Match} (member : construct ∈ standard)
    (matched : construct.pattern.matchAt? (.start h.text) = some m) : h.IsMatch construct m := by
  obtain ⟨marker,mark,pattern,groupless,known,reads⟩ := standard_mark member
  rw [matchAt_head,pattern] at matched
  obtain ⟨way,head,same⟩ := Option.map_eq_some_iff.mp matched
  obtain ⟨line,tags,style,isLine,isTags,isStyle,rfl⟩ := patternOf_head head
  obtain ⟨rfl,stop,behind,title⟩ := line_reads groupless reads (HeadingLevel.mark_sign h.mark_known)
    (HeadingLevel.mark_sign known) h.titleTight h.below_endsLine h.text_parts isLine
  rw [tagLines_head behind h.styleText_begins] at isTags
  cases isTags
  have tagsRead : line.1.Reads h.tagText (line.1.past h.tagText.length) := .of_after behind
  obtain ⟨closed,outer,styled⟩ := h.style_head (by rw [Cursor.past_after,behind]; exact List.drop_left) isStyle
  have titleRead : ((Cursor.start h.text).past (h.mark.length + 1)).Reads h.title line.1 := by
    have ahead : ((Cursor.start h.text).past (h.mark.length + 1)).after = h.title ++ (h.tagText ++ h.styleText) := by
      rw [Cursor.past_after,Cursor.start,h.text_parts,List.append_cons]
      exact List.drop_left' (by simp)
    rw [stop,← Cursor.past_past _ (h.mark.length + 1)]
    exact .of_after ahead
  have captures : m.captures = style.2 ++ [⟨tagsGroup,line.1,line.1.past h.tagText.length⟩,
      ⟨titleGroup,(Cursor.start h.text).past (h.mark.length + 1),line.1⟩] := by
    rw [← same,title]
    rfl
  obtain ⟨isTitle,isTags,isStyle⟩ := heading_captures captures outer
  refine ⟨HeadingLevel.mark_once known h.mark_known,by rw [← same],by rw [← same]; exact closed,?_,?_,?_⟩
  · rw [Match.group,Match.group?,isTitle]
    exact titleRead.textTo
  · rw [Match.group,Match.group?,isTags]
    exact tagsRead.textTo
  · rw [Match.group?,isStyle]
    exact styled

-- The construct for the mark and the level.
def construct : HeadingConstruct :=
  match h.kind with
  | .extended => extended h.level
  | .compact => compact h.level

theorem construct_standard : h.construct ∈ standard := by
  have numbered := h.proper
  refine List.mem_append_right _ (List.mem_flatMap.mpr ⟨h.level,?_,?_⟩)
  · simp only [List.mem_cons,List.not_mem_nil,or_false]
    omega
  · rw [construct]
    cases h.kind <;> simp

theorem construct_matches : (h.construct.pattern.matchAt? (.start h.text)).isSome = true := by
  obtain ⟨marker,pattern,accepts⟩ : ∃ marker, h.construct.pattern = patternOf marker ∧ marker.Accepts h.mark := by
    rw [construct,mark]
    cases h.kind with
    | extended => exact ⟨_,rfl,hashes_accepts h.level⟩
    | compact =>
      have hash : (literal (Text.ofString "#")).Accepts ['#'] := by
        rw [Text.ofString_ofList]
        exact literal_accepts ['#']
      exact ⟨_,rfl,hash.seq (literal_accepts (Text.ofNat h.level))⟩
  rw [pattern]
  exact (patternOf_takes accepts h.titleTight.single rfl h.below_endsLine h.text_parts).found

-- It is the only heading of the text.
theorem findAll_written : ∃ construct m, findAll standard h.text = [(construct,m)] ∧ h.IsMatch construct m ∧
    m.stop.position = h.text.length := by
  obtain ⟨m,own⟩ := Option.isSome_iff_exists.mp h.construct_matches
  have some : (findAt? standard (.start h.text)).isSome = true :=
    List.findSome?_isSome_iff.mpr ⟨h.construct,h.construct_standard,by rw [own]; rfl⟩
  obtain ⟨⟨construct,m⟩,found⟩ := Option.isSome_iff_exists.mp some
  obtain ⟨_,isStandard,attempt⟩ := List.exists_of_findSome?_eq_some found
  obtain ⟨_,matched,same⟩ := Option.map_eq_some_iff.mp attempt
  cases same
  have isMatch := h.match_written isStandard matched
  obtain ⟨split,start,stop⟩ := matchAt_front matched
  rw [isMatch.ended,List.append_nil] at split
  have length : m.length = h.text.length := by rw [Match.length,start,stop,← split,Nat.sub_zero]
  have scanned : scanFrom (fun found : HeadingConstruct × Match => found.2.length) (findAt? standard) [] 0 (h.text ++ []) = _ :=
    scan_take (by rw [List.append_nil]; exact found) h.text_some length
  rw [List.append_nil,scanFrom,(findAt_finds (List.Subset.refl _)).not_at_end] at scanned
  exact ⟨construct,m,scanned,isMatch,by rw [stop,← split]⟩

-- What the style is read as.
def styleTags : List ChapterTag :=
  h.style.toList.map fun style => ⟨.style,some style⟩

variable {h} {construct : HeadingConstruct} {m : Match}

theorem IsMatch.styleTag_contents (isMatch : h.IsMatch construct m) (offset : Nat) :
    (styleTag offset m).map PlacedBlock.content = h.styleTags.map .tag := by
  rw [styleTags,← isMatch.style]
  cases held : m.capture? styleGroup <;> simp [styleTag,Match.groupSpan?,Match.group?,held]

theorem IsMatch.levelAfter (isMatch : h.IsMatch construct m) (last : LastLevel) (title : Text) :
    construct.levelAfter last title = pure ↑h.level := by
  obtain ⟨name,pattern,level⟩ := construct
  obtain rfl : level = .absolute h.level := isMatch.level
  rfl

theorem IsMatch.tag_lines (isMatch : h.IsMatch construct m) :
    (nonBlankLine.occurrences (m.group tagsGroup)).map Match.text = h.tags.map WrittenTag.line := by
  have below : m.group tagsGroup = (h.tags.map WrittenTag.line).flatMap ('\n' :: ·) := by
    rw [isMatch.tags,tagText,List.flatMap_map]
  rw [below]
  exact occurrences_lines (List.forall_mem_map.mpr fun tag _ => tag.line_tight)

theorem IsMatch.blocks_known (isMatch : h.IsMatch construct m) (known : ∀ tag ∈ h.tags, tag.Known) (offset : Nat)
    (last : LastLevel) : ∃ blocks tags, (construct.blocks offset last m).outcome = .ok (blocks,some ↑h.level) ∧
      blocks.map PlacedBlock.content =
        .heading { level := h.level, title := h.title } :: (tags ++ h.styleTags).map .tag ∧
      List.Forall₂ WrittenTag.IsRead h.tags tags := by
  obtain ⟨tagBlocks,tags,run,contents,each⟩ := tagsOfLines_known
    (offset + ((m.groupSpan? tagsGroup).map (·.1)).getD m.stop.position) known isMatch.tag_lines
  have level := congrArg Logged.outcome (isMatch.levelAfter last (m.group titleGroup))
  refine ⟨_,tags,Logged.outcome_bind_ok.mpr ⟨_,level,Logged.outcome_bind_ok.mpr ⟨tagBlocks,run,rfl⟩⟩,?_,each⟩
  rw [List.map_append,List.map_append,List.map_cons,isMatch.styleTag_contents,contents,isMatch.title]
  rfl

theorem IsMatch.blocks_unknown (isMatch : h.IsMatch construct m) {tag : WrittenTag} (member : tag ∈ h.tags)
    (unknown : ¬ tag.Known) (offset : Nat) (last : LastLevel) : ∃ first ∈ h.tags, ¬ first.Known ∧
      (construct.blocks offset last m).outcome = .error (.invalidTag ('@' :: first.key)) := by
  obtain ⟨first,isFirst,other,run⟩ := tagsOfLines_unknown
    (offset + ((m.groupSpan? tagsGroup).map (·.1)).getD m.stop.position) member unknown isMatch.tag_lines
  have level := congrArg Logged.outcome (isMatch.levelAfter last (m.group titleGroup))
  refine ⟨first,isFirst,other,Logged.outcome_bind_error.mpr (Or.inr ⟨_,level,?_⟩)⟩
  exact Logged.outcome_bind_error.mpr (Or.inl run)

end WrittenHeading

namespace Loader

variable (h : WrittenHeading) {loader : Loader} {settings : LoadSettings}

theorem leafBlocks_written (headings : loader.catalogue.headings = HeadingConstruct.standard) : ∃ construct m,
    h.IsMatch construct m ∧ loader.leafBlocks 0 h.text none = construct.blocks 0 none m := by
  obtain ⟨construct,m,found,isMatch,stop⟩ := h.findAll_written
  have start : m.start.position = 0 := congrArg Cursor.position isMatch.start
  have nothing : ∀ offset, loader.fallbackBlocks offset [] = pure [] := fun _ => rfl
  refine ⟨construct,m,isMatch,?_⟩
  rw [leafBlocks,headings,found]
  simp only [leafBlocksFrom,start,stop,Nat.sub_zero,List.take_zero,List.drop_length,nothing,pure_bind,List.nil_append,
    List.append_nil]
  exact bind_pure _

theorem load_written (deep : 0 ≤ settings.maxDepth) : ∃ construct m, h.IsMatch construct m ∧
    (load Catalogue.standard settings h.text).outcome = (construct.blocks 0 none m).outcome.map Prod.fst := by
  obtain ⟨levels,outside⟩ : ∃ levels, settings.levelsFrom 0 = levels + 1 :=
    ⟨settings.maxDepth.toNat,by rw [LoadSettings.levelsFrom]; omega⟩
  let loader : Loader := ⟨Catalogue.standard,settings,Nested.within Catalogue.standard settings levels Nested.room⟩
  obtain ⟨construct,m,isMatch,leaves⟩ := leafBlocks_written h (show loader.catalogue.headings = HeadingConstruct.standard from rfl)
  have passed : loader.partition (Block.standard ++ []) 0 h.text none = loader.partition [] 0 h.text none :=
    partition_passes h.text_some fun construct member => ⟨member,h.text_passed member⟩
  rw [List.append_nil] at passed
  have partitioned : (partitionAt Catalogue.standard settings 0 0 0 h.text).outcome =
      (construct.blocks 0 none m).outcome.map Prod.fst := by
    rw [partitionAt,outside,← leaves]
    show (partition loader Block.standard 0 h.text none >>= _).outcome = _
    rw [passed]
    exact Logged.outcome_bind_pure _ _
  refine ⟨construct,m,isMatch,?_⟩
  rw [← partitioned,load]
  cases run : (partitionAt Catalogue.standard settings 0 0 0 h.text).outcome with
  | error failure => rw [Logged.bind_error run]
  | ok blocks =>
    rw [Logged.bind_ok run,(partitionAt_partitions .standard run).sorted]
    rfl

end Loader

theorem Document.ofText_outcome (catalogue : Catalogue) (settings : LoadSettings) (name t : Text) :
    (ofText catalogue settings name t).outcome =
      (Loader.load catalogue settings t).outcome >>= fun blocks => (ofContents name (blocks.map PlacedBlock.content)).outcome := by
  rw [ofText,Logged.bind_ok (Logged.outcome_debug _ _),Logged.outcome_bind]

-- A heading with tags is one chapter.
theorem Document.ofContents_tagged (name : Text) (heading : Heading) (tags : List ChapterTag) :
    (ofContents name (.heading heading :: tags.map .tag)).outcome = .ok { name := name, preamble := [], chapters := [{
      heading := { heading with identifier := (ChapterTag.lastIdentifier? tags).or heading.identifier }
      tags := tags
      paragraphs := [] }] } := by
  have flat : BlockContent.leading (tags.map .tag) = tags.map .tag ∧ (divide (tags.map .tag)).2 = [] := by
    induction tags with
    | nil => exact ⟨rfl,rfl⟩
    | cons tag tags ih => exact ⟨congrArg (_ :: ·) ih.1,ih.2⟩
  have isTags : (tags.map BlockContent.tag).filterMap BlockContent.tag? = tags := by
    simp [List.filterMap_map,Function.comp_def,BlockContent.tag?]
  have noParagraphs : (tags.map BlockContent.tag).filterMap BlockContent.paragraph? = [] := by
    simp [BlockContent.paragraph?]
  have chapter := divide_gather heading (tags.map .tag)
  rw [flat.1,Chapter.gather,isTags,noParagraphs] at chapter
  simp only [ofContents,divide,flat.2,chapter]
  rfl

namespace WrittenHeading

variable (h : WrittenHeading)

-- The values under the key for identifiers.
def identifiers : List Text :=
  (h.tags.filter fun tag => TagKey.id.Spelled tag.key).filterMap WrittenTag.value

theorem identifier_read {tag : WrittenTag} {read : ChapterTag} (isRead : tag.IsRead read) :
    read.identifier? = if TagKey.id.Spelled tag.key then tag.value else none := by
  have same : read.key = .id ↔ TagKey.id.Spelled tag.key := by
    constructor
    · intro isId
      exact isId ▸ isRead.key
    · intro spelled
      rw [isRead.only spelled]
  rw [ChapterTag.identifier?,isRead.value]
  simp only [same]
  split
  · cases known : tag.value with
    | none => rfl
    | some v =>
      obtain ⟨x,rest,rfl,_⟩ := (tag.valueTight v known).first
      rfl
  · rfl

theorem identifiers_read {written : List WrittenTag} {tags : List ChapterTag} (each : List.Forall₂ WrittenTag.IsRead written tags) :
    tags.filterMap ChapterTag.identifier? =
      (written.filter fun tag => TagKey.id.Spelled tag.key).filterMap WrittenTag.value := by
  induction each with
  | nil => rfl
  | @cons tag read written tags isRead _ ih =>
    rw [List.filterMap_cons,identifier_read isRead,ih,List.filter_cons]
    by_cases spelled : TagKey.id.Spelled tag.key
    · simp [spelled,List.filterMap_cons]
    · simp [spelled]

-- The style identifies nothing.
theorem lastIdentifier_written {tags : List ChapterTag} (each : List.Forall₂ WrittenTag.IsRead h.tags tags) :
    ChapterTag.lastIdentifier? (tags ++ h.styleTags) = h.identifiers.getLast? := by
  have styleless : h.styleTags.filterMap ChapterTag.identifier? = [] := by
    rw [styleTags]
    cases h.style <;> rfl
  rw [ChapterTag.lastIdentifier?,List.filterMap_append,styleless,List.append_nil,identifiers_read each,identifiers]

-- A written heading is read as one chapter with its level, its title, its tags in order and its style behind them. It is linked
-- to by its last identifier, or by its title if it has none. The first tag under an unknown key is reported instead.
theorem heading_written (h : WrittenHeading) (settings : LoadSettings) (deep : 0 ≤ settings.maxDepth) (name : Text) :
    ((∀ tag ∈ h.tags, tag.Known) → ∃ tags, List.Forall₂ WrittenTag.IsRead h.tags tags ∧ ∃ d chapter,
      (Document.ofText Catalogue.standard settings name h.text).outcome = .ok d ∧ d.preamble = [] ∧ d.chapters = [chapter] ∧
      chapter.heading.level = h.level ∧ chapter.heading.title = h.title ∧ chapter.tags = tags ++ h.styleTags ∧
      chapter.paragraphs = [] ∧ ∀ documentName, chapter.heading.anchor? documentName =
        documentName.map fun name => Anchor.build name (h.identifiers.getLast?.getD h.title)) ∧
    ((∃ tag ∈ h.tags, ¬ tag.Known) → ∃ first ∈ h.tags, ¬ first.Known ∧
      (Document.ofText Catalogue.standard settings name h.text).outcome = .error (.invalidTag ('@' :: first.key))) := by
  obtain ⟨construct,m,isMatch,loaded⟩ := Loader.load_written h deep
  rw [Document.ofText_outcome,loaded]
  refine ⟨fun known => ?_,fun ⟨tag,member,unknown⟩ => ?_⟩
  · obtain ⟨blocks,tags,run,contents,each⟩ := isMatch.blocks_known known 0 none
    have folded := Document.ofContents_tagged name { level := h.level, title := h.title } (tags ++ h.styleTags)
    rw [← contents,h.lastIdentifier_written each,Option.or_none] at folded
    rw [run]
    exact ⟨tags,each,_,_,folded,rfl,rfl,rfl,rfl,rfl,rfl,fun _ => rfl⟩
  · obtain ⟨first,isFirst,other,run⟩ := isMatch.blocks_unknown member unknown 0 none
    rw [run]
    exact ⟨first,isFirst,other,rfl⟩

-- The value of this identifier looks like a style.
def bracedTag : WrittenTag where
  key := ['I','d']
  value := some ['\x7b','b','\x7d']
  keySome := by simp
  keyWord := by simp; decide +kernel
  valueTight := by
    rintro v ⟨⟩
    exact ⟨by simp,⟨_,_,rfl,by decide⟩,⟨['\x7b','b'],'\x7d',rfl,by decide⟩⟩

def aliasTag : WrittenTag where
  key := ['C','L','A','S','S']
  value := none
  keySome := by simp
  keyWord := by simp; decide +kernel
  valueTight := nofun

def unknownTag : WrittenTag where
  key := ['i','c','o','n']
  value := none
  keySome := by simp
  keyWord := by simp; decide +kernel
  valueTight := nofun

def tagged (tags : List WrittenTag) : WrittenHeading where
  kind := .compact
  level := 2
  title := ['a']
  tags := tags
  style := some ['r','e','d']
  proper := by decide
  titleTight := ⟨by simp,⟨_,_,rfl,by decide⟩,⟨[],'a',rfl,by decide⟩⟩
  styleFree := by simp [HeadingConstruct.StyleFree]

theorem bracedTag_known : TagKey.id.Spelled bracedTag.key := by
  decide_cbv

theorem aliasTag_known : TagKey.styleClass.Spelled aliasTag.key := by
  decide_cbv

theorem unknownTag_unknown : ¬ unknownTag.Known := by
  rintro ⟨_ | _ | _ | _ | _ | _,spelled⟩ <;> revert spelled <;> decide_cbv

theorem heading_written_tagged : 0 ≤ ({} : LoadSettings).maxDepth ∧
    (tagged [bracedTag,aliasTag]).text = ("#2 a\n@Id \x7bb\x7d\n@CLASS\n\x7bred\x7d" : Text) ∧
    (∃ d chapter, (Document.ofText Catalogue.standard {} "d" (tagged [bracedTag,aliasTag]).text).outcome = .ok d ∧
      d.chapters = [chapter] ∧ chapter.tags = [⟨.id,some "\x7bb\x7d"⟩,⟨.styleClass,none⟩,⟨.style,some "red"⟩] ∧
      chapter.heading.anchor? (some "d") = some (Anchor.build "d" "\x7bb\x7d")) ∧
    (Document.ofText Catalogue.standard {} "d" (tagged [bracedTag,unknownTag]).text).outcome =
      .error (.invalidTag ('@' :: unknownTag.key)) := by
  have deep : 0 ≤ ({} : LoadSettings).maxDepth := by decide
  obtain ⟨read,_⟩ := heading_written (tagged [bracedTag,aliasTag]) {} deep "d"
  obtain ⟨_,stopped⟩ := heading_written (tagged [bracedTag,unknownTag]) {} deep "d"
  refine ⟨deep,?_,?_,?_⟩
  · rw [Text.ofString_ofList]
    decide_cbv
  · obtain ⟨_,each,d,chapter,loaded,_,only,_,_,tags,_,anchor⟩ := read (List.forall_mem_cons.mpr
      ⟨⟨_,bracedTag_known⟩,List.forall_mem_singleton.mpr ⟨_,aliasTag_known⟩⟩)
    rcases each with _ | ⟨braced,_ | ⟨classed,⟨⟩⟩⟩
    rw [braced.only bracedTag_known,classed.only aliasTag_known] at tags
    have last : (tagged [bracedTag,aliasTag]).identifiers.getLast? = bracedTag.value := by decide_cbv
    rw [last] at anchor
    refine ⟨d,chapter,loaded,only,tags.trans ?_,(anchor _).trans ?_⟩
    · repeat rw [Text.ofString_ofList]
      rfl
    · repeat rw [Text.ofString_ofList]
      rfl
  · obtain ⟨first,isFirst,unknown,error⟩ := stopped ⟨unknownTag,by simp [tagged],unknownTag_unknown⟩
    rcases List.mem_cons.mp isFirst with rfl | isSecond
    · exact absurd ⟨_,bracedTag_known⟩ unknown
    · rwa [List.mem_singleton.mp isSecond] at error

end WrittenHeading
end LightMarkup
