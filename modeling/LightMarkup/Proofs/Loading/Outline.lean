import Mathlib
import LightMarkup.Proofs.Loading.Partition
import LightMarkup.Proofs.Loading.Titles

/-!
The headings of a text in order. The level of each is what its marker in the text asks for after the level of the heading
before, however the blocks around them cut the text.
-/

namespace LightMarkup

namespace HeadingLevel

-- The level after a heading of level `last`.
def next : HeadingLevel → LastLevel → Int
  | .absolute level, _ => level
  | .same, some last => last
  | .deeper, some last => min (last + 1) HeadingConstruct.maximumLevel
  | .shallower, some last => max (last - 1) 1
  | _, none => 1

def levelsFrom : LastLevel → List HeadingLevel → List Int
  | _, [] => []
  | last, asked :: rest => asked.next last :: levelsFrom (some (asked.next last)) rest

-- The markers of headings.
def marks : List (Text × HeadingLevel) :=
  let numbered (level : Nat) : List (Text × HeadingLevel) :=
    [(List.replicate level '#',.absolute level),("#" ++ Text.ofNat level,.absolute level)]
  ("#-",.shallower) :: ("#+",.deeper) :: ("#=",.same) :: [1,2,3,4,5,6].flatMap numbered

-- What a text that begins with a heading asks for: its marker reaches up to the first gap.
def asked? (t : Text) : Option HeadingLevel :=
  marks.lookup (t.takeWhile fun x => !CharSet.gap.contains x)

theorem asked_mark {mark rest : Text} {level : HeadingLevel} {x : Char} (known : (mark,level) ∈ marks)
    (gap : CharSet.gap.contains x = true) : asked? (mark ++ x :: rest) = some level := by
  have all : marks.all (fun entry => marks.lookup entry.1 == some entry.2 &&
      entry.1.all fun x => !CharSet.gap.contains x) = true := by decide_cbv
  obtain ⟨found,solid⟩ := Bool.and_eq_true_iff.mp (List.all_eq_true.mp all (mark,level) known)
  have taken : (mark ++ x :: rest).takeWhile (fun x => !CharSet.gap.contains x) = mark := by
    rw [List.takeWhile_append_of_pos (List.all_eq_true.mp solid)]
    simp [gap]
  rw [asked?,taken]
  exact eq_of_beq found

def Proper (level : Int) : Prop :=
  1 ≤ level ∧ level ≤ HeadingConstruct.maximumLevel

theorem asked_proper {mark : Text} {level : Int} (known : (mark,.absolute level) ∈ marks) : Proper level := by
  have all : marks.all (fun entry => match entry.2 with
      | .absolute level => decide (1 ≤ level) && decide (level ≤ (HeadingConstruct.maximumLevel : Int))
      | _ => true) = true := by decide
  have here := List.all_eq_true.mp all _ known
  simpa [Proper] using here

end HeadingLevel

namespace HeadingConstruct

open Pattern

variable {construct : HeadingConstruct} {m : Match}

theorem marked_reads {marker : Pattern} (way : m.IsWay (patternOf marker)) : ∃ mid g x rest,
    (mid,g) ∈ marker.ways m.start ∧ CharSet.gap.contains x = true ∧ mid.Reads (x :: rest) m.stop := by
  obtain ⟨tagged,_,_,front,style,_⟩ := seq_parts way
  obtain ⟨lined,_,_,line,tags,_⟩ := seq_parts front
  obtain ⟨titled,_,_,title,ending,_⟩ := seq_parts line
  obtain ⟨spaced,_,_,marked,name,_⟩ := seq_parts title
  obtain ⟨mid,_,g,begun,gap,_⟩ := seq_parts marked
  obtain ⟨start,_,_,first,mark,_⟩ := seq_parts begun
  obtain ⟨_,same⟩ := mem_waysIf.mp first
  cases same
  obtain ⟨x,blanks,readGap,gaps⟩ := gaps_reads gap
  obtain ⟨_,readName⟩ := ways_reads name
  obtain ⟨_,readEnding⟩ := ways_reads ending
  obtain ⟨_,readTags⟩ := ways_reads tags
  obtain ⟨_,readStyle⟩ := ways_reads style
  exact ⟨mid,_,x,_,mark,gaps x (List.mem_cons_self ..),
    (((readGap.append readName).append readEnding).append readTags).append readStyle⟩

-- The constructs with what their markers read.
def signed : List (HeadingConstruct × Text) :=
  let numbered (level : Nat) : List (HeadingConstruct × Text) :=
    [(extended level,List.replicate level '#'),(compact level,"#" ++ Text.ofNat level)]
  (shallower,"#-") :: (deeper,"#+") :: (same,"#=") :: [6,5,4,3,2,1].flatMap numbered

theorem signed_mark {entry : HeadingConstruct × Text} (member : entry ∈ signed) : ∃ marker : Pattern,
    entry.1.pattern = patternOf marker ∧ marker.groups = [] ∧ ∀ c, ∀ way ∈ marker.ways c, c.Reads entry.2 way.1 := by
  simp only [signed,List.mem_cons,List.not_mem_nil,or_false,List.mem_flatMap] at member
  rcases member with rfl | rfl | rfl | ⟨level,_,rfl | rfl⟩
  · exact ⟨_,rfl,literal_groups _,fun c way found => (literal_reads found).1⟩
  · exact ⟨_,rfl,literal_groups _,fun c way found => (literal_reads found).1⟩
  · exact ⟨_,rfl,literal_groups _,fun c way found => (literal_reads found).1⟩
  · exact ⟨_,rfl,rfl,fun c way found => exactly_reads found⟩
  · refine ⟨_,rfl,by simp [append_eq,groups],fun c way found => ?_⟩
    obtain ⟨mid,_,_,hash,number,_⟩ := seq_parts found
    exact (literal_reads hash).1.append (literal_reads number).1

-- A heading begins with the marker, and a gap behind it.
theorem signed_reads {entry : HeadingConstruct × Text} (member : entry ∈ signed) (way : m.IsWay entry.1.pattern) :
    ∃ x rest, CharSet.gap.contains x = true ∧ m.start.Reads (entry.2 ++ x :: rest) m.stop := by
  obtain ⟨marker,pattern,_,reads⟩ := signed_mark member
  obtain ⟨mid,g,x,rest,isMark,gap,read⟩ := marked_reads (pattern ▸ way)
  exact ⟨x,rest,gap,(reads _ _ isMark).append read⟩

theorem standard_signed (member : construct ∈ standard) :
    ∃ mark, (construct,mark) ∈ signed ∧ (mark,construct.level) ∈ HeadingLevel.marks := by
  have whole : signed.map Prod.fst = standard := rfl
  have known : signed.all (fun entry => (entry.2,entry.1.level) ∈ HeadingLevel.marks) = true := by decide_cbv
  rw [← whole] at member
  obtain ⟨entry,isEntry,rfl⟩ := List.mem_map.mp member
  exact ⟨entry.2,isEntry,of_decide_eq_true (List.all_eq_true.mp known entry isEntry)⟩

-- A construct for headings reads the marker that asks for its level.
theorem standard_mark (member : construct ∈ standard) : ∃ (marker : Pattern) (mark : Text),
    construct.pattern = patternOf marker ∧ marker.groups = [] ∧ (mark,construct.level) ∈ HeadingLevel.marks ∧
      ∀ c, ∀ way ∈ marker.ways c, c.Reads mark way.1 := by
  obtain ⟨mark,isEntry,known⟩ := standard_signed member
  obtain ⟨marker,pattern,groupless,reads⟩ := signed_mark isEntry
  exact ⟨marker,mark,pattern,groupless,known,reads⟩

theorem heading_reads (member : construct ∈ standard) (way : m.IsWay construct.pattern) :
    ∃ mark x rest, (mark,construct.level) ∈ HeadingLevel.marks ∧ CharSet.gap.contains x = true ∧
      m.start.Reads (mark ++ x :: rest) m.stop := by
  obtain ⟨mark,isEntry,known⟩ := standard_signed member
  obtain ⟨x,rest,gap,read⟩ := signed_reads isEntry way
  exact ⟨mark,x,rest,known,gap,read⟩

theorem levelAfter_next {last : LastLevel} {title : Text} {level : Int}
    (run : (construct.levelAfter last title).outcome = .ok level) : level = construct.level.next last := by
  obtain ⟨name,pattern,asked⟩ := construct
  cases asked with
  | absolute level =>
    cases run
    rfl
  | same => cases last <;> cases run <;> rfl
  | deeper =>
    cases last with
    | none =>
      cases run
      rfl
    | some last =>
      simp only [levelAfter] at run
      simp only [HeadingLevel.next]
      split at run
      · cases run
        omega
      · cases run
        omega
  | shallower =>
    cases last with
    | none =>
      cases run
      rfl
    | some last =>
      simp only [levelAfter] at run
      simp only [HeadingLevel.next]
      split at run
      · cases run
        omega
      · cases run
        omega

end HeadingConstruct

-- The text stands at a place of the whole one.
def Sits (whole : Text) (offset : Nat) (t : Text) : Prop :=
  ∃ behind, whole.drop offset = t ++ behind

namespace Sits

variable {whole t u : Text} {offset : Nat}

theorem left (sits : Sits whole offset (t ++ u)) : Sits whole offset t := by
  obtain ⟨behind,split⟩ := sits
  exact ⟨u ++ behind,by rw [split,List.append_assoc]⟩

theorem right (sits : Sits whole offset (t ++ u)) : Sits whole (offset + t.length) u := by
  obtain ⟨behind,split⟩ := sits
  exact ⟨behind,by rw [← List.drop_drop,split,List.append_assoc,List.drop_left]⟩

-- What stands before a match, the match, and what is left behind it.
theorem cut {P : Char → Prop} {position : Nat} {m : Match} {ms : List Match} (sits : Sits whole (offset + position) t)
    (follow : Match.Follow P position t (m :: ms)) :
    Sits whole (offset + position) (t.take (m.start.position - position)) ∧
      Sits whole (offset + m.stop.position) (t.drop (m.stop.position - position)) ∧
      (∃ inner, m.start.Reads inner m.stop ∧ Sits whole (offset + m.start.position) inner) ∧
      Match.Follow P m.stop.position (t.drop (m.stop.position - position)) ms := by
  obtain ⟨inner,split,_,read,placed,later⟩ := follow.cut
  rw [split] at sits
  have here := sits.right
  rw [Nat.add_assoc,placed] at here
  have behind := here.right
  rw [Nat.add_assoc,← read.position] at behind
  exact ⟨sits.left,behind,⟨inner,read,here.left⟩,later⟩

end Sits

namespace PlacedBlock

def heading? (block : PlacedBlock) : Option (Nat × Heading) :=
  match block.content with
  | .heading heading => some (block.start,heading)
  | _ => none

theorem heading_start {block : PlacedBlock} {held : Nat × Heading} (isHeading : block.heading? = some held) :
    block.start = held.1 := by
  unfold heading? at isHeading
  split at isHeading
  · cases isHeading
    rfl
  · cases isHeading

-- The headings among blocks, with the places where they start.
def headings (blocks : List PlacedBlock) : List (Nat × Heading) :=
  blocks.filterMap heading?

theorem headings_append (blocks others : List PlacedBlock) : headings (blocks ++ others) = headings blocks ++ headings others :=
  List.filterMap_append

theorem headings_place (offset : Nat) (t : Text) (paragraphs : List Paragraph) :
    headings (place offset t paragraphs) = [] := by
  refine List.filterMap_eq_nil_iff.mpr fun block member => ?_
  obtain ⟨_,_,rfl⟩ := List.mem_map.mp member
  rfl

end PlacedBlock

-- Headings of a text after one of level `last`, and the level of the last of them.
inductive Climbs (whole : Text) : LastLevel → List (Nat × Heading) → LastLevel → Prop where
  | nil {last : LastLevel} : Climbs whole last [] last
  | cons {last next : LastLevel} {start : Nat} {heading : Heading} {asked : HeadingLevel} {rest : List (Nat × Heading)}
      (marked : HeadingLevel.asked? (whole.drop start) = some asked) (known : ∃ mark, (mark,asked) ∈ HeadingLevel.marks)
      (here : heading.level = asked.next last) (later : Climbs whole (some heading.level) rest next) :
      Climbs whole last ((start,heading) :: rest) next

namespace Climbs

variable {whole : Text} {last middle next : LastLevel} {headings others : List (Nat × Heading)}

theorem append (one : Climbs whole last headings middle) (two : Climbs whole middle others next) :
    Climbs whole last (headings ++ others) next := by
  induction one with
  | nil => exact two
  | cons marked known here _ ih => exact .cons marked known here (ih two)

theorem levels (climbs : Climbs whole last headings next) : ∃ asked : List HeadingLevel,
    List.Forall₂ (fun heading level => HeadingLevel.asked? (whole.drop heading.1) = some level) headings asked ∧
      headings.map (fun heading => heading.2.level) = HeadingLevel.levelsFrom last asked := by
  induction climbs with
  | nil => exact ⟨[],.nil,rfl⟩
  | @cons last next start heading asked rest marked known here later ih =>
    obtain ⟨others,each,same⟩ := ih
    refine ⟨asked :: others,.cons marked each,?_⟩
    rw [HeadingLevel.levelsFrom,List.map_cons,same,here]

theorem proper (climbs : Climbs whole last headings next) (inside : ∀ level ∈ last, HeadingLevel.Proper level) :
    ∀ heading ∈ headings, HeadingLevel.Proper heading.2.level := by
  induction climbs with
  | nil => exact List.forall_mem_nil _
  | @cons last next start heading asked rest marked known here later ih =>
    have proper : HeadingLevel.Proper heading.level := by
      rw [here]
      obtain ⟨mark,known⟩ := known
      cases asked with
      | absolute level => exact HeadingLevel.asked_proper known
      | _ =>
        cases last with
        | none => exact ⟨Int.le_refl _,by decide⟩
        | some last =>
          have bounds := inside last rfl
          simp only [HeadingLevel.Proper,HeadingConstruct.maximumLevel,HeadingLevel.next] at bounds ⊢
          omega
    refine List.forall_mem_cons.mpr ⟨proper,ih ?_⟩
    rintro level same
    cases same
    exact proper

end Climbs

open PlacedBlock

namespace HeadingConstruct

theorem tagsOfLines_headings {offset : Nat} {ms : List Match} {blocks : List PlacedBlock}
    (read : tagsOfLines offset ms = .ok blocks) : headings blocks = [] := by
  refine List.filterMap_eq_nil_iff.mpr fun block member => ?_
  obtain ⟨tag,isTag⟩ := tagsOfLines_tag read block member
  rw [heading?,isTag]

theorem blocks_climbs {whole : Text} {offset : Nat} {last next : LastLevel} {construct : HeadingConstruct} {m : Match}
    {inner : Text} {blocks : List PlacedBlock} (member : construct ∈ standard) (way : m.IsWay construct.pattern)
    (read : m.start.Reads inner m.stop) (sits : Sits whole (offset + m.start.position) inner)
    (run : (construct.blocks offset last m).outcome = .ok (blocks,next)) : Climbs whole last (headings blocks) next := by
  obtain ⟨level,ran,run⟩ := Logged.outcome_bind_ok.mp run
  obtain ⟨tagBlocks,parsed,same⟩ := Logged.outcome_bind_ok.mp run
  cases same
  have style : headings (styleTag offset m) = [] := by
    unfold styleTag
    split <;> rfl
  rw [headings_append,style,List.append_nil]
  show Climbs whole last ((_,_) :: headings tagBlocks) _
  rw [tagsOfLines_headings parsed]
  obtain ⟨mark,x,rest,known,gap,marked⟩ := heading_reads member way
  obtain ⟨behind,split⟩ := sits
  refine .cons ?_ ⟨mark,known⟩ (levelAfter_next ran) .nil
  rw [split,read.unique marked,List.append_assoc]
  exact HeadingLevel.asked_mark known gap

end HeadingConstruct

namespace Loader

variable {whole : Text} {loader : Loader} {offset position : Nat} {t : Text} {last next : LastLevel}
  {blocks : List PlacedBlock}

theorem fallbackBlocks_headings (run : (loader.fallbackBlocks offset t).outcome = .ok blocks) : headings blocks = [] := by
  rcases fallbackBlocks_ok run with ⟨_,rfl⟩ | ⟨_,_,_,_,_,paragraphs,_,rfl⟩
  · rfl
  · exact headings_place _ _ _

theorem leafBlocksFrom_climbs {found : List (HeadingConstruct × Match)}
    (follow : Match.Follow (fun _ => True) position t (found.map Prod.snd))
    (known : ∀ held ∈ found, held.1 ∈ HeadingConstruct.standard ∧ held.2.IsWay held.1.pattern)
    (sits : Sits whole (offset + position) t)
    (run : (loader.leafBlocksFrom offset position t last found).outcome = .ok (blocks,next)) :
    Climbs whole last (headings blocks) next := by
  induction found generalizing position t last blocks with
  | nil =>
    obtain ⟨_,fallback,same⟩ := Logged.outcome_bind_ok.mp run
    cases same
    rw [fallbackBlocks_headings fallback]
    exact .nil
  | cons held found ih =>
    obtain ⟨construct,m⟩ := held
    obtain ⟨⟨member,way⟩,others⟩ := List.forall_mem_cons.mp known
    obtain ⟨before,heading,level,after,runBefore,runHeading,runAfter,rfl⟩ := leafBlocksFrom_ok run
    obtain ⟨_,behind,⟨inner,read,here⟩,later⟩ := sits.cut follow
    rw [headings_append,headings_append,fallbackBlocks_headings runBefore,List.nil_append]
    exact (HeadingConstruct.blocks_climbs member way read here runHeading).append (ih later others behind runAfter)

theorem leafBlocks_climbs (sound : loader.catalogue.Sound) (sits : Sits whole offset t)
    (run : (loader.leafBlocks offset t last).outcome = .ok (blocks,next)) : Climbs whole last (headings blocks) next := by
  have climbs := leafBlocksFrom_climbs (HeadingConstruct.findAll_follow sound.standard_headings t) sound.headings_found
    sits run
  exact climbs

theorem matchBlocks_headings {tried : Nat} {construct : BlockConstruct} {loading : Loading} {m : Match}
    (run : (loader.matchBlocks tried construct loading offset m).outcome = .ok blocks) : headings blocks = [] := by
  obtain ⟨paragraphs,_,rfl⟩ := matchBlocks_ok run
  exact headings_place _ _ _

theorem blocksAround_climbs {below : Nat → Text → LastLevel → Logged (List PlacedBlock × LastLevel)}
    {loadMatch : Match → Logged (List PlacedBlock)} {found : List Match}
    (climbs : ∀ {offset t last blocks next}, Sits whole offset t → (below offset t last).outcome = .ok (blocks,next) →
      Climbs whole last (headings blocks) next)
    (none : ∀ {m blocks}, (loadMatch m).outcome = .ok blocks → headings blocks = [])
    (follow : Match.Follow (fun _ => True) position t found) (sits : Sits whole (offset + position) t)
    (run : (blocksAround below loadMatch offset position t last found).outcome = .ok (blocks,next)) :
    Climbs whole last (headings blocks) next := by
  have gap : ∀ {offset t last blocks next}, Sits whole offset t →
      (gapBlocks below offset t last).outcome = .ok (blocks,next) → Climbs whole last (headings blocks) next := by
    intro offset t last blocks next sits run
    rcases gapBlocks_ok run with ⟨_,rfl,rfl⟩ | run
    · exact .nil
    · exact climbs sits run
  induction found generalizing position t last blocks with
  | nil => exact gap sits run
  | cons m found ih =>
    obtain ⟨before,level,here,after,runBefore,runHere,runAfter,rfl⟩ := blocksAround_ok run
    obtain ⟨front,behind,_,later⟩ := sits.cut follow
    rw [headings_append,headings_append,none runHere,List.append_nil]
    exact (gap front runBefore).append (ih later behind runAfter)

theorem partition_climbs (sound : loader.catalogue.Sound) {constructs : List BlockConstruct} (sits : Sits whole offset t)
    (run : (loader.partition constructs offset t last).outcome = .ok (blocks,next)) :
    Climbs whole last (headings blocks) next := by
  induction constructs generalizing offset t last blocks next with
  | nil => exact leafBlocks_climbs sound sits run
  | cons construct rest ih =>
    rcases partition_ok run with below | ⟨_,_,found,matched,around⟩
    · exact ih sits below
    · exact blocksAround_climbs ih matchBlocks_headings (construct.blockMatches_follow matched) sits around

-- The headings of a text stand in order, and each has the level that its marker asks for after the one before. None of them
-- stands in the text of a paragraph.
theorem headings_climb {catalogue : Catalogue} (derived : catalogue.Derived) (settings : LoadSettings)
    (loaded : (load catalogue settings t).outcome = .ok blocks) :
    (headings blocks).Pairwise (fun one two => one.1 < two.1) ∧
      (∃ asked : List HeadingLevel,
        List.Forall₂ (fun heading level => HeadingLevel.asked? (t.drop heading.1) = some level) (headings blocks) asked ∧
          (headings blocks).map (fun heading => heading.2.level) = HeadingLevel.levelsFrom none asked) ∧
      (∀ heading ∈ headings blocks, 1 ≤ heading.2.level ∧ heading.2.level ≤ 6) ∧
      ∀ block ∈ blocks, ∀ other ∈ blocks, ∀ heading paragraph, block.content = .heading heading →
        other.content = .paragraph paragraph → block.stop ≤ other.start ∨ other.stop ≤ block.start := by
  obtain ⟨unsorted,partitioned,same⟩ := Logged.outcome_bind_ok.mp loaded
  have partitions := partitionAt_partitions derived partitioned
  rw [partitions.sorted] at same
  cases same
  unfold partitionAt at partitioned
  split at partitioned
  · cases partitioned
  · obtain ⟨⟨_,next⟩,run,same⟩ := Logged.outcome_bind_ok.mp partitioned
    cases same
    have whole : Sits t 0 t := ⟨[],by simp⟩
    have climbs := partition_climbs derived.sound whole run
    refine ⟨?rising,climbs.levels,?proper,?apart⟩
    case rising =>
      refine List.pairwise_filterMap.mpr (partitions.rising.imp ?_)
      intro one two before first isFirst second isSecond
      rw [← heading_start isFirst,← heading_start isSecond]
      exact before
    case proper => exact climbs.proper nofun
    case apart =>
      intro block member other isOther heading paragraph isHeading isParagraph
      have distinct : block ≠ other := by
        rintro rfl
        cases isHeading.symm.trans isParagraph
      have mutually : Std.Symm fun one two : PlacedBlock => one.stop ≤ two.start ∨ two.stop ≤ one.start := ⟨fun _ _ => Or.symm⟩
      have apart : blocks.Pairwise fun one two => one.stop ≤ two.start ∨ two.stop ≤ one.start :=
        partitions.apart.imp Or.inl
      exact apart.forall member isOther distinct

def quoteBetween : List PlacedBlock := [
  ⟨0,4,.heading ⟨2,"a",none,none⟩⟩,
  ⟨6,10,.heading ⟨3,"b",none,none⟩⟩,
  ⟨12,17,.paragraph (.container "> # c" "extended-block-quote" none .quote "quote" [])⟩,
  ⟨19,23,.heading ⟨3,"d",none,none⟩⟩,
  ⟨24,28,.heading ⟨2,"e",none,none⟩⟩]

theorem load_quoteBetween (inline : List Construct) :
    (load ⟨inline,Block.standard,some Block.fallback,HeadingConstruct.standard⟩ {}
      "#2 a\n\n#+ b\n\n> # c\n\n#= d\n#- e").outcome = .ok quoteBetween := by
  unfold quoteBetween Block.standard Block.code Block.math Block.styledWithId Block.identified Block.table
    Block.quote Block.focus Block.list Block.abridgedTodo Block.multilineTodo Block.todo Block.pageBreak
    Block.lineBreakByDashes Block.lineBreakByStars Block.lineBreakByPluses Block.imageRow Block.abridgedImage Block.image
    Block.comment Block.todoOpening Block.nuidTemplate
  repeat rw [Text.ofString_ofList]
  cbv

-- The heading in the quote is no heading of the text, and the one behind it is at the level of the one before it.
theorem headings_climb_around :
    (load Catalogue.standard {} "#2 a\n\n#+ b\n\n> # c\n\n#= d\n#- e").outcome = .ok quoteBetween ∧
      (∃ asked : List HeadingLevel, List.Forall₂ (fun heading level => HeadingLevel.asked?
          (List.drop heading.1 "#2 a\n\n#+ b\n\n> # c\n\n#= d\n#- e") = some level) (headings quoteBetween) asked ∧
        [2,3,3,2] = HeadingLevel.levelsFrom none asked) ∧
      ∀ heading ∈ headings quoteBetween, 1 ≤ heading.2.level ∧ heading.2.level ≤ 6 := by
  have loaded : (load Catalogue.standard {} "#2 a\n\n#+ b\n\n> # c\n\n#= d\n#- e").outcome = .ok quoteBetween :=
    load_quoteBetween Inline.standard
  obtain ⟨_,climbs,proper,_⟩ := headings_climb .standard {} loaded
  exact ⟨loaded,climbs,proper⟩

end Loader
end LightMarkup
