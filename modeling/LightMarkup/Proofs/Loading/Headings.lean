import LightMarkup.Proofs.Loading.Pieces
import LightMarkup.Proofs.Logged

/-!
Headings: a heading block takes its line up to the end of the title, each tag line is a block, and so is the style.
What lies between these is blank, so together they cover the match.
-/

namespace LightMarkup
namespace HeadingConstruct

open Pattern
open Inline (char onLine)
open Block (restOfLine optionalReturn)

variable {marker : Pattern} {m : Match} {c stop : Cursor} {g : Captures} {offset : Nat} {t : Text}
  {blocks : List PlacedBlock}

theorem restOfLine_blank : restOfLine.Only fun x => Text.isBlank x = true :=
  ⟨⟨gaps_blank,one_blank rfl⟩,trivial⟩

-- The title ends the line but for blanks, and before it something stands on the line.
theorem lineOf_parts (groupless : marker.groups = []) (found : (stop,g) ∈ (lineOf marker).ways c) :
    ∃ (titleStart titleStop : Cursor) (line rest : Text), g = [⟨titleGroup,titleStart,titleStop⟩] ∧
      c.Reads line titleStop ∧ line ≠ [] ∧ titleStop.Reads rest stop ∧ Blank rest := by
  obtain ⟨titleStop,_,_,front,closing,rfl⟩ := seq_parts found
  obtain ⟨titleStart,_,_,opening,title,rfl⟩ := seq_parts front
  obtain ⟨⟨t,readTitle⟩,rfl⟩ := group_parts rfl title
  obtain ⟨rest,readRest,blank⟩ := ways_only restOfLine_blank _ _ closing
  have noneOpening := no_captures (by simp [append_eq,groups,groupless,plus]) opening
  have noneClosing := no_captures rfl closing
  obtain ⟨marked,_,_,start,gap,_⟩ := seq_parts opening
  obtain ⟨mark,readMark⟩ := ways_reads start
  obtain ⟨blanks,readGap,some⟩ := plus_reads gap
  dsimp only at noneOpening noneClosing
  exact ⟨titleStart,titleStop,mark ++ blanks ++ t,rest,by rw [noneOpening,noneClosing]; rfl,
    (readMark.append readGap).append readTitle,by simp [some],readRest,blank⟩

-- The braces around a style belong to its block.
theorem styleLine_parts (found : (stop,g) ∈ styleLine.ways c) :
    ∃ (first styleStart styleStop last : Cursor) (lead inner trail : Text), g = [⟨styleGroup,styleStart,styleStop⟩] ∧
      c.Reads lead first ∧ Blank lead ∧ first.Reads inner last ∧ inner ≠ [] ∧
      styleStart.position = first.position + 1 ∧ last.position = styleStop.position + 1 ∧
      last.Reads trail stop ∧ Blank trail := by
  obtain ⟨spaced,_,_,trailed,ahead,rfl⟩ := seq_parts found
  obtain ⟨last,_,_,closed,trailing,rfl⟩ := seq_parts trailed
  obtain ⟨styleStop,_,_,styled,closing,rfl⟩ := seq_parts closed
  obtain ⟨styleStart,_,_,opened,style,rfl⟩ := seq_parts styled
  obtain ⟨first,_,_,leading,opening,rfl⟩ := seq_parts opened
  obtain ⟨seen,_,same⟩ := mem_waysAhead ahead
  cases same
  obtain ⟨⟨inner,readStyle⟩,rfl⟩ := group_parts rfl style
  obtain ⟨readOpening,noneOpening⟩ := literal_reads opening
  obtain ⟨readClosing,noneClosing⟩ := literal_reads closing
  obtain ⟨lead,readLead,blankLead⟩ := ways_only lineBreak_blank _ _ leading
  obtain ⟨trail,readTrail,blankTrail⟩ := ways_only gaps_blank _ _ trailing
  have noneAhead := no_captures rfl ahead
  have noneLead := no_captures rfl leading
  have noneTrail := no_captures rfl trailing
  have brace : (Text.ofString "\x7b").length = 1 := by decide_cbv
  have brace' : (Text.ofString "\x7d").length = 1 := by decide_cbv
  have start := readOpening.position
  have stop := readClosing.position
  dsimp only at noneOpening noneClosing noneAhead noneLead noneTrail start stop
  refine ⟨first,styleStart,styleStop,last,lead,_,trail,?_,readLead,blankLead,
    (readOpening.append readStyle).append readClosing,?_,?_,?_,readTrail,blankTrail⟩
  · rw [noneOpening,noneClosing,noneAhead,noneLead,noneTrail]
    rfl
  · intro none
    have length := congrArg List.length none
    simp only [List.length_append,brace,List.length_nil] at length
    omega
  · rw [start,brace]
  · rw [stop,brace']

theorem nonBlankLine_passes (before : Text) (x : Char) (rest : Text)
    (none : nonBlankLine.matchSomeAt? ⟨before,x :: rest⟩ = none) : Text.isBlank x = true := by
  cases blank : Text.isBlank x with
  | true => rfl
  | false =>
    -- The character alone would have been a match.
    have here : ((⟨x :: before,rest⟩ : Cursor),[]) ∈ nonBlankLine.ways ⟨before,x :: rest⟩ := by
      have inSet : (CharSet.complement .blank).contains x = true := by simp [CharSet.contains,blank]
      refine mem_seq.mpr ⟨(⟨x :: before,rest⟩,[]),?_,(⟨x :: before,rest⟩,[]),many_none _ _,rfl⟩
      exact mem_seq.mpr ⟨(⟨before,x :: rest⟩,[]),many_none _ _,(⟨x :: before,rest⟩,[]),
        mem_char.mpr ⟨x,⟨x :: before,rest⟩,rfl,inSet,rfl⟩,rfl⟩
    have more := matchSomeAt_none.mp none _ here
    exact absurd more (Nat.not_succ_le_self rest.length)

theorem tagsOfLines_spans {ms : List Match} (parsed : tagsOfLines offset ms = .ok blocks) :
    blocks.map PlacedBlock.span = (ms.map Match.span).map fun span => (offset + span.1,offset + span.2) := by
  induction ms generalizing blocks with
  | nil => cases parsed; rfl
  | cons m ms ih =>
    obtain ⟨tag,_,parsed⟩ := Failure.bind_ok.mp parsed
    obtain ⟨others,later,same⟩ := Failure.bind_ok.mp parsed
    cases same
    rw [List.map_cons,ih later]
    rfl

theorem tagsOfLines_tag {ms : List Match} (parsed : tagsOfLines offset ms = .ok blocks) :
    ∀ block ∈ blocks, ∃ tag, block.content = .tag tag := by
  induction ms generalizing blocks with
  | nil =>
    cases parsed
    exact List.forall_mem_nil _
  | cons m ms ih =>
    obtain ⟨tag,_,parsed⟩ := Failure.bind_ok.mp parsed
    obtain ⟨others,later,same⟩ := Failure.bind_ok.mp parsed
    cases same
    exact List.forall_mem_cons.mpr ⟨⟨tag,rfl⟩,ih later⟩

theorem tags_covered (parsed : tags offset t = .ok blocks) : Covered offset t (blocks.map PlacedBlock.span) := by
  rw [tagsOfLines_spans parsed]
  exact (Covered.of_follow (occurrences_follow nonBlankLine t nonBlankLine_passes)).shift offset

-- The tags and the style of a heading, as its match captures them.
theorem patternOf_parts (groupless : marker.groups = []) (way : m.IsWay (patternOf marker)) :
    ∃ (titleStart titleStop tagsStart tagsStop : Cursor) (line rest tagText : Text) (g : Captures),
      m.captures = g ++ [⟨tagsGroup,tagsStart,tagsStop⟩,⟨titleGroup,titleStart,titleStop⟩] ∧
      m.start.Reads line titleStop ∧ line ≠ [] ∧ titleStop.Reads rest tagsStart ∧ Blank rest ∧
      tagsStart.Reads tagText tagsStop ∧
      ((m.stop,g) ∈ styleLine.ways tagsStop ∨ m.stop = tagsStop ∧ g = []) := by
  obtain ⟨tagsStop,_,g,front,style,captures⟩ := seq_parts way
  obtain ⟨tagsStart,_,_,heading,tagged,rfl⟩ := seq_parts front
  obtain ⟨titleStart,titleStop,line,rest,rfl,readLine,some,readRest,blank⟩ := lineOf_parts groupless heading
  obtain ⟨⟨tagText,readTags⟩,rfl⟩ :=
    group_parts (by simp [tagLines,append_eq,orElse_eq,groups,many,plus,maybe,lineBreak,Inline.char,onLine]) tagged
  refine ⟨titleStart,titleStop,tagsStart,tagsStop,line,rest,tagText,g,captures,readLine,some,readRest,blank,readTags,?_⟩
  rcases mem_maybe style with styled | none
  · exact Or.inl styled
  · exact Or.inr (Prod.mk.inj none)

theorem patternOf_reads (groupless : marker.groups = []) (way : m.IsWay (patternOf marker)) :
    ∃ inner, m.start.Reads inner m.stop ∧ inner ≠ [] := by
  obtain ⟨_,_,_,_,line,rest,tagText,_,_,readLine,some,readRest,_,readTags,style⟩ := patternOf_parts groupless way
  have front := readLine.append (readRest.append readTags)
  rcases style with styled | ⟨stop,_⟩
  · obtain ⟨back,read⟩ := ways_reads styled
    exact ⟨_,front.append read,by simp [some]⟩
  · exact ⟨_,stop ▸ front,by simp [some]⟩

theorem style_captures {tagsStop : Cursor} (style : (m.stop,g) ∈ styleLine.ways tagsStop ∨ m.stop = tagsStop ∧ g = []) :
    ∀ k ∈ g, k.group = styleGroup := by
  rcases style with styled | ⟨_,rfl⟩
  · obtain ⟨_,_,_,_,_,_,_,rfl,_⟩ := styleLine_parts styled
    simp
  · exact List.forall_mem_nil _

-- The captures of a style stand before those of the tags and the title.
theorem heading_captures {tagsStart tagsStop titleStart titleStop : Cursor}
    (captures : m.captures = g ++ [⟨tagsGroup,tagsStart,tagsStop⟩,⟨titleGroup,titleStart,titleStop⟩])
    (outer : ∀ k ∈ g, k.group = styleGroup) :
    m.capture? titleGroup = some ⟨titleGroup,titleStart,titleStop⟩ ∧
      m.capture? tagsGroup = some ⟨tagsGroup,tagsStart,tagsStop⟩ ∧ m.capture? styleGroup = g.head? := by
  have others : ∀ n, n ≠ styleGroup → g.find? (fun k => k.group == n) = none := by
    intro n other
    refine List.find?_eq_none.mpr fun k member => ?_
    simpa [outer k member] using Ne.symm other
  refine ⟨?_,?_,?_⟩
  · rw [Match.capture?,if_neg (by decide),captures,List.find?_append,others titleGroup (by decide)]
    rfl
  · rw [Match.capture?,if_neg (by decide),captures,List.find?_append,others tagsGroup (by decide)]
    rfl
  · rw [Match.capture?,if_neg (by decide),captures]
    cases g with
    | nil => rfl
    | cons k rest => rw [List.cons_append,List.find?_cons_of_pos (by simp [outer k])]; rfl

-- What is read behind the tags: the style with its braces, or nothing.
theorem styleTag_covered {tagsStop : Cursor} (style : (m.stop,g) ∈ styleLine.ways tagsStop ∨ m.stop = tagsStop ∧ g = [])
    (captured : m.capture? styleGroup = g.head?) (offset : Nat) :
    ∃ inner, tagsStop.Reads inner m.stop ∧
      Covered (offset + tagsStop.position) inner ((styleTag offset m).map PlacedBlock.span) := by
  rcases style with styled | ⟨stop,rfl⟩
  · obtain ⟨first,styleStart,styleStop,last,lead,inner,trail,rfl,readLead,blankLead,readStyle,some,opening,closing,
      readTrail,blankTrail⟩ := styleLine_parts styled
    have firstStop := readLead.position
    have lastStop := readStyle.position
    have tag : (styleTag offset m).map PlacedBlock.span = [(offset + first.position,offset + last.position)] := by
      simp only [styleTag,Match.groupSpan?,captured,List.head?_cons,Option.map_some,List.map_cons,List.map_nil,
        PlacedBlock.span]
      rw [show offset + styleStart.position - 1 = offset + first.position by omega,
        show offset + styleStop.position + 1 = offset + last.position by omega]
    have covered : Covered (offset + tagsStop.position) (lead ++ (inner ++ trail))
        [(offset + tagsStop.position + lead.length,offset + tagsStop.position + lead.length + inner.length)] :=
      .span blankLead some (.blank blankTrail)
    rw [Nat.add_assoc offset,← firstStop,Nat.add_assoc offset,← lastStop] at covered
    exact ⟨_,readLead.append (readStyle.append readTrail),tag ▸ covered⟩
  · have none : styleTag offset m = [] := by simp [styleTag,Match.groupSpan?,captured]
    rw [none,stop]
    exact ⟨[],.refl _,.blank (List.forall_mem_nil _)⟩

theorem blocks_covered {last next : LastLevel} {construct : HeadingConstruct} (groupless : marker.groups = [])
    (pattern : construct.pattern = patternOf marker) (way : m.IsWay construct.pattern)
    (run : (construct.blocks offset last m).outcome = .ok (blocks,next)) :
    ∃ inner, m.start.Reads inner m.stop ∧ Covered (offset + m.start.position) inner (blocks.map PlacedBlock.span) := by
  rw [pattern] at way
  obtain ⟨titleStart,titleStop,tagsStart,tagsStop,line,rest,tagText,g,captures,readLine,some,readRest,blank,readTags,
    style⟩ := patternOf_parts groupless way
  obtain ⟨level,_,run⟩ := Logged.outcome_bind_ok.mp run
  obtain ⟨tagBlocks,parsed,same⟩ := Logged.outcome_bind_ok.mp run
  cases same
  obtain ⟨title,tagged,styled⟩ := heading_captures captures (style_captures style)
  have lineStop := readLine.position
  have restStop := readRest.position
  have tagsEnd := readTags.position
  -- The heading and its tags cover what is read up to the end of the tags.
  have front : Covered (offset + m.start.position) (line ++ (rest ++ tagText))
      ((offset + m.start.position,offset + titleStop.position) :: tagBlocks.map PlacedBlock.span) := by
    have tags := tags_covered parsed
    simp only [Match.group,Match.group?,Match.groupSpan?,tagged,Option.map_some,Option.getD_some,
      readTags.textTo] at tags
    have head := Covered.whole (offset + m.start.position) some
    rw [Nat.add_assoc,← lineStop] at head
    refine head.append (.gap blank ?_)
    rwa [Nat.add_assoc offset,← lineStop,Nat.add_assoc offset,← restStop]
  obtain ⟨inner,readStyle,back⟩ := styleTag_covered style styled offset
  have titleEnd : ((m.groupSpan? titleGroup).map (·.2)).getD m.stop.position = titleStop.position := by
    simp [Match.groupSpan?,title]
  have reached : offset + m.start.position + (line ++ (rest ++ tagText)).length = offset + tagsStop.position := by
    simp only [List.length_append]
    omega
  refine ⟨_,(readLine.append (readRest.append readTags)).append readStyle,?_⟩
  rw [titleEnd,List.map_append]
  exact front.append (reached ▸ back)

theorem standard_marked {construct : HeadingConstruct} (member : construct ∈ standard) :
    ∃ marker : Pattern, marker.groups = [] ∧ construct.pattern = patternOf marker := by
  have groupless (n : Nat) : (exactly n (char '#')).groups = [] := rfl
  simp only [standard,List.mem_append,List.mem_cons,List.not_mem_nil,or_false,List.mem_flatMap] at member
  rcases member with (rfl | rfl | rfl) | ⟨level,_,rfl | rfl⟩
  · exact ⟨_,literal_groups _,rfl⟩
  · exact ⟨_,literal_groups _,rfl⟩
  · exact ⟨_,literal_groups _,rfl⟩
  · exact ⟨_,groupless level,rfl⟩
  · exact ⟨_,by simp [append_eq,groups],rfl⟩

theorem findAt_first {construct : HeadingConstruct} {constructs : List HeadingConstruct} {m : Match}
    (found : construct.pattern.matchAt? c = some m) :
    findAt? (construct :: constructs) c = some (construct,m) := by
  rw [findAt?,List.findSome?_cons,found]
  rfl

theorem findAt_behind {construct : HeadingConstruct} {constructs : List HeadingConstruct}
    (none : construct.pattern.matchAt? c = none) :
    findAt? (construct :: constructs) c = findAt? constructs c := by
  rw [findAt?,List.findSome?_cons,none]
  rfl

theorem findAt_found {constructs : List HeadingConstruct} {found : HeadingConstruct × Match}
    (finds : findAt? constructs c = some found) :
    found.1 ∈ constructs ∧ found.2.start = c ∧ found.2.IsWay found.1.pattern := by
  obtain ⟨construct,member,here⟩ := List.exists_of_findSome?_eq_some finds
  obtain ⟨m,matched,rfl⟩ := Option.map_eq_some_iff.mp here
  obtain ⟨start,way⟩ := matchAt_way matched
  exact ⟨member,start,way⟩

theorem findAt_finds {constructs : List HeadingConstruct} (known : constructs ⊆ standard) :
    Finds (findAt? constructs) Prod.snd where
  start finds := (findAt_found finds).2.1
  reads := by
    intro c found finds
    obtain ⟨member,rfl,way⟩ := findAt_found finds
    obtain ⟨marker,groupless,pattern⟩ := standard_marked (known member)
    exact patternOf_reads groupless (pattern ▸ way)

theorem findAll_follow {constructs : List HeadingConstruct} (known : constructs ⊆ standard) (t : Text) :
    Match.Follow (fun _ => True) 0 t ((findAll constructs t).map Prod.snd) :=
  scanFrom_follow (findAt_finds known) (fun _ _ _ _ => trivial) t [] 0 (Nat.zero_le _)

theorem findAll_found {constructs : List HeadingConstruct} (known : constructs ⊆ standard) :
    ∀ found ∈ findAll constructs t, found.1 ∈ constructs ∧ found.2.IsWay found.1.pattern := by
  intro found member
  have here := findAt_found (scanFrom_found (findAt_finds known) t [] 0 found member)
  exact ⟨here.1,here.2.2⟩

end HeadingConstruct
end LightMarkup
