import LightMarkup.Proofs.Loading.Headings

/-!
The partition of a text. Whatever of the standard constructs is left in a catalogue, with or without their loading
rules, the blocks of a text stand in its order, apart from each other and inside it, and only blanks are left over:
each construct cuts the text into matches and what lies around them, and both are covered.
-/

namespace LightMarkup
namespace Catalogue

-- What becomes of the standard catalogue when constructs or their loading rules are taken away.
inductive Derived : Catalogue → Prop where
  | standard : Derived standard
  | retain {c : Catalogue} (names : List String) (derived : Derived c) : Derived (c.retain names)
  | remove {c : Catalogue} (names : List String) (derived : Derived c) : Derived (c.remove names)
  | unload {c : Catalogue} (names : List String) (derived : Derived c) : Derived (c.unload names)

-- What the partition relies on: only the fallback makes several paragraphs of one text.
structure Sound (c : Catalogue) : Prop where
  blocks : ∀ construct ∈ c.blocks, construct.loading ≠ some .common
  fallback : ∀ construct ∈ c.fallback, ∀ loading ∈ construct.loading, loading = .common
  headings : c.headings = HeadingConstruct.standard

theorem Sound.standard_headings {c : Catalogue} (sound : Sound c) : c.headings ⊆ HeadingConstruct.standard := by
  rw [sound.headings]
  exact List.Subset.refl _

theorem Sound.headings_found {c : Catalogue} (sound : Sound c) {t : Text} : ∀ held ∈ HeadingConstruct.findAll c.headings t,
    held.1 ∈ HeadingConstruct.standard ∧ held.2.IsWay held.1.pattern := by
  intro held member
  have here := HeadingConstruct.findAll_found sound.standard_headings held member
  exact ⟨sound.standard_headings here.1,here.2⟩

theorem Sound.filter {c : Catalogue} (sound : Sound c) (keeps : String → Bool) : Sound (c.filter keeps) := by
  refine ⟨fun construct member => sound.blocks construct (List.mem_filter.mp member).1,fun construct member => ?_,
    sound.headings⟩
  exact sound.fallback construct (Option.mem_filter_iff.mp member).1

theorem unloadConstruct_loading (names : List String) (construct : BlockConstruct) :
    ∀ loading ∈ (unloadConstruct names construct).loading, loading ∈ construct.loading := by
  intro loading member
  unfold unloadConstruct at member
  split at member
  · cases member
  · exact member

theorem Sound.unload {c : Catalogue} (sound : Sound c) (names : List String) : Sound (c.unload names) := by
  refine ⟨fun construct member common => ?_,fun construct member loading isLoading => ?_,sound.headings⟩
  · obtain ⟨kept,isKept,rfl⟩ := List.mem_map.mp member
    exact sound.blocks kept isKept (unloadConstruct_loading names kept _ common)
  · obtain ⟨kept,isKept,rfl⟩ := Option.map_eq_some_iff.mp member
    exact sound.fallback kept isKept loading (unloadConstruct_loading names kept loading isLoading)

theorem Derived.sound {c : Catalogue} (derived : Derived c) : Sound c := by
  induction derived with
  | standard =>
    have blocks : Block.standard.all (fun construct => construct.loading != some .common) = true := by decide
    refine ⟨fun construct member => by simpa using List.all_eq_true.mp blocks construct member,?_,rfl⟩
    rintro construct same loading isLoading
    cases same
    cases isLoading
    rfl
  | retain names _ ih => exact ih.filter _
  | remove names _ ih => exact ih.filter _
  | unload names _ ih => exact ih.unload names

end Catalogue

namespace BlockConstruct

open Pattern

variable {construct : BlockConstruct} {ms : List Match}

-- A match that makes a block: it is not empty, and a block may start where it does.
def blockAt? (construct : BlockConstruct) (c : Cursor) : Option Match :=
  (construct.pattern.matchAt? c).filter fun m => m.length != 0 && m.start.isBlockStart

theorem blockAt_finds (construct : BlockConstruct) : Finds construct.blockAt? id where
  start found := (matchAt_way (Option.filter_eq_some_iff.mp found).1).1
  reads := by
    intro c m found
    obtain ⟨matched,good⟩ := Option.filter_eq_some_iff.mp found
    obtain ⟨rfl,way⟩ := matchAt_way matched
    obtain ⟨inner,read⟩ := way.reads
    refine ⟨inner,read,?_⟩
    rintro rfl
    simp [Match.length,read.position] at good

-- The search only fails where it would find an empty match.
theorem matchesFrom_fails (t before : Text) (skip : Nat) :
    construct.matchesFrom before skip t = .ok (scanFrom Match.length construct.blockAt? before skip t) ∨
      (∃ failure, construct.matchesFrom before skip t = .error failure) ∧
        ∃ c m, construct.pattern.matchAt? c = some m ∧ m.length = 0 := by
  induction t generalizing before skip with
  | nil =>
    cases skip with
    | succ skip => exact Or.inl rfl
    | zero =>
      simp only [matchesFrom,scanFrom,construct.blockAt_finds.not_at_end]
      cases found : construct.pattern.matchAt? ⟨before,[]⟩ with
      | none => exact Or.inl rfl
      | some m =>
        obtain ⟨start,way⟩ := matchAt_way found
        obtain ⟨t,read⟩ := way.reads
        have ahead := read.1
        rw [start] at ahead
        have length := read.position
        rw [(List.append_eq_nil_iff.mp ahead.symm).1,List.length_nil] at length
        exact Or.inr ⟨⟨_,rfl⟩,_,m,found,by rw [Match.length,length,Nat.add_zero,Nat.sub_self]⟩
  | cons x rest ih =>
    cases skip with
    | succ skip => exact ih (x :: before) skip
    | zero =>
      simp only [matchesFrom,scanFrom,blockAt?]
      cases found : construct.pattern.matchAt? ⟨before,x :: rest⟩ with
      | none => exact ih (x :: before) 0
      | some m =>
        by_cases empty : m.length = 0
        · simp only [if_pos empty]
          exact Or.inr ⟨⟨_,rfl⟩,_,m,found,empty⟩
        · cases start : m.start.isBlockStart with
          | true =>
            simp only [empty,start,↓reduceIte,Option.filter,bne_iff_ne,ne_eq,not_false_eq_true,Bool.and_true]
            rcases ih (x :: before) (m.length - 1) with same | ⟨⟨failure,stopped⟩,none⟩
            · rw [same]
              exact Or.inl rfl
            · rw [stopped]
              exact Or.inr ⟨⟨failure,rfl⟩,none⟩
          | false =>
            simp only [empty,start,↓reduceIte,Option.filter,Bool.and_false,Bool.false_eq_true]
            exact ih (x :: before) 0

theorem matchesFrom_scan (t before : Text) (skip : Nat) (ms : List Match)
    (found : construct.matchesFrom before skip t = .ok ms) : ms = scanFrom Match.length construct.blockAt? before skip t := by
  rcases matchesFrom_fails t before skip with same | ⟨⟨failure,stopped⟩,_⟩
  · rw [same] at found
    exact (Except.ok.inj found).symm
  · rw [stopped] at found
    cases found

-- Without empty matches it does not fail.
theorem matchesFrom_ok (some : ∀ {c m}, construct.pattern.matchAt? c = some m → m.length ≠ 0) (t before : Text) (skip : Nat) :
    construct.matchesFrom before skip t = .ok (scanFrom Match.length construct.blockAt? before skip t) := by
  rcases matchesFrom_fails t before skip with same | ⟨_,c,m,found,empty⟩
  · exact same
  · exact absurd empty (some found)

theorem blockMatches_follow {t : Text} (found : construct.blockMatches t = .ok ms) :
    Match.Follow (fun _ => True) 0 t ms := by
  rw [matchesFrom_scan t [] 0 ms found]
  have follow :=
    scanFrom_follow construct.blockAt_finds (P := fun _ => True) (fun _ _ _ _ => trivial) t [] 0 (Nat.zero_le _)
  rw [List.map_id] at follow
  exact follow

-- Each of them is found where it stands in the text.
theorem blockMatches_found {t : Text} (found : construct.blockMatches t = .ok ms) :
    ∀ m ∈ ms, construct.blockAt? m.start = some m ∧ m.start.text = t := by
  intro m member
  rw [matchesFrom_scan t [] 0 ms found] at member
  exact ⟨scanFrom_found construct.blockAt_finds t [] 0 m member,scanFrom_text construct.blockAt_finds t [] 0 m member⟩

end BlockConstruct

namespace Loading

variable {settings : LoadSettings} {nested : Nested} {construct : BlockConstruct} {raw : Text} {loading : Loading}
  {paragraphs : List Paragraph}

theorem load_single (single : loading ≠ .common)
    (run : (loading.load settings nested construct raw).outcome = .ok paragraphs) :
    ∃ paragraph, paragraphs = [paragraph] := by
  cases loading with
  | common => exact absurd rfl single
  | replacement => cases run; exact ⟨_,rfl⟩
  | list => cases run; exact ⟨_,rfl⟩
  | table => cases run; exact ⟨_,rfl⟩
  | image =>
    obtain ⟨image,_,same⟩ := Logged.outcome_bind_ok.mp run
    cases same
    exact ⟨_,rfl⟩
  | imageRow =>
    obtain ⟨row,_,same⟩ := Logged.outcome_bind_ok.mp run
    cases same
    exact ⟨_,rfl⟩
  | quote =>
    obtain ⟨⟨type,body⟩,_,inside⟩ := Logged.outcome_bind_ok.mp run
    obtain ⟨within,_,same⟩ := Logged.outcome_bind_ok.mp inside
    cases same
    exact ⟨_,rfl⟩
  | focus =>
    simp only [load] at run
    split at run
    · cases run
    · obtain ⟨within,_,same⟩ := Logged.outcome_bind_ok.mp run
      cases same
      exact ⟨_,rfl⟩

-- A single paragraph has the whole text that it was loaded from.
theorem load_covered (single : loading ≠ .common) (some : raw ≠ [])
    (run : (loading.load settings nested construct raw).outcome = .ok paragraphs) (offset : Nat) :
    Covered offset raw ((PlacedBlock.place offset raw paragraphs).map PlacedBlock.span) := by
  obtain ⟨paragraph,rfl⟩ := load_single single run
  refine PlacedBlock.place_covered offset ?_
  simpa [PlacedBlock.spans] using Covered.whole 0 some

theorem load_common_covered (some : raw ≠ [])
    (run : (Loading.common.load settings nested construct raw).outcome = .ok paragraphs) (offset : Nat) :
    Covered offset raw ((PlacedBlock.place offset raw paragraphs).map PlacedBlock.span) := by
  cases run
  have raws : ((pieces raw).map fun piece => Paragraph.common piece construct.name).map Paragraph.raw = pieces raw := by
    rw [List.map_map]
    exact List.map_id _
  refine PlacedBlock.place_covered offset ?_
  rw [raws]
  exact PlacedBlock.spans_laid (pieces_laid raw) some

end Loading

namespace Loader

variable {loader : Loader} {offset position : Nat} {t : Text} {last next : LastLevel} {blocks : List PlacedBlock}

-- A text is blank, or the fallback loads it.
theorem fallbackBlocks_ok (run : (loader.fallbackBlocks offset t).outcome = .ok blocks) :
    (Text.isAllBlank t = true ∧ blocks = []) ∨ t ≠ [] ∧ ∃ construct ∈ loader.catalogue.fallback,
      ∃ loading ∈ construct.loading, ∃ paragraphs,
        (loading.load loader.settings (loader.nested 0) construct t).outcome = .ok paragraphs ∧
          blocks = PlacedBlock.place offset t paragraphs := by
  unfold fallbackBlocks at run
  split at run
  · rename_i blank
    cases run
    exact Or.inl ⟨blank,rfl⟩
  · rename_i written
    split at run
    · cases run
    · rename_i construct loading found
      obtain ⟨fallback,isFallback,mapped⟩ := Option.bind_eq_some_iff.mp found
      obtain ⟨rule,isRule,same⟩ := Option.map_eq_some_iff.mp mapped
      cases same
      obtain ⟨paragraphs,loaded,placed⟩ := Logged.outcome_bind_ok.mp run
      cases placed
      exact Or.inr ⟨fun none => written (by rw [none]; rfl),_,isFallback,_,isRule,_,loaded,rfl⟩

-- A heading stands between what the fallback makes of the text before it and the blocks after it.
theorem leafBlocksFrom_ok {construct : HeadingConstruct} {m : Match} {found : List (HeadingConstruct × Match)}
    (run : (loader.leafBlocksFrom offset position t last ((construct,m) :: found)).outcome = .ok (blocks,next)) :
    ∃ before heading level after,
      (loader.fallbackBlocks (offset + position) (t.take (m.start.position - position))).outcome = .ok before ∧
      (construct.blocks offset last m).outcome = .ok (heading,level) ∧
      (loader.leafBlocksFrom offset m.stop.position (t.drop (m.stop.position - position)) level found).outcome =
        .ok (after,next) ∧ blocks = before ++ heading ++ after := by
  obtain ⟨before,runBefore,afterBefore⟩ := Logged.outcome_bind_ok.mp run
  obtain ⟨⟨heading,level⟩,runHeading,afterHeading⟩ := Logged.outcome_bind_ok.mp afterBefore
  obtain ⟨⟨after,final⟩,runAfter,same⟩ := Logged.outcome_bind_ok.mp afterHeading
  cases same
  exact ⟨before,heading,level,after,runBefore,runHeading,runAfter,rfl⟩

theorem matchBlocks_ok {tried : Nat} {construct : BlockConstruct} {loading : Loading} {m : Match}
    (run : (loader.matchBlocks tried construct loading offset m).outcome = .ok blocks) : ∃ paragraphs,
      (loading.load loader.settings (loader.nested tried) construct m.text).outcome = .ok paragraphs ∧
        blocks = PlacedBlock.place (offset + m.start.position) m.text paragraphs := by
  obtain ⟨_,_,load⟩ := Logged.outcome_bind_ok.mp run
  obtain ⟨paragraphs,loaded,same⟩ := Logged.outcome_bind_ok.mp load
  cases same
  exact ⟨paragraphs,loaded,rfl⟩

section

variable {below : Nat → Text → LastLevel → Logged (List PlacedBlock × LastLevel)}
  {loadMatch : Match → Logged (List PlacedBlock)} {m : Match} {found : List Match}

-- What is made of a text around the blocks of a construct: nothing of an empty one.
def gapBlocks (below : Nat → Text → LastLevel → Logged (List PlacedBlock × LastLevel)) (offset : Nat) (t : Text)
    (last : LastLevel) : Logged (List PlacedBlock × LastLevel) :=
  if t.isEmpty then pure ([],last) else below offset t last

theorem gapBlocks_ok (run : (gapBlocks below offset t last).outcome = .ok (blocks,next)) :
    (t = [] ∧ blocks = [] ∧ next = last) ∨ (below offset t last).outcome = .ok (blocks,next) := by
  unfold gapBlocks at run
  split at run
  · rename_i empty
    cases run
    exact Or.inl ⟨List.isEmpty_iff.mp empty,rfl,rfl⟩
  · exact Or.inr run

theorem blocksAround_nil : blocksAround below loadMatch offset position t last [] =
    gapBlocks below (offset + position) t last := rfl

theorem blocksAround_cons : blocksAround below loadMatch offset position t last (m :: found) = (do
    let (before,level) ← gapBlocks below (offset + position) (t.take (m.start.position - position)) last
    let here ← loadMatch m
    let (after,next) ← blocksAround below loadMatch offset m.stop.position (t.drop (m.stop.position - position)) level found
    pure (before ++ here ++ after,next)) := by
  rw [blocksAround,gapBlocks]
  exact (apply_ite (fun gap => gap >>= _) _ _ _).symm

-- A match stands between what is made of the text before it and the blocks after it.
theorem blocksAround_ok
    (run : (blocksAround below loadMatch offset position t last (m :: found)).outcome = .ok (blocks,next)) :
    ∃ before level here after,
      (gapBlocks below (offset + position) (t.take (m.start.position - position)) last).outcome = .ok (before,level) ∧
      (loadMatch m).outcome = .ok here ∧
      (blocksAround below loadMatch offset m.stop.position (t.drop (m.stop.position - position)) level found).outcome =
        .ok (after,next) ∧ blocks = before ++ here ++ after := by
  rw [blocksAround_cons] at run
  obtain ⟨⟨before,level⟩,runBefore,afterBefore⟩ := Logged.outcome_bind_ok.mp run
  obtain ⟨here,runHere,afterHere⟩ := Logged.outcome_bind_ok.mp afterBefore
  obtain ⟨⟨after,final⟩,runAfter,same⟩ := Logged.outcome_bind_ok.mp afterHere
  cases same
  exact ⟨before,level,here,after,runBefore,runHere,runAfter,rfl⟩

end

-- A construct without a loading rule is passed over, and one with a rule loads its matches.
theorem partition_ok {construct : BlockConstruct} {rest : List BlockConstruct}
    (run : (loader.partition (construct :: rest) offset t last).outcome = .ok (blocks,next)) :
    (loader.partition rest offset t last).outcome = .ok (blocks,next) ∨ ∃ loading ∈ construct.loading, ∃ found,
      construct.blockMatches t = .ok found ∧
        (blocksAround (loader.partition rest)
          (loader.matchBlocks (loader.catalogue.blocks.length - rest.length) construct loading offset) offset 0 t last
          found).outcome = .ok (blocks,next) := by
  simp only [partition] at run
  split at run
  · split at run
    · obtain ⟨_,stopped,_⟩ := Logged.outcome_bind_ok.mp run
      cases stopped
    · obtain ⟨_,_,below⟩ := Logged.outcome_bind_ok.mp run
      exact Or.inl below
  · rename_i loading isLoading
    obtain ⟨found,matched,around⟩ := Logged.outcome_bind_ok.mp run
    exact Or.inr ⟨loading,isLoading,found,matched,around⟩

theorem fallbackBlocks_covered (sound : loader.catalogue.Sound)
    (run : (loader.fallbackBlocks offset t).outcome = .ok blocks) :
    Covered offset t (blocks.map PlacedBlock.span) := by
  rcases fallbackBlocks_ok run with ⟨blank,rfl⟩ | ⟨some,construct,isFallback,loading,isRule,paragraphs,loaded,rfl⟩
  · exact .blank (List.all_eq_true.mp blank)
  · obtain rfl := sound.fallback _ isFallback _ isRule
    exact Loading.load_common_covered some loaded offset

theorem leafBlocksFrom_covered (sound : loader.catalogue.Sound) {found : List (HeadingConstruct × Match)}
    (follow : Match.Follow (fun _ => True) position t (found.map Prod.snd))
    (known : ∀ held ∈ found, held.1 ∈ HeadingConstruct.standard ∧ held.2.IsWay held.1.pattern)
    (run : (loader.leafBlocksFrom offset position t last found).outcome = .ok (blocks,next)) :
    Covered (offset + position) t (blocks.map PlacedBlock.span) := by
  induction found generalizing position t last blocks with
  | nil =>
    obtain ⟨_,fallback,same⟩ := Logged.outcome_bind_ok.mp run
    cases same
    exact fallbackBlocks_covered sound fallback
  | cons held found ih =>
    obtain ⟨construct,m⟩ := held
    obtain ⟨⟨isStandard,way⟩,others⟩ := List.forall_mem_cons.mp known
    obtain ⟨marker,groupless,pattern⟩ := HeadingConstruct.standard_marked isStandard
    obtain ⟨before,heading,level,after,runBefore,runHeading,runAfter,rfl⟩ := leafBlocksFrom_ok run
    obtain ⟨_,_,_,_,_,later⟩ := follow.cut
    rw [List.map_append,List.map_append]
    refine .around follow (fallbackBlocks_covered sound runBefore) (fun inner read _ => ?_) (ih later others runAfter)
    obtain ⟨_,readHeading,covered⟩ := HeadingConstruct.blocks_covered groupless pattern way runHeading
    rwa [← readHeading.textTo,read.textTo] at covered

theorem leafBlocks_covered (sound : loader.catalogue.Sound)
    (run : (loader.leafBlocks offset t last).outcome = .ok (blocks,next)) :
    Covered offset t (blocks.map PlacedBlock.span) := by
  have covered := leafBlocksFrom_covered sound (HeadingConstruct.findAll_follow sound.standard_headings t)
    sound.headings_found run
  exact covered

theorem matchBlocks_covered {tried : Nat} {construct : BlockConstruct} {loading : Loading} {m : Match} {inner : Text}
    (single : loading ≠ .common) (read : m.start.Reads inner m.stop) (some : inner ≠ [])
    (run : (loader.matchBlocks tried construct loading offset m).outcome = .ok blocks) :
    Covered (offset + m.start.position) inner (blocks.map PlacedBlock.span) := by
  obtain ⟨paragraphs,loaded,rfl⟩ := matchBlocks_ok run
  have text : m.text = inner := read.textTo
  rw [text] at loaded ⊢
  exact Loading.load_covered single some loaded _

section

variable {below : Nat → Text → LastLevel → Logged (List PlacedBlock × LastLevel)}
  {loadMatch : Match → Logged (List PlacedBlock)}

-- Around the matches of one construct, whatever the constructs below it cover.
theorem blocksAround_covered {found : List Match}
    (covers : ∀ {offset t last blocks next}, (below offset t last).outcome = .ok (blocks,next) →
      Covered offset t (blocks.map PlacedBlock.span))
    (covers_match : ∀ {m inner blocks}, m.start.Reads inner m.stop → inner ≠ [] → (loadMatch m).outcome = .ok blocks →
      Covered (offset + m.start.position) inner (blocks.map PlacedBlock.span))
    (follow : Match.Follow (fun _ => True) position t found)
    (run : (blocksAround below loadMatch offset position t last found).outcome = .ok (blocks,next)) :
    Covered (offset + position) t (blocks.map PlacedBlock.span) := by
  have covers_gap : ∀ {offset t last blocks next}, (gapBlocks below offset t last).outcome = .ok (blocks,next) →
      Covered offset t (blocks.map PlacedBlock.span) := by
    intro offset t last blocks next run
    rcases gapBlocks_ok run with ⟨rfl,rfl,_⟩ | run
    · exact .blank (List.forall_mem_nil _)
    · exact covers run
  induction found generalizing position t last blocks with
  | nil => exact covers_gap run
  | cons m found ih =>
    obtain ⟨before,level,here,after,runBefore,runHere,runAfter,rfl⟩ := blocksAround_ok run
    obtain ⟨_,_,_,_,_,later⟩ := follow.cut
    rw [List.map_append,List.map_append]
    exact .around follow (covers_gap runBefore) (fun inner read some => covers_match read some runHere) (ih later runAfter)

end

theorem partition_covered (sound : loader.catalogue.Sound) {constructs : List BlockConstruct}
    (known : ∀ construct ∈ constructs, construct.loading ≠ some .common)
    (run : (loader.partition constructs offset t last).outcome = .ok (blocks,next)) :
    Covered offset t (blocks.map PlacedBlock.span) := by
  induction constructs generalizing offset t last blocks next with
  | nil => exact leafBlocks_covered sound run
  | cons construct rest ih =>
    obtain ⟨single,others⟩ := List.forall_mem_cons.mp known
    rcases partition_ok run with below | ⟨loading,isLoading,found,matched,around⟩
    · exact ih others below
    · have notCommon : loading ≠ .common := fun common => single (isLoading.trans (congrArg _ common))
      have covers_match : ∀ {m inner blocks}, m.start.Reads inner m.stop → inner ≠ [] →
          (loader.matchBlocks (loader.catalogue.blocks.length - rest.length) construct loading offset m).outcome
            = .ok blocks → Covered (offset + m.start.position) inner (blocks.map PlacedBlock.span) :=
        fun read some runHere => matchBlocks_covered notCommon read some runHere
      have covered := blocksAround_covered (ih others) covers_match (construct.blockMatches_follow matched) around
      exact covered

variable {catalogue : Catalogue} {settings : LoadSettings}

theorem partition_partitions (derived : catalogue.Derived) {nested : Nat → Nested} {index : Nat}
    (run : (partition ⟨catalogue,settings,nested⟩ (catalogue.blocks.drop index) offset t last).outcome
      = .ok (blocks,next)) :
    Partitions offset t blocks := by
  have known : ∀ construct ∈ catalogue.blocks.drop index, construct.loading ≠ some .common :=
    fun construct member => derived.sound.blocks construct (List.mem_of_mem_drop member)
  exact (partition_covered derived.sound known run).partitions

theorem partitionAt_partitions (derived : catalogue.Derived) {depth : Int} {index : Nat}
    (run : (partitionAt catalogue settings depth index offset t).outcome = .ok blocks) :
    Partitions offset t blocks := by
  unfold partitionAt at run
  split at run
  · cases run
  · obtain ⟨⟨blocks,next⟩,partitioned,same⟩ := Logged.outcome_bind_ok.mp run
    cases same
    exact partition_partitions derived partitioned

-- Whenever a partition succeeds, its blocks stand in order and apart from each other inside the text, and only blanks
-- are left over. So loading a text succeeds with the blocks of its partition as they are.
theorem partition_covers (derived : catalogue.Derived) (settings : LoadSettings) :
    (∀ (nested : Nat → Nested) (index offset : Nat) (t : Text) (last next : LastLevel) (blocks : List PlacedBlock),
      (partition ⟨catalogue,settings,nested⟩ (catalogue.blocks.drop index) offset t last).outcome = .ok (blocks,next) →
        Partitions offset t blocks ∧ sortBlocks blocks = blocks) ∧
    (∀ (depth : Int) (index offset : Nat) (t : Text) (blocks : List PlacedBlock),
      (partitionAt catalogue settings depth index offset t).outcome = .ok blocks →
        Partitions offset t blocks ∧ sortBlocks blocks = blocks) ∧
    ∀ t : Text, (load catalogue settings t).outcome = (partitionAt catalogue settings 0 0 0 t).outcome := by
  refine ⟨?_,?_,?_⟩
  · intro nested index offset t last next blocks run
    have partitions := partition_partitions derived run
    exact ⟨partitions,partitions.sorted⟩
  · intro depth index offset t blocks run
    have partitions := partitionAt_partitions derived run
    exact ⟨partitions,partitions.sorted⟩
  · intro t
    unfold load
    cases run : (partitionAt catalogue settings 0 0 0 t).outcome with
    | error failure => rw [Logged.bind_error run]
    | ok blocks =>
      rw [Logged.bind_ok run,(partitionAt_partitions derived run).sorted]
      rfl

theorem partition_covers_reduced :
    ∃ blocks, blocks.map PlacedBlock.span = [(5,8),(8,12),(12,15),(17,18),(20,21)] ∧
      Partitions 5 "# a\nb\n\n***\n\nc\n\nd" blocks ∧ sortBlocks blocks = blocks := by
  have derived : ((Catalogue.standard.remove ["table"]).unload ["list"]).Derived := .unload _ (.remove _ .standard)
  have spans : (partitionAt ((Catalogue.standard.remove ["table"]).unload ["list"]) {} 0 0 5
      "# a\nb\n\n***\n\nc\n\nd").outcome.toOption.map (fun blocks => blocks.map PlacedBlock.span) =
      some [(5,8),(8,12),(12,15),(17,18),(20,21)] := by decide +kernel
  cases run : (partitionAt ((Catalogue.standard.remove ["table"]).unload ["list"]) {} 0 0 5
      "# a\nb\n\n***\n\nc\n\nd").outcome with
  | error failure =>
    rw [run] at spans
    cases spans
  | ok blocks =>
    rw [run] at spans
    exact ⟨blocks,Option.some.inj spans,(partition_covers derived {}).2.1 0 0 5 _ blocks run⟩

end Loader
end LightMarkup
