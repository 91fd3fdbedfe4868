import LightMarkup.Proofs.Loading.Titles

/-!
Loading undoes writing. Each block construct takes the blocks of its own kind, whole, out of what the constructs before
it have left, and passes over all others; what it leaves are again blocks with blank lines between them, and in the end
headings and paragraphs.
-/

namespace LightMarkup

open Pattern

namespace Item

-- A block for the construct that is tried after so many others.
def Own (tried : Nat) (item : Item) : Prop :=
  ∃ written, item = .block written ∧ written.kind.rank = tried

end Item

namespace Block

variable {construct : BlockConstruct} {written : Written} {before rest : Text}

-- The construct for a block takes the block.
theorem pattern_taken (known : standard[written.kind.rank]? = some construct) (clear : Shut before) (shut : Shut rest) :
    ∃ m, construct.pattern.matchAt? ⟨before,written.text ++ rest⟩ = some m ∧
      (Item.block written).Whole ⟨before,written.text ++ rest⟩ m := by
  cases written with
  | paragraph | heading => cases known
  | code body fenceless returnless =>
    obtain rfl : code = construct := Option.some.inj known
    have spelled : (Written.code body fenceless returnless).text = "```" ++ '\n' :: (body ++ '\n' :: "```") := by
      simp [Written.text,Text.ofString_eq]
    have begins : (Written.code body fenceless returnless).text ++ rest =
        "```" ++ '\n' :: (body ++ '\n' :: ("```" ++ rest)) := by
      rw [spelled]
      simp
    refine ⟨_,code_taken .nil fenceless returnless shut (c := ⟨before,_ ++ rest⟩) begins,rfl,?_⟩
    rw [Item.text,spelled,fence]
    simp
  | table first others =>
    obtain rfl : table = construct := Option.some.inj known
    have inside : table.pattern.reach Kind.table.chars .inside = .inside := by decide_cbv
    have some : 0 < (Written.table first others).kind.rank := Nat.succ_pos _
    exact solid_taken (Written.solid some) inside (Written.chars_kind some) shut (takes_table clear shut)
  | list first others =>
    obtain rfl : list = construct := Option.some.inj known
    have inside : list.pattern.reach Kind.list.chars .inside = .inside := by decide +kernel
    have some : 0 < (Written.list first others).kind.rank := Nat.succ_pos _
    exact solid_taken (Written.solid some) inside (Written.chars_kind some) shut (takes_list clear)
  | rule mark =>
    have inside : (rule mark.char).reach [mark.char] .inside = .inside := by cases mark <;> decide
    have some : 0 < (Written.rule mark).kind.rank := by cases mark <;> exact Nat.succ_pos _
    have own : construct.pattern = rule mark.char := by
      cases mark <;> cases Option.some.inj known <;> rfl
    have taken := rule_taken mark clear shut
    rw [own]
    exact solid_taken (Written.solid some) inside (Written.chars_kind some) shut taken

theorem block_taken (known : standard[written.kind.rank]? = some construct) (clear : Shut before) (shut : Shut rest) :
    ∃ m, construct.blockAt? ⟨before,written.text ++ rest⟩ = some m ∧
      (Item.block written).Whole ⟨before,written.text ++ rest⟩ m := by
  obtain ⟨m,found,whole⟩ := pattern_taken known clear shut
  refine ⟨m,?_,whole⟩
  rw [blockAt_some (List.mem_of_getElem? known) found,if_pos (shut_blockStart clear)]

-- And makes one paragraph of it.
theorem block_loaded {loading : Loading} (known : standard[written.kind.rank]? = some construct)
    (rule : construct.loading = some loading) (settings : LoadSettings) (nested : Nested) :
    ∃ paragraph, (loading.load settings nested construct written.text).outcome = .ok [paragraph] ∧
      written.content = .paragraph paragraph := by
  cases written with
  | paragraph | heading => cases known
  | code | table | list =>
    obtain rfl := Option.some.inj known
    cases rule
    exact ⟨_,rfl,rfl⟩
  | rule mark =>
    cases mark <;>
    · obtain rfl := Option.some.inj known
      cases rule
      exact ⟨_,rfl,rfl⟩

variable {items : List Item} {tried : Nat}

-- What a construct finds in blocks that the constructs before it have left.
theorem blockMatches_cut (known : standard[tried]? = some construct) (left : ∀ item ∈ items, item.Left tried)
    (alternate : Alternate items) :
    ∃ ms, construct.blockMatches (spell items) = .ok ms ∧
      Cut (·.Left (tried + 1)) (fun item c m => item.Own tried ∧ item.Whole c m) [] items ms := by
  have some : ∀ {c : Cursor} {m : Match}, construct.pattern.matchAt? c = some m → m.length ≠ 0 :=
    standard_some (List.mem_of_getElem? known)
  refine ⟨_,BlockConstruct.matchesFrom_ok some _ _ _,?_⟩
  refine scan_cut construct.blockAt_finds.not_at_end ?_ alternate fun _ _ _ => Or.inl rfl
  intro item member before rest fits
  cases item with
  | gap => exact Or.inl ⟨trivial,fun n inner => gap_passed known inner before rest⟩
  | block written =>
    obtain ⟨clear,shut⟩ := fits
    rcases Nat.eq_or_lt_of_le (left _ member) with own | later
    · subst own
      obtain ⟨m,found,whole⟩ := block_taken known clear shut
      refine Or.inr ⟨Item.text_some _,m,found,?_,⟨written,rfl,rfl⟩,whole⟩
      rw [Match.length,whole.stop_position,whole.start_position,Nat.add_sub_cancel_left]
    · exact Or.inl ⟨later,fun n inner => block_passed known later clear shut inner⟩

end Block

namespace Loader

variable {loader : Loader} {items : List Item} {last : LastLevel} {offset tried : Nat}

theorem matchBlocks_own {construct : BlockConstruct} {loading : Loading} {written : Written} {m : Match}
    (known : Block.standard[written.kind.rank]? = some construct) (rule : construct.loading = some loading)
    (text : m.text = written.text) :
    ∃ blocks, (loader.matchBlocks tried construct loading offset m).outcome = .ok blocks ∧
      blocks.map (·.content) = contents [.block written] := by
  obtain ⟨paragraph,loaded,content⟩ := Block.block_loaded known rule loader.settings (loader.nested tried)
  rw [← text] at loaded
  refine ⟨_,Logged.outcome_bind_ok.mpr ⟨_,rfl,Logged.outcome_bind_ok.mpr ⟨_,loaded,rfl⟩⟩,?_⟩
  rw [PlacedBlock.place_contents,List.map_singleton,← content]
  rfl

-- From any block construct on.
theorem partition_restores (catalogue : loader.catalogue = Catalogue.standard) {constructs : List BlockConstruct}
    (rest : Block.standard.drop tried = constructs) (left : ∀ item ∈ items, item.Left tried) (alternate : Alternate items) :
    Restores items (loader.partition constructs offset (spell items) last) := by
  induction constructs generalizing tried items offset last with
  | nil =>
    have all : Block.standard.length ≤ tried := List.drop_eq_nil_iff.mp rest
    refine leafBlocks_restores catalogue (fun item member => ?_) alternate
    cases item with
    | gap => trivial
    | block written => exact Nat.le_trans all (left _ member)
  | cons construct constructs ih =>
    have known : Block.standard[tried]? = some construct := by
      rw [← List.head?_drop,rest]
      rfl
    have next : Block.standard.drop (tried + 1) = constructs := by
      rw [← List.drop_drop,rest]
      rfl
    obtain ⟨loading,rule⟩ := Block.standard_loading (List.mem_of_getElem? known)
    obtain ⟨ms,found,cut⟩ := Block.blockMatches_cut known left alternate
    have own : ∀ {item : Item} {m : Match}, item.Own tried → m.text = item.text → ∃ blocks,
        (loader.matchBlocks (loader.catalogue.blocks.length - constructs.length) construct loading offset m).outcome
          = .ok blocks ∧ blocks.map (·.content) = contents [item] := by
      rintro item m ⟨written,rfl,rfl⟩ text
      exact matchBlocks_own known rule text
    have all : Alternate ([] ++ items) := alternate
    have none : ([] : Text).length = 0 + (spell []).length := rfl
    obtain ⟨blocks,level,ran,same⟩ : Restores ([] ++ items) (blocksAround (partition loader constructs)
        (loader.matchBlocks (loader.catalogue.blocks.length - constructs.length) construct loading offset) offset 0
          (spell ([] ++ items)) last ms) :=
      blocksAround_cut (fun alternate kept => ih next kept alternate) own cut all (List.forall_mem_nil _) none
    refine ⟨blocks,level,?_,same⟩
    rw [partition,rule]
    exact Logged.outcome_bind_ok.mpr ⟨ms,found,ran⟩

end Loader

namespace Item

-- Blocks with one blank line between each two of them.
def separated : List Written → List Item
  | [] => []
  | first :: others => .block first :: others.flatMap fun written => [.gap,.block written]

variable (document : List Written)

theorem separated_alternate : Alternate (separated document) := by
  cases document with
  | nil => exact .nil
  | cons first others =>
    induction others generalizing first with
    | nil => exact .singleton _
    | cons next others ih => exact .cons_cons Bool.false_ne_true (.cons_cons Bool.false_ne_true.symm (ih next))

theorem separated_text : spell (separated document) = Text.join "\n\n" (document.map Written.text) := by
  cases document with
  | nil => rfl
  | cons first others =>
    have newlines : ("\n\n" : Text) = ['\n','\n'] := by rw [Text.ofString_eq]; rfl
    rw [List.map_cons,Text.join_cons,newlines]
    simp [separated,spell,Item.text,List.flatMap_assoc,List.flatMap_map]

theorem separated_contents : contents (separated document) = document.map Written.content := by
  cases document with
  | nil => rfl
  | cons first others =>
    rw [List.map_cons,List.map_eq_flatMap,contents,separated,List.filterMap_cons,List.filterMap_flatMap]
    rfl

end Item

namespace Loader

-- What loading makes of written blocks with blank lines between them: the blocks.
theorem load_restores (settings : LoadSettings) (deep : 0 ≤ settings.maxDepth) (document : List Written) :
    ∃ blocks, (load Catalogue.standard settings (Text.join "\n\n" (document.map Written.text))).outcome = .ok blocks ∧
      blocks.map (·.content) = document.map Written.content := by
  obtain ⟨levels,depth⟩ : ∃ levels, settings.levelsFrom 0 = levels + 1 :=
    ⟨settings.maxDepth.toNat,by rw [LoadSettings.levelsFrom]; omega⟩
  have left : ∀ item ∈ Item.separated document, item.Left 0 := by
    intro item _
    cases item with
    | gap => trivial
    | block written => exact Nat.zero_le _
  obtain ⟨blocks,next,ran,same⟩ : Restores (Item.separated document)
      (partition ⟨Catalogue.standard,settings,Nested.within Catalogue.standard settings levels Nested.room⟩ Block.standard 0
        (spell (Item.separated document)) none) :=
    partition_restores rfl rfl left (Item.separated_alternate document)
  rw [Item.separated_text] at ran
  have partitioned : (partitionAt Catalogue.standard settings 0 0 0
      (Text.join "\n\n" (document.map Written.text))).outcome = .ok blocks := by
    rw [partitionAt,depth]
    exact Logged.outcome_bind_ok.mpr ⟨_,ran,rfl⟩
  refine ⟨blocks,Logged.outcome_bind_ok.mpr ⟨blocks,partitioned,?_⟩,same.trans (Item.separated_contents document)⟩
  rw [(partitionAt_partitions .standard partitioned).sorted]
  rfl

-- Code that looks like a heading and a list stays code, and a rule stays a rule in front of a list.
theorem load_restores_code : 0 ≤ ({} : LoadSettings).maxDepth ∧
    ∃ blocks, (load Catalogue.standard {} "## a b\n\n```\n# c\n\n- d\n```\n\n---\n\n- e").outcome = .ok blocks ∧
      blocks.map (·.content) = [.heading { level := 2, title := "a b" },.paragraph (Block.code.leafOf "```\n# c\n\n- d\n```"),
        .paragraph (Block.lineBreakByDashes.leafOf "---"),.paragraph (Block.list.leafOf "- e")] := by
  have deep : 0 ≤ ({} : LoadSettings).maxDepth := by decide
  have fenceless : ¬ ("```" : Text) <:+: ['#',' ','c','\n','\n','-',' ','d'] := by
    rw [Block.fence]
    decide
  obtain ⟨blocks,ran,same⟩ := load_restores {} deep
    [.heading 2 ⟨['a',' ','b'],rfl,rfl,rfl⟩ (by decide),.code ['#',' ','c','\n','\n','-',' ','d'] fenceless (by decide),
      .rule .dash,.list ⟨['e'],rfl,rfl,rfl⟩ []]
  refine ⟨deep,blocks,?_,?_⟩
  · simpa [Written.text,Text.join_cons,Text.ofString_eq,Mark.char] using ran
  · simpa [Written.content,Written.text,Text.join_cons,Text.ofString_eq,Mark.char,Mark.construct] using same

end Loader
end LightMarkup
