import LightMarkup.Proofs.Loading.Partition

/-!
Where the paragraphs of a text come from. What holds of every paragraph that a construct of the catalogue makes, of a
match where a block may start or of the text that is left for the fallback, holds of every paragraph loaded, at any
depth.
-/

namespace LightMarkup

def Nested.Yields (P : Paragraph → Prop) (nested : Nested) : Prop :=
  ∀ t paragraphs, (nested t).outcome = .ok paragraphs → ∀ paragraph ∈ paragraphs, P paragraph

-- What the constructs of a catalogue make satisfies `P` if what they find inside does.
structure Catalogue.Makes (catalogue : Catalogue) (settings : LoadSettings) (P : Paragraph → Prop) : Prop where
  block : ∀ construct ∈ catalogue.blocks, ∀ loading ∈ construct.loading, ∀ {c m}, construct.blockAt? c = some m →
    ∀ {nested}, Nested.Yields P nested → ∀ {paragraphs},
      (loading.load settings nested construct m.text).outcome = .ok paragraphs → ∀ paragraph ∈ paragraphs, P paragraph
  fallback : ∀ construct ∈ catalogue.fallback, ∀ loading ∈ construct.loading, ∀ {raw nested}, Nested.Yields P nested →
    ∀ {paragraphs}, (loading.load settings nested construct raw).outcome = .ok paragraphs →
      ∀ paragraph ∈ paragraphs, P paragraph

namespace Paragraph

-- A paragraph itself, or one in the container that it is.
inductive Inside (p : Paragraph) : Paragraph → Prop where
  | self : Inside p p
  | nested {raw : Text} {construct : String} {nuid : Option Text} {kind : ContainerKind} {type : Text}
      {nested : List Paragraph} {q : Paragraph} (member : q ∈ nested) (inside : Inside p q) :
      Inside p (.container raw construct nuid kind type nested)

-- It holds of a paragraph and of all inside it.
def Throughout (P : Paragraph → Prop) (p : Paragraph) : Prop :=
  ∀ q, Inside q p → P q

-- It holds of every text that a construct rewrites as a whole, and of the construct.
def Replaces (P : Text → Construct → Prop) (p : Paragraph) : Prop :=
  ∀ raw name nuid c, Inside (.leaf raw name nuid (.replacement c)) p → P raw c

theorem replaces_leaf {P : Text → Construct → Prop} {raw : Text} {name : String} {nuid : Option Text} {body : Leaf} :
    Replaces P (.leaf raw name nuid body) ↔ ∀ c, body = .replacement c → P raw c := by
  constructor
  · rintro each c rfl
    exact each _ _ _ _ .self
  · intro here raw name nuid c inside
    cases inside
    exact here c rfl

theorem replaces_container {P : Text → Construct → Prop} {raw : Text} {name : String} {nuid : Option Text}
    {kind : ContainerKind} {type : Text} {nested : List Paragraph} :
    Replaces P (.container raw name nuid kind type nested) ↔ ∀ p ∈ nested, Replaces P p := by
  constructor
  · exact fun each p member raw name nuid c inside => each _ _ _ _ (.nested member inside)
  · intro all raw name nuid c inside
    cases inside with
    | nested member inside => exact all _ member _ _ _ _ inside

end Paragraph

namespace Loading

-- What a loading makes of the text of a block, with `P` for what stands in a container.
inductive Gives (P : Paragraph → Prop) (construct : BlockConstruct) (raw : Text) : Loading → Paragraph → Prop where
  | common (piece : Text) : Gives P construct raw .common (.common piece construct.name)
  | replacement (pieces : List Piece) : Gives P construct raw (.replacement pieces)
      (.leaf raw construct.name none (.replacement ⟨construct.name,construct.pattern,construct.excluded,.pieces pieces⟩))
  | list : Gives P construct raw .list (.leaf raw construct.name none .list)
  | table : Gives P construct raw .table (.leaf raw construct.name none .table)
  | image (image : Image) : Gives P construct raw .image (.leaf raw construct.name none (.image image))
  | imageRow (images : List Image) (alignment : Text) :
      Gives P construct raw .imageRow (.leaf raw construct.name none (.imageRow images alignment))
  | quote (type : Text) {nested : List Paragraph} (all : ∀ paragraph ∈ nested, P paragraph) :
      Gives P construct raw .quote (.container raw construct.name none .quote type nested)
  | focus (type : Text) {nested : List Paragraph} (all : ∀ paragraph ∈ nested, P paragraph) :
      Gives P construct raw .focus (.container raw construct.name none .focus type nested)

theorem load_gives {P : Paragraph → Prop} {settings : LoadSettings} {nested : Nested} {construct : BlockConstruct}
    {raw : Text} {loading : Loading} {paragraphs : List Paragraph} (inside : Nested.Yields P nested)
    (run : (loading.load settings nested construct raw).outcome = .ok paragraphs) :
    ∀ paragraph ∈ paragraphs, loading.Gives P construct raw paragraph := by
  cases loading with
  | common =>
    cases run
    intro paragraph member
    obtain ⟨piece,_,rfl⟩ := List.mem_map.mp member
    exact .common piece
  | replacement pieces =>
    cases run
    exact List.forall_mem_singleton.mpr (.replacement pieces)
  | list =>
    cases run
    exact List.forall_mem_singleton.mpr .list
  | table =>
    cases run
    exact List.forall_mem_singleton.mpr .table
  | image =>
    obtain ⟨image,_,same⟩ := Logged.outcome_bind_ok.mp run
    cases same
    exact List.forall_mem_singleton.mpr (.image image)
  | imageRow =>
    obtain ⟨row,_,same⟩ := Logged.outcome_bind_ok.mp run
    cases same
    exact List.forall_mem_singleton.mpr (.imageRow _ _)
  | quote =>
    obtain ⟨⟨type,body⟩,_,loads⟩ := Logged.outcome_bind_ok.mp run
    obtain ⟨held,loaded,same⟩ := Logged.outcome_bind_ok.mp loads
    cases same
    exact List.forall_mem_singleton.mpr (.quote _ (inside body held loaded))
  | focus =>
    simp only [Loading.load] at run
    split at run
    · cases run
    · obtain ⟨held,loaded,same⟩ := Logged.outcome_bind_ok.mp run
      cases same
      exact List.forall_mem_singleton.mpr (.focus _ (inside _ held loaded))

-- What holds of a paragraph as it is made holds of those inside it too.
theorem Gives.throughout {P : Paragraph → Prop} {construct : BlockConstruct} {raw : Text} {loading : Loading}
    {p : Paragraph} (gives : loading.Gives (Paragraph.Throughout P) construct raw p) (here : P p) :
    Paragraph.Throughout P p := by
  intro q inside
  cases inside with
  | self => exact here
  | nested member inside =>
    cases gives with
    | quote type all => exact all _ member q inside
    | focus type all => exact all _ member q inside

end Loading

-- What every construct makes of its blocks holds of all paragraphs, at any depth.
theorem Catalogue.makes_throughout {catalogue : Catalogue} {settings : LoadSettings} {P : Paragraph → Prop}
    (block : ∀ construct ∈ catalogue.blocks, ∀ loading ∈ construct.loading, ∀ {c m}, construct.blockAt? c = some m →
      ∀ {p}, loading.Gives (Paragraph.Throughout P) construct m.text p → P p)
    (fallback : ∀ construct ∈ catalogue.fallback, ∀ loading ∈ construct.loading, ∀ {raw p},
      loading.Gives (Paragraph.Throughout P) construct raw p → P p) :
    catalogue.Makes settings (Paragraph.Throughout P) where
  block := by
    intro construct member loading isLoading c m found nested inside paragraphs run paragraph isParagraph
    have gives := Loading.load_gives inside run paragraph isParagraph
    exact gives.throughout (block construct member loading isLoading found gives)
  fallback := by
    intro construct member loading isLoading raw nested inside paragraphs run paragraph isParagraph
    have gives := Loading.load_gives inside run paragraph isParagraph
    exact gives.throughout (fallback construct member loading isLoading gives)

namespace PlacedBlock

-- The paragraphs among blocks satisfy `P`.
def Every (P : Paragraph → Prop) (blocks : List PlacedBlock) : Prop :=
  ∀ block ∈ blocks, ∀ paragraph, block.content = .paragraph paragraph → P paragraph

variable {P : Paragraph → Prop} {blocks others : List PlacedBlock}

theorem Every.append (one : Every P blocks) (two : Every P others) : Every P (blocks ++ others) :=
  List.forall_mem_append.mpr ⟨one,two⟩

theorem every_place {offset : Nat} {t : Text} {paragraphs : List Paragraph} (all : ∀ paragraph ∈ paragraphs, P paragraph) :
    Every P (place offset t paragraphs) := by
  intro block member paragraph isParagraph
  obtain ⟨⟨held,span⟩,isHeld,rfl⟩ := List.mem_map.mp member
  cases isParagraph
  exact all _ (List.of_mem_zip isHeld).1

end PlacedBlock

namespace HeadingConstruct

open PlacedBlock

variable {P : Paragraph → Prop}

theorem tagsOfLines_every {offset : Nat} {ms : List Match} {blocks : List PlacedBlock}
    (read : tagsOfLines offset ms = .ok blocks) : Every P blocks := by
  intro block member paragraph isParagraph
  obtain ⟨tag,isTag⟩ := tagsOfLines_tag read block member
  rw [isTag] at isParagraph
  cases isParagraph

-- A heading brings no paragraph.
theorem blocks_every {offset : Nat} {last next : LastLevel} {construct : HeadingConstruct} {m : Match}
    {blocks : List PlacedBlock} (run : (construct.blocks offset last m).outcome = .ok (blocks,next)) : Every P blocks := by
  obtain ⟨level,_,rest⟩ := Logged.outcome_bind_ok.mp run
  obtain ⟨tags,read,same⟩ := Logged.outcome_bind_ok.mp rest
  cases same
  have heading : ∀ {start stop heading}, Every P (⟨start,stop,.heading heading⟩ :: tags) :=
    List.forall_mem_cons.mpr ⟨fun _ isParagraph => (nomatch isParagraph),tagsOfLines_every read⟩
  refine heading.append ?_
  unfold styleTag
  split
  · exact List.forall_mem_nil _
  · exact List.forall_mem_singleton.mpr fun _ isParagraph => nomatch isParagraph

end HeadingConstruct

namespace Loader

open PlacedBlock

variable {P : Paragraph → Prop} {loader : Loader} {offset position : Nat} {t : Text} {last next : LastLevel}
  {blocks : List PlacedBlock}

theorem leafBlocksFrom_every {found : List (HeadingConstruct × Match)}
    (fallback : ∀ {offset t blocks}, (loader.fallbackBlocks offset t).outcome = .ok blocks → Every P blocks)
    (run : (loader.leafBlocksFrom offset position t last found).outcome = .ok (blocks,next)) : Every P blocks := by
  induction found generalizing position t last blocks with
  | nil =>
    obtain ⟨_,left,same⟩ := Logged.outcome_bind_ok.mp run
    cases same
    exact fallback left
  | cons held found ih =>
    obtain ⟨before,heading,level,after,runBefore,runHeading,runAfter,rfl⟩ := leafBlocksFrom_ok run
    exact ((fallback runBefore).append (HeadingConstruct.blocks_every runHeading)).append (ih runAfter)

section

variable (makes : loader.catalogue.Makes loader.settings P) (inside : ∀ tried, (loader.nested tried).Yields P)
include makes inside

theorem fallbackBlocks_every (run : (loader.fallbackBlocks offset t).outcome = .ok blocks) : Every P blocks := by
  rcases fallbackBlocks_ok run with ⟨_,rfl⟩ | ⟨_,construct,isFallback,loading,isRule,paragraphs,loaded,rfl⟩
  · exact List.forall_mem_nil _
  · exact every_place (makes.fallback _ isFallback _ isRule (inside 0) loaded)

theorem matchBlocks_every {tried : Nat} {construct : BlockConstruct} {loading : Loading} {m : Match}
    (known : construct ∈ loader.catalogue.blocks) (isLoading : loading ∈ construct.loading)
    (found : construct.blockAt? m.start = some m)
    (run : (loader.matchBlocks tried construct loading offset m).outcome = .ok blocks) : Every P blocks := by
  obtain ⟨paragraphs,loaded,rfl⟩ := matchBlocks_ok run
  exact every_place (makes.block construct known loading isLoading found (inside tried) loaded)

end

theorem blocksAround_every {below : Nat → Text → LastLevel → Logged (List PlacedBlock × LastLevel)}
    {loadMatch : Match → Logged (List PlacedBlock)} {found : List Match}
    (every_below : ∀ {offset t last blocks next}, (below offset t last).outcome = .ok (blocks,next) → Every P blocks)
    (every_match : ∀ m ∈ found, ∀ {blocks}, (loadMatch m).outcome = .ok blocks → Every P blocks)
    (run : (blocksAround below loadMatch offset position t last found).outcome = .ok (blocks,next)) : Every P blocks := by
  have every_gap : ∀ {offset t last blocks next}, (gapBlocks below offset t last).outcome = .ok (blocks,next) →
      Every P blocks := by
    intro offset t last blocks next run
    rcases gapBlocks_ok run with ⟨_,rfl,_⟩ | run
    · exact List.forall_mem_nil _
    · exact every_below run
  induction found generalizing position t last blocks with
  | nil => exact every_gap run
  | cons m found ih =>
    obtain ⟨here,others⟩ := List.forall_mem_cons.mp every_match
    obtain ⟨before,level,_,after,runBefore,runHere,runAfter,rfl⟩ := blocksAround_ok run
    exact ((every_gap runBefore).append (here runHere)).append (ih others runAfter)

theorem partition_every (makes : loader.catalogue.Makes loader.settings P)
    (inside : ∀ tried, (loader.nested tried).Yields P) {constructs : List BlockConstruct}
    (known : constructs ⊆ loader.catalogue.blocks)
    (run : (loader.partition constructs offset t last).outcome = .ok (blocks,next)) : Every P blocks := by
  induction constructs generalizing offset t last blocks next with
  | nil => exact leafBlocksFrom_every (fallbackBlocks_every makes inside) run
  | cons construct rest ih =>
    obtain ⟨here,others⟩ := List.cons_subset.mp known
    rcases partition_ok run with below | ⟨loading,isLoading,found,matched,around⟩
    · exact ih others below
    · refine blocksAround_every (ih others) (fun m member => ?_) around
      have placed := (construct.blockMatches_found matched m member).1
      exact fun {_} runHere => matchBlocks_every makes inside here isLoading placed runHere

variable {catalogue : Catalogue} {settings : LoadSettings}

theorem blocks_every {nested : Nat → Nested} (makes : catalogue.Makes settings P)
    (inside : ∀ tried, (nested tried).Yields P)
    (run : (Loader.blocks ⟨catalogue,settings,nested⟩ t).outcome = .ok blocks) : Every P blocks := by
  obtain ⟨⟨unsorted,last⟩,partitioned,same⟩ := Logged.outcome_bind_ok.mp run
  cases same
  have every := partition_every makes inside (List.Subset.refl _) partitioned
  exact fun block member => every block (List.mem_mergeSort.mp member)

end Loader

namespace Nested

variable {P : Paragraph → Prop} {catalogue : Catalogue} {settings : LoadSettings}

theorem paragraphsOf_every {blocks : List PlacedBlock} {paragraphs : List Paragraph} (every : PlacedBlock.Every P blocks)
    (run : (paragraphsOf blocks).outcome = .ok paragraphs) : ∀ paragraph ∈ paragraphs, P paragraph := by
  induction blocks generalizing paragraphs with
  | nil =>
    cases run
    exact List.forall_mem_nil _
  | cons block rest ih =>
    obtain ⟨here,others⟩ := List.forall_mem_cons.mp every
    unfold paragraphsOf at run
    split at run
    · rename_i paragraph isParagraph
      obtain ⟨after,later,same⟩ := Logged.outcome_bind_ok.mp run
      cases same
      exact List.forall_mem_cons.mpr ⟨here paragraph isParagraph,ih others later⟩
    · obtain ⟨_,_,later⟩ := Logged.outcome_bind_ok.mp run
      exact ih others later
    · obtain ⟨_,_,later⟩ := Logged.outcome_bind_ok.mp run
      exact ih others later

-- Containers inside each other, level by level.
theorem within_yields (makes : catalogue.Makes settings P) (levels room tried : Nat) :
    (within catalogue settings levels room tried).Yields P := by
  induction levels generalizing room tried with
  | zero =>
    intro t paragraphs run
    cases run
  | succ levels ih =>
    intro t paragraphs run
    simp only [within] at run
    split at run
    · cases run
    · obtain ⟨blocks,loaded,read⟩ := Logged.outcome_bind_ok.mp run
      exact paragraphsOf_every (Loader.blocks_every makes (fun tried => ih _ tried) loaded) read

end Nested

namespace Loader

variable {P : Paragraph → Prop} {catalogue : Catalogue} {settings : LoadSettings} {t : Text} {blocks : List PlacedBlock}

theorem partitionAt_every (makes : catalogue.Makes settings P) {depth : Int} {index offset : Nat}
    (run : (partitionAt catalogue settings depth index offset t).outcome = .ok blocks) : PlacedBlock.Every P blocks := by
  unfold partitionAt at run
  split at run
  · cases run
  · obtain ⟨⟨blocks,next⟩,partitioned,same⟩ := Logged.outcome_bind_ok.mp run
    cases same
    exact partition_every makes (fun tried => Nested.within_yields makes _ _ tried) (List.drop_subset _ _) partitioned

theorem load_every (makes : catalogue.Makes settings P) (run : (load catalogue settings t).outcome = .ok blocks) :
    PlacedBlock.Every P blocks := by
  obtain ⟨unsorted,partitioned,same⟩ := Logged.outcome_bind_ok.mp run
  cases same
  have every := partitionAt_every makes partitioned
  exact fun block member => every block (List.mem_mergeSort.mp member)

end Loader
end LightMarkup
