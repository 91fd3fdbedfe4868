import LightMarkup.Proofs.Loading.Likeness
import LightMarkup.Proofs.Loading.Lockstep

/-!
Two texts that loading does not tell apart. If what is left of related texts is loaded alike, and every construct cuts them
into related texts and into matches that are loaded alike, then whole texts are loaded alike, the bodies of containers
included.
-/

namespace LightMarkup

open PlacedBlock (SameGists SameAfter)
open Paragraph (SameShapes)

variable {S : Text → Text → Prop} {B : BlockConstruct → Match → Match → Prop} {t t' : Text}

-- Bodies are loaded with the same paragraphs.
def Loading.NestsAlike (S : Text → Text → Prop) (nested : Nested) : Prop :=
  ∀ ⦃t t'⦄, S t t' → Logged.Alike SameShapes (nested t) (nested t')

open Loading (NestsAlike)

namespace Loader

variable {below : Nat → Text → LastLevel → Logged (List PlacedBlock × LastLevel)} {settings : LoadSettings}
  {nested : Nat → Nested} {construct : BlockConstruct} {constructs : List BlockConstruct}

-- Related texts, wherever they stand.
def PartsAlike (S : Text → Text → Prop) (below : Nat → Text → LastLevel → Logged (List PlacedBlock × LastLevel)) : Prop :=
  ∀ ⦃t t'⦄, S t t' → ∀ offset offset' last, Logged.Alike SameAfter (below offset t last) (below offset' t' last)

theorem blocksAround_alike {B : Match → Match → Prop} {loadMatch loadMatch' : Match → Logged (List PlacedBlock)}
    {position position' : Nat} {ms ms' : List Match} (gaps : PartsAlike S (gapBlocks below))
    (each : ∀ {m m'}, B m m' → Logged.Alike SameGists (loadMatch m) (loadMatch' m'))
    (cut : Cut id S B position t position' t' ms ms') (offset offset' : Nat) (last : LastLevel) :
    Logged.Alike SameAfter (blocksAround below loadMatch offset position t last ms)
      (blocksAround below loadMatch' offset' position' t' last ms') := by
  induction cut generalizing last with
  | nil related => exact gaps related _ _ _
  | cons gap both _ ih =>
    rw [blocksAround_cons,blocksAround_cons]
    refine (gaps gap _ _ _).bind fun ⟨front,level⟩ ⟨front',_⟩ around => ?_
    obtain ⟨same,rfl⟩ : SameGists front front' ∧ level = _ := around
    refine (each both).bind fun _ _ block => ?_
    exact (ih _).bind fun _ _ after => .pure ⟨(same.append block).append after.1,after.2⟩

end Loader

-- What there is to know of a relation of texts, and of a relation of the matches of each construct in them.
structure Catalogue.Likens (catalogue : Catalogue) (S : Text → Text → Prop) (B : BlockConstruct → Match → Match → Prop) :
    Prop where
  leaves (settings : LoadSettings) (nested : Nat → Nested) :
    Loader.PartsAlike S (Loader.leafBlocks ⟨catalogue,settings,nested⟩)
  gaps {settings : LoadSettings} {nested : Nat → Nested} {constructs : List BlockConstruct}
    (among : constructs ⊆ catalogue.blocks) (parts : Loader.PartsAlike S (Loader.partition ⟨catalogue,settings,nested⟩ constructs)) :
    Loader.PartsAlike S (Loader.gapBlocks (Loader.partition ⟨catalogue,settings,nested⟩ constructs))
  cuts {construct : BlockConstruct} {loading : Loading} (member : construct ∈ catalogue.blocks)
    (isLoading : loading ∈ construct.loading) {t t' : Text} (related : S t t') : ∃ ms ms', construct.blockMatches t = .ok ms ∧
      construct.blockMatches t' = .ok ms' ∧ Loader.Cut id S (B construct) 0 t 0 t' ms ms'
  loads {construct : BlockConstruct} {loading : Loading} (member : construct ∈ catalogue.blocks)
    (isLoading : loading ∈ construct.loading) (settings : LoadSettings) {nested : Nested} (inside : NestsAlike S nested)
    {m m' : Match} (both : B construct m m') : Logged.Alike SameShapes (loading.load settings nested construct m.text)
      (loading.load settings nested construct m'.text)

theorem Nested.paragraphsOf_alike {blocks blocks' : List PlacedBlock} (same : SameGists blocks blocks') :
    Logged.Alike SameShapes (paragraphsOf blocks) (paragraphsOf blocks') := by
  induction blocks generalizing blocks' with
  | nil =>
    cases blocks' with
    | nil => exact .pure rfl
    | cons => cases same
  | cons block rest ih =>
    cases blocks' with
    | nil => cases same
    | cons block' rest' =>
      have here : block.content.gist = block'.content.gist := (List.cons.inj same).1
      have later := ih (List.cons.inj same).2
      have warned : ∀ one two, Logged.Alike (fun _ _ => True) (ignored one) (ignored two) := fun _ _ => .pure trivial
      unfold paragraphsOf
      cases content : block.content <;> cases content' : block'.content <;> rw [content,content'] at here
      case heading.heading | tag.tag => exact (warned _ _).bind fun _ _ _ => later
      case paragraph.paragraph p p' =>
        have shape : p.shape = p'.shape := Gist.paragraph.inj here
        refine later.bind fun others others' sameOthers => .pure ?_
        rw [SameShapes,List.map_cons,List.map_cons,shape,sameOthers]
      all_goals cases here

namespace Catalogue.Likens

variable {catalogue : Catalogue} (likens : catalogue.Likens S B) {settings : LoadSettings} {nested : Nat → Nested}
include likens

section

variable (inside : ∀ tried, NestsAlike S (nested tried))
include inside

theorem matchBlocks_alike {tried : Nat} {construct : BlockConstruct} {loading : Loading} {m m' : Match}
    (member : construct ∈ catalogue.blocks) (isLoading : loading ∈ construct.loading) (both : B construct m m')
    (offset offset' : Nat) : Logged.Alike SameGists (Loader.matchBlocks ⟨catalogue,settings,nested⟩ tried construct loading offset m)
      (Loader.matchBlocks ⟨catalogue,settings,nested⟩ tried construct loading offset' m') := by
  have written : ∀ one two, Logged.Alike (fun _ _ => True) (Logged.debug .loading one) (Logged.debug .loading two) :=
    fun _ _ => .pure trivial
  refine (written _ _).bind fun _ _ _ => ?_
  exact (likens.loads member isLoading settings (inside tried) both).bind fun _ _ same => .pure (same.placed ..)

theorem partition_alike {constructs : List BlockConstruct} (among : constructs ⊆ catalogue.blocks) :
    Loader.PartsAlike S (Loader.partition ⟨catalogue,settings,nested⟩ constructs) := by
  induction constructs with
  | nil => exact likens.leaves settings nested
  | cons construct rest ih =>
    obtain ⟨member,others⟩ := List.cons_subset.mp among
    have below := ih others
    intro t t' related offset offset' last
    cases isLoading : construct.loading with
    | none =>
      rw [Loader.partition_skip isLoading,Loader.partition_skip isLoading]
      have skipped : Logged.Alike (fun _ _ => True) (settings.skip construct) (settings.skip construct) :=
        .same fun _ => trivial
      exact skipped.bind fun _ _ _ => below related _ _ _
    | some loading =>
      obtain ⟨ms,ms',found,found',cut⟩ := likens.cuts member isLoading related
      simp only [Loader.partition,isLoading,found,found']
      have read : Logged.Alike (fun a b => a = ms ∧ b = ms') (Logged.ofExcept (.ok ms)) (Logged.ofExcept (.ok ms')) :=
        .pure ⟨rfl,rfl⟩
      refine read.bind fun _ _ same => ?_
      obtain ⟨rfl,rfl⟩ := same
      refine Loader.blocksAround_alike (likens.gaps others below) (fun both => ?_) cut offset offset' last
      exact likens.matchBlocks_alike inside member isLoading both offset offset'

-- The blocks of a partition are in order.
theorem blocks_alike (derived : catalogue.Derived) (related : S t t') :
    Logged.Alike SameGists (Loader.blocks ⟨catalogue,settings,nested⟩ t) (Loader.blocks ⟨catalogue,settings,nested⟩ t') := by
  have sorted : ∀ {t blocks next}, (Loader.partition ⟨catalogue,settings,nested⟩ (catalogue.blocks.drop 0) 0 t none).outcome =
      .ok (blocks,next) → Loader.sortBlocks blocks = blocks := fun run => (Loader.partition_partitions derived run).sorted
  refine (likens.partition_alike inside (List.Subset.refl _) related 0 0 none).ran.bind fun a b known => ?_
  obtain ⟨⟨same,_⟩,run,run'⟩ := known
  refine .pure ?_
  rw [sorted run,sorted run']
  exact same

end

variable (derived : catalogue.Derived)
include derived

theorem within_alike (settings : LoadSettings) (levels room tried : Nat) :
    NestsAlike S (Nested.within catalogue settings levels room tried) := by
  induction levels generalizing room tried with
  | zero => exact fun _ _ _ => .fail _ _
  | succ levels ih =>
    intro t t' related
    simp only [Nested.within]
    split
    · exact .fail _ _
    · exact (likens.blocks_alike (ih _) derived related).bind fun _ _ same => Nested.paragraphsOf_alike same

theorem partitionAt_alike (depth : Int) (related : S t t') : Logged.Alike SameGists
    (Loader.partitionAt catalogue settings depth 0 0 t) (Loader.partitionAt catalogue settings depth 0 0 t') := by
  unfold Loader.partitionAt
  cases settings.levelsFrom depth with
  | zero => exact .fail _ _
  | succ levels =>
    have inside : ∀ tried, NestsAlike S (Nested.within catalogue settings levels Nested.room tried) :=
      likens.within_alike derived settings levels Nested.room
    exact (likens.partition_alike inside (List.Subset.refl _) related 0 0 none).bind fun _ _ same => .pure same.1

theorem load_alike (settings : LoadSettings) (related : S t t') :
    Logged.Alike SameGists (Loader.load catalogue settings t) (Loader.load catalogue settings t') := by
  refine (likens.partitionAt_alike derived 0 related).ran.bind fun blocks blocks' known => .pure ?_
  obtain ⟨same,run,run'⟩ := known
  rw [(Loader.partitionAt_partitions derived run).sorted,(Loader.partitionAt_partitions derived run').sorted]
  exact same

end Catalogue.Likens
end LightMarkup
