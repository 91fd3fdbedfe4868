import LightMarkup.Proofs.Loading.Partition
import LightMarkup.Proofs.Lockstep

/-!
Loading a text twice, with other settings or the same: a relation between runs that holds of the constructs' own loading
and of a construct that is skipped holds of the whole.
-/

namespace LightMarkup

-- Only one warning of loading begins with an `n`.
theorem Entry.loading_quiet {level : Level} {message : Text} {x : Char} (begins : message.head? = some x)
    (other : x ≠ 'n') : (Entry.mk level .loading message).isComplaint = false := by
  obtain ⟨rest,rfl⟩ := List.head?_eq_some_iff.mp begins
  obtain ⟨more,rule⟩ : ∃ more, skippedRule = 'n' :: more := ⟨_,by rw [skippedRule,Text.ofString_eq]; rfl⟩
  simp [Entry.isComplaint,rule,List.isPrefixOf,Ne.symm other]

-- What becomes of a construct that has no loading rule.
def LoadSettings.skip (settings : LoadSettings) (construct : BlockConstruct) : Logged Unit :=
  if settings.strictLoadingRules then Logged.fail (.missingLoadingRule construct.name)
  else Logged.warn .loading (missingLoadingRuleText construct.name ++ ": construct skipped")

-- Two settings under which the constructs of a catalogue go in step.
structure Catalogue.InStep (R : {α : Type} → Logged α → Logged α → Prop) (catalogue : Catalogue)
    (one two : LoadSettings) : Prop where
  depth : one.maxDepth = two.maxDepth
  block : ∀ construct ∈ catalogue.blocks, ∀ loading ∈ construct.loading, ∀ {c m}, construct.blockAt? c = some m →
    ∀ {nested other : Nested}, (∀ t, R (nested t) (other t)) →
      R (loading.load one nested construct m.text) (loading.load two other construct m.text)
  fallback : ∀ construct ∈ catalogue.fallback, ∀ loading ∈ construct.loading, ∀ raw, ∀ {nested other : Nested},
    (∀ t, R (nested t) (other t)) → R (loading.load one nested construct raw) (loading.load two other construct raw)
  skip : ∀ construct ∈ catalogue.blocks, R (one.skip construct) (two.skip construct)

section

variable {R : {α : Type} → Logged α → Logged α → Prop} (lockstep : Lockstep R)

namespace HeadingConstruct

include lockstep

theorem levelAfter_step (last : LastLevel) (title : Text) (construct : HeadingConstruct) :
    R (construct.levelAfter last title) (construct.levelAfter last title) := by
  have relative : (relativeWithoutHeading title).head? = some 'r' := by
    rw [relativeWithoutHeading,Text.ofString_eq]
    rfl
  have clamps : ∀ level, (clamped title level).head? = some 'h' := by
    intro level
    rw [clamped,Text.ofString_eq]
    rfl
  have warned : ∀ {message : Text} {x : Char} {level : Int}, message.head? = some x → x ≠ 'n' →
      R (do .warn .loading message; pure level) (do .warn .loading message; pure level) :=
    fun begins other => lockstep.bind (lockstep.write (Entry.loading_quiet begins other)) fun _ _ => lockstep.pure _
  unfold levelAfter
  split
  · exact lockstep.pure _
  · exact lockstep.pure _
  · exact lockstep.pure _
  · exact warned relative (by decide)
  · split
    · exact warned (clamps maximumLevel) (by decide)
    · exact lockstep.pure _
  · split
    · exact warned (clamps 1) (by decide)
    · exact lockstep.pure _

omit lockstep

theorem tagOfLine_ordinary (line : Text) : Ordinary (tagOfLine line) := by
  unfold tagOfLine
  split
  · exact .error rfl
  · unfold ChapterTag.ofText
    split
    · exact .ok _
    · exact .error rfl

theorem tags_ordinary (offset : Nat) (t : Text) : Ordinary (tags offset t) := by
  unfold tags
  induction nonBlankLine.occurrences t with
  | nil => exact .ok []
  | cons m rest ih => exact .bind (tagOfLine_ordinary m.text) fun tag _ => .bind ih fun others _ => .ok _

include lockstep

theorem blocks_step (offset : Nat) (last : LastLevel) (construct : HeadingConstruct) (m : Match) :
    R (construct.blocks offset last m) (construct.blocks offset last m) :=
  lockstep.bind (levelAfter_step lockstep last _ construct) fun _ _ =>
    lockstep.bind (lockstep.except (tags_ordinary _ _)) fun _ _ => lockstep.pure _

end HeadingConstruct

theorem BlockConstruct.blockMatches_ordinary (construct : BlockConstruct) (t : Text) :
    Ordinary (construct.blockMatches t) := by
  have ordinary : ∀ (t before : Text) (skip : Nat), Ordinary (construct.matchesFrom before skip t) := by
    intro t
    induction t with
    | nil =>
      intro before skip
      cases skip with
      | succ skip => exact .ok []
      | zero =>
        simp only [matchesFrom]
        split
        · exact .error rfl
        · exact .ok []
    | cons x rest ih =>
      intro before skip
      cases skip with
      | succ skip => exact ih _ _
      | zero =>
        simp only [matchesFrom]
        split
        · exact ih _ _
        · split
          · exact .error rfl
          · split
            · exact .bind (ih _ _) fun others _ => .ok _
            · exact ih _ _
  exact ordinary t [] 0

namespace Loader

section

variable {one two : Loader}
include lockstep

-- Loaders whose fallbacks have one rule and load in step.
theorem fallbackBlocks_step {rule : Option (BlockConstruct × Loading)}
    (isRule : one.catalogue.fallback.bind (fun construct => construct.loading.map (construct,·)) = rule)
    (isOther : two.catalogue.fallback.bind (fun construct => construct.loading.map (construct,·)) = rule)
    (loads : ∀ construct loading, rule = some (construct,loading) → ∀ raw,
      R (loading.load one.settings (one.nested 0) construct raw) (loading.load two.settings (two.nested 0) construct raw))
    (offset : Nat) (t : Text) : R (one.fallbackBlocks offset t) (two.fallbackBlocks offset t) := by
  unfold fallbackBlocks
  rw [isRule,isOther]
  split
  · exact lockstep.pure _
  · cases rule with
    | none => exact lockstep.fail rfl
    | some held => exact lockstep.bind (loads held.1 held.2 rfl t) fun _ _ => lockstep.pure _

theorem leafBlocksFrom_step (fallback : ∀ offset t, R (one.fallbackBlocks offset t) (two.fallbackBlocks offset t))
    (offset : Nat) (found : List (HeadingConstruct × Match)) : ∀ (position : Nat) (t : Text) (last : LastLevel),
      R (one.leafBlocksFrom offset position t last found) (two.leafBlocksFrom offset position t last found) := by
  induction found with
  | nil =>
    intro position t last
    exact lockstep.bind (fallback _ t) fun _ _ => lockstep.pure _
  | cons held found ih =>
    intro position t last
    exact lockstep.bind (fallback _ _) fun _ _ =>
      lockstep.bind (HeadingConstruct.blocks_step lockstep _ _ _ _) fun _ _ =>
        lockstep.bind (ih _ _ _) fun _ _ => lockstep.pure _

theorem leafBlocks_step (headings : one.catalogue.headings = two.catalogue.headings)
    (fallback : ∀ offset t, R (one.fallbackBlocks offset t) (two.fallbackBlocks offset t)) (offset : Nat) (t : Text)
    (last : LastLevel) : R (one.leafBlocks offset t last) (two.leafBlocks offset t last) := by
  rw [leafBlocks,leafBlocks,headings]
  exact leafBlocksFrom_step lockstep fallback _ _ _ _ _

theorem matchBlocks_step {construct : BlockConstruct} {loading : Loading} {tried before : Nat} {m : Match}
    (loads : R (loading.load one.settings (one.nested tried) construct m.text)
      (loading.load two.settings (two.nested before) construct m.text)) (offset : Nat) :
    R (one.matchBlocks tried construct loading offset m) (two.matchBlocks before construct loading offset m) :=
  lockstep.bind (lockstep.debug _ _) fun _ _ => lockstep.bind loads fun _ _ => lockstep.pure _

end

variable {catalogue : Catalogue} {one two : LoadSettings} {nested other : Nat → Nested}
  (steps : catalogue.InStep R one two)
  (inside : ∀ tried ≤ catalogue.blocks.length, ∀ t, R (nested tried t) (other tried t))
include lockstep

theorem blocksAround_step {below above : Nat → Text → LastLevel → Logged (List PlacedBlock × LastLevel)}
    {loadOne loadTwo : Match → Logged (List PlacedBlock)} {found : List Match} (offset : Nat)
    (gaps : ∀ offset t last, R (below offset t last) (above offset t last))
    (each : ∀ m ∈ found, R (loadOne m) (loadTwo m)) : ∀ (position : Nat) (t : Text) (last : LastLevel),
      R (blocksAround below loadOne offset position t last found) (blocksAround above loadTwo offset position t last found) := by
  have gap : ∀ offset t last, R (gapBlocks below offset t last) (gapBlocks above offset t last) := by
    intro offset t last
    unfold gapBlocks
    split
    · exact lockstep.pure _
    · exact gaps _ _ _
  induction found with
  | nil => exact fun position t last => gap _ _ _
  | cons m found ih =>
    obtain ⟨here,others⟩ := List.forall_mem_cons.mp each
    intro position t last
    rw [blocksAround_cons,blocksAround_cons]
    exact lockstep.bind (gap _ _ _) fun _ _ => lockstep.bind here fun _ _ =>
      lockstep.bind (ih others _ _ _) fun _ _ => lockstep.pure _

omit lockstep

theorem partition_skip {loader : Loader} {construct : BlockConstruct} (without : construct.loading = none)
    (rest : List BlockConstruct) (offset : Nat) (t : Text) (last : LastLevel) :
    loader.partition (construct :: rest) offset t last = (do
      loader.settings.skip construct
      loader.partition rest offset t last) := by
  rw [partition,without,LoadSettings.skip]
  cases loader.settings.strictLoadingRules <;> rfl

include lockstep steps inside

theorem partition_step {constructs : List BlockConstruct} (known : constructs ⊆ catalogue.blocks) :
    ∀ (offset : Nat) (t : Text) (last : LastLevel), R (partition ⟨catalogue,one,nested⟩ constructs offset t last)
      (partition ⟨catalogue,two,other⟩ constructs offset t last) := by
  induction constructs with
  | nil =>
    intro offset t last
    let first : Loader := ⟨catalogue,one,nested⟩
    let second : Loader := ⟨catalogue,two,other⟩
    have headings : first.catalogue.headings = second.catalogue.headings := rfl
    refine leafBlocks_step lockstep headings (fallbackBlocks_step lockstep rfl rfl fun construct loading rule raw => ?_) _ _ _
    obtain ⟨fallback,isFallback,mapped⟩ := Option.bind_eq_some_iff.mp rule
    obtain ⟨rule,isRule,same⟩ := Option.map_eq_some_iff.mp mapped
    cases same
    exact steps.fallback _ isFallback _ isRule raw (inside 0 (Nat.zero_le _))
  | cons construct rest ih =>
    obtain ⟨here,others⟩ := List.cons_subset.mp known
    intro offset t last
    cases isLoading : construct.loading with
    | none =>
      rw [partition_skip isLoading,partition_skip isLoading]
      exact lockstep.bind (steps.skip construct here) fun _ _ => ih others _ _ _
    | some loading =>
      simp only [partition,isLoading]
      refine lockstep.bind (lockstep.except (construct.blockMatches_ordinary t)) fun found matched => ?_
      refine blocksAround_step lockstep offset (ih others) (fun m member => ?_) 0 t last
      have placed := (construct.blockMatches_found matched m member).1
      exact matchBlocks_step lockstep (steps.block _ here _ isLoading placed (inside _ (Nat.sub_le _ _))) _

theorem blocks_step (t : Text) : R (blocks ⟨catalogue,one,nested⟩ t) (blocks ⟨catalogue,two,other⟩ t) :=
  lockstep.bind (partition_step lockstep steps inside (List.Subset.refl _) _ _ _) fun _ _ => lockstep.pure _

end Loader

namespace Nested

variable {catalogue : Catalogue} {one two : LoadSettings}
include lockstep

theorem paragraphsOf_step (blocks : List PlacedBlock) : R (paragraphsOf blocks) (paragraphsOf blocks) := by
  induction blocks with
  | nil => exact lockstep.pure _
  | cons block rest ih =>
    have ignores : ∀ {description : Text} {x : Char}, description.head? = some x → x ≠ 'n' →
        R (do ignored description; paragraphsOf rest) (do ignored description; paragraphsOf rest) :=
      fun begins other =>
        lockstep.bind (lockstep.write (Entry.loading_quiet (by simp [List.head?_append,begins]) other)) fun _ _ => ih
    unfold paragraphsOf
    split
    · exact lockstep.bind ih fun _ _ => lockstep.pure _
    · exact ignores (by rw [Heading.describe,Text.ofString_eq]; rfl) (by decide)
    · exact ignores (by rw [ChapterTag.describe,Text.ofString_eq]; rfl) (by decide)

theorem within_step (steps : catalogue.InStep R one two) (levels room tried : Nat) (t : Text) :
    R (within catalogue one levels room tried t) (within catalogue two levels room tried t) := by
  induction levels generalizing room tried t with
  | zero =>
    simp only [within,steps.depth]
    exact lockstep.fail rfl
  | succ levels ih =>
    simp only [within]
    split
    · exact lockstep.fail rfl
    · exact lockstep.bind (Loader.blocks_step lockstep steps (fun tried _ t => ih _ tried t) t) fun _ _ =>
        paragraphsOf_step lockstep _

end Nested

namespace Loader

variable {catalogue : Catalogue} {one two : LoadSettings}
include lockstep

theorem load_step (steps : catalogue.InStep R one two) (t : Text) : R (load catalogue one t) (load catalogue two t) := by
  refine lockstep.bind ?_ fun _ _ => lockstep.pure _
  have levels : one.levelsFrom 0 = two.levelsFrom 0 := by rw [LoadSettings.levelsFrom,LoadSettings.levelsFrom,steps.depth]
  unfold partitionAt
  rw [levels]
  split
  · rw [steps.depth]
    exact lockstep.fail rfl
  · exact lockstep.bind (partition_step lockstep steps (fun tried _ t => Nested.within_step lockstep steps _ _ tried t)
      (List.drop_subset _ _) _ _ _) fun _ _ => lockstep.pure _

end Loader
end
end LightMarkup
