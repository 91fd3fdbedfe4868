import LightMarkup.Proofs.Loading.Bodies
import LightMarkup.Proofs.Loading.Lockstep
import LightMarkup.Proofs.Loading.Origin
import LightMarkup.Proofs.Loading.Pieces

/-!
Limits of nesting. A limit does nothing but to stop: under a smaller one a text is loaded as under a greater one if its
containers are not nested deeper than the smaller one allows, and else loading stops at that limit. No limit is needed to
come to an end, because the body of a container is shorter than the container: from the length of a text on all limits
are alike.

Both are said of two runs with a bound on what the first one gives, and both kinds of relation are carried through the
stages of loading in the same way.
-/

namespace LightMarkup

namespace Paragraph

mutual

-- How many containers stand inside each other.
def height : Paragraph → Nat
  | .leaf _ _ _ _ => 0
  | .container _ _ _ _ _ nested => heightOfList nested + 1

def heightOfList : List Paragraph → Nat
  | [] => 0
  | paragraph :: rest => max paragraph.height (heightOfList rest)

end

theorem heightOfList_le {n : Nat} {paragraphs : List Paragraph} :
    heightOfList paragraphs ≤ n ↔ ∀ paragraph ∈ paragraphs, paragraph.height ≤ n := by
  induction paragraphs with
  | nil => simp [heightOfList]
  | cons paragraph rest ih => rw [heightOfList,Nat.max_le,ih,List.forall_mem_cons]

end Paragraph

namespace PlacedBlock

def paragraph? (block : PlacedBlock) : Option Paragraph :=
  match block.content with
  | .paragraph paragraph => some paragraph
  | _ => none

-- The height of the paragraphs among blocks.
def height (blocks : List PlacedBlock) : Nat :=
  Paragraph.heightOfList (blocks.filterMap paragraph?)

-- No paragraph among blocks is higher than `levels`.
abbrev Fit (levels : Nat) : List PlacedBlock → Prop :=
  Every (·.height ≤ levels)

theorem height_le {n : Nat} {blocks : List PlacedBlock} : height blocks ≤ n ↔ Fit n blocks := by
  have is : ∀ {block : PlacedBlock} {paragraph}, block.paragraph? = some paragraph ↔ block.content = .paragraph paragraph := by
    intro block paragraph
    cases content : block.content <;> simp [paragraph?,content]
  rw [height,Paragraph.heightOfList_le]
  simp only [List.mem_filterMap,is,Every]
  exact ⟨fun all block member paragraph same => all paragraph ⟨block,member,same⟩,
    fun all paragraph ⟨block,member,same⟩ => all block member paragraph same⟩

theorem every_of_place {P : Paragraph → Prop} {offset : Nat} {t : Text} {paragraphs : List Paragraph}
    (every : Every P (place offset t paragraphs)) : ∀ paragraph ∈ paragraphs, P paragraph := by
  intro paragraph member
  have length : paragraphs.length ≤ (spans t (paragraphs.map Paragraph.raw)).length := by simp [spans_length]
  rw [← List.map_fst_zip length] at member
  obtain ⟨⟨_,span⟩,isHeld,rfl⟩ := List.mem_map.mp member
  exact every _ (List.mem_map.mpr ⟨_,isHeld,rfl⟩) _ rfl

end PlacedBlock

-- A relation between two runs under which only what fits counts among the results of the first: it holds of a run that
-- gives nothing else, and of sequences in which no part that does not fit leads to a whole that does.
structure Bounding (R : {α : Type} → (α → Prop) → Logged α → Logged α → Prop) : Prop where
  refl : ∀ {α : Type} {fits : α → Prop} {x : Logged α}, (∀ a, x.outcome = .ok a → fits a) → R fits x x
  bind : ∀ {α β : Type} {fits : α → Prop} {good : β → Prop} {x y : Logged α} {f g : α → Logged β}, R fits x y →
    (∀ a b, x.outcome = .ok a → (f a).outcome = .ok b → good b → fits a) →
      (∀ a, x.outcome = .ok a → fits a → R good (f a) (g a)) → R good (x >>= f) (y >>= g)

namespace Bounding

variable {R : {α : Type} → (α → Prop) → Logged α → Logged α → Prop} {α β : Type} {fits : α → Prop} {good : β → Prop}
  {x y : Logged α} {f g : α → Logged β}

-- A step that both runs make.
theorem step (bounding : Bounding R) (later : ∀ a, x.outcome = .ok a → R good (f a) (g a)) : R good (x >>= f) (x >>= g) :=
  have all : R (fun _ => True) x x := bounding.refl fun _ _ => trivial
  bounding.bind all (fun _ _ _ _ _ => trivial) fun a ran _ => later a ran

-- What only one more value is made of fits if and only if that value does.
theorem map {h : α → β} (bounding : Bounding R) (first : R fits x y) (same : ∀ a, good (h a) ↔ fits a) :
    R good (do let a ← x; pure (h a)) (do let a ← y; pure (h a)) := by
  refine bounding.bind first (fun a b _ run fit => ?_) fun a _ fit => bounding.refl fun b run => ?_
  · cases run
    exact (same a).mp fit
  · cases run
    exact (same a).mpr fit

end Bounding

-- A container loads nothing inside itself that is as long as it is.
theorem Loading.load_shorter {settings : LoadSettings} {nested other : Nested} {raw : Text} (some : raw ≠ [])
    (alike : ∀ body, body.length < raw.length → nested body = other body) (construct : BlockConstruct) (loading : Loading) :
    loading.load settings nested construct raw = loading.load settings other construct raw := by
  cases loading with
  | quote =>
    simp only [load]
    cases ran : (Quote.ofText settings.strictQuotes raw).outcome with
    | ok body => rw [Logged.bind_ok ran,Logged.bind_ok ran,alike _ (Quote.ofText_shorter some ran)]
    | error failure => rw [Logged.bind_error ran,Logged.bind_error ran]
  | focus =>
    simp only [load]
    split
    · rfl
    · rename_i m found
      rw [alike _ (Block.focus_shorter found)]
  | _ => rfl

def LoadSettings.under (settings : LoadSettings) (limit : Int) : LoadSettings :=
  { settings with maxDepth := limit }

section

variable {R : {α : Type} → (α → Prop) → Logged α → Logged α → Prop} (bounding : Bounding R) {settings : LoadSettings}
  {catalogue : Catalogue} {limit more : Int} {levels size : Nat}

open PlacedBlock

namespace Loading

include bounding

-- What a container loads inside itself is shorter and one level lower.
theorem load_bounded {nested other : Nested} {raw : Text} (some : raw ≠ [])
    (inside : ∀ body, body.length < raw.length → R (Paragraph.heightOfList · < levels) (nested body) (other body))
    (construct : BlockConstruct) (loading : Loading) :
    R (Paragraph.heightOfList · ≤ levels) (loading.load (settings.under more) nested construct raw)
      (loading.load (settings.under limit) other construct raw) := by
  have leaves : ∀ {paragraphs : List Paragraph}, (∀ paragraph ∈ paragraphs, paragraph.height = 0) →
      Paragraph.heightOfList paragraphs ≤ levels := fun flat =>
    Paragraph.heightOfList_le.mpr fun paragraph member => flat paragraph member ▸ Nat.zero_le _
  have around : ∀ {name : String} {kind : ContainerKind} {type body : Text}, body.length < raw.length →
      R (Paragraph.heightOfList · ≤ levels)
        (do let paragraphs ← nested body; pure [.container raw name none kind type paragraphs])
        (do let paragraphs ← other body; pure [.container raw name none kind type paragraphs]) := by
    intro name kind type body shorter
    exact bounding.map (inside body shorter) fun paragraphs => by
      simp only [Paragraph.heightOfList,Paragraph.height,Nat.max_zero,Nat.lt_iff_add_one_le]
  cases loading with
  | common =>
    refine bounding.refl fun paragraphs ran => leaves ?_
    cases ran
    exact List.forall_mem_map.mpr fun piece _ => rfl
  | replacement | list | table =>
    refine bounding.refl fun paragraphs ran => leaves ?_
    cases ran
    exact List.forall_mem_singleton.mpr rfl
  | image | imageRow =>
    refine bounding.step fun image _ => bounding.refl fun paragraphs ran => leaves ?_
    cases ran
    exact List.forall_mem_singleton.mpr rfl
  | quote => exact bounding.step fun body ran => around (Quote.ofText_shorter some ran)
  | focus =>
    simp only [load]
    split
    · refine bounding.refl fun paragraphs ran => ?_
      cases ran
    · rename_i m found
      exact around (Block.focus_shorter found)

end Loading

theorem BlockConstruct.blockMatches_text {construct : BlockConstruct} {t : Text} {ms : List Match}
    (found : construct.blockMatches t = .ok ms) : ∀ m ∈ ms, m.text ≠ [] ∧ m.text.length ≤ t.length := by
  intro m member
  obtain ⟨placed,whole⟩ := construct.blockMatches_found found m member
  obtain ⟨inner,reads,some⟩ := construct.blockAt_finds.reads placed
  have read : m.start.Reads inner m.stop := reads
  refine ⟨by rw [Match.text,read.textTo]; exact some,?_⟩
  rw [Match.text,read.textTo,← whole,Cursor.text,read.1]
  simp only [List.length_append]
  omega

theorem place_bounded (bounding : Bounding R) {x y : Logged (List Paragraph)} {offset : Nat} {t : Text}
    (loads : R (Paragraph.heightOfList · ≤ levels) x y) :
    R (Fit levels) (do let paragraphs ← x; pure (place offset t paragraphs))
      (do let paragraphs ← y; pure (place offset t paragraphs)) :=
  bounding.map loads fun _ => ⟨fun fit => Paragraph.heightOfList_le.mpr (every_of_place fit),
    fun fit => every_place (Paragraph.heightOfList_le.mp fit)⟩

namespace Loader

variable {nested other : Nat → Nested}
  (inside : ∀ tried body, body.length < size → R (Paragraph.heightOfList · < levels) (nested tried body) (other tried body))
include bounding inside

theorem fallbackBlocks_bounded {t : Text} (small : t.length ≤ size) (offset : Nat) :
    R (Fit levels) (fallbackBlocks ⟨catalogue,settings.under more,nested⟩ offset t)
      (fallbackBlocks ⟨catalogue,settings.under limit,other⟩ offset t) := by
  unfold fallbackBlocks
  split
  · refine bounding.refl fun blocks run => ?_
    cases run
    exact List.forall_mem_nil _
  · rename_i written
    have some : t ≠ [] := by
      rintro rfl
      exact written rfl
    simp only
    split
    · refine bounding.refl fun blocks run => ?_
      cases run
    · exact place_bounded bounding (Loading.load_bounded bounding some
        (fun body shorter => inside 0 body (Nat.lt_of_lt_of_le shorter small)) _ _)

theorem leafBlocksFrom_bounded (offset : Nat) (found : List (HeadingConstruct × Match)) {position : Nat} {t : Text}
    (small : t.length ≤ size) (last : LastLevel) : R (fun found => Fit levels found.1)
      (leafBlocksFrom ⟨catalogue,settings.under more,nested⟩ offset position t last found)
      (leafBlocksFrom ⟨catalogue,settings.under limit,other⟩ offset position t last found) := by
  induction found generalizing position t last with
  | nil => exact bounding.map (fallbackBlocks_bounded bounding inside small _) fun _ => Iff.rfl
  | cons held found ih =>
    refine bounding.bind (fallbackBlocks_bounded bounding inside (Nat.le_trans (List.length_take_le' _ _) small) _)
      (fun before result _ run fit => ?_) fun before _ fitBefore => ?_
    · obtain ⟨heading,_,run⟩ := Logged.outcome_bind_ok.mp run
      obtain ⟨after,_,same⟩ := Logged.outcome_bind_ok.mp run
      cases same
      exact (List.forall_mem_append.mp (List.forall_mem_append.mp fit).1).1
    refine bounding.step fun ⟨heading,level⟩ runHeading => ?_
    have fitHeading : Fit levels heading := HeadingConstruct.blocks_every runHeading
    have behind : (t.drop (held.2.stop.position - position)).length ≤ size := by
      rw [List.length_drop]
      omega
    exact bounding.map (ih behind _) fun after =>
      ⟨fun fit => (List.forall_mem_append.mp fit).2,fun fit => (fitBefore.append fitHeading).append fit⟩

theorem matchBlocks_bounded {m : Match} (some : m.text ≠ []) (small : m.text.length ≤ size) (tried offset : Nat)
    (construct : BlockConstruct) (loading : Loading) : R (Fit levels)
      (matchBlocks ⟨catalogue,settings.under more,nested⟩ tried construct loading offset m)
      (matchBlocks ⟨catalogue,settings.under limit,other⟩ tried construct loading offset m) :=
  bounding.step fun _ _ => place_bounded bounding (Loading.load_bounded bounding some
    (fun body shorter => inside tried body (Nat.lt_of_lt_of_le shorter small)) _ _)

omit inside

theorem blocksAround_bounded {below above : Nat → Text → LastLevel → Logged (List PlacedBlock × LastLevel)}
    {loadOne loadTwo : Match → Logged (List PlacedBlock)} (offset : Nat) (gaps : ∀ offset {t : Text} last,
      t.length ≤ size → R (fun found => Fit levels found.1) (below offset t last) (above offset t last))
    {found : List Match} (each : ∀ m ∈ found, R (Fit levels) (loadOne m) (loadTwo m)) {position : Nat} {t : Text}
    (small : t.length ≤ size) (last : LastLevel) : R (fun found => Fit levels found.1)
      (blocksAround below loadOne offset position t last found) (blocksAround above loadTwo offset position t last found) := by
  have gap : ∀ offset {t : Text} last, t.length ≤ size → R (fun found => Fit levels found.1)
      (gapBlocks below offset t last) (gapBlocks above offset t last) := by
    intro offset t last small
    unfold gapBlocks
    split
    · refine bounding.refl fun result run => ?_
      cases run
      exact List.forall_mem_nil _
    · exact gaps _ _ small
  induction found generalizing position t last with
  | nil => exact gap _ _ small
  | cons m found ih =>
    obtain ⟨here,others⟩ := List.forall_mem_cons.mp each
    rw [blocksAround_cons,blocksAround_cons]
    refine bounding.bind (gap _ _ (Nat.le_trans (List.length_take_le' _ _) small)) (fun before result _ run fit => ?_)
      fun before _ fitBefore => ?_
    · obtain ⟨here,_,run⟩ := Logged.outcome_bind_ok.mp run
      obtain ⟨after,_,same⟩ := Logged.outcome_bind_ok.mp run
      cases same
      exact (List.forall_mem_append.mp (List.forall_mem_append.mp fit).1).1
    refine bounding.bind here (fun here result _ run fit => ?_) fun here _ fitHere => ?_
    · obtain ⟨after,_,same⟩ := Logged.outcome_bind_ok.mp run
      cases same
      exact (List.forall_mem_append.mp (List.forall_mem_append.mp fit).1).2
    have behind : (t.drop (m.stop.position - position)).length ≤ size := by
      rw [List.length_drop]
      omega
    exact bounding.map (ih others behind _) fun after =>
      ⟨fun fit => (List.forall_mem_append.mp fit).2,fun fit => (fitBefore.append fitHere).append fit⟩

include inside

theorem partition_bounded (constructs : List BlockConstruct) (offset : Nat) {t : Text} (small : t.length ≤ size)
    (last : LastLevel) : R (fun found => Fit levels found.1)
      (partition ⟨catalogue,settings.under more,nested⟩ constructs offset t last)
      (partition ⟨catalogue,settings.under limit,other⟩ constructs offset t last) := by
  induction constructs generalizing offset t last with
  | nil => exact leafBlocksFrom_bounded bounding inside _ _ small _
  | cons construct rest ih =>
    cases isLoading : construct.loading with
    | none =>
      rw [partition_skip isLoading,partition_skip isLoading]
      exact bounding.step fun _ _ => ih _ small _
    | some loading =>
      simp only [partition,isLoading]
      refine bounding.step fun found matched => ?_
      refine blocksAround_bounded bounding offset (fun offset _ last small => ih offset small last) (fun m member => ?_) small last
      obtain ⟨some,part⟩ := BlockConstruct.blockMatches_text matched m member
      exact matchBlocks_bounded bounding inside some (Nat.le_trans part small) _ _ _ _

omit inside

-- Blocks that are put in order stay the same blocks.
theorem sorted_bounded {α : Type} {x y : Logged α} (blocksOf : α → List PlacedBlock)
    (partitions : R (fun a => Fit levels (blocksOf a)) x y) :
    R (Fit levels) (do let a ← x; pure (sortBlocks (blocksOf a))) (do let a ← y; pure (sortBlocks (blocksOf a))) :=
  bounding.map partitions fun _ => ⟨fun fit block member => fit block (List.mem_mergeSort.mpr member),
    fun fit block member => fit block (List.mem_mergeSort.mp member)⟩

include inside

theorem blocks_bounded {t : Text} (small : t.length ≤ size) : R (Fit levels)
    (blocks ⟨catalogue,settings.under more,nested⟩ t) (blocks ⟨catalogue,settings.under limit,other⟩ t) :=
  sorted_bounded bounding Prod.fst (partition_bounded bounding inside _ _ small none)

end Loader

namespace Nested

omit bounding in
theorem paragraphsOf_filter {blocks : List PlacedBlock} {paragraphs : List Paragraph}
    (run : (paragraphsOf blocks).outcome = .ok paragraphs) : paragraphs = blocks.filterMap paragraph? := by
  induction blocks generalizing paragraphs with
  | nil =>
    cases run
    rfl
  | cons block rest ih =>
    unfold paragraphsOf at run
    split at run
    · rename_i paragraph isParagraph
      obtain ⟨others,later,same⟩ := Logged.outcome_bind_ok.mp run
      cases same
      rw [ih later]
      simp [paragraph?,isParagraph]
    · rename_i heading isHeading
      obtain ⟨_,_,later⟩ := Logged.outcome_bind_ok.mp run
      rw [ih later]
      simp [paragraph?,isHeading]
    · rename_i tag isTag
      obtain ⟨_,_,later⟩ := Logged.outcome_bind_ok.mp run
      rw [ih later]
      simp [paragraph?,isTag]

include bounding

-- One level more, for both runs.
theorem within_bounded {t : Text} {one two : Nat} (inside : ∀ room tried body, body.length < t.length →
      R (Paragraph.heightOfList · < levels) (within catalogue (settings.under more) one room tried body)
        (within catalogue (settings.under limit) two room tried body)) (room tried : Nat) :
    R (Paragraph.heightOfList · < levels + 1) (within catalogue (settings.under more) (one + 1) room tried t)
      (within catalogue (settings.under limit) (two + 1) room tried t) := by
  have same : ∀ {blocks paragraphs}, (paragraphsOf blocks).outcome = .ok paragraphs →
      (Paragraph.heightOfList paragraphs < levels + 1 ↔ Fit levels blocks) := by
    intro blocks paragraphs run
    rw [Nat.lt_succ_iff,paragraphsOf_filter run,← height_le,height]
  simp only [within]
  split
  · refine bounding.refl fun paragraphs run => ?_
    cases run
  · exact bounding.bind (Loader.blocks_bounded bounding (inside _) (Nat.le_refl t.length))
      (fun blocks paragraphs _ run fit => (same run).mp fit)
      fun blocks _ fit => bounding.refl fun paragraphs run => (same run).mpr fit

end Nested

theorem under_levels (settings : LoadSettings) (n : Nat) : (settings.under n).levelsFrom 0 = n + 1 := by
  simp only [LoadSettings.levelsFrom,LoadSettings.under]
  omega

theorem Loader.load_bounded (bounding : Bounding R) {t : Text} {one two : Nat}
    (first : (settings.under more).levelsFrom 0 = one + 1) (second : (settings.under limit).levelsFrom 0 = two + 1)
    (inside : ∀ room tried body, body.length < t.length →
      R (Paragraph.heightOfList · < levels) (Nested.within catalogue (settings.under more) one room tried body)
        (Nested.within catalogue (settings.under limit) two room tried body)) :
    R (Fit levels) (load catalogue (settings.under more) t) (load catalogue (settings.under limit) t) := by
  have partitions := @partition_bounded R bounding settings catalogue limit more levels _ _ _ (inside Nested.room)
    (catalogue.blocks.drop 0) 0 t (Nat.le_refl t.length) none
  refine sorted_bounded bounding id ?_
  simp only [partitionAt,first,second]
  exact bounding.map partitions fun _ => Iff.rfl

end

-- A run that may go further, and one that stops at a limit. Results that fit are the same.
structure Logged.Limited (limit : Int) {α : Type} (fits : α → Prop) (x y : Logged α) : Prop where
  same : ∀ a, x.outcome = .ok a → fits a → y = x
  beyond : ∀ a, x.outcome = .ok a → ¬ fits a → y.outcome = .error (.recursionDepth limit)
  fails : ∀ failure, x.outcome = .error failure → ∃ other, y.outcome = .error other

theorem Logged.Limited.bounding (limit : Int) : Bounding (Limited limit) where
  refl all := ⟨fun _ _ _ => rfl,fun a run not => absurd (all a run) not,fun failure stopped => ⟨failure,stopped⟩⟩
  bind {_ _ fits _ _ _ _ _} first part later := {
    same := by
      intro b run good
      obtain ⟨a,ran,after⟩ := outcome_bind_ok.mp run
      have fit := part a b ran after good
      rw [first.same a ran fit,bind_ok ran,bind_ok ran,(later a ran fit).same b after good]
    beyond := by
      intro b run bad
      obtain ⟨a,ran,after⟩ := outcome_bind_ok.mp run
      refine outcome_bind_error.mpr ?_
      by_cases fit : fits a
      · rw [first.same a ran fit]
        exact Or.inr ⟨a,ran,(later a ran fit).beyond b after bad⟩
      · exact Or.inl (first.beyond a ran fit)
    fails := by
      intro failure stopped
      rcases outcome_bind_error.mp stopped with stopped | ⟨a,ran,stopped⟩
      · obtain ⟨other,stops⟩ := first.fails failure stopped
        exact ⟨other,outcome_bind_error.mpr (Or.inl stops)⟩
      · by_cases fit : fits a
        · obtain ⟨other,stops⟩ := (later a ran fit).fails failure stopped
          rw [first.same a ran fit]
          exact ⟨other,outcome_bind_error.mpr (Or.inr ⟨a,ran,stops⟩)⟩
        · exact ⟨_,outcome_bind_error.mpr (Or.inl (first.beyond a ran fit))⟩ }

-- Two runs that are the same, and give only what fits.
structure Logged.Bounded {α : Type} (fits : α → Prop) (x y : Logged α) : Prop where
  same : x = y
  all : ∀ a, x.outcome = .ok a → fits a

theorem Logged.Bounded.bounding : Bounding Bounded where
  refl all := ⟨rfl,all⟩
  bind {_ _ _ _ x _ f _} first part later := {
    same := by
      rw [← first.same]
      cases ran : x.outcome with
      | ok a => rw [bind_ok ran,bind_ok ran,(later a ran (first.all a ran)).same]
      | error failure => rw [bind_error ran,bind_error ran]
    all := by
      intro b run
      obtain ⟨a,ran,after⟩ := outcome_bind_ok.mp run
      exact (later a ran (first.all a ran)).all b after }

variable {catalogue : Catalogue} {settings : LoadSettings} {limit more : Int}

namespace Nested

-- However many levels more the first run has.
theorem within_limited (levels extra room tried : Nat) (t : Text) :
    Logged.Limited limit (Paragraph.heightOfList · < levels)
      (within catalogue (settings.under more) (levels + extra) room tried t)
      (within catalogue (settings.under limit) levels room tried t) := by
  induction levels generalizing room tried t with
  | zero => exact ⟨fun _ _ fit => absurd fit (Nat.not_lt_zero _),fun _ _ _ => rfl,fun _ _ => ⟨_,rfl⟩⟩
  | succ levels ih =>
    rw [Nat.add_right_comm]
    exact within_bounded (Logged.Limited.bounding limit) (fun room tried body _ => ih room tried body) room tried

-- Levels that a text cannot use up.
theorem within_enough {size : Nat} {t : Text} (small : t.length ≤ size) {one two : Nat} (first : size < one)
    (second : size < two) (room tried : Nat) :
    Logged.Bounded (Paragraph.heightOfList · < size + 1) (within catalogue (settings.under more) one room tried t)
      (within catalogue (settings.under limit) two room tried t) := by
  induction size generalizing one two t room tried with
  | zero =>
    obtain ⟨one,rfl⟩ := Nat.exists_eq_add_of_lt first
    obtain ⟨two,rfl⟩ := Nat.exists_eq_add_of_lt second
    refine within_bounded Logged.Bounded.bounding (fun room tried body shorter => ?_) room tried
    omega
  | succ size ih =>
    obtain ⟨one,rfl⟩ := Nat.exists_eq_add_of_lt first
    obtain ⟨two,rfl⟩ := Nat.exists_eq_add_of_lt second
    exact within_bounded Logged.Bounded.bounding (fun room tried body shorter => ih (by omega) (by omega) (by omega) room tried) room tried

end Nested

namespace Loader

theorem load_limited (catalogue : Catalogue) (settings : LoadSettings) (order : limit ≤ more) (t : Text) :
    Logged.Limited limit (fun blocks => (PlacedBlock.height blocks : Int) ≤ limit)
      (load catalogue (settings.under more) t) (load catalogue (settings.under limit) t) := by
  rcases Int.lt_or_le limit 0 with negative | positive
  · have none : (settings.under limit).levelsFrom 0 = 0 := by
      simp only [LoadSettings.levelsFrom,LoadSettings.under]
      omega
    have stopped : (load catalogue (settings.under limit) t).outcome = .error (.recursionDepth limit) := by
      rw [load,partitionAt,none]
      rfl
    exact ⟨fun _ _ fit => by omega,fun _ _ _ => stopped,fun _ _ => ⟨_,stopped⟩⟩
  · obtain ⟨levels,rfl⟩ := Int.eq_ofNat_of_zero_le positive
    obtain ⟨extra,rfl⟩ := Int.le.dest order
    have limited : Logged.Limited levels (PlacedBlock.Fit levels) (load catalogue (settings.under (levels + extra)) t)
        (load catalogue (settings.under levels) t) :=
      load_bounded (Logged.Limited.bounding levels) (under_levels settings (levels + extra)) (under_levels settings levels)
        fun room tried body _ => Nested.within_limited levels extra room tried body
    simp only [Int.ofNat_le,PlacedBlock.height_le]
    exact limited

theorem load_enough {t : Text} (first : t.length ≤ more) (second : t.length ≤ limit) :
    Logged.Bounded (fun blocks => PlacedBlock.height blocks ≤ t.length)
      (load catalogue (settings.under more) t) (load catalogue (settings.under limit) t) := by
  simp only [PlacedBlock.height_le]
  obtain ⟨one,rfl⟩ := Int.eq_ofNat_of_zero_le (Int.le_trans (Int.natCast_nonneg _) first)
  obtain ⟨two,rfl⟩ := Int.eq_ofNat_of_zero_le (Int.le_trans (Int.natCast_nonneg _) second)
  refine load_bounded Logged.Bounded.bounding (under_levels settings one) (under_levels settings two)
    fun room tried body shorter => ?_
  obtain ⟨size,length⟩ : ∃ size, t.length = size + 1 := ⟨t.length - 1,by omega⟩
  rw [length]
  exact Nested.within_enough (by omega) (by omega) (by omega) room tried

-- A limit only cuts off, and the containers of a text come to an end without one.
theorem limit_cuts_off (catalogue : Catalogue) (settings : LoadSettings) {limit more : Int} (order : limit ≤ more)
    (t : Text) :
    (∀ blocks, (load catalogue (settings.under limit) t).outcome = .ok blocks → PlacedBlock.height blocks ≤ limit ∧
        load catalogue (settings.under more) t = load catalogue (settings.under limit) t) ∧
      (∀ blocks, (load catalogue (settings.under more) t).outcome = .ok blocks →
        (PlacedBlock.height blocks ≤ limit → load catalogue (settings.under limit) t = load catalogue (settings.under more) t) ∧
          (limit < PlacedBlock.height blocks →
            (load catalogue (settings.under limit) t).outcome = .error (.recursionDepth limit))) ∧
      (∀ construct loading, ∀ raw ≠ [], ∀ nested other : Nested,
        (∀ body, body.length < raw.length → nested body = other body) →
          Loading.load settings nested construct raw loading = loading.load settings other construct raw) ∧
      (t.length ≤ limit → load catalogue (settings.under more) t = load catalogue (settings.under limit) t) := by
  have limited := load_limited catalogue settings order t
  refine ⟨fun blocks run => ?_,fun blocks run => ⟨limited.same blocks run,fun above => ?_⟩,?_,fun enough => ?_⟩
  · cases ran : (load catalogue (settings.under more) t).outcome with
    | error failure =>
      obtain ⟨other,stopped⟩ := limited.fails failure ran
      rw [run] at stopped
      cases stopped
    | ok found =>
      by_cases fit : (PlacedBlock.height found : Int) ≤ limit
      · have same := limited.same found ran fit
        rw [same,ran] at run
        cases run
        exact ⟨fit,same.symm⟩
      · rw [limited.beyond found ran fit] at run
        cases run
  · exact limited.beyond blocks run (Int.not_le.mpr above)
  · exact fun construct loading raw some nested other alike => Loading.load_shorter some alike construct loading
  · exact (load_enough (Int.le_trans enough order) enough).same

def quoteInQuote : List PlacedBlock := [
  ⟨0,5,.paragraph (.container "> > a" "extended-block-quote" none .quote "quote" [
    .container "> a" "extended-block-quote" none .quote "quote" [.common "a" "common-paragraph"]])⟩]

set_option maxRecDepth 4000 in
theorem load_quoteInQuote (inline : List Construct) :
    (load ⟨inline,Block.standard,some Block.fallback,HeadingConstruct.standard⟩ (({} : LoadSettings).under 2)
      "> > a").outcome = .ok quoteInQuote := by
  unfold quoteInQuote Block.standard Block.code Block.math Block.styledWithId Block.identified Block.table
    Block.quote Block.focus Block.list Block.abridgedTodo Block.multilineTodo Block.todo Block.pageBreak
    Block.lineBreakByDashes Block.lineBreakByStars Block.lineBreakByPluses Block.imageRow Block.abridgedImage Block.image
    Block.comment Block.todoOpening Block.nuidTemplate
  repeat rw [Text.ofString_ofList]
  cbv

-- Two quotes, one in the other, are one too many for a limit of one.
theorem limit_cuts_off_quote : (1 : Int) ≤ 2 ∧ PlacedBlock.height quoteInQuote = 2 ∧
    (load Catalogue.standard (({} : LoadSettings).under 2) "> > a").outcome = .ok quoteInQuote ∧
      (load Catalogue.standard (({} : LoadSettings).under 1) "> > a").outcome = .error (.recursionDepth 1) := by
  have order : (1 : Int) ≤ 2 := by decide
  have height : PlacedBlock.height quoteInQuote = 2 := rfl
  have loaded := load_quoteInQuote Inline.standard
  obtain ⟨_,greater,_,_⟩ := limit_cuts_off Catalogue.standard {} order "> > a"
  exact ⟨order,height,loaded,(greater quoteInQuote loaded).2 (by rw [height]; decide)⟩

end Loader
end LightMarkup
