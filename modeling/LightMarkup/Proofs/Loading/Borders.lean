import LightMarkup.Proofs.Document.Rematching
import LightMarkup.Proofs.Loading.Excerpt

/-!
Where blocks begin and end in a whole text. Each construct searches what the constructs before it have left, as if that
were all: the ends of such an excerpt look like the ends of the text to it.
-/

namespace LightMarkup
namespace PlacedBlock

open Block (Gaps Break Ends Near startsBehind)

-- The name of the construct that made the paragraph, if the block is one.
def made? (block : PlacedBlock) : Option String :=
  match block.content with
  | .paragraph p => some p.construct
  | _ => none

-- Made by a block construct, neither by the fallback nor of a heading.
def Constructed (block : PlacedBlock) : Prop :=
  ∃ name ∈ block.made?, name ≠ Block.fallback.name

def IsPageBreak (block : PlacedBlock) : Prop :=
  block.made? = some Block.pageBreak.name

variable (known : List PlacedBlock) (t : Text) (block : PlacedBlock)

-- The block starts where a block may, or it is a page break on the line behind one on which another block ends.
def Opened : Prop :=
  (Cursor.atPosition t block.start).isBlockStart = true ∨
    block.IsPageBreak ∧ ∃ other ∈ known, other.Constructed ∧ other.stop ≤ block.start ∧
      ∃ g b, (t.take block.start).drop other.stop = g ++ b ∧ Gaps g ∧ Break b

-- The block ends where a block may, or before another block, which starts where a block may, with one line break or none
-- between them.
def Closed : Prop :=
  Ends (t.drop block.stop) ∨
    ∃ other ∈ known, other.Constructed ∧ block.stop ≤ other.start ∧ Near ((t.take other.start).drop block.stop) ∧
      (Cursor.atPosition t other.start).isBlockStart = true

def Bordered : Prop :=
  Opened known t block ∧ Closed known t block

end PlacedBlock

namespace Loader

open Block PlacedBlock

-- An excerpt begins where the text does or a block ends, and it ends where the text does or a block starts.
structure Excerpt (known : List PlacedBlock) (before t after : Text) : Prop where
  front : before = [] ∨ Ends t ∧ ∃ other ∈ known, other.Constructed ∧ other.stop = before.length
  back : after = [] ∨ startsBehind t = true ∧ ∃ other ∈ known, other.Constructed ∧ other.start = (before ++ t).length

section

variable {known : List PlacedBlock} {before gap inner rest after : Text} {here : PlacedBlock}

-- A block in an excerpt.
structure Inside (known : List PlacedBlock) (before gap inner rest after : Text) (here : PlacedBlock) : Prop where
  excerpt : Excerpt known before (gap ++ (inner ++ rest)) after
  member : here ∈ known
  constructed : here.Constructed
  start : here.start = (before ++ gap).length
  stop : here.stop = (before ++ (gap ++ inner)).length
  starts : startsBehind gap = true
  ends : Ends rest
  opening : ∃ g y u, inner = g ++ y :: u ∧ Gaps g ∧ Text.isBlank y = false ∧ (y = '#' → here.IsPageBreak)

theorem Inside.left (inside : Inside known before gap inner rest after here) :
    Excerpt known before gap (inner ++ rest ++ after) where
  front := by
    refine inside.excerpt.front.imp_right fun ⟨ends,other⟩ => ⟨ends_take ends ?_,other⟩
    obtain ⟨g,y,u,rfl,gaps,solid,_⟩ := inside.opening
    rw [List.append_assoc,List.cons_append]
    exact opening_head solid gaps
  back := Or.inr ⟨inside.starts,here,inside.member,inside.constructed,inside.start⟩

theorem Inside.right (inside : Inside known before gap inner rest after here) :
    Excerpt known (before ++ (gap ++ inner)) rest after where
  front := Or.inr ⟨inside.ends,here,inside.member,inside.constructed,inside.stop⟩
  back := by
    refine inside.excerpt.back.imp_right fun ⟨starts,other,member,constructed,start⟩ => ⟨?_,other,member,constructed,?_⟩
    · rw [← List.append_assoc] at starts
      exact starts_drop starts inside.ends
    · rw [start]
      simp

theorem startsBehind_take (t : Text) (n : Nat) : startsBehind (t.take n) = (Cursor.atPosition t n).isBlockStart := rfl

theorem Inside.opened (inside : Inside known before gap inner rest after here) :
    Opened known (before ++ (gap ++ (inner ++ rest)) ++ after) here := by
  have front : (before ++ (gap ++ (inner ++ rest)) ++ after).take here.start = before ++ gap := by
    have cut : before ++ (gap ++ (inner ++ rest)) ++ after = (before ++ gap) ++ (inner ++ rest ++ after) := by simp
    rw [cut,inside.start,List.take_left]
  rw [Opened,← startsBehind_take,front]
  rcases inside.excerpt.front with rfl | ⟨ends,other,member,constructed,stop⟩
  · exact Or.inl inside.starts
  obtain ⟨g,y,u,rfl,gaps,solid,hash⟩ := inside.opening
  rw [List.append_assoc g,List.cons_append] at ends
  refine (opening_whole solid gaps inside.starts ends before).imp_right ?_
  rintro ⟨⟨h,b,rfl,isGaps,isBreak⟩,isHash⟩
  have behind : (before ++ (h ++ b)).drop before.length = h ++ b := List.drop_left
  exact ⟨hash isHash,other,member,constructed,by rw [stop,inside.start]; simp,h,b,stop ▸ behind,isGaps,isBreak⟩

theorem Inside.closed (inside : Inside known before gap inner rest after here) :
    Closed known (before ++ (gap ++ (inner ++ rest)) ++ after) here := by
  have back : (before ++ (gap ++ (inner ++ rest)) ++ after).drop here.stop = rest ++ after := by
    have cut : before ++ (gap ++ (inner ++ rest)) ++ after = (before ++ (gap ++ inner)) ++ (rest ++ after) := by simp
    rw [cut,inside.stop,List.drop_left]
  rw [Closed,back]
  rcases inside.excerpt.back with rfl | ⟨starts,other,member,constructed,start⟩
  · exact Or.inl (by rw [List.append_nil]; exact inside.ends)
  refine (ends_whole inside.ends after).imp_right fun near => ⟨other,member,constructed,?_,?_,?_⟩
  · rw [inside.stop,start]
    simp
  · have between : ((before ++ (gap ++ (inner ++ rest)) ++ after).take other.start).drop here.stop = rest := by
      have cut : before ++ (gap ++ (inner ++ rest)) = (before ++ (gap ++ inner)) ++ rest := by simp
      rw [start,inside.stop,List.take_left,cut,List.drop_left]
    rwa [between]
  · rw [← startsBehind_take,start,List.take_left]
    rcases inside.excerpt.front with rfl | ⟨ends,_⟩
    · exact starts
    · obtain ⟨g,y,u,rfl,gaps,solid,_⟩ := inside.opening
      rw [List.append_assoc g,List.cons_append] at ends starts ⊢
      exact behind_whole solid gaps (opening_newline solid gaps ends) starts before

theorem Inside.bordered (inside : Inside known before gap inner rest after here) :
    Bordered known (before ++ (gap ++ (inner ++ rest)) ++ after) here :=
  ⟨inside.opened,inside.closed⟩

end

section

variable {loader : Loader} {construct : BlockConstruct} {loading : Loading} {m : Match} {offset position : Nat}
  {t : Text} {last next : LastLevel} {blocks : List PlacedBlock}

theorem standard_named (member : construct ∈ standard) : construct.name ≠ fallback.name := by
  have each : standard.all (fun construct => construct.name != fallback.name) = true := by decide
  exact bne_iff_ne.mp (List.all_eq_true.mp each construct member)

theorem standard_ends (member : construct ∈ standard) {c : Cursor} (found : construct.pattern.matchAt? c = some m) :
    Ends m.stop.after := by
  have each : standard.all (fun construct => (body? construct.pattern).isSome) = true := by decide
  obtain ⟨body,isBody⟩ := Option.isSome_iff_exists.mp (List.all_eq_true.mp each construct member)
  rw [body_block isBody] at found
  exact (block_way found).2

theorem made_by {settings : LoadSettings} {nested : Nested} {raw : Text} {paragraphs : List Paragraph}
    (run : (loading.load settings nested construct raw).outcome = .ok paragraphs) :
    ∀ p ∈ paragraphs, p.construct = construct.name := by
  intro p member
  have gives := Loading.load_gives (P := fun _ => True) (fun _ _ _ _ _ => trivial) run p member
  cases gives <;> rfl

-- A match makes one block, which has the span of the match.
theorem matchBlocks_single {tried : Nat} (single : loading ≠ .common)
    (run : (loader.matchBlocks tried construct loading offset m).outcome = .ok blocks) :
    ∃ p, p.construct = construct.name ∧
      blocks = [⟨offset + m.start.position,offset + m.start.position + m.text.length,.paragraph p⟩] := by
  obtain ⟨paragraphs,loaded,rfl⟩ := matchBlocks_ok run
  obtain ⟨p,rfl⟩ := Loading.load_single single loaded
  exact ⟨p,made_by loaded p (List.mem_singleton_self _),rfl⟩

theorem fallback_named {catalogue : Catalogue} (derived : catalogue.Derived) :
    ∀ construct ∈ catalogue.fallback, construct.name = fallback.name := by
  induction derived with
  | standard => exact fun construct same => by cases same; rfl
  | retain names _ ih => exact fun construct member => ih construct (Option.mem_filter_iff.mp member).1
  | remove names _ ih => exact fun construct member => ih construct (Option.mem_filter_iff.mp member).1
  | unload names _ ih =>
    intro construct member
    obtain ⟨kept,isKept,rfl⟩ := Option.map_eq_some_iff.mp member
    rw [← ih kept isKept]
    unfold Catalogue.unloadConstruct
    split <;> rfl

theorem leafBlocks_fallback (derived : loader.catalogue.Derived)
    (run : (loader.leafBlocks offset t last).outcome = .ok (blocks,next)) :
    ∀ block ∈ blocks, ¬ block.Constructed := by
  have every : PlacedBlock.Every (fun p => p.construct = fallback.name) blocks := by
    refine leafBlocksFrom_every ?_ run
    intro offset t blocks run
    rcases fallbackBlocks_ok run with ⟨_,rfl⟩ | ⟨_,construct,isGiven,loading,_,paragraphs,loaded,rfl⟩
    · exact List.forall_mem_nil _
    · exact every_place fun p member => (made_by loaded p member).trans (fallback_named derived _ isGiven)
  rintro block member ⟨name,isMade,other⟩
  unfold made? at isMade
  split at isMade
  · rename_i p isParagraph
    cases isMade
    exact other (every block member p isParagraph)
  · cases isMade

-- A match that makes a block, in the excerpt that it was found in behind what is `done` of it.
theorem match_inside {known : List PlacedBlock} {before gap inner rest after done : Text} {here : PlacedBlock}
    (standard : construct ∈ standard) (excerpt : Excerpt known before (gap ++ (inner ++ rest)) after)
    (apart : done = [] ∨ Ends (gap ++ (inner ++ rest))) (found : construct.blockAt? m.start = some m)
    (read : m.start.Reads inner m.stop) (text : m.start.text = done ++ (gap ++ (inner ++ rest)))
    (placed : m.start.position = (done ++ gap).length) (member : here ∈ known)
    (made : here.made? = some construct.name)
    (start : here.start = (before ++ gap).length) (stop : here.stop = (before ++ (gap ++ inner)).length) :
    Inside known before gap inner rest after here := by
  obtain ⟨matched,good⟩ := Option.filter_eq_some_iff.mp found
  have cut : m.start.before.reverse ++ m.start.after = (done ++ gap) ++ (inner ++ rest) := by
    rw [List.append_assoc]
    exact text
  obtain ⟨front,behind⟩ := List.append_inj cut ((List.length_reverse).trans placed)
  have left : m.stop.after = rest := List.append_cancel_left (read.1.symm.trans behind)
  obtain ⟨g,y,u,whole,gaps,solid,hash⟩ := standard_opening standard matched
  rw [show m.text = inner from read.textTo] at whole
  have ends := standard_ends standard matched
  rw [left] at ends
  have begun : startsBehind (done ++ gap) = true := by
    rw [startsBehind,← front,List.reverse_reverse]
    exact (Bool.and_eq_true_iff.mp good).2
  refine ⟨excerpt,member,⟨_,made,standard_named standard⟩,start,stop,?_,ends,g,y,u,whole,gaps,solid,
    fun isHash => made.trans (by rw [hash isHash])⟩
  rcases apart with rfl | ended
  · exact begun
  · subst whole
    rw [List.append_assoc g,List.cons_append] at ended
    exact starts_drop begun (ends_take ended (opening_head solid gaps))

theorem blocksAround_bordered {known : List PlacedBlock} {whole before after done : Text} {found : List Match}
    {below : Nat → Text → LastLevel → Logged (List PlacedBlock × LastLevel)} {loadMatch : Match → Logged (List PlacedBlock)}
    (standard : construct ∈ standard)
    (bordered_below : ∀ {before t after last blocks next}, before ++ t ++ after = whole → Excerpt known before t after →
      (below before.length t last).outcome = .ok (blocks,next) → blocks ⊆ known →
        ∀ block ∈ blocks, block.Constructed → Bordered known whole block)
    (single : ∀ {m blocks}, (loadMatch m).outcome = .ok blocks → ∃ p, p.construct = construct.name ∧
      blocks = [⟨offset + m.start.position,offset + m.start.position + m.text.length,.paragraph p⟩])
    (isFound : ∀ m ∈ found, construct.blockAt? m.start = some m ∧ m.start.text = done ++ t)
    (follow : Match.Follow (fun _ => True) position t found) (cut : before ++ t ++ after = whole)
    (placed : before.length = offset + position) (reached : done.length = position)
    (excerpt : Excerpt known before t after) (apart : done = [] ∨ Ends t)
    (run : (blocksAround below loadMatch offset position t last found).outcome = .ok (blocks,next)) (sub : blocks ⊆ known) :
    ∀ block ∈ blocks, block.Constructed → Bordered known whole block := by
  have bordered_gap : ∀ {before t after last blocks next}, before ++ t ++ after = whole → Excerpt known before t after →
      (gapBlocks below before.length t last).outcome = .ok (blocks,next) → blocks ⊆ known → ∀ block ∈ blocks, block.Constructed → Bordered known whole block := by
    intro before t after last blocks next cut excerpt run sub
    rcases gapBlocks_ok run with ⟨_,rfl,_⟩ | run
    · exact List.forall_mem_nil _
    · exact bordered_below cut excerpt run sub
  induction found generalizing position t last blocks before done with
  | nil =>
    rw [blocksAround_nil,← placed] at run
    exact bordered_gap cut excerpt run sub
  | cons m found ih =>
    obtain ⟨⟨here,text⟩,others⟩ := List.forall_mem_cons.mp isFound
    obtain ⟨front,level,made,back,runFront,runHere,runBack,rfl⟩ := blocksAround_ok run
    obtain ⟨inner,parts,_,read,starts,later⟩ := follow.cut
    generalize t.take (m.start.position - position) = gap at parts starts runFront
    generalize t.drop (m.stop.position - position) = rest at parts later runBack
    obtain ⟨p,isNamed,rfl⟩ := single runHere
    subst parts
    obtain ⟨subFront,sub⟩ := List.append_subset.mp (List.append_assoc .. ▸ sub)
    obtain ⟨subHere,subBack⟩ := List.append_subset.mp sub
    have stopped : m.stop.position = m.start.position + inner.length := read.position
    have inside := match_inside standard excerpt apart here read text (by rw [List.length_append,reached,starts])
      (subHere (List.mem_singleton_self _)) (congrArg some isNamed) (by simp only [List.length_append]; omega)
      (by rw [show m.text = inner from read.textTo]; simp only [List.length_append]; omega)
    rw [← placed] at runFront
    have cut_front : before ++ gap ++ (inner ++ rest ++ after) = whole := by rw [← cut]; simp
    have cut_back : before ++ (gap ++ inner) ++ rest ++ after = whole := by rw [← cut]; simp
    have text_back : ∀ m ∈ found, construct.blockAt? m.start = some m ∧ m.start.text = (done ++ gap ++ inner) ++ rest :=
      fun m member => ⟨(others m member).1,by rw [(others m member).2]; simp⟩
    have bordered_back := ih text_back later cut_back (by rw [stopped]; simp only [List.length_append]; omega)
      (by rw [stopped]; simp only [List.length_append]; omega) inside.right (Or.inr inside.ends) runBack subBack
    rw [List.append_assoc]
    refine List.forall_mem_append.mpr ⟨bordered_gap cut_front inside.left runFront subFront,List.forall_mem_append.mpr
      ⟨List.forall_mem_singleton.mpr fun _ => cut ▸ inside.bordered,bordered_back⟩⟩

-- What the constructs of a catalogue make of an excerpt, and what they leave.
theorem partition_bordered {known : List PlacedBlock} {whole before after : Text} {constructs : List BlockConstruct}
    (derived : loader.catalogue.Derived) (given : constructs ⊆ loader.catalogue.blocks)
    (cut : before ++ t ++ after = whole) (excerpt : Excerpt known before t after)
    (run : (loader.partition constructs before.length t last).outcome = .ok (blocks,next)) (sub : blocks ⊆ known) :
    ∀ block ∈ blocks, block.Constructed → Bordered known whole block := by
  induction constructs generalizing before t after last blocks next with
  | nil => exact fun block member constructed => absurd constructed (leafBlocks_fallback derived run block member)
  | cons construct rest ih =>
    obtain ⟨here,others⟩ := List.cons_subset.mp given
    rcases partition_ok run with below | ⟨loading,isLoading,found,matched,around⟩
    · exact ih others cut excerpt below sub
    · have single : loading ≠ .common := fun common =>
        derived.sound.blocks construct here (isLoading.trans (congrArg _ common))
      have isFound : ∀ m ∈ found, construct.blockAt? m.start = some m ∧ m.start.text = [] ++ t :=
        construct.blockMatches_found matched
      exact blocksAround_bordered (derived.loads construct here loading isLoading)
        (fun cut excerpt run sub => ih others cut excerpt run sub) (fun run => matchBlocks_single single run) isFound
        (construct.blockMatches_follow matched) cut (Nat.add_zero _).symm rfl excerpt (Or.inl rfl) around sub

end

-- Of every text that is loaded, every block that a block construct makes has its borders in the whole text.
theorem boundaries_hold {catalogue : Catalogue} (derived : catalogue.Derived) (settings : LoadSettings) (t : Text)
    (blocks : List PlacedBlock) (run : (load catalogue settings t).outcome = .ok blocks) :
    ∀ block ∈ blocks, block.Constructed → Bordered blocks t block := by
  obtain ⟨unsorted,partitioned,same⟩ := Logged.outcome_bind_ok.mp run
  cases same
  unfold partitionAt at partitioned
  split at partitioned
  · cases partitioned
  · obtain ⟨⟨unsorted,next⟩,partitioned,same⟩ := Logged.outcome_bind_ok.mp partitioned
    cases same
    have excerpt : Excerpt (sortBlocks unsorted) [] t [] := ⟨Or.inl rfl,Or.inl rfl⟩
    have bordered := partition_bordered derived (List.drop_subset _ _) (List.append_nil t) excerpt partitioned
      fun block member => List.mem_mergeSort.mpr member
    exact fun block member => bordered block (List.mem_mergeSort.mp member)

def crowded : Text := "- a\n###\n```\na\n```"

theorem load_crowded : ∃ list pageBreak code, (load .standard {} crowded).outcome = .ok [list,pageBreak,code] ∧
    [list,pageBreak,code].map (fun block => (block.span,block.made?)) =
      [((0,3),some "list"),((4,7),some "page-break"),((8,17),some "code-block")] := by
  have made : (partitionAt .standard {} 0 0 0 crowded).outcome.toOption.map
      (fun blocks => blocks.map fun block => (block.span,block.made?)) =
        some [((0,3),some "list"),((4,7),some "page-break"),((8,17),some "code-block")] := by decide +kernel
  cases run : (partitionAt .standard {} 0 0 0 crowded).outcome with
  | error failure =>
    rw [run] at made
    cases made
  | ok blocks =>
    rw [run] at made
    have all := Option.some.inj made
    obtain ⟨list,pageBreak,code,rfl⟩ := List.length_eq_three.mp ((List.length_map _).symm.trans (congrArg List.length all))
    refine ⟨list,pageBreak,code,?_,all⟩
    unfold load
    rw [Logged.bind_ok run,(partitionAt_partitions .standard run).sorted]
    rfl

theorem boundaries_hold_crowded : Catalogue.standard.Derived ∧ ∃ list pageBreak code,
    (load .standard {} crowded).outcome = .ok [list,pageBreak,code] ∧ pageBreak.Constructed ∧
      Bordered [list,pageBreak,code] crowded pageBreak := by
  obtain ⟨list,pageBreak,code,run,made⟩ := load_crowded
  have isMade : pageBreak.made? = some "page-break" := congrArg Prod.snd (List.cons.inj (List.cons.inj made).2).1
  have constructed : pageBreak.Constructed := ⟨_,isMade,by decide⟩
  exact ⟨.standard,list,pageBreak,code,run,constructed,
    boundaries_hold .standard {} _ _ run pageBreak (by simp) constructed⟩

-- A page break that neither starts where a block may nor ends where one may.
theorem pageBreak_crowded : ∃ list pageBreak code, (load .standard {} crowded).outcome = .ok [list,pageBreak,code] ∧
    pageBreak.Constructed ∧ (Cursor.atPosition crowded pageBreak.start).isBlockStart = false ∧
      ¬ Ends (crowded.drop pageBreak.stop) := by
  obtain ⟨list,pageBreak,code,run,made⟩ := load_crowded
  obtain ⟨span,isMade⟩ := Prod.ext_iff.mp (List.cons.inj (List.cons.inj made).2).1
  obtain ⟨start,stop⟩ := Prod.ext_iff.mp span
  refine ⟨list,pageBreak,code,run,⟨_,isMade,by decide⟩,?_,?_⟩
  · rw [show pageBreak.start = 4 from start]
    decide +kernel
  · rw [show pageBreak.stop = 7 from stop]
    have none : blockEnd.ways (.start (crowded.drop 7)) = [] := by decide +kernel
    intro ends
    have way : _ ∈ blockEnd.ways (.start (crowded.drop 7)) := mem_blockEnd.mpr ⟨ends,rfl⟩
    rw [none] at way
    cases way

end Loader
end LightMarkup
