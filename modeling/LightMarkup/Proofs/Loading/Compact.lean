import LightMarkup.Proofs.Loading.Passing
import LightMarkup.Proofs.Paragraph.Quoting

/-!
Texts that are one block. Every line begins with something that is neither blank nor a sign of a heading, so that no block
starts but at the begin and none ends before the last line does. A construct that matches at the begin matches nowhere else,
and one that cannot begin there passes the text.
-/

namespace LightMarkup

open Pattern

-- A match at the begin of a text.
theorem Pattern.matchAt_front {p : Pattern} {t : Text} {m : Match} (matched : p.matchAt? (.start t) = some m) :
    t = m.text ++ m.stop.after ∧ m.start.position = 0 ∧ m.stop.position = m.text.length := by
  obtain ⟨start,isWay⟩ := matchAt_way matched
  obtain ⟨u,read⟩ := isWay.reads
  have first : m.start.position = 0 := congrArg Cursor.position start
  have ahead := read.1
  rw [start] at ahead
  rw [show m.text = u from read.textTo]
  exact ⟨ahead,first,by rw [read.position,first,Nat.zero_add]⟩

namespace Text

-- The last line of a text.
theorem last_line (t : Text) : ∃ front line, t = front ++ line ∧ '\n' ∉ line ∧
    (front = [] ∨ ∃ b, front = b ++ ['\n']) := by
  induction t using List.reverseRecOn with
  | nil => exact ⟨[],[],rfl,List.not_mem_nil,Or.inl rfl⟩
  | append_singleton t x ih =>
    by_cases newline : x = '\n'
    · subst newline
      exact ⟨t ++ ['\n'],[],by simp,List.not_mem_nil,Or.inr ⟨t,rfl⟩⟩
    · obtain ⟨front,line,rfl,single,ends⟩ := ih
      exact ⟨front,line ++ [x],by simp,by simp [single,Ne.symm newline],ends⟩

theorem last_line_back {front line : Text} (single : '\n' ∉ line) (ends : front = [] ∨ ∃ b, front = b ++ ['\n']) :
    (line.reverse ++ front.reverse).takeWhile (· != '\n') = line.reverse := by
  have other : ∀ x ∈ line.reverse, (x != '\n') = true := fun x member =>
    bne_iff_ne.mpr fun same => single (same ▸ List.mem_reverse.mp member)
  rw [List.takeWhile_append_of_pos other]
  rcases ends with rfl | ⟨b,rfl⟩ <;> simp

-- A line that begins with a character which keeps a block together.
def Holding (t : Text) : Prop :=
  ∃ g x w, t = g ++ x :: w ∧ Block.Gaps g ∧ isBlank x = false ∧ x ≠ '#' ∧ x ≠ '@'

variable {line u v a : Text} {lines : List Text}

theorem Holding.append (holding : Holding line) (u : Text) : Holding (line ++ u) := by
  obtain ⟨g,x,w,rfl,others⟩ := holding
  exact ⟨g,x,w ++ u,by simp,others⟩

-- A newline behind a line ends it or stands in the text behind.
theorem newline_split (single : '\n' ∉ line) (split : line ++ '\n' :: u = a ++ '\n' :: v) :
    v = u ∨ ∃ b, u = b ++ '\n' :: v := by
  rcases List.append_eq_append_iff.mp split with ⟨b,rfl,behind⟩ | ⟨b,rfl,behind⟩
  · cases b with
    | nil => exact Or.inl (List.cons.inj behind).2.symm
    | cons x b => exact Or.inr ⟨b,(List.cons.inj behind).2⟩
  · cases b with
    | nil => exact Or.inl (List.cons.inj behind).2
    | cons x b =>
      obtain ⟨rfl,_⟩ := List.cons.inj behind
      simp at single

-- What is left of the line when it is trimmed.
theorem Holding.trimmed (holding : Holding (line ++ '\n' :: u)) (single : '\n' ∉ line) :
    ∃ x w, trim line = x :: w ∧ x ≠ '#' ∧ x ≠ '@' := by
  obtain ⟨g,x,w,split,gaps,solid,hash,sign⟩ := holding
  have written : ∃ rest, line = g ++ x :: rest := by
    rcases List.append_eq_append_iff.mp split with ⟨b,rfl,behind⟩ | ⟨b,rfl,behind⟩
    · cases b with
      | nil =>
        obtain ⟨rfl,_⟩ := List.cons.inj behind
        cases solid
      | cons y b =>
        obtain ⟨rfl,_⟩ := List.cons.inj behind
        exact absurd (gaps '\n' (by simp)) (by decide)
    · cases b with
      | nil =>
        obtain ⟨rfl,_⟩ := List.cons.inj behind
        cases solid
      | cons y b =>
        obtain ⟨rfl,_⟩ := List.cons.inj behind
        exact ⟨b,rfl⟩
  obtain ⟨rest,rfl⟩ := written
  exact ⟨x,trimEnd rest,by rw [trim_lead gaps.blank,trim_marked solid,trimEnd_cons solid],hash,sign⟩

-- What holds from the begin of each line on, holds where joined lines begin.
theorem join_lines {P : Text → Prop} (some : lines ≠ []) (each : ∀ line ∈ lines, '\n' ∉ line ∧ ∀ u, P (line ++ u)) :
    P (join ['\n'] lines) ∧ ∀ a v, join ['\n'] lines = a ++ '\n' :: v → P v := by
  induction lines with
  | nil => exact absurd rfl some
  | cons line lines ih =>
    obtain ⟨⟨single,here⟩,others⟩ := List.forall_mem_cons.mp each
    cases lines with
    | nil =>
      rw [join_cons]
      exact ⟨here _,fun a v split => absurd (by rw [← List.append_nil line,← List.flatMap_nil,split]; simp) single⟩
    | cons next lines =>
      obtain ⟨later,follows⟩ := ih (List.cons_ne_nil _ _) others
      rw [join_more]
      refine ⟨here _,fun a v split => ?_⟩
      rcases newline_split single split with rfl | ⟨b,inner⟩
      · exact later
      · exact follows b v inner

-- Lines that hold, one after the other.
theorem holding_join (some : lines ≠ []) (each : ∀ line ∈ lines, Holding line ∧ '\n' ∉ line) :
    Holding (join ['\n'] lines) ∧ ∀ a v, join ['\n'] lines = a ++ '\n' :: v → Holding v :=
  join_lines some fun line member => ⟨(each line member).2,fun u => (each line member).1.append u⟩

end Text

-- No block starts behind something on its line.
theorem Cursor.no_blockStart {front line s : Text} (single : '\n' ∉ line) (ends : front = [] ∨ ∃ b, front = b ++ ['\n'])
    (visible : Text.isAllBlank line = false) : isBlockStart ⟨(front ++ line).reverse,s⟩ = false := by
  have back := Text.last_line_back single ends
  have written : Text.isAllBlank line.reverse = false := by rwa [Text.isAllBlank,List.all_reverse]
  rw [List.reverse_append]
  simp only [isBlockStart,back,written,Bool.false_and]

-- A text in which every line holds; it begins without gaps.
structure Compact (t : Text) : Prop where
  begins : ∃ x w, t = x :: w ∧ Text.isBlank x = false
  holding : Text.Holding t
  follows : ∀ a v, t = a ++ '\n' :: v → Text.Holding v

namespace Compact

variable {t a s front rest : Text}

theorem line (compact : Compact t) (split : t = front ++ rest) (ends : front = [] ∨ ∃ b, front = b ++ ['\n']) :
    Text.Holding rest := by
  rcases ends with rfl | ⟨b,rfl⟩
  · rw [List.nil_append] at split
    exact split ▸ compact.holding
  · exact compact.follows b rest (by rw [split,List.append_assoc]; rfl)

-- A block starts only where nothing stands before it.
theorem not_start (compact : Compact t) (split : t = a ++ s) (some : a ≠ []) :
    Cursor.isBlockStart ⟨a.reverse,s⟩ = false := by
  obtain ⟨front,line,rfl,single,ends⟩ := Text.last_line a
  cases blank : Text.isAllBlank line with
  | false => exact Cursor.no_blockStart single ends blank
  | true =>
    -- The line before is one of the text.
    obtain ⟨b,rfl⟩ : ∃ b, front = b ++ ['\n'] := by
      refine ends.resolve_left fun none => ?_
      obtain ⟨x,w,begins,solid⟩ := compact.begins
      rw [none,List.nil_append] at split some
      obtain ⟨y,line,rfl⟩ := List.exists_cons_of_ne_nil some
      rw [begins] at split
      obtain ⟨rfl,_⟩ := List.cons.inj split
      simp [Text.isAllBlank,solid] at blank
    obtain ⟨front,earlier,rfl,free,clear⟩ := Text.last_line b
    have holding : Text.Holding (earlier ++ '\n' :: (line ++ s)) := compact.line (split.trans (by simp)) clear
    obtain ⟨x,w,trimmed,hash,sign⟩ := holding.trimmed free
    have behind : (front ++ earlier ++ ['\n'] ++ line).reverse =
        line.reverse ++ '\n' :: (earlier.reverse ++ front.reverse) := by
      simp
    have back := Text.last_line_back single ends
    have above := Text.last_line_back free clear
    rw [← List.reverse_append,behind] at back
    simp only [Cursor.isBlockStart,behind,back,List.drop_left,above,List.reverse_reverse,trimmed]
    simp [hash,sign]

theorem not_ends (compact : Compact t) (split : t = a ++ s) {last : Char} (visible : last ∈ s)
    (solid : Text.isBlank last = false) : ¬ Block.Ends s := by
  rintro ⟨g,u,rfl,gaps,rfl | ⟨b,v,rfl,isBreak,after⟩⟩
  · rw [List.append_nil] at visible
    exact absurd (gaps.blank last visible) (by simp [solid])
  · have next : Text.Holding v := by
      rcases isBreak with rfl | rfl
      · exact compact.follows (a ++ g) v (by rw [split]; simp)
      · exact compact.follows (a ++ (g ++ ['\r'])) v (by rw [split]; simp)
    obtain ⟨h,x,w,rfl,others,firm,hash,_⟩ := next
    rcases after with head | ⟨e,z,same,blanks,stops⟩
    · cases h with
      | nil => exact hash (by simpa using head)
      | cons y h =>
        obtain rfl : y = '#' := by simpa using head
        exact absurd (others '#' (List.mem_cons_self ..)) (by decide)
    · have notGap : ¬ CharSet.gap.contains x = true := by
        intro gap
        rw [Block.Gaps.blank (t := [x]) (List.forall_mem_singleton.mpr gap) x (List.mem_singleton_self x)] at firm
        cases firm
      rcases stops with rfl | ⟨b,y,rfl,rfl | rfl⟩
      · rw [List.append_nil] at same
        exact notGap (blanks x (by simp [← same]))
      · obtain ⟨_,rfl,_⟩ := Text.run_once others blanks notGap (by decide) same
        cases firm
      · obtain ⟨_,rfl,_⟩ := Text.run_once others blanks notGap (by decide) same
        cases firm

end Compact

namespace Block

variable {construct : BlockConstruct} {t : Text}

theorem blockMatches_none (member : construct ∈ standard)
    (dead : ∀ n < t.length, construct.blockAt? ((⟨[],t⟩ : Cursor).past n) = none) : construct.blockMatches t = .ok [] := by
  have scanned : construct.blockMatches t = _ := BlockConstruct.matchesFrom_ok (standard_some member) t [] 0
  have passed := @scan_pass [] _ Match.length construct.blockAt? [] t
    (by simpa using dead)
  rw [List.append_nil,scanFrom,construct.blockAt_finds.not_at_end] at passed
  exact scanned.trans (congrArg _ passed)

-- A compact text, and a construct that cannot begin with its first character.
theorem passes_begun {x : Char} (member : construct ∈ standard) (dead : construct.pattern.outset x = .dead)
    (compact : Compact t) (begins : t.head? = some x) : construct.blockMatches t = .ok [] := by
  refine blockMatches_none member fun n inner => ?_
  cases n with
  | zero => exact BlockConstruct.blockAt_dead (outset_dead dead begins)
  | succ n =>
    refine BlockConstruct.blockAt_elsewhere ?_
    have some : t.take (n + 1) ≠ [] := List.ne_nil_of_length_pos (by rw [List.length_take]; omega)
    have start := compact.not_start (List.take_append_drop (n + 1) t).symm some
    simpa [Cursor.past] using start

-- A match at the begin of a text is found first.
theorem matches_front {m : Match} (member : construct ∈ standard)
    (matched : construct.pattern.matchAt? (.start t) = some m) : construct.blockMatches t =
      .ok (m :: scanFrom Match.length construct.blockAt? m.text.reverse 0 m.stop.after) := by
  obtain ⟨split,start,stop⟩ := matchAt_front matched
  have length : m.length = m.text.length := by rw [Match.length,start,stop,Nat.sub_zero]
  have some : m.text ≠ [] := fun none => standard_some member matched (by rw [length,none]; rfl)
  have found : construct.blockAt? ⟨[],m.text ++ m.stop.after⟩ = Option.some m := by
    rw [← split]
    exact (blockAt_some member matched).trans rfl
  have scanned : construct.blockMatches t = _ := BlockConstruct.matchesFrom_ok (standard_some member) t [] 0
  have taken := scan_take found some length
  rw [← split,List.append_nil] at taken
  rw [scanned,taken]

theorem matches_once {m : Match} (member : construct ∈ standard) (compact : Compact t)
    (matched : construct.pattern.matchAt? (.start t) = some m) : construct.blockMatches t = .ok [m] := by
  obtain ⟨split,start,stop⟩ := matchAt_front matched
  have some : m.text ≠ [] := fun none => standard_some member matched (by rw [Match.length,start,stop,none]; rfl)
  have behind : scanFrom Match.length construct.blockAt? m.text.reverse 0 (m.stop.after ++ []) = [] := by
    rw [scan_pass fun n inner => BlockConstruct.blockAt_elsewhere ?_,scanFrom,construct.blockAt_finds.not_at_end]
    · rfl
    · have start := compact.not_start (a := m.text ++ m.stop.after.take n) (s := m.stop.after.drop n)
        (by rw [List.append_assoc,List.take_append_drop,← split]) (by simp [some])
      simpa [Cursor.past] using start
  rw [List.append_nil] at behind
  rw [matches_front member matched,behind]

-- One that has the whole text is the only one.
theorem matches_whole {m : Match} (member : construct ∈ standard)
    (matched : construct.pattern.matchAt? (.start t) = some m) (ended : m.stop.after = []) :
    construct.blockMatches t = .ok [m] := by
  rw [matches_front member matched,ended,scanFrom,construct.blockAt_finds.not_at_end]
  rfl

-- Nothing starts among gaps.
theorem passes_gaps (member : construct ∈ standard) (gaps : Gaps t) : construct.blockMatches t = .ok [] := by
  have all : standard.all (fun construct =>
      construct.pattern.needs fun set => !set.contains ' ' && !set.contains '\t') = true := by decide +kernel
  have needed := List.all_eq_true.mp all construct member
  refine blockMatches_none member fun n inner => BlockConstruct.blockAt_dead ?_
  refine List.eq_nil_iff_forall_not_mem.mpr fun way found => ?_
  obtain ⟨u,x,set,read,inside,kind,inSet⟩ := needs_reads needed found
  have gap : x ∈ t := List.mem_of_mem_drop (read.1 ▸ List.mem_append_left _ inside)
  rcases CharSet.gap_cases (gaps x gap) with rfl | rfl <;> simp [inSet] at kind

end Block

theorem HeadingConstruct.findAll_gaps {t : Text} (gaps : Block.Gaps t) : findAll standard t = [] := by
  have all : standard.all (fun construct => construct.pattern.needs (· == .one '#')) = true := by decide +kernel
  refine needs_scan (x := '#') (fun c absent => ?_) (fun hash => absurd (gaps '#' hash) (by decide)) []
  refine List.findSome?_eq_none_iff.mpr fun construct member => ?_
  rw [matchAt_head,needs_ways (List.all_eq_true.mp all construct member) absent]
  rfl

namespace Loader

variable {loader : Loader} {constructs : List BlockConstruct} {t g : Text} {offset : Nat} {last : LastLevel}

-- What a construct passes over is left to those below it.
theorem partition_pass {construct : BlockConstruct} (member : construct ∈ Block.standard)
    (none : construct.blockMatches t = .ok []) : loader.partition (construct :: constructs) offset t last =
      if t.isEmpty then pure ([],last) else loader.partition constructs offset t last := by
  obtain ⟨loading,rule⟩ := Block.standard_loading member
  rw [partition,rule,none]
  exact Logged.pure_bind _ _

theorem partition_gaps (headings : loader.catalogue.headings = HeadingConstruct.standard) (known : constructs ⊆ Block.standard)
    (gaps : Block.Gaps t) : loader.partition constructs offset t last = pure ([],last) := by
  induction constructs generalizing offset with
  | nil =>
    have blank : Text.isAllBlank t = true := List.all_eq_true.mpr gaps.blank
    rw [partition,leafBlocks,headings,HeadingConstruct.findAll_gaps gaps,leafBlocksFrom,fallbackBlocks,if_pos blank]
    exact Logged.pure_bind _ _
  | cons construct rest ih =>
    obtain ⟨here,others⟩ := List.cons_subset.mp known
    rw [partition_pass here (Block.passes_gaps here gaps),ih others]
    split <;> rfl

theorem partition_passes {others : List BlockConstruct} (some : t ≠ [])
    (none : ∀ construct ∈ others, construct ∈ Block.standard ∧ construct.blockMatches t = .ok []) :
    loader.partition (others ++ constructs) offset t last = loader.partition constructs offset t last := by
  induction others with
  | nil => rfl
  | cons construct others ih =>
    obtain ⟨⟨member,passed⟩,later⟩ := List.forall_mem_cons.mp none
    rw [List.cons_append,partition_pass member passed,ih later,if_neg (by simpa using some)]

-- A match at the begin, and nothing to load behind it.
theorem partition_front {construct : BlockConstruct} {loading : Loading} {m : Match} (rule : construct.loading = some loading)
    (found : construct.blockMatches t = .ok [m]) (start : m.start.position = 0)
    (behind : loader.partition constructs m.stop.position (t.drop m.stop.position) last = pure ([],last)) :
    loader.partition (construct :: constructs) 0 t last = (do
      let blocks ← loader.matchBlocks (loader.catalogue.blocks.length - constructs.length) construct loading 0 m
      pure (blocks,last)) := by
  have rest : (if (t.drop m.stop.position).isEmpty then pure ([],last)
      else loader.partition constructs (0 + m.stop.position) (t.drop m.stop.position) last) = pure ([],last) := by
    rw [Nat.zero_add,behind]
    split <;> rfl
  rw [partition,rule]
  simp only [found]
  refine (Logged.pure_bind _ _).trans ?_
  simp only [blocksAround,start,Nat.sub_zero,List.take_zero,List.isEmpty_nil,if_true,pure_bind,rest,List.nil_append,
    List.append_nil]

-- A match at the begin, the only one, and gaps behind it.
theorem partition_once {construct : BlockConstruct} {loading : Loading} {m : Match}
    (headings : loader.catalogue.headings = HeadingConstruct.standard) (known : constructs ⊆ Block.standard)
    (rule : construct.loading = some loading) (matched : construct.pattern.matchAt? (.start t) = some m)
    (once : construct.blockMatches t = .ok [m]) (gaps : Block.Gaps m.stop.after) :
    loader.partition (construct :: constructs) 0 t last = (do
      let blocks ← loader.matchBlocks (loader.catalogue.blocks.length - constructs.length) construct loading 0 m
      pure (blocks,last)) := by
  obtain ⟨split,start,stop⟩ := matchAt_front matched
  have rest : t.drop m.stop.position = m.stop.after := by
    rw [stop]
    exact split ▸ List.drop_left
  exact partition_front rule once start (rest ▸ partition_gaps headings known gaps)

-- A compact text, the constructs above that cannot begin with its first character, and one that matches up to gaps.
theorem partition_alone {x : Char} {construct : BlockConstruct} {loading : Loading} {m : Match}
    (before after : List BlockConstruct)
    (headings : loader.catalogue.headings = HeadingConstruct.standard)
    (dead : ∀ construct ∈ before, construct ∈ Block.standard ∧ construct.pattern.outset x = .dead)
    (known : construct :: after ⊆ Block.standard) (rule : construct.loading = some loading) (compact : Compact t)
    (begins : t.head? = some x) (matched : construct.pattern.matchAt? (.start t) = some m) (gaps : Block.Gaps m.stop.after) :
    loader.partition (before ++ construct :: after) 0 t last = (do
      let blocks ← loader.matchBlocks (loader.catalogue.blocks.length - after.length) construct loading 0 m
      pure (blocks,last)) := by
  obtain ⟨member,others⟩ := List.cons_subset.mp known
  have some : t ≠ [] := by
    rintro rfl
    cases begins
  rw [partition_passes some fun construct member =>
    ⟨(dead construct member).1,Block.passes_begun (dead construct member).1 (dead construct member).2 compact begins⟩]
  exact partition_once headings others rule matched (Block.matches_once member compact matched) gaps

end Loader

theorem PlacedBlock.place_single (offset : Nat) (t : Text) (paragraph : Paragraph) :
    place offset t [paragraph] = [⟨offset,offset + t.length,.paragraph paragraph⟩] := by
  simp [place,spans]

end LightMarkup
