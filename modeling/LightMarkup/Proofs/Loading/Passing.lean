import LightMarkup.Proofs.Loading.Cutting
import LightMarkup.Proofs.Pattern.Needing

/-!
Blocks that a construct passes over. For most pairs of a construct and a kind of block the characters of the block tell:
the construct cannot do without others. What is left are lines with the word `todo` on them, and headings, which begin
like a page break.
-/

namespace LightMarkup

open Pattern

namespace BlockConstruct

variable {construct : BlockConstruct}

theorem blockAt_none {c : Cursor} (none : construct.pattern.matchAt? c = none) : construct.blockAt? c = .none := by
  rw [blockAt?,none]
  rfl

theorem blockAt_dead {c : Cursor} (dead : construct.pattern.ways c = []) : construct.blockAt? c = none := by
  refine blockAt_none ?_
  rw [matchAt_head,dead]
  rfl

theorem blockAt_elsewhere {c : Cursor} (elsewhere : c.isBlockStart = false) : construct.blockAt? c = none := by
  cases found : construct.blockAt? c with
  | none => rfl
  | some m =>
    obtain ⟨matched,good⟩ := Option.filter_eq_some_iff.mp found
    rw [(matchAt_way matched).1,elsewhere,Bool.and_false] at good
    cases good

theorem blockAt_found (construct : BlockConstruct) {c : Cursor} {m : Match} (found : construct.pattern.matchAt? c = some m)
    (length : m.length ≠ 0) : construct.blockAt? c = if c.isBlockStart then some m else none := by
  rw [blockAt?,found,Option.filter_some,bne_iff_ne.mpr length,Bool.true_and,(matchAt_way found).1]

-- A pattern that cannot do without some character has no empty match.
theorem match_some (construct : BlockConstruct) (needed : construct.pattern.needs (fun _ => true) = true) {c : Cursor} {m : Match}
    (found : construct.pattern.matchAt? c = some m) : m.length ≠ 0 := by
  obtain ⟨rfl,way⟩ := matchAt_way found
  obtain ⟨t,x,_,read,inside,_⟩ := needs_reads needed way
  have length : m.stop.position = m.start.position + t.length := read.position
  have positive := List.length_pos_of_mem inside
  rw [Match.length]
  omega

end BlockConstruct

namespace Block

theorem standard_some {construct : BlockConstruct} (member : construct ∈ standard) {c : Cursor} {m : Match}
    (found : construct.pattern.matchAt? c = some m) : m.length ≠ 0 := by
  have needed : standard.all (fun construct => construct.pattern.needs fun _ => true) = true := by decide +kernel
  exact construct.match_some (List.all_eq_true.mp needed construct member) found

theorem blockAt_some {construct : BlockConstruct} (member : construct ∈ standard) {c : Cursor} {m : Match}
    (found : construct.pattern.matchAt? c = some m) : construct.blockAt? c = if c.isBlockStart then some m else none :=
  construct.blockAt_found found (standard_some member found)

theorem standard_loading {construct : BlockConstruct} (member : construct ∈ standard) :
    ∃ loading, construct.loading = some loading := by
  have loads : standard.all (fun construct => construct.loading.isSome) = true := rfl
  exact Option.isSome_iff_exists.mp (List.all_eq_true.mp loads _ member)

-- Pairs for which the characters do not tell.
def misleads (tried : Nat) : Kind → Bool
  | .paragraph => tried == 8 || tried == 10
  | .heading => tried == 8 || tried == 10 || tried == 11
  | _ => false

theorem standard_reach {tried : Nat} {construct : BlockConstruct} (known : standard[tried]? = some construct) :
    construct.pattern.reach [] .edge = .nowhere ∧
      ∀ kind : Kind, tried < kind.rank → misleads tried kind = false → construct.pattern.reach kind.chars .edge = .nowhere := by
  have all : standard.zipIdx.all (fun (construct,tried) => construct.pattern.reach [] .edge == .nowhere &&
      Kind.all.all fun kind => decide (kind.rank ≤ tried) || misleads tried kind ||
        construct.pattern.reach kind.chars .edge == .nowhere) = true := by decide +kernel
  have here := List.all_eq_true.mp all (construct,tried) (List.mem_zipIdx_iff_getElem?.mpr known)
  rw [Bool.and_eq_true,List.all_eq_true] at here
  refine ⟨by simpa using here.1,fun kind later tells => ?_⟩
  have kinds := here.2 kind kind.mem_all
  simpa [Nat.not_le.mpr later,tells] using kinds

variable {c : Cursor} {way : Way} {construct : BlockConstruct} {before rest : Text}

theorem anyCase_reads {word : Text} (lower : ∀ x ∈ word, x.toLower.toLower = x ∧ x.toUpper.toLower = x)
    (found : way ∈ (anyCase word).ways c) : ∃ t, c.Reads t way.1 ∧ t.map Char.toLower = word := by
  have one : ∀ {x : Char} {c : Cursor} {way : Way}, x.toLower.toLower = x ∧ x.toUpper.toLower = x →
      way ∈ (Pattern.char (CharSet.eitherCase x)).ways c → ∃ t, c.Reads t way.1 ∧ t.map Char.toLower = [x] := by
    intro x c way lower found
    obtain ⟨y,next,read,inSet,rfl⟩ := mem_char.mp found
    refine ⟨[y],Cursor.next_reads read,?_⟩
    have either : y = x.toLower ∨ y = x.toUpper := by
      simpa [CharSet.eitherCase,CharSet.contains,Union.union] using inSet
    rcases either with rfl | rfl
    · rw [List.map_singleton,lower.1]
    · rw [List.map_singleton,lower.2]
  induction word generalizing c way with
  | nil =>
    cases List.mem_singleton.mp found
    exact ⟨[],.refl c,rfl⟩
  | cons x word ih =>
    obtain ⟨here,others⟩ := List.forall_mem_cons.mp lower
    cases word with
    | nil => exact one here found
    | cons y word =>
      obtain ⟨mid,first,next,later,rfl⟩ := mem_thenWays.mp found
      obtain ⟨t,read,same⟩ := one here first
      obtain ⟨u,more,rest⟩ := ih others later
      exact ⟨t ++ u,read.append more,by rw [List.map_append,same,rest]; rfl⟩

-- What may stand behind a word: an end of a line, a gap or a colon.
def EndsWord (t : Text) : Prop :=
  ∀ x ∈ t.head?, x = '\n' ∨ x = ' ' ∨ x = '\t' ∨ x = ':'

theorem todoWord_reads (found : way ∈ (.lineStart ++ anyCase "todo" : Pattern).ways c) :
    isLineStart c = true ∧ ∃ word, c.Reads word way.1 ∧ word.map Char.toLower = ['t','o','d','o'] := by
  have literal : ("todo" : Text) = ['t','o','d','o'] := by rw [Text.ofString_eq]; rfl
  have lower : ∀ x ∈ ("todo" : Text), x.toLower.toLower = x ∧ x.toUpper.toLower = x := by
    rw [literal]
    simp
  obtain ⟨start,isStart,next,spelled,rfl⟩ := mem_seq.mp found
  obtain ⟨isLine,rfl⟩ := mem_waysIf.mp isStart
  obtain ⟨word,read,same⟩ := anyCase_reads lower spelled
  exact ⟨isLine,word,read,same.trans literal⟩

theorem endsWord_gap {x : Char} (isGap : CharSet.gap.contains x = true) : x = '\n' ∨ x = ' ' ∨ x = '\t' ∨ x = ':' :=
  Or.inr ((CharSet.gap_cases isGap).imp id Or.inl)

-- Gaps up to the end of a line end a word.
theorem endsWord_line {g : Text} {mid stop : Cursor} (isGaps : Gaps g) (read : mid.Reads g stop)
    (atEnd : isLineEnd stop = true) : EndsWord mid.after := by
  intro x first
  rw [read.1] at first
  cases g with
  | cons y g =>
    cases first
    exact endsWord_gap (isGaps x (List.mem_cons_self ..))
  | nil =>
    simp only [isLineEnd] at atEnd
    rw [List.nil_append] at first
    cases after : stop.after with
    | nil =>
      rw [after] at first
      cases first
    | cons y more =>
      rw [after] at first atEnd
      cases first
      exact Or.inl (by simpa using atEnd)

-- Both constructs match only the word, at the begin of a line.
theorem todo_reads (isTodo : construct = abridgedTodo ∨ construct = todo) (found : way ∈ construct.pattern.ways c) :
    isLineStart c = true ∧ ∃ word mid, c.Reads word mid ∧ word.map Char.toLower = ['t','o','d','o'] ∧ EndsWord mid.after := by
  rcases isTodo with rfl | rfl
  · obtain ⟨inner,body,_,_,_⟩ := mem_seq.mp found
    obtain ⟨blank,gapped,next,ended,rfl⟩ := mem_seq.mp body
    obtain ⟨mid,front,skipped,gaps,rfl⟩ := mem_seq.mp gapped
    obtain ⟨isLine,word,read,same⟩ := todoWord_reads front
    obtain ⟨g,readGaps,isGaps,_⟩ := mem_gaps.mp gaps
    obtain ⟨atEnd,rfl⟩ := mem_waysIf.mp ended
    exact ⟨isLine,word,mid.1,read,same,endsWord_line isGaps readGaps atEnd⟩
  · obtain ⟨inner,body,_,_,_⟩ := mem_seq.mp found
    obtain ⟨titled,front,_,_,_⟩ := mem_seq.mp body
    obtain ⟨blank,spaced,_,_,_⟩ := mem_seq.mp front
    obtain ⟨colon,marked,_,gaps,_⟩ := mem_seq.mp spaced
    obtain ⟨mid,word,next,maybeColon,rfl⟩ := mem_seq.mp marked
    obtain ⟨isLine,word,read,same⟩ := todoWord_reads word
    refine ⟨isLine,word,mid.1,read,same,?_⟩
    intro x first
    rcases mem_maybe maybeColon with isColon | none
    · have ahead := (mem_one.mp isColon).1.1
      rw [ahead] at first
      cases first
      exact Or.inr (Or.inr (Or.inr rfl))
    · obtain ⟨first',one,_,_,_⟩ := mem_thenWays.mp gaps
      obtain ⟨round,isRound,_,_,_⟩ := mem_thenWays.mp one
      obtain ⟨y,_,ahead,inSet,_⟩ := mem_char.mp isRound
      have reads := (Cursor.next_reads ahead).1
      rw [none] at reads
      rw [reads] at first
      cases first
      exact endsWord_gap inSet

theorem past_before {t : Text} {n : Nat} (inner : n < t.length) :
    ((⟨before,t ++ rest⟩ : Cursor).past (n + 1)).before = t[n] :: ((t.take n).reverse ++ before) := by
  simp only [Cursor.past]
  rw [List.take_append_of_le_length (by omega),List.take_succ_eq_append_getElem inner,List.reverse_append]
  rfl

-- A heading has a hash where its line begins.
theorem todo_heading (isTodo : construct = abridgedTodo ∨ construct = todo) {t : Text} (hashed : t.head? = some '#')
    (single : '\n' ∉ t) (rest : Text) {n : Nat} (inner : n < t.length) :
    construct.pattern.ways ((⟨before,t ++ rest⟩ : Cursor).past n) = [] := by
  rw [List.eq_nil_iff_forall_not_mem]
  intro way found
  obtain ⟨isLine,word,mid,read,same,_⟩ := todo_reads isTodo found
  cases n with
  | zero =>
    rw [Cursor.past_zero] at read
    have ahead : t ++ rest = word ++ mid.after := read.1
    cases word with
    | nil => cases same
    | cons x word =>
      obtain ⟨y,t,rfl⟩ := List.exists_cons_of_length_pos inner
      cases hashed
      obtain ⟨rfl,_⟩ := List.cons.inj ahead
      obtain ⟨first,_⟩ := List.cons.inj same
      exact absurd first (by decide)
  | succ n =>
    have line : n < t.length := Nat.lt_of_succ_lt inner
    simp only [isLineStart,past_before line,beq_iff_eq] at isLine
    exact single (isLine ▸ List.getElem_mem _)

-- The first word of a line is all that a word at its begin can be.
theorem word_of_line (line : Line) {word u v : Text} (ends : u = [] ∨ ∃ w, u = '\n' :: w)
    (same : word.map Char.toLower = ['t','o','d','o']) (whole : line.text ++ u = word ++ v) (closed : EndsWord v) :
    line.text.takeWhile (· != ' ') = word := by
  have spelled : ∀ x ∈ word, x ≠ ' ' ∧ x ≠ '\n' := by
    intro x member
    have inside : x.toLower ∈ ['t','o','d','o'] := same ▸ List.mem_map_of_mem member
    constructor
    · rintro rfl
      revert inside
      decide
    · rintro rfl
      revert inside
      decide
  have taken : ∀ w : Text, (word ++ w).takeWhile (· != ' ') = word ++ w.takeWhile (· != ' ') := by
    intro w
    exact List.takeWhile_append_of_pos fun x member => by simpa using (spelled x member).1
  rcases List.append_eq_append_iff.mp whole with ⟨a,long,behind⟩ | ⟨a,long,behind⟩
  · cases a with
    | nil =>
      rw [List.append_nil] at long
      simpa [← long] using taken []
    | cons x a =>
      rcases ends with rfl | ⟨w,rfl⟩
      · cases behind
      · obtain ⟨rfl,_⟩ := List.cons.inj behind
        exact absurd rfl (spelled '\n' (by rw [long]; simp)).2
  · cases a with
    | nil => simpa [long] using taken []
    | cons x a =>
      have inLine := line.chars x (by rw [long]; simp)
      have other := closed x (by rw [behind]; rfl)
      rcases inLine with alpha | rfl
      · rcases other with rfl | rfl | rfl | rfl <;> cases alpha
      · rw [long,taken]
        simp

-- Behind a line with a letter at its begin no block starts.
theorem not_blockStart (line : Line) {s : Text} (behind : c.before = '\n' :: (line.text.reverse ++ s))
    (clear : s = [] ∨ ∃ w, s = '\n' :: w) : c.isBlockStart = false := by
  have back : (line.text.reverse ++ s).takeWhile (· != '\n') = line.text.reverse := by
    rw [List.takeWhile_append_of_pos (fun x member => by simpa using (line.single x (List.mem_reverse.mp member)).1)]
    rcases clear with rfl | ⟨w,rfl⟩ <;> simp
  obtain ⟨x,rest,begins,alpha⟩ := line.first
  obtain ⟨v,y,ends,last⟩ := line.last
  have trimmed : Text.trim line.text = x :: rest := by
    rw [Text.trim_solid begins (alpha_solid alpha) ends (alpha_solid last),begins]
  have hash : x ≠ '#' := alpha_other alpha rfl
  have at_ : x ≠ '@' := alpha_other alpha rfl
  simp [Cursor.isBlockStart,behind,back,trimmed,Text.isAllBlank,hash,at_]

-- What stands before a newline between lines ends with one of them.
theorem line_before {first : Line} {others : List Line} {a w : Text}
    (cut : Text.join ['\n'] ((first :: others).map Line.text) = a ++ '\n' :: w) :
    ∃ (line : Line) (s : Text), a = s ++ line.text ∧ (s = [] ∨ ∃ v, s = v ++ ['\n']) := by
  induction others generalizing first a with
  | nil =>
    have inside : '\n' ∈ first.text := by
      rw [List.map_singleton,Text.join_cons,List.flatMap_nil,List.append_nil] at cut
      rw [cut]
      simp
    exact absurd rfl (first.single _ inside).1
  | cons next others ih =>
    have split : Text.join ['\n'] ((first :: next :: others).map Line.text) =
        first.text ++ '\n' :: Text.join ['\n'] ((next :: others).map Line.text) := by
      simp [Text.join_cons]
    rw [split] at cut
    rcases List.append_eq_append_iff.mp cut with ⟨b,rfl,behind⟩ | ⟨b,long,behind⟩
    · cases b with
      | nil => exact ⟨first,[],by simp,Or.inl rfl⟩
      | cons x b =>
        obtain ⟨rfl,later⟩ := List.cons.inj behind
        obtain ⟨line,s,rfl,ends⟩ := ih later
        refine ⟨line,first.text ++ '\n' :: s,by simp,Or.inr ?_⟩
        rcases ends with rfl | ⟨v,rfl⟩
        · exact ⟨first.text,rfl⟩
        · exact ⟨first.text ++ '\n' :: v,by simp⟩
    · cases b with
      | nil => exact ⟨first,[],by simpa using long.symm,Or.inl rfl⟩
      | cons x b =>
        obtain ⟨rfl,_⟩ := List.cons.inj behind
        exact absurd rfl (first.single '\n' (by rw [long]; simp)).1

-- The first line of a paragraph is another one, and on the others no block starts.
theorem todo_paragraph (isTodo : construct = abridgedTodo ∨ construct = todo) {first : Line} {others : List Line}
    (notTodo : (first.text.takeWhile (· != ' ')).map Char.toLower ≠ ['t','o','d','o']) (clear : Shut before)
    (shut : Shut rest) {n : Nat} (inner : n < (Text.join ['\n'] ((first :: others).map Line.text)).length) :
    construct.blockAt? ((⟨before,Text.join ['\n'] ((first :: others).map Line.text) ++ rest⟩ : Cursor).past n) = none := by
  have front : ∃ u, Text.join ['\n'] ((first :: others).map Line.text) ++ rest = first.text ++ u ∧
      (u = [] ∨ ∃ w, u = '\n' :: w) := by
    rw [List.map_cons,Text.join_cons,List.append_assoc]
    refine ⟨_,rfl,?_⟩
    cases others with
    | nil => exact shut.imp id fun ⟨v,same⟩ => ⟨'\n' :: v,same⟩
    | cons next others => exact Or.inr ⟨_,rfl⟩
  cases n with
  | zero =>
    refine BlockConstruct.blockAt_dead (List.eq_nil_iff_forall_not_mem.mpr fun way found => ?_)
    obtain ⟨_,word,mid,read,same,closed⟩ := todo_reads isTodo found
    rw [Cursor.past_zero] at read
    obtain ⟨u,split,ends⟩ := front
    exact notTodo (word_of_line first ends same (split.symm.trans read.1) closed ▸ same)
  | succ n =>
    cases newline : isLineStart ((⟨before,Text.join ['\n'] ((first :: others).map Line.text) ++ rest⟩ : Cursor).past (n + 1)) with
    | false =>
      refine BlockConstruct.blockAt_dead (List.eq_nil_iff_forall_not_mem.mpr fun way found => ?_)
      rw [(todo_reads isTodo found).1] at newline
      cases newline
    | true =>
      generalize whole : Text.join ['\n'] ((first :: others).map Line.text) = t at inner newline ⊢
      have behind : ((⟨before,t ++ rest⟩ : Cursor).past (n + 1)).before = _ := past_before (Nat.lt_of_succ_lt inner)
      simp only [isLineStart,behind,beq_iff_eq] at newline
      have cut : Text.join ['\n'] ((first :: others).map Line.text) = t.take n ++ '\n' :: t.drop (n + 1) := by
        rw [whole,← newline,← List.drop_eq_getElem_cons,List.take_append_drop]
      obtain ⟨line,s,ends,clear'⟩ := line_before cut
      rw [newline,ends,List.reverse_append,List.append_assoc] at behind
      refine BlockConstruct.blockAt_elsewhere (not_blockStart line behind ?_)
      rcases clear' with rfl | ⟨v,rfl⟩
      · exact clear.imp id fun ⟨v,same⟩ => ⟨'\n' :: v,same⟩
      · exact Or.inr ⟨v.reverse ++ before,by simp⟩

theorem restOfLine_only : restOfLine.Only fun x => Text.isBlank x = true ∧ x ≠ '\n' := by
  refine ⟨⟨fun x inSet => ?_,fun x inSet => ?_⟩,trivial⟩
  · rcases CharSet.gap_cases inSet with rfl | rfl <;> decide
  · obtain rfl : x = '\r' := by simpa [CharSet.contains] using inSet
    decide

theorem restOfLine_reads (found : way ∈ restOfLine.ways c) :
    ∃ t, c.Reads t way.1 ∧ (∀ x ∈ t, Text.isBlank x = true ∧ x ≠ '\n') ∧ isLineEnd way.1 = true := by
  obtain ⟨t,read,blank⟩ := ways_only restOfLine_only c way found
  obtain ⟨_,_,_,ended,rfl⟩ := mem_seq.mp found
  obtain ⟨atEnd,rfl⟩ := mem_waysIf.mp ended
  exact ⟨t,read,blank,atEnd⟩

-- What stops at the end of a line has read all of the line ahead.
theorem reads_line {stop : Cursor} {t v u : Text} (read : c.Reads t stop) (atEnd : isLineEnd stop = true)
    (begins : c.after = v ++ u) (single : '\n' ∉ v) : v <+: t := by
  rcases List.append_eq_append_iff.mp (begins.symm.trans read.1) with ⟨a,long,_⟩ | ⟨a,long,behind⟩
  · exact ⟨a,long.symm⟩
  · cases a with
    | nil => exact ⟨[],by simpa using long⟩
    | cons x a =>
      rw [isLineEnd,behind] at atEnd
      have newline : x = '\n' := by simpa using atEnd
      exact absurd (by rw [long,newline]; simp) single

-- A rule has nothing but its own character and blanks on its line.
theorem rule_dead {mark y : Char} {v u : Text} (begins : c.after = v ++ y :: u) (single : '\n' ∉ v ++ [y])
    (other : ∃ x ∈ v ++ [y], x ≠ mark) (solid : Text.isBlank y = false) : (rule mark).ways c = [] := by
  rw [List.eq_nil_iff_forall_not_mem]
  intro way found
  obtain ⟨_,line,_,_,_⟩ := mem_seq.mp found
  obtain ⟨mid,marks,stop,rest,rfl⟩ := mem_seq.mp line
  have only : (.lineStart ++ atLeast 3 (Inline.char mark) : Pattern).Only (· = mark) :=
    ⟨trivial,fun x inSet => by simpa [CharSet.contains] using inSet⟩
  obtain ⟨t,readMarks,isMark⟩ := ways_only only c mid marks
  obtain ⟨s,readRest,blank,atEnd⟩ := restOfLine_reads rest
  have whole : c.after = (v ++ [y]) ++ u := by simp [begins]
  obtain ⟨w,within⟩ := reads_line (readMarks.append readRest) atEnd whole single
  obtain ⟨x,member,notMark⟩ := other
  rcases List.append_eq_append_iff.mp within with ⟨a,rfl,_⟩ | ⟨a,long,rfl⟩
  · exact notMark (isMark x (List.mem_append_left _ member))
  · rcases List.eq_nil_or_concat a with rfl | ⟨a,z,rfl⟩
    · rw [long,List.append_nil] at member
      exact notMark (isMark x member)
    · -- The last of the characters is among the blanks.
      rw [List.concat_eq_append,← List.append_assoc] at long
      obtain rfl : y = z := List.singleton_inj.mp (List.append_inj' long rfl).2
      rw [(blank y (by simp)).1] at solid
      cases solid

theorem heading_begins {level : Nat} (proper : 1 ≤ level ∧ level ≤ 6) (t : Text) :
    (List.replicate level '#' ++ t).head? = some '#' := by
  obtain ⟨level,rfl⟩ := Nat.exists_eq_succ_of_ne_zero (Nat.ne_of_gt proper.1)
  rfl

-- No block construct finds a block of its own between blocks.
theorem gap_passed {tried n : Nat} (known : standard[tried]? = some construct) (inner : n < Item.gap.text.length)
    (before rest : Text) : construct.blockAt? ((⟨before,Item.gap.text ++ rest⟩ : Cursor).past n) = none := by
  have dead := (standard_reach known).1
  refine BlockConstruct.blockAt_dead (reach_dead (t := []) dead rfl (Or.inr ⟨rest,rfl⟩) (List.forall_mem_nil _) ?_)
  exact Nat.le_of_lt_succ inner

-- Nor in a block that a later one is to find.
theorem block_passed {tried n : Nat} {written : Written} (known : standard[tried]? = some construct)
    (later : tried < written.kind.rank) (clear : Shut before) (shut : Shut rest) (inner : n < written.text.length) :
    construct.blockAt? ((⟨before,written.text ++ rest⟩ : Cursor).past n) = none := by
  have some : 0 < written.kind.rank := Nat.zero_lt_of_lt later
  cases tells : misleads tried written.kind with
  | false =>
    have dead := (standard_reach known).2 written.kind later tells
    exact BlockConstruct.blockAt_dead (reach_dead dead rfl shut (Written.chars_kind some) (Nat.le_succ_of_le (Nat.le_of_lt inner)))
  | true =>
    cases written with
    | paragraph first others notTodo =>
      have isTodo : construct = abridgedTodo ∨ construct = todo := by
        have index : tried = 8 ∨ tried = 10 := by simpa [misleads,Written.kind] using tells
        rcases index with rfl | rfl
        · exact Or.inl (Option.some.inj known).symm
        · exact Or.inr (Option.some.inj known).symm
      simp only [Written.text,Text.newline] at inner ⊢
      exact todo_paragraph isTodo notTodo clear shut inner
    | heading level title proper =>
      have held := Written.heading_text level title proper
      obtain ⟨v,y,ends,alpha⟩ := title.last
      have single : ∀ x ∈ List.replicate level '#' ++ ' ' :: title.text, x ≠ '\n' := by
        refine List.forall_mem_append.mpr ⟨fun x member => ?_,List.forall_mem_cons.mpr ⟨by decide,?_⟩⟩
        · rw [List.eq_of_mem_replicate member]
          decide
        · exact fun x member => (title.single x member).1
      rw [held] at inner ⊢
      have index : tried = 8 ∨ tried = 10 ∨ tried = 11 := by simpa [misleads,Written.kind,or_assoc] using tells
      rcases index with rfl | rfl | rfl
      · refine BlockConstruct.blockAt_dead (todo_heading (Or.inl (Option.some.inj known).symm) ?_ ?_ rest inner)
        · exact heading_begins proper _
        · exact fun member => single _ member rfl
      · refine BlockConstruct.blockAt_dead (todo_heading (Or.inr (Option.some.inj known).symm) ?_ ?_ rest inner)
        · exact heading_begins proper _
        · exact fun member => single _ member rfl
      · obtain rfl : pageBreak = construct := Option.some.inj known
        have split : List.replicate level '#' ++ ' ' :: title.text = (List.replicate level '#' ++ ' ' :: v) ++ [y] := by
          simp [ends]
        have bound : n ≤ (List.replicate level '#' ++ ' ' :: v).length := by
          rw [split,List.length_append] at inner
          exact Nat.le_of_lt_succ inner
        refine BlockConstruct.blockAt_dead (rule_dead (y := y) (v := (List.replicate level '#' ++ ' ' :: v).drop n) (u := rest)
          ?_ ?_ ⟨y,List.mem_append_right _ (List.mem_singleton_self y),alpha_other alpha rfl⟩ (alpha_solid alpha))
        · rw [Cursor.past_after,split,List.append_assoc,List.drop_append_of_le_length bound]
          rfl
        · rw [← List.drop_append_of_le_length bound,← split]
          exact fun member => single _ (List.mem_of_mem_drop member) rfl
    | code | list | table | rule => cases tells

end Block
end LightMarkup
