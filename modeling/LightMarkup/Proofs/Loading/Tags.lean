import LightMarkup.Proofs.Document.Spelling
import LightMarkup.Proofs.Loading.Rematching
import LightMarkup.Proofs.Loading.Titles
import LightMarkup.Proofs.Paragraph.Images

/-!
Chapter tags as they are written, each on a line of its own: a line is found whole among the others, and its tag has the key
that was spelled and the value that was written.
-/

namespace LightMarkup

open Pattern

structure WrittenTag where
  key : Text
  value : Option Text
  keySome : key ≠ []
  keyWord : ∀ x ∈ key, Text.isWord x = true
  valueTight : ∀ v ∈ value, Text.Tight v

namespace WrittenTag

def valueText : Option Text → Text
  | none => []
  | some v => ' ' :: v

variable (tag : WrittenTag)

def line : Text :=
  '@' :: (tag.key ++ valueText tag.value)

def Known : Prop :=
  ∃ key : TagKey, key.Spelled tag.key

-- What the tag is read as.
structure IsRead (read : ChapterTag) : Prop where
  key : read.key.Spelled tag.key
  value : read.value = tag.value

theorem IsRead.only {tag : WrittenTag} {read : ChapterTag} {key : TagKey} (isRead : tag.IsRead read)
    (spelled : key.Spelled tag.key) : read = ⟨key,tag.value⟩ := by
  obtain ⟨own,value⟩ := read
  obtain ⟨known,rfl⟩ := isRead
  cases (TagKey.ofText_spelled.mpr known).symm.trans (TagKey.ofText_spelled.mpr spelled)
  rfl

theorem word_solid {x : Char} (word : Text.isWord x = true) : Text.isBlank x = false := by
  cases blank : Text.isBlank x with
  | false => rfl
  | true =>
    rw [Text.blank_not_word blank] at word
    cases word

theorem line_tight : Text.Tight tag.line where
  single := by
    have keySingle : '\n' ∉ tag.key := fun member => absurd (word_solid (tag.keyWord _ member)) (by decide)
    rw [line]
    cases known : tag.value with
    | none => simpa [valueText] using keySingle
    | some v => simpa [valueText,keySingle] using (tag.valueTight v known).single
  first := ⟨'@',_,rfl,by decide⟩
  last := by
    rw [line]
    cases known : tag.value with
    | none =>
      obtain ⟨front,y,ends⟩ := (List.eq_nil_or_concat tag.key).resolve_left tag.keySome
      rw [List.concat_eq_append] at ends
      exact ⟨'@' :: front,y,by simp [valueText,ends],word_solid (tag.keyWord y (by simp [ends]))⟩
    | some v =>
      obtain ⟨front,y,ends,solid⟩ := (tag.valueTight v known).last
      exact ⟨'@' :: (tag.key ++ ' ' :: front),y,by simp [valueText,ends],solid⟩

end WrittenTag

namespace HeadingConstruct

open Inline (char onLine)
open Image (Holds run_reads holds_one holds_none held_append group_held)
open Block (restOfLine restOfLine_reads)

variable {c stop : Cursor} {g : Captures} {t u line before : Text} {m : Match} {offset : Nat}

theorem sign_at : (Text.ofString "@") = ['@'] := by
  rw [Text.ofString_ofList]

def valuePart : Pattern :=
  plus (.char CharSet.gap) ++ named 2 "value" (lazyMany onLine)

-- Gaps and a value, or nothing.
theorem value_reads (found : (stop,g) ∈ (maybe valuePart).ways c) :
    (stop = c ∧ Holds g 2 none) ∨
      ∃ x s v, c.Reads (x :: (s ++ v)) stop ∧ Block.Gaps (x :: s) ∧ Holds g 2 (some v) := by
  rcases mem_maybe found with some | none
  · obtain ⟨_,_,_,gap,value,rfl⟩ := seq_parts some
    obtain ⟨x,s,readGap,isGap⟩ := gaps_reads gap
    obtain ⟨v,readValue,holds⟩ := Image.group_reads rfl value
    have none := no_captures rfl gap
    dsimp only at none
    exact Or.inr ⟨x,s,v,by simpa using readGap.append readValue,isGap,by simpa [none] using holds⟩
  · cases none
    exact Or.inl ⟨rfl,holds_none 2⟩

-- A line of a tag is a sign and a key, and gaps and a value if there is one. No blanks are left behind these.
theorem tagLine_reads (tight : Text.Tight line) (found : tagLine.fullMatch? line = some m) :
    (∀ x ∈ m.group 1, Text.isWord x = true) ∧ (line = '@' :: m.group 1 ∧ m.group? 2 = none ∨
      ∃ x s v, line = '@' :: (m.group 1 ++ x :: (s ++ v)) ∧ Block.Gaps (x :: s) ∧ m.group? 2 = some v) := by
  obtain ⟨start,way,ended⟩ := fullMatch_way found
  obtain ⟨_,_,_,front,closing,captures⟩ := seq_parts way
  obtain ⟨_,_,_,keyed,isValue,rfl⟩ := seq_parts front
  obtain ⟨_,_,keyCaptures,signed,isKey,rfl⟩ := seq_parts keyed
  obtain ⟨_,_,_,begun,sign,rfl⟩ := seq_parts signed
  obtain ⟨_,same⟩ := mem_waysIf.mp begun
  cases same
  obtain ⟨readSign,rfl⟩ := literal_reads sign
  obtain ⟨key,readKey,_,words,keyCaptured⟩ := run_parts isKey
  obtain ⟨r,readRest,blank,_⟩ := restOfLine_reads closing
  have noneRest := no_captures rfl closing
  dsimp only at readKey readRest noneRest keyCaptured
  rw [sign_at] at readSign
  have keyHeld : Holds keyCaptures 1 (some key) := keyCaptured ▸ holds_one readKey
  have trimmed : ∀ {u : Text} {mid : Cursor}, m.start.Reads u mid → mid.Reads r m.stop → line = u := by
    intro u mid one two
    have read := (one.append two).1
    rw [ended,List.append_nil,start] at read
    rw [show line = u ++ r from read,tight.no_trail (fun y member => (blank y member).1) read.symm,List.append_nil]
  rcases value_reads isValue with ⟨rfl,valueHeld⟩ | ⟨x,s,v,readValue,isGap,valueHeld⟩
  · have isKey : m.group 1 = key := by
      simp [Match.group,group_held,captures,noneRest,held_append,keyHeld.here,valueHeld.other]
    rw [isKey]
    exact ⟨words,Or.inl ⟨trimmed (readSign.append readKey) readRest,
      by simp [group_held,captures,noneRest,held_append,keyHeld.other,valueHeld.here]⟩⟩
  · have isKey : m.group 1 = key := by
      simp [Match.group,group_held,captures,noneRest,held_append,keyHeld.here,valueHeld.other]
    rw [isKey]
    refine ⟨words,Or.inr ⟨x,s,v,?_,isGap,?_⟩⟩
    · simpa using trimmed ((readSign.append readKey).append readValue) readRest
    · simp [group_held,captures,noneRest,held_append,valueHeld.here]

theorem gap_wordless {x : Char} (isGap : CharSet.gap.contains x = true) (words : ∀ y ∈ t, Text.isWord y = true) : x ∉ t := by
  intro member
  have solid := WrittenTag.word_solid (words x member)
  rw [Block.Gaps.blank (List.forall_mem_singleton.mpr isGap) x (List.mem_singleton_self x)] at solid
  cases solid

theorem tagLine_written (tag : WrittenTag) (found : tagLine.fullMatch? tag.line = some m) :
    m.group 1 = tag.key ∧ m.group? 2 = tag.value := by
  obtain ⟨words,read⟩ := tagLine_reads tag.line_tight found
  rw [WrittenTag.line] at read
  cases known : tag.value with
  | none =>
    rw [known,WrittenTag.valueText,List.append_nil] at read
    rcases read with ⟨same,none⟩ | ⟨x,s,v,same,isGap,_⟩
    · exact ⟨(List.cons.inj same).2.symm,none⟩
    · refine absurd ?_ (gap_wordless (isGap x (List.mem_cons_self ..)) tag.keyWord)
      rw [(List.cons.inj same).2]
      simp
  | some w =>
    rw [known,WrittenTag.valueText] at read
    rcases read with ⟨same,_⟩ | ⟨x,s,v,same,isGap,value⟩
    · refine absurd ?_ (gap_wordless (x := ' ') rfl words)
      rw [← (List.cons.inj same).2]
      simp
    · have notWord : ∀ {y : Char}, CharSet.gap.contains y = true → ¬ Text.isWord y = true := fun isGap word =>
        gap_wordless isGap (List.forall_mem_singleton.mpr word) (List.mem_singleton_self _)
      obtain ⟨key,rfl,later⟩ := Text.run_once tag.keyWord words (notWord rfl) (notWord (isGap x (List.mem_cons_self ..)))
        (List.cons.inj same).2
      obtain rfl := (tag.valueTight w known).no_lead (fun y member => isGap.blank y (List.mem_cons_of_mem _ member)) later.symm
      exact ⟨key.symm,value.trans (congrArg some later.symm)⟩

theorem key_accepts (tag : WrittenTag) : (plus (.char .word)).Accepts tag.key :=
  plus_accepts tag.keySome fun x member => tag.keyWord x member

theorem tagLine_takes (tag : WrittenTag) : tagLine.Takes (.start tag.line) tag.line := by
  have sign : (.lineStart ++ literal (Text.ofString "@") : Pattern).Takes (.start tag.line) ['@'] := by
    rw [sign_at]
    exact (Block.takes_lineStart rfl).looked (takes_literal rfl)
  have key : (named 1 "key" (plus (.char .word))).Accepts tag.key := (key_accepts tag).group
  have value : (maybe valuePart).Accepts (WrittenTag.valueText tag.value) := by
    cases known : tag.value with
    | none => exact maybe_accepts_none _
    | some v =>
      have gap : (plus (.char CharSet.gap)).Accepts [' '] :=
        plus_accepts (List.cons_ne_nil _ _) (List.forall_mem_singleton.mpr rfl)
      have text : (lazyMany onLine).Accepts v := lazily_accepts (Text.line_chars (tag.valueTight v known).single)
      exact (gap.seq text.group).maybe
  have written : (Cursor.start tag.line).after = ['@'] ++ (tag.key ++ WrittenTag.valueText tag.value) := rfl
  have front := sign.then written key
  have ahead : (Cursor.start tag.line).after = ['@'] ++ tag.key ++ (WrittenTag.valueText tag.value ++ []) := by simp [written]
  have whole := front.then ahead value
  refine whole.looking (Block.takes_restOfLine (Or.inl ?_))
  rw [Cursor.past_after,written]
  simp

-- A tag is read as it was written, if its key is known.
theorem tagOfLine_written (tag : WrittenTag) : tagOfLine tag.line = ChapterTag.ofText tag.key tag.value := by
  obtain ⟨m,found⟩ := (tagLine_takes tag).full
  obtain ⟨key,value⟩ := tagLine_written tag found
  rw [tagOfLine,found]
  simp only [key,value]

-- A greedy repetition prefers to take all it can.
theorem many_head (set : CharSet) (c : Cursor) :
    ((many (.char set)).ways c).head? = some (c.past (runOf set c.after),[]) := by
  simp [ways_many,List.range_succ]

theorem rest_endsLine (c : Cursor) : Text.EndsLine (c.past (runOf CharSet.notNewline c.after)).after := by
  intro x first
  have drop : (c.past (runOf CharSet.notNewline c.after)).after = c.after.dropWhile CharSet.notNewline.contains := by
    rw [Cursor.past_after,runOf]
    conv => lhs; arg 2; rw [← List.takeWhile_append_dropWhile (p := CharSet.notNewline.contains) (l := c.after)]
    exact List.drop_left
  rw [drop] at first
  have stops := List.head?_dropWhile_not CharSet.notNewline.contains c.after
  rw [first] at stops
  simpa [CharSet.notNewline,CharSet.contains] using stops

theorem nonBlankLine_found (found : nonBlankLine.matchAt? c = some m) :
    c.Reads m.text m.stop ∧ '\n' ∉ m.text ∧ m.length ≠ 0 ∧ Text.EndsLine m.stop.after := by
  obtain ⟨rfl,isWay⟩ := matchAt_way found
  have only : nonBlankLine.Only (· ≠ '\n') := Block.avoids_only (by decide)
  obtain ⟨t,read,single⟩ := ways_only only _ _ isWay
  obtain ⟨u,x,_,again,inside,_⟩ := needs_reads (show nonBlankLine.needs (fun _ => true) = true from rfl) isWay
  rw [matchAt_head] at found
  obtain ⟨way,head,same⟩ := Option.map_eq_some_iff.mp found
  obtain ⟨_,first,_,next,_,last,rfl,_⟩ := head_seq_inv head
  rw [many_head] at last
  cases last
  rw [show m.text = t from read.textTo]
  refine ⟨read,fun member => single _ member rfl,?_,?_⟩
  · have some := List.length_pos_of_mem inside
    rw [Match.length,again.position]
    omega
  · rw [← same]
    exact rest_endsLine first.1

-- A line that begins with something is taken whole.
theorem nonBlankLine_whole (before : Text) (tight : Text.Tight line) (ended : Text.EndsLine u) :
    ∃ m, nonBlankLine.matchSomeAt? ⟨before,line ++ u⟩ = some m ∧ m.text = line ∧ m.length = line.length := by
  obtain ⟨x,rest,begins,solid⟩ := tight.first
  have one : nonBlankLine.Takes ⟨before,line ++ u⟩ [x] := by
    have ahead : (⟨before,line ++ u⟩ : Cursor).after = x :: (rest ++ u) := by rw [begins]; rfl
    have inSet : (CharSet.complement .blank).contains x = true := by simp [CharSet.contains,solid]
    exact ((takes_none _ _).looked (takes_char ahead inSet)).looking (takes_none _ _)
  obtain ⟨m,found⟩ := Option.isSome_iff_exists.mp one.found
  obtain ⟨read,single,some,ends⟩ := nonBlankLine_found found
  obtain ⟨same,_⟩ := Text.line_once single tight.single ends ended read.1.symm
  refine ⟨m,matchSomeAt_some found some,same,?_⟩
  rw [Match.length,(matchAt_way found).1,read.position,same,Nat.add_sub_cancel_left]

-- Lines below each other are found one by one.
theorem occurrences_lines {lines : List Text} (each : ∀ line ∈ lines, Text.Tight line) :
    (nonBlankLine.occurrences (lines.flatMap ('\n' :: ·))).map Match.text = lines := by
  have scanned : ∀ before, (scanFrom Match.length nonBlankLine.matchSomeAt? before 0 (lines.flatMap ('\n' :: ·))).map
      Match.text = lines := by
    induction lines with
    | nil =>
      intro before
      rw [List.flatMap_nil,scanFrom,(occurrences_find nonBlankLine).not_at_end]
      rfl
    | cons line lines ih =>
      intro before
      obtain ⟨tight,others⟩ := List.forall_mem_cons.mp each
      have ended : Text.EndsLine (lines.flatMap ('\n' :: ·)) := by
        cases lines <;> simp [Text.EndsLine]
      have dead : nonBlankLine.matchSomeAt? ⟨before,'\n' :: (line ++ lines.flatMap ('\n' :: ·))⟩ = none := by
        rw [matchSomeAt_none,outset_dead (x := '\n') (by decide) rfl]
        exact List.forall_mem_nil _
      obtain ⟨m,found,text,length⟩ := nonBlankLine_whole ('\n' :: before) tight ended
      obtain ⟨x,rest,begins,_⟩ := tight.first
      rw [List.flatMap_cons,List.cons_append,scanFrom,dead]
      dsimp only
      rw [scan_take found (by simp [begins]) length,List.map_cons,text,ih others]
  exact scanned []

theorem tagOfLine_known {tag : WrittenTag} {key : TagKey} (spelled : key.Spelled tag.key) :
    tagOfLine tag.line = .ok ⟨key,tag.value⟩ := by
  rw [tagOfLine_written,ChapterTag.ofText,TagKey.ofText_spelled.mpr spelled]

theorem tagOfLine_unknown {tag : WrittenTag} (unknown : ¬ tag.Known) :
    tagOfLine tag.line = .error (.invalidTag ('@' :: tag.key)) := by
  cases known : TagKey.ofText? tag.key with
  | none => rw [tagOfLine_written,ChapterTag.ofText,known]
  | some key => exact absurd ⟨key,TagKey.ofText_spelled.mp known⟩ unknown

variable {written : List WrittenTag} {ms : List Match}

-- Lines with tags under known keys are read in order.
theorem tagsOfLines_known (offset : Nat) (known : ∀ tag ∈ written, tag.Known) (lines : ms.map Match.text = written.map WrittenTag.line) :
    ∃ blocks tags, tagsOfLines offset ms = .ok blocks ∧ blocks.map PlacedBlock.content = tags.map .tag ∧
      List.Forall₂ WrittenTag.IsRead written tags := by
  induction ms generalizing written with
  | nil =>
    obtain rfl := List.map_eq_nil_iff.mp lines.symm
    exact ⟨[],[],rfl,rfl,.nil⟩
  | cons m ms ih =>
    obtain ⟨tag,written,rfl,text,later⟩ := List.map_eq_cons_iff.mp lines.symm
    obtain ⟨⟨key,spelled⟩,others⟩ := List.forall_mem_cons.mp known
    obtain ⟨blocks,tags,run,contents,each⟩ := ih others later.symm
    refine ⟨⟨offset + m.start.position,offset + m.stop.position,.tag ⟨key,tag.value⟩⟩ :: blocks,⟨key,tag.value⟩ :: tags,?_,
      congrArg (_ :: ·) contents,.cons ⟨spelled,rfl⟩ each⟩
    rw [tagsOfLines,← text,tagOfLine_known spelled,run]
    rfl

-- The first one under another key is reported.
theorem tagsOfLines_unknown (offset : Nat) {tag : WrittenTag} (member : tag ∈ written) (unknown : ¬ tag.Known)
    (lines : ms.map Match.text = written.map WrittenTag.line) :
    ∃ first ∈ written, ¬ first.Known ∧ tagsOfLines offset ms = .error (.invalidTag ('@' :: first.key)) := by
  induction ms generalizing written with
  | nil =>
    obtain rfl := List.map_eq_nil_iff.mp lines.symm
    cases member
  | cons m ms ih =>
    obtain ⟨next,written,rfl,text,later⟩ := List.map_eq_cons_iff.mp lines.symm
    by_cases known : next.Known
    · obtain ⟨key,spelled⟩ := known
      have behind : tag ∈ written := by
        rcases List.mem_cons.mp member with rfl | behind
        · exact absurd ⟨key,spelled⟩ unknown
        · exact behind
      obtain ⟨first,isFirst,other,run⟩ := ih behind later.symm
      refine ⟨first,List.mem_cons_of_mem _ isFirst,other,?_⟩
      rw [tagsOfLines,← text,tagOfLine_known spelled,run]
      rfl
    · refine ⟨next,List.mem_cons_self ..,known,?_⟩
      rw [tagsOfLines,← text,tagOfLine_unknown known]
      rfl

end HeadingConstruct
end LightMarkup
