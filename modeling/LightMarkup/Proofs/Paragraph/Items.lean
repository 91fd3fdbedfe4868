import LightMarkup.Proofs.Paragraph.Lines
import LightMarkup.Proofs.Pattern.Taking

/-!
Lists lose no text. The first line of a list block is an item whatever breaks its lines, because a bullet holds no break and
reads the same wherever it stands; every other line is an item or goes on with the one before it.
-/

namespace LightMarkup

namespace Pattern

variable {p : Pattern} {c : Cursor} {way : Way} {t : Text}

-- What a pattern takes at one place it takes wherever the text stands, if it looks at nothing else.
theorem looksOnly_accepts (looks : p.looksOnly [] = true) (found : way ∈ p.ways c) (read : c.Reads t way.1) : p.Accepts t := by
  obtain ⟨before,after⟩ := c
  obtain rfl : after = t ++ way.1.after := read.1
  have own : ∀ around, ((p.ways ⟨around.before,t ++ around.after⟩).filter (staysIn around)) =
      (p.ways (.start t)).map (Way.inside around) := fun around => looksOnly_own (List.forall_mem_nil _) looks (.start t)
  obtain ⟨inner,isInner,ended⟩ : ∃ inner ∈ p.ways (.start t), inner.1.after = [] := by
    have kept := List.mem_filter.mpr ⟨found,show staysIn ⟨before,way.1.after⟩ way = true from decide_eq_true (Nat.le_refl _)⟩
    rw [own ⟨before,way.1.after⟩] at kept
    obtain ⟨inner,isInner,same⟩ := List.mem_map.mp kept
    have behind : inner.1.after ++ way.1.after = way.1.after := congrArg (fun way => way.1.after) same
    exact ⟨inner,isInner,by simpa using behind⟩
  rintro ⟨front,_⟩ rest rfl
  have there : inner.inside ⟨front,rest⟩ ∈ p.ways ⟨front,t ++ rest⟩ := by
    have kept := List.mem_map_of_mem (f := Way.inside ⟨front,rest⟩) isInner
    rw [← own ⟨front,rest⟩] at kept
    exact (List.mem_filter.mp kept).1
  obtain ⟨u,reads⟩ := ways_reads isInner
  obtain rfl : t = u := by simpa [Cursor.start,ended] using reads.1
  have stop : (inner.inside ⟨front,rest⟩).1 = Cursor.past ⟨front,t ++ rest⟩ t.length := by
    refine Cursor.Reads.eq_past ⟨?_,?_⟩
    · simp [Way.inside,Cursor.inside,ended]
    · simp [Way.inside,Cursor.inside,reads.2,Cursor.start]
  rw [Takes,← stop]
  exact ⟨_,there⟩

end Pattern

namespace Text

variable {t u : Text} {x : Char}

-- The characters that are not blank.
def ink (t : Text) : Text :=
  t.filter fun x => !isBlank x

theorem ink_append (t u : Text) : ink (t ++ u) = ink t ++ ink u :=
  List.filter_append ..

theorem ink_blank (blank : Blank t) : ink t = [] :=
  List.filter_eq_nil_iff.mpr fun x member => by simp [blank x member]

theorem ink_trim (t : Text) : ink (trim t) = ink t := by
  obtain ⟨lead,isLead,front⟩ := trimStart_split t
  obtain ⟨trail,isTrail,back⟩ := trimEnd_split (trimStart t)
  have whole : t = lead ++ (trim t ++ trail) := by rw [trim,← back,← front]
  rw [whole,ink_append,ink_append,ink_blank isLead,ink_blank isTrail,List.nil_append,List.append_nil,← whole]

theorem ink_allBlank (blank : isAllBlank t = true) : ink t = [] :=
  ink_blank fun x member => List.all_eq_true.mp blank x member

theorem break_blank (isBreak : isLineBreak x = true) : isBlank x = true := by
  simp only [isLineBreak,isBlank,Bool.or_eq_true,Bool.and_eq_true,decide_eq_true_eq,beq_iff_eq] at isBreak ⊢
  omega

-- Only breaks are not in the lines.
theorem ink_lines (t : Text) : ink (lines t).flatten = ink t := by
  have feed : ∀ {x : Char} (t : Text), isLineBreak x = true → ink (x :: t) = ink t := by
    intro x t isBreak
    exact List.filter_cons_of_neg (by simp [break_blank isBreak])
  induction t using lines.induct with
  | case1 => rfl
  | case2 rest ih => rw [feed _ rfl,feed _ rfl,← ih]; rfl
  | case3 x rest other isBreak ih =>
    rw [feed _ isBreak,← ih,lines,if_pos isBreak]
    · rfl
    · exact other
  | case4 x rest other unbroken empty ih =>
    rw [lines_cons (Bool.eq_false_iff.mpr unbroken),empty]
    rw [empty] at ih
    show ink ([x] ++ []) = ink ([x] ++ rest)
    rw [ink_append,ink_append,← ih]
    rfl
  | case5 x rest other unbroken line others split ih =>
    rw [lines_cons (Bool.eq_false_iff.mpr unbroken),split]
    rw [split] at ih
    show ink ([x] ++ (line :: others).flatten) = ink ([x] ++ rest)
    rw [ink_append,ink_append,ih]

-- The first line goes on to the first break.
theorem lines_first (some : t ≠ []) : ∃ others, lines t = t.takeWhile (fun x => !isLineBreak x) :: others := by
  induction t using lines.induct with
  | case1 => exact absurd rfl some
  | case2 rest ih => exact ⟨_,rfl⟩
  | case3 x rest other isBreak ih =>
    rw [lines,if_pos isBreak]
    · simp [isBreak]
    · exact other
  | case4 x rest other unbroken empty ih =>
    have none : rest = [] := by
      by_contra some
      obtain ⟨others,split⟩ := ih some
      rw [empty] at split
      cases split
    rw [lines_cons (Bool.eq_false_iff.mpr unbroken),empty,none]
    exact ⟨[],by simp [unbroken]⟩
  | case5 x rest other unbroken line others split ih =>
    have more : rest ≠ [] := by
      rintro rfl
      cases split
    obtain ⟨later,same⟩ := ih more
    rw [split] at same
    rw [lines_cons (Bool.eq_false_iff.mpr unbroken),split,List.takeWhile_cons_of_pos (by simpa using unbroken)]
    exact ⟨others,by rw [(List.cons.inj same).1]⟩

def breaks : List Char :=
  [0x0a,0x0b,0x0c,0x0d,0x1c,0x1d,0x1e,0x85,0x2028,0x2029].map Char.ofNat

theorem mem_breaks (isBreak : isLineBreak x = true) : x ∈ breaks := by
  refine List.mem_map.mpr ⟨x.toNat,?_,Char.ofNat_toNat x⟩
  simp only [isLineBreak,Bool.or_eq_true,Bool.and_eq_true,decide_eq_true_eq,beq_iff_eq] at isBreak
  simp only [List.mem_cons,List.not_mem_nil,or_false]
  omega

-- Characters of a set that has no break are on one line.
theorem set_unbroken {set : CharSet} (none : breaks.all (fun x => !set.contains x) = true)
    (all : ∀ x ∈ t, set.contains x = true) : Unbroken t := by
  intro x member
  refine Bool.eq_false_iff.mpr fun isBreak => ?_
  have other := List.all_eq_true.mp none x (mem_breaks isBreak)
  simp [all x member] at other

end Text

namespace ListItem

open Pattern Text

variable {line : Text} {item : ListItem} {items : List ListItem} {lines : List Text}

def isItem (line : Text) : Bool :=
  (Block.listItem.matchStart? line).isSome

theorem isItem_some (isItem : isItem line = true) : ∃ item, ofLine? line = some item :=
  Option.isSome_iff_exists.mp (by rwa [ofLine?,Option.isSome_map])

theorem item_isItem (isItem : ofLine? line = some item) : ListItem.isItem line = true := by
  obtain ⟨m,found,_⟩ := Option.map_eq_some_iff.mp isItem
  rw [ListItem.isItem,found]
  rfl

theorem none_isItem (none : ofLine? line = none) : isItem line = false := by
  simpa [isItem,ofLine?] using none

-- An item is written between blanks, and a space is behind its bullet.
theorem item_written (isItem : ofLine? line = some item) :
    ∃ g h, line = g ++ (item.bullet ++ (' ' :: (item.content ++ h))) ∧ Blank g ∧ Blank h := by
  obtain ⟨m,found,same⟩ := Option.map_eq_some_iff.mp isItem
  obtain ⟨start,way⟩ := matchAt_way found
  obtain ⟨_,_,_,toReturn,last,captures⟩ := seq_parts way
  obtain ⟨_,_,_,toGaps,return_,rfl⟩ := seq_parts toReturn
  obtain ⟨_,_,_,toContent,gaps,rfl⟩ := seq_parts toGaps
  obtain ⟨_,_,_,toSpace,content,rfl⟩ := seq_parts toContent
  obtain ⟨_,_,_,toBullet,space,rfl⟩ := seq_parts toSpace
  obtain ⟨_,_,_,toLead,bullet,rfl⟩ := seq_parts toBullet
  obtain ⟨_,_,_,first,lead,rfl⟩ := seq_parts toLead
  obtain ⟨_,begins⟩ := mem_waysIf.mp first
  cases begins
  obtain ⟨inner,isLead,begins⟩ := mem_captured rfl lead
  cases begins
  obtain ⟨g,readLead,gapsLead,_⟩ := Block.mem_gaps.mp isLead
  obtain ⟨⟨b,readBullet⟩,rfl⟩ := group_parts (by decide +kernel) bullet
  rw [ofString_eq] at space
  obtain ⟨readSpace,none⟩ := literal_reads space
  cases none
  obtain ⟨⟨t,readContent⟩,rfl⟩ := group_parts rfl content
  obtain ⟨h,readGaps,isGaps,none⟩ := Block.mem_gaps.mp gaps
  cases none
  have returns : Block.optionalReturn.Only fun x => isBlank x = true := one_blank rfl
  obtain ⟨r,readReturn,isReturn⟩ := ways_only returns _ _ return_
  obtain rfl : _ = [] := no_captures rfl return_
  obtain ⟨ended,stop⟩ := mem_waysIf.mp last
  cases stop
  have isEnd : Blank m.stop.after := by
    rcases Bool.or_eq_true_iff.mp ended with none | newline
    · rw [List.isEmpty_iff.mp none]
      exact List.forall_mem_nil _
    · rw [beq_iff_eq.mp newline]
      exact List.forall_mem_singleton.mpr rfl
  have isBullet : m.group 2 = b := by
    simpa [Match.group,Match.group?,Match.capture?,captures] using readBullet.textTo
  have isContent : m.group 3 = t := by
    simpa [Match.group,Match.group?,Match.capture?,captures] using readContent.textTo
  have whole := (((((readLead.append readBullet).append readSpace).append readContent).append readGaps).append readReturn).1
  rw [← same,isBullet,isContent]
  refine ⟨g,h ++ (r ++ m.stop.after),?_,gapsLead.blank,?_⟩
  · rw [start] at whole
    simpa [Cursor.start] using whole
  · exact List.forall_mem_append.mpr ⟨isGaps.blank,List.forall_mem_append.mpr ⟨isReturn,isEnd⟩⟩

theorem item_ink (isItem : ofLine? line = some item) : ink (item.bullet ++ item.content) = ink line := by
  obtain ⟨g,h,rfl,isLead,isTrail⟩ := item_written isItem
  have space : ink (' ' :: (item.content ++ h)) = ink (item.content ++ h) := rfl
  rw [ink_append,ink_append,ink_append,space,ink_append,ink_blank isLead,ink_blank isTrail,List.nil_append,List.append_nil]

-- What the items hold, one after the other.
def written (items : List ListItem) : Text :=
  items.flatMap fun item => item.bullet ++ item.content

theorem written_append (items others : List ListItem) : written (items ++ others) = written items ++ written others :=
  List.flatMap_append

theorem written_one (item : ListItem) : written [item] = item.bullet ++ item.content :=
  List.flatMap_singleton ..

theorem continueLast_ink (some : items ≠ []) : ink (written (continueLast line items)) = ink (written items) ++ ink line := by
  induction items with
  | nil => exact absurd rfl some
  | cons item items ih =>
    cases items with
    | nil =>
      have space : ink " " = [] := by rw [ofString_eq]; rfl
      rw [continueLast,written_one,written_one]
      simp only [ink_append,space,List.nil_append,List.append_assoc]
    | cons next items =>
      have later := ih (List.cons_ne_nil _ _)
      have front : ∀ others, written (item :: others) = written [item] ++ written others := written_append [item]
      rw [continueLast,front,front (next :: items),ink_append,ink_append,later,List.append_assoc]
      rintro ⟨⟩

theorem continueLast_length (line : Text) (items : List ListItem) : (continueLast line items).length = items.length := by
  induction items with
  | nil => rfl
  | cons item items ih =>
    cases items with
    | nil => rfl
    | cons next items =>
      rw [continueLast,List.length_cons,ih]
      · rfl
      · rintro ⟨⟩

-- One line more, where a line that is no item is no failure.
def withLine (items : List ListItem) (line : Text) : List ListItem :=
  if isAllBlank line then items
  else match ofLine? line with
    | some item => items ++ [item]
    | none => continueLast (trim line) items

theorem withLine_item (isItem : ofLine? line = some item) (items : List ListItem) : withLine items line = items ++ [item] := by
  rw [withLine,if_neg (by simp [item_filled isItem]),isItem]

theorem withLine_ink (covered : items ≠ [] ∨ isItem line = true) :
    ink (written (withLine items line)) = ink (written items) ++ ink line := by
  cases known : ofLine? line with
  | some item => rw [withLine_item known,written_append,ink_append,written_one,item_ink known]
  | none =>
    cases blank : isAllBlank line with
    | true => rw [withLine,if_pos blank,ink_allBlank blank,List.append_nil]
    | false =>
      have some : items ≠ [] := covered.resolve_right (by simp [none_isItem known])
      rw [withLine,if_neg (by simp [blank]),known]
      exact (continueLast_ink some).trans (by rw [ink_trim])

theorem withLine_length (items : List ListItem) (line : Text) :
    (withLine items line).length = items.length + if isItem line then 1 else 0 := by
  cases known : ofLine? line with
  | some item =>
    rw [withLine_item known,List.length_append,if_pos (item_isItem known)]
    rfl
  | none =>
    rw [if_neg (by simp [none_isItem known]),withLine,known]
    split
    · rfl
    · exact continueLast_length _ _

theorem withLines_length (items : List ListItem) (lines : List Text) :
    (lines.foldl withLine items).length = items.length + lines.countP isItem := by
  induction lines generalizing items with
  | nil => rfl
  | cons line lines ih =>
    rw [List.foldl_cons,ih,withLine_length,List.countP_cons]
    omega

theorem withLines_ink (some : items ≠ []) :
    ink (written (lines.foldl withLine items)) = ink (written items) ++ ink lines.flatten := by
  induction lines generalizing items with
  | nil => exact (List.append_nil _).symm
  | cons line lines ih =>
    have more : withLine items line ≠ [] := by
      intro none
      have length := withLine_length items line
      rw [none,List.length_nil] at length
      exact some (List.length_eq_zero_iff.mp (by omega))
    rw [List.foldl_cons,ih more,withLine_ink (Or.inl some),List.flatten_cons,ink_append,List.append_assoc]

theorem ofLinesAfter_run (before : List ListItem) (lines : List Text) :
    (ofLinesAfter false before lines).outcome = .ok (lines.foldl withLine before) := by
  induction lines generalizing before with
  | nil => rfl
  | cons line lines ih =>
    rw [ofLinesAfter,List.foldl_cons,withLine]
    cases isAllBlank line with
    | true => exact ih before
    | false =>
      cases ofLine? line with
      | some item => exact ih (before ++ [item])
      | none =>
        rw [← ih]
        exact Logged.outcome_bind _ _

-- Neither blank nor an item.
def isStray (line : Text) : Bool :=
  !isAllBlank line && !isItem line

theorem ofLinesAfter_strict (before : List ListItem) (lines : List Text) :
    (ofLinesAfter true before lines).outcome = match lines.find? isStray with
      | some line => .error (.invalidListItem (trim line))
      | none => .ok (lines.foldl withLine before) := by
  induction lines generalizing before with
  | nil => rfl
  | cons line lines ih =>
    rw [ofLinesAfter,List.foldl_cons,withLine]
    cases blank : isAllBlank line with
    | true =>
      rw [List.find?_cons_of_neg (by simp [isStray,blank])]
      exact ih before
    | false =>
      cases known : ofLine? line with
      | some item =>
        rw [List.find?_cons_of_neg (by simp [isStray,item_isItem known])]
        exact ih (before ++ [item])
      | none =>
        rw [List.find?_cons_of_pos (by simp [isStray,blank,none_isItem known])]
        rfl

theorem avoids_unbroken {p : Pattern} {c : Cursor} {way : Way} {t : Text}
    (avoids : breaks.all (fun x => Block.avoids x p) = true) (found : way ∈ p.ways c) (read : c.Reads t way.1) :
    Unbroken t := by
  intro x member
  refine Bool.eq_false_iff.mpr fun isBreak => ?_
  obtain ⟨u,same,others⟩ := ways_only (Block.avoids_only (List.all_eq_true.mp avoids x (mem_breaks isBreak))) _ _ found
  obtain rfl := read.unique same
  exact others x member rfl

-- A bullet with a space behind it makes a line an item.
theorem bullet_isItem {g b t : Text} (lead : Block.Gaps g) (bullet : Block.bullet.Accepts b) (single : '\n' ∉ t) :
    isItem (g ++ (b ++ (' ' :: t))) = true := by
  have space : (literal " ").Accepts [' '] := by
    rw [ofString_eq]
    exact literal_accepts [' ']
  have onLine : ∀ x ∈ t, CharSet.notNewline.contains x = true := by
    intro x member
    have other : x ≠ '\n' := fun same => single (same ▸ member)
    simpa [CharSet.notNewline,CharSet.contains] using other
  generalize whole : g ++ (b ++ (' ' :: t)) = line
  have begins : (Cursor.start line).after = g ++ (b ++ (' ' :: t)) := whole.symm
  have indented : (textStart ++ named 1 "indentation" gaps).Takes (.start line) g :=
    Takes.looked (takes_nothing (mem_waysIf.mpr ⟨rfl,rfl⟩)) (.group (takes_run begins lead))
  have isBullet : (named 2 "bullet" Block.bullet).Accepts b := bullet.group
  have content : (named 3 "content" (lazyMany Inline.onLine)).Accepts t := (lazily_accepts onLine).group
  have bulleted := indented.then begins isBullet
  have spaced := bulleted.then (by simpa using begins) space
  have all : (Cursor.start line).after = (g ++ b ++ [' ']) ++ (t ++ []) := by simpa using begins
  have filled := spaced.then all content
  have ended : lastLineEnd.Takes ((Cursor.start line).past (g ++ b ++ [' '] ++ t).length) [] := by
    refine takes_nothing (mem_waysIf.mpr ⟨?_,rfl⟩)
    rw [Cursor.past_after,begins]
    simp
  have trailing : (many (.char CharSet.gap)).Takes ((Cursor.start line).past (g ++ b ++ [' '] ++ t).length) [] := takes_none _ _
  have return_ : Block.optionalReturn.Takes ((Cursor.start line).past (g ++ b ++ [' '] ++ t).length) [] := takes_maybe_none _ _
  exact (((filled.looking trailing).looking return_).looking ended).found

theorem list_first {m : Match} (isWay : m.IsWay Block.list.pattern) :
    ∃ first others, Text.lines m.text = first :: others ∧ isItem first = true := by
  obtain ⟨_,_,_,toLast,last,_⟩ := seq_parts isWay
  obtain ⟨_,_,_,toOthers,others,_⟩ := seq_parts toLast
  obtain ⟨_,_,_,toSpace,content,_⟩ := seq_parts toOthers
  obtain ⟨_,_,_,toBullet,space,_⟩ := seq_parts toSpace
  obtain ⟨_,_,_,toGaps,bullet,_⟩ := seq_parts toBullet
  obtain ⟨_,_,_,start,lead,_⟩ := seq_parts toGaps
  obtain ⟨_,begins⟩ := mem_waysIf.mp start
  cases begins
  obtain ⟨g,readGaps,gaps,_⟩ := Block.mem_gaps.mp lead
  obtain ⟨b,readBullet⟩ := ways_reads bullet
  rw [ofString_eq] at space
  obtain ⟨readSpace,_⟩ := literal_reads space
  obtain ⟨t,readContent⟩ := ways_reads content
  obtain ⟨u,readOthers⟩ := ways_reads others
  obtain ⟨v,readLast⟩ := ways_reads last
  have whole : m.text = g ++ (b ++ (' ' :: (t ++ u ++ v))) := by
    have read := ((((readGaps.append readBullet).append readSpace).append readContent).append readOthers).append readLast
    rw [Match.text,read.textTo]
    simp
  have unbroken : Unbroken (g ++ (b ++ [' '])) := by
    refine List.forall_mem_append.mpr ⟨?_,List.forall_mem_append.mpr ⟨?_,List.forall_mem_singleton.mpr rfl⟩⟩
    · exact set_unbroken (by decide +kernel) gaps
    · exact avoids_unbroken (by decide +kernel) bullet readBullet
  have accepts : Block.bullet.Accepts b := looksOnly_accepts (by decide +kernel) bullet readBullet
  obtain ⟨others,split⟩ := lines_first (t := m.text) (by simp [whole])
  refine ⟨_,others,split,?_⟩
  have here : m.text = (g ++ (b ++ [' '])) ++ (t ++ u ++ v) := by simp [whole]
  rw [here,List.takeWhile_append_of_pos fun x member => by simpa using unbroken x member]
  have item := bullet_isItem gaps accepts (t := (t ++ u ++ v).takeWhile fun x => !isLineBreak x) fun newline =>
    absurd (List.mem_takeWhile_imp newline) (by decide)
  simpa using item

-- What is read from a list: its characters, the lines of its items, and its beginning.
structure Accounts (raw : Text) (items : List ListItem) : Prop where
  ink : ink (written items) = ink raw
  count : items.length = (Text.lines raw).countP isItem
  first : ∃ line, (Text.lines raw).find? (fun line => !isAllBlank line) = some line ∧ isItem line = true

theorem list_accounts {m : Match} (isWay : m.IsWay Block.list.pattern) : ∃ items,
    (ofText false m.text).outcome = .ok items ∧ Accounts m.text items ∧
      (ofText true m.text).outcome = match (Text.lines m.text).find? isStray with
        | some line => .error (.invalidListItem (trim line))
        | none => .ok items := by
  obtain ⟨first,others,split,isFirst⟩ := list_first isWay
  obtain ⟨item,found⟩ := isItem_some isFirst
  refine ⟨_,ofLinesAfter_run [] (Text.lines m.text),⟨?_,?_,?_⟩,ofLinesAfter_strict [] (Text.lines m.text)⟩
  · have some : [item] ≠ [] := List.cons_ne_nil _ _
    rw [← ink_lines m.text,split,List.foldl_cons,withLine_item found,List.nil_append,withLines_ink some,written_one,
      item_ink found,List.flatten_cons,ink_append]
  · rw [withLines_length,List.length_nil,Nat.zero_add]
  · exact ⟨first,by rw [split,List.find?_cons_of_pos (by simp [item_filled found])],isFirst⟩

-- A list whose first line ends before the newline.
def brokenList : Match :=
  ⟨.start "- a\u2028b\n+ c",(Cursor.start "- a\u2028b\n+ c").past 9,[]⟩

theorem list_accounts_broken : brokenList.IsWay Block.list.pattern ∧ ∃ items,
    (ofText false brokenList.text).outcome = .ok items ∧ Accounts brokenList.text items ∧
      (ofText true brokenList.text).outcome = match (Text.lines brokenList.text).find? isStray with
        | some line => .error (.invalidListItem (trim line))
        | none => .ok items := by
  have found : Block.list.pattern.matchAt? brokenList.start = some brokenList := by decide +kernel
  have isWay := (matchAt_way found).2
  exact ⟨isWay,list_accounts isWay⟩

end ListItem
end LightMarkup
