import LightMarkup.Proofs.Loading.Leaves

/-!
Headings as they are written: a construct for as many hashes as stand there is the only one that matches, and its match is
the heading alone, with the title between the space and the end of the line.
-/

namespace LightMarkup

open Pattern

namespace Text

variable {t u v w : Text}

-- What stands behind a line.
abbrev EndsLine (t : Text) : Prop :=
  ∀ x ∈ t.head?, x = '\n'

theorem line_once (one : '\n' ∉ t) (two : '\n' ∉ u) (ends : EndsLine v) (ends' : EndsLine w) (same : t ++ v = u ++ w) :
    t = u ∧ v = w := by
  have front : ∀ {t v : Text}, '\n' ∉ t → EndsLine v → (t ++ v).takeWhile (· != '\n') = t := by
    intro t v single ends
    have other : ∀ x ∈ t, (x != '\n') = true := fun x member => bne_iff_ne.mpr fun newline => single (newline ▸ member)
    rw [List.takeWhile_append_of_pos other]
    cases v with
    | nil => simp
    | cons x v => simp [ends x rfl]
  obtain rfl : t = u := by rw [← front one ends,same,front two ends']
  exact ⟨rfl,List.append_cancel_left same⟩

theorem line_chars (single : '\n' ∉ t) : ∀ x ∈ t, CharSet.notNewline.contains x = true := by
  intro x member
  have other : x ≠ '\n' := fun newline => single (newline ▸ member)
  simpa [CharSet.notNewline,CharSet.contains] using other

-- Something on one line without blanks around it.
structure Tight (t : Text) : Prop where
  single : '\n' ∉ t
  first : ∃ x u, t = x :: u ∧ isBlank x = false
  last : ∃ u x, t = u ++ [x] ∧ isBlank x = false

theorem Tight.no_lead (tight : Tight t) (blank : ∀ x ∈ u, isBlank x = true) (same : u ++ v = t) : u = [] := by
  cases u with
  | nil => rfl
  | cons x u =>
    obtain ⟨y,w,begins,solid⟩ := tight.first
    obtain ⟨rfl,_⟩ := List.cons.inj (same.trans begins)
    rw [blank x (List.mem_cons_self ..)] at solid
    cases solid

theorem Tight.no_trail (tight : Tight t) (blank : ∀ x ∈ u, isBlank x = true) (same : v ++ u = t) : u = [] := by
  rcases List.eq_nil_or_concat u with none | ⟨u,x,rfl⟩
  · exact none
  · obtain ⟨w,y,ends,solid⟩ := tight.last
    rw [List.concat_eq_append,← List.append_assoc] at same
    obtain rfl := List.singleton_inj.mp (List.append_inj' (same.trans ends) rfl).2
    rw [blank x (by simp)] at solid
    cases solid

end Text

theorem Pattern.isLineEnd_iff {c : Cursor} : isLineEnd c = true ↔ Text.EndsLine c.after := by
  rw [isLineEnd]
  cases c.after <;> simp [Text.EndsLine]

theorem Line.tight (line : Line) : Text.Tight line.text where
  single member := (line.single _ member).1 rfl
  first := by
    obtain ⟨x,rest,begins,alpha⟩ := line.first
    exact ⟨x,rest,begins,alpha_solid alpha⟩
  last := by
    obtain ⟨v,x,ends,alpha⟩ := line.last
    exact ⟨v,x,ends,alpha_solid alpha⟩

namespace HeadingConstruct

open Inline (char onLine)
open Block (restOfLine restOfLine_reads)

variable {level n : Nat} {title : Line} {c stop : Cursor} {way : Way} {before rest : Text} {m : Match}

theorem exactly_reads {x : Char} (found : way ∈ (exactly n (char x)).ways c) : c.Reads (List.replicate n x) way.1 := by
  obtain ⟨mid,hashes,last,none,rfl⟩ := mem_thenWays.mp found
  have same : last = (mid.1,[]) := by
    rw [waysRounds,Nat.sub_self] at none
    exact List.mem_singleton.mp none
  have rounds : ∀ {n : Nat} {c : Cursor}, ∀ way ∈ waysExactly (char x).ways n c, c.Reads (List.replicate n x) way.1 := by
    intro n
    induction n with
    | zero =>
      intro c way found
      cases List.mem_singleton.mp found
      exact .refl c
    | succ n ih =>
      intro c way found
      obtain ⟨first,one,others,later,rfl⟩ := mem_thenWays.mp found
      exact (Block.mem_one.mp one).1.append (ih others later)
  rw [same]
  exact rounds mid hashes

theorem gaps_reads (found : way ∈ (plus (.char CharSet.gap)).ways c) :
    ∃ x t, c.Reads (x :: t) way.1 ∧ Block.Gaps (x :: t) := by
  have only : (plus (.char CharSet.gap)).Only fun x => CharSet.gap.contains x = true := fun _ inSet => inSet
  obtain ⟨t,read,all⟩ := ways_only only c way found
  obtain ⟨u,again,some⟩ := plus_reads found
  obtain rfl := read.unique again
  obtain ⟨x,t,rfl⟩ := List.exists_cons_of_ne_nil some
  exact ⟨x,t,read,all⟩

theorem shut_endsLine (shut : Shut rest) : Text.EndsLine rest := by
  rcases shut with rfl | ⟨w,rfl⟩ <;> simp [Text.EndsLine]

theorem many_dead {body : Pattern} (dead : body.ways c = []) : (many body).ways c = [(c,[])] := by
  show thenWays [(c,[])] (waysRounds body.ways false 0 none) = _
  rw [thenWays_plain,waysRounds]
  cases c.after with
  | nil => rfl
  | cons x rest => simp [waysUpTo,dead,thenWays]

theorem shut_dead {p : Pattern} (dead : p.reach [] .inside = .nowhere) (shut : Shut c.after) : p.ways c = [] :=
  reach_none (t := []) dead rfl shut (List.forall_mem_nil _) ⟨0,Nat.le_refl _,by simp⟩

-- Neither tags nor a style stand behind a blank line.
theorem tagLines_none (shut : Shut c.after) : tagLines.ways c = [(c,[])] :=
  many_dead (shut_dead (by decide_cbv) shut)

theorem styleLine_none (shut : Shut c.after) : styleLine.ways c = [] :=
  shut_dead (by decide_cbv) shut

abbrev Sign (t : Text) : Prop :=
  ∀ x ∈ t, CharSet.gap.contains x = false ∧ x ≠ '\n'

-- The sign, the title and what is blank around the title can be told apart.
theorem line_cut {sign read title s t r : Text} {x : Char} (isSign : Sign sign) (isSign' : Sign read) (tight : Text.Tight title)
    (isGap : Block.Gaps (x :: s)) (blank : ∀ y ∈ r, Text.isBlank y = true)
    (same : read ++ x :: (s ++ (t ++ r)) = sign ++ ' ' :: title) : read = sign ∧ x = ' ' ∧ s = [] ∧ t = title ∧ r = [] := by
  have off : ∀ {t : Text}, Sign t → ∀ x ∈ t, ¬ CharSet.gap.contains x = true :=
    fun isSign x member => by simp [(isSign x member).1]
  obtain ⟨rfl,rfl,later⟩ := Text.run_once (off isSign') (off isSign) (not_not_intro (isGap x (List.mem_cons_self ..)))
    (not_not_intro rfl) same
  obtain rfl := tight.no_lead (fun y member => isGap.blank y (List.mem_cons_of_mem _ member)) later
  obtain rfl := tight.no_trail blank later
  exact ⟨rfl,rfl,rfl,by simpa using later,rfl⟩

-- A heading line is read in one way: a sign up to the first gap, and behind it the title up to the end of the line.
theorem line_reads {marker : Pattern} {sign read title : Text} {g : Captures} (groupless : marker.groups = [])
    (reads : ∀ c, ∀ way ∈ marker.ways c, c.Reads read way.1) (isSign : Sign sign) (isSign' : Sign read)
    (tight : Text.Tight title) (ended : Text.EndsLine rest) (begins : c.after = sign ++ ' ' :: (title ++ rest))
    (found : (stop,g) ∈ (lineOf marker).ways c) :
    read = sign ∧ stop = c.past (sign.length + 1 + title.length) ∧ stop.after = rest ∧
      g = [⟨titleGroup,c.past (sign.length + 1),stop⟩] := by
  obtain ⟨titleStop,_,_,titled,closing,rfl⟩ := seq_parts found
  obtain ⟨titleStart,_,_,opening,isTitle,rfl⟩ := seq_parts titled
  obtain ⟨marked,_,_,opened,gap,rfl⟩ := seq_parts opening
  obtain ⟨start,_,_,started,mark,rfl⟩ := seq_parts opened
  obtain ⟨_,same⟩ := mem_waysIf.mp started
  cases same
  obtain ⟨inner,isInner,same⟩ := mem_captured rfl isTitle
  cases same
  have onLineOnly : (lazyMany onLine).Only (· ≠ '\n') := by
    intro x inSet
    simpa [CharSet.notNewline,CharSet.contains] using inSet
  have readMark := reads _ _ mark
  obtain ⟨x,s,readGap,isGap⟩ := gaps_reads gap
  obtain ⟨t,readTitle,onLine⟩ := ways_only onLineOnly _ _ isInner
  obtain ⟨r,readRest,blank,atEnd⟩ := restOfLine_reads closing
  have noneMark := no_captures groupless mark
  have noneGap := no_captures rfl gap
  have noneRest := no_captures rfl closing
  dsimp only at readMark readGap readTitle readRest noneMark noneGap noneRest
  have whole := ((readMark.append readGap).append readTitle).append readRest
  have single : '\n' ∉ read ++ (x :: s) ++ t ++ r := by
    simp only [List.mem_append,not_or]
    exact ⟨⟨⟨fun member => (isSign' _ member).2 rfl,isGap.single⟩,fun member => onLine _ member rfl⟩,
      fun member => (blank _ member).2 rfl⟩
  have line : '\n' ∉ sign ++ ' ' :: title := by
    simp only [List.mem_append,List.mem_cons,not_or]
    exact ⟨fun member => (isSign _ member).2 rfl,by decide,tight.single⟩
  obtain ⟨same,behind⟩ := Text.line_once single line (isLineEnd_iff.mp atEnd) ended
    (whole.1.symm.trans (begins.trans (by simp)))
  obtain ⟨rfl,rfl,rfl,rfl,rfl⟩ := line_cut isSign isSign' tight isGap (fun y member => (blank y member).1) (by simpa using same)
  refine ⟨rfl,?_,behind,?_⟩
  · simpa [Nat.add_assoc,Nat.add_comm 1] using whole.eq_past
  · have begun : titleStart = c.past (read.length + 1) := by simpa using (readMark.append readGap).eq_past
    have same : inner.1 = stop := by simpa using readRest.eq_past.symm
    rw [noneMark,noneGap,noneRest,begun,same]
    rfl

theorem hashes_accepts (n : Nat) : (exactly n (char '#')).Accepts (List.replicate n '#') :=
  fun _ _ begins => takes_exactly n begins rfl

theorem hashes_sign (n : Nat) : Sign (List.replicate n '#') := by
  intro x member
  obtain rfl := List.eq_of_mem_replicate member
  decide

-- The only way in which a heading is matched. It has no tags and no style.
theorem heading_way {g : Captures} (shut : Shut rest)
    (begins : c.after = List.replicate level '#' ++ ' ' :: (title.text ++ rest))
    (found : (stop,g) ∈ (patternOf (exactly n (char '#'))).ways c) :
    n = level ∧ stop = c.past (level + 1 + title.text.length) ∧
      g = [⟨tagsGroup,stop,stop⟩,⟨titleGroup,c.past (level + 1),stop⟩] := by
  obtain ⟨tagsStop,_,_,front,style,rfl⟩ := seq_parts found
  obtain ⟨lineStop,_,_,line,tags,rfl⟩ := seq_parts front
  obtain ⟨hashes,stops,behind,titled⟩ := line_reads rfl (fun _ _ => exactly_reads) (hashes_sign level) (hashes_sign n)
    title.tight (shut_endsLine shut) begins line
  obtain rfl : n = level := by simpa using congrArg List.length hashes
  rw [List.length_replicate] at stops titled
  subst titled
  obtain ⟨tagsEnd,isTags,same⟩ := mem_group.mp tags
  rw [tagLines_none (by rwa [behind])] at isTags
  cases List.mem_singleton.mp isTags
  cases same
  have unstyled := mem_maybe style
  rw [styleLine_none (by rwa [behind])] at unstyled
  cases unstyled.resolve_left List.not_mem_nil
  exact ⟨rfl,stops,rfl⟩

-- A line with a marker and a title is matched, whatever lines follow.
theorem patternOf_takes {marker : Pattern} {sign t : Text} (accepts : marker.Accepts sign) (single : '\n' ∉ t)
    (start : isLineStart c = true) (ended : Text.EndsLine rest) (begins : c.after = sign ++ ([' '] ++ (t ++ rest))) :
    (patternOf marker).Takes c (sign ++ [' '] ++ t) := by
  have gap : (plus (.char CharSet.gap)).Accepts [' '] := plus_accepts (List.cons_ne_nil _ _) (List.forall_mem_singleton.mpr rfl)
  have title : (named titleGroup "title" (lazyMany onLine)).Accepts t := (lazily_accepts (Text.line_chars single)).group
  have ahead : c.after = sign ++ [' '] ++ (t ++ rest) := by rw [begins,List.append_assoc]
  have titled := (((Block.takes_lineStart start).looked (accepts begins)).then begins gap).then ahead title
  have closed : restOfLine.Takes (c.past (sign ++ [' '] ++ t).length) [] := by
    refine ((Block.takes_gaps _).also (takes_maybe_none _ _)).also (Block.takes_lineEnd (isLineEnd_iff.mpr ?_))
    have behind : (c.past (sign ++ [' '] ++ t).length).after = rest := by
      rw [Cursor.past_after,begins,← List.append_assoc,← List.append_assoc]
      exact List.drop_left
    rwa [behind]
  exact ((titled.looking closed).looking (.group (takes_none _ _))).looking (takes_maybe_none _ _)

-- Constructs other than for hashes read what no heading has.
theorem standard_hashes {construct : HeadingConstruct} (member : construct ∈ standard) :
    (∃ n, construct = extended n) ∨ construct.pattern.reach Kind.heading.chars .edge = .nowhere := by
  have all : ([shallower,deeper,same] ++ [6,5,4,3,2,1].map compact).all (fun construct =>
      construct.pattern.reach Kind.heading.chars .edge == .nowhere) = true := by decide_cbv
  have known : ∀ construct ∈ [shallower,deeper,same] ++ [6,5,4,3,2,1].map compact,
      construct.pattern.reach Kind.heading.chars .edge = .nowhere := by
    intro construct isOther
    simpa using List.all_eq_true.mp all construct isOther
  rcases List.mem_append.mp member with relative | absolute
  · exact Or.inr (known construct (List.mem_append_left _ relative))
  · obtain ⟨n,isLevel,pair⟩ := List.mem_flatMap.mp absolute
    rcases List.mem_cons.mp pair with rfl | pair
    · exact Or.inl ⟨n,rfl⟩
    · obtain rfl := List.mem_singleton.mp pair
      exact Or.inr (known _ (List.mem_append_right _ (List.mem_map_of_mem isLevel)))

-- And all of them read a hash.
theorem standard_marks {construct : HeadingConstruct} (member : construct ∈ standard) :
    construct.pattern.reach [] .edge = .nowhere ∧ construct.pattern.reach Kind.paragraph.chars .edge = .nowhere := by
  have all : standard.all (fun construct => construct.pattern.reach [] .edge == .nowhere &&
      construct.pattern.reach Kind.paragraph.chars .edge == .nowhere) = true := by decide_cbv
  simpa using List.all_eq_true.mp all construct member

theorem extended_standard (proper : 1 ≤ level ∧ level ≤ 6) : extended level ∈ standard := by
  refine List.mem_append_right _ (List.mem_flatMap.mpr ⟨level,?_,List.mem_cons_self ..⟩)
  simp only [List.mem_cons,List.not_mem_nil,or_false]
  omega

theorem findSome_only {α β : Type} {f : α → Option β} {a : α} {b : β} {l : List α} (member : a ∈ l) (found : f a = some b)
    (others : ∀ x ∈ l, f x = none ∨ x = a) : l.findSome? f = some b := by
  induction l with
  | nil => cases member
  | cons x l ih =>
    obtain ⟨here,later⟩ := List.forall_mem_cons.mp others
    rw [List.findSome?_cons]
    rcases here with dead | rfl
    · rw [dead]
      rcases List.mem_cons.mp member with rfl | member
      · rw [found] at dead
        cases dead
      · exact ih member later
    · rw [found]

theorem findAt_none {constructs : List HeadingConstruct} (dead : ∀ construct ∈ constructs, construct.pattern.ways c = []) :
    findAt? constructs c = none := by
  refine List.findSome?_eq_none_iff.mpr fun construct member => ?_
  rw [matchAt_head,dead construct member]
  rfl

-- A heading, as it was written, and what its match captures.
structure Titled (item : Item) (c : Cursor) (found : HeadingConstruct × Match) (level : Nat) (title : Line) : Prop where
  written : ∃ proper, item = .block (.heading level title proper)
  construct : found.1 = extended level
  whole : item.Whole c found.2
  captures : found.2.captures = [⟨tagsGroup,found.2.stop,found.2.stop⟩,⟨titleGroup,c.past (level + 1),found.2.stop⟩]

theorem heading_found (title : Line) (proper : 1 ≤ level ∧ level ≤ 6) (clear : Shut before) (shut : Shut rest) :
    ∃ found, findAt? standard ⟨before,(Written.heading level title proper).text ++ rest⟩ = some found ∧
      Titled (.block (.heading level title proper)) ⟨before,(Written.heading level title proper).text ++ rest⟩ found
        level title := by
  have spelled := Written.heading_text level title proper
  generalize isHere : (⟨before,(Written.heading level title proper).text ++ rest⟩ : Cursor) = c
  have begins : c.after = List.replicate level '#' ++ ' ' :: (title.text ++ rest) := by
    rw [← isHere,spelled,List.append_assoc]
    rfl
  have start : isLineStart c = true := by
    rw [← isHere]
    exact Block.shut_lineStart clear
  obtain ⟨_,taken⟩ := patternOf_takes (hashes_accepts level) title.tight.single start (shut_endsLine shut) begins
  obtain ⟨way,others,ways⟩ := List.exists_cons_of_ne_nil (List.ne_nil_of_mem taken)
  obtain ⟨_,stop,captures⟩ :=
    heading_way shut begins (show (way.1,way.2) ∈ (patternOf _).ways c by rw [ways]; exact List.mem_cons_self ..)
  have here : ((extended level).pattern.matchAt? c).map (extended level,·) = some (extended level,⟨c,way.1,way.2⟩) := by
    rw [matchAt_head,extended,ways]
    rfl
  refine ⟨_,findSome_only (extended_standard proper) here ?_,⟨proper,rfl⟩,rfl,⟨rfl,?_⟩,captures⟩
  · intro construct member
    have dead : construct.pattern.ways c = [] ∨ construct = extended level := by
      rcases standard_hashes member with ⟨n,rfl⟩ | dead
      · rcases List.eq_nil_or_concat ((extended n).pattern.ways c) with none | ⟨_,way,some⟩
        · exact Or.inl none
        · have found : way ∈ (patternOf (exactly n (char '#'))).ways c := by
            show way ∈ (extended n).pattern.ways c
            rw [some,List.concat_eq_append]
            simp
          exact Or.inr (by rw [(heading_way shut begins found).1])
      · have chars := (Written.heading level title proper).chars_kind (Nat.succ_pos _)
        have none : construct.pattern.ways
            ((⟨before,(Written.heading level title proper).text ++ rest⟩ : Cursor).past 0) = [] :=
          reach_dead dead rfl shut chars (Nat.zero_le _)
        rw [Cursor.past_zero,isHere] at none
        exact Or.inl none
    refine dead.imp (fun none => ?_) id
    rw [matchAt_head,none]
    rfl
  · show way.1 = c.past (Written.heading level title proper).text.length
    rw [stop,spelled]
    congr 1
    simp
    omega

theorem tags_none (offset : Nat) : tags offset [] = .ok [] := by
  have none : nonBlankLine.occurrences [] = [] := by
    rw [occurrences,scan,scanFrom,(occurrences_find nonBlankLine).not_at_end]
    rfl
  rw [tags,none]
  rfl

-- Its block has the level and the title.
theorem heading_blocks {item : Item} {found : HeadingConstruct × Match} (titled : Titled item c found level title)
    (begins : c.after = item.text ++ rest) (offset : Nat) (last : LastLevel) :
    ∃ blocks, (found.1.blocks offset last found.2).outcome = .ok (blocks,some ↑level) ∧
      blocks.map (·.content) = contents [item] := by
  obtain ⟨construct,m⟩ := found
  obtain ⟨⟨proper,rfl⟩,rfl,⟨rfl,stop⟩,captures⟩ := titled
  have spelled : (Item.block (.heading level title proper)).text = List.replicate level '#' ++ ' ' :: title.text :=
    Written.heading_text level title proper
  have ahead : (m.start.past (level + 1)).after = title.text ++ rest := by
    rw [Cursor.past_after,begins,spelled,List.append_assoc,List.cons_append,List.append_cons]
    exact List.drop_left' (by simp)
  have titleStop : m.stop = (m.start.past (level + 1)).past title.text.length := by
    rw [stop,spelled,Cursor.past_past]
    congr 1
    simp
    omega
  have read : (m.start.past (level + 1)).Reads title.text m.stop := titleStop ▸ .of_after ahead
  obtain ⟨isTitle,isTags,isStyle⟩ := heading_captures (g := []) captures (List.forall_mem_nil _)
  have title_eq : m.group titleGroup = title.text := by
    rw [Match.group,Match.group?,isTitle]
    exact read.textTo
  have tags_eq : m.group tagsGroup = [] := by
    rw [Match.group,Match.group?,isTags]
    exact (Cursor.Reads.refl m.stop).textTo
  have unstyled : styleTag offset m = [] := by
    rw [styleTag,Match.groupSpan?,isStyle]
    rfl
  refine ⟨_,Logged.outcome_bind_ok.mpr ⟨level,rfl,Logged.outcome_bind_ok.mpr ⟨[],?_,rfl⟩⟩,?_⟩
  · rw [Match.groupSpan?,isTags,tags_eq]
    exact tags_none (offset + m.stop.position)
  · rw [unstyled,title_eq]
    rfl

-- Headings are found where they were written, and nowhere else.
theorem findAll_cut {items : List Item} (left : ∀ item ∈ items, item.Left Block.standard.length)
    (alternate : Alternate items) :
    Cut Item.Plain (fun item c found => ∃ level title, Titled item c found level title) [] items
      (findAll standard (spell items)) := by
  refine scan_cut (findAt_finds (List.Subset.refl _)).not_at_end ?_ alternate fun _ _ _ => Or.inl rfl
  intro item member before rest fits
  cases item with
  | gap =>
    refine Or.inl ⟨trivial,fun n inner => findAt_none fun construct isStandard => ?_⟩
    have inside : n ≤ ([] : Text).length + 1 := Nat.le_of_lt_succ inner
    exact reach_dead (standard_marks isStandard).1 rfl (Or.inr ⟨rest,rfl⟩) (List.forall_mem_nil _) inside
  | block written =>
    have late : 19 ≤ written.kind.rank := left _ member
    have some : 0 < written.kind.rank := Nat.lt_of_succ_le (Nat.le_trans (by decide) late)
    cases written with
    | paragraph first others notTodo =>
      refine Or.inl ⟨rfl,fun n inner => findAt_none fun construct isStandard => ?_⟩
      exact reach_dead (standard_marks isStandard).2 rfl fits.2 (Written.chars_kind some) (Nat.le_succ_of_le (Nat.le_of_lt inner))
    | heading level title proper =>
      obtain ⟨found,finds,titled⟩ := heading_found title proper fits.1 fits.2
      refine Or.inr ⟨Item.text_some _,found,finds,?_,level,title,titled⟩
      rw [Match.length,titled.whole.stop_position,titled.whole.start_position,Nat.add_sub_cancel_left]
    | code | list | table => simp [Written.kind,Kind.rank] at late
    | rule mark => cases mark <;> simp [Written.kind,Kind.rank] at late

end HeadingConstruct

namespace Loader

variable {loader : Loader} {items pending : List Item} {before : Text} {position offset : Nat} {last : LastLevel}

theorem leafBlocksFrom_cut (catalogue : loader.catalogue = Catalogue.standard) {found : List (HeadingConstruct × Match)}
    (cut : Cut Item.Plain (fun item c found => ∃ level title, HeadingConstruct.Titled item c found level title)
      before items found)
    (alternate : Alternate (pending ++ items)) (plain : ∀ item ∈ pending, item.Plain)
    (placed : before.length = position + (spell pending).length) :
    Restores (pending ++ items) (loader.leafBlocksFrom offset position (spell (pending ++ items)) last found) := by
  induction cut generalizing pending position last with
  | nil =>
    rw [List.append_nil] at alternate ⊢
    obtain ⟨blocks,ran,same⟩ := fallback_restores catalogue plain alternate (offset + position)
    exact ⟨blocks,last,Logged.outcome_bind_ok.mpr ⟨blocks,ran,rfl⟩,same⟩
  | @pass before item items found keep later ih =>
    have all : ∀ held ∈ pending ++ [item], held.Plain :=
      List.forall_mem_append.mpr ⟨plain,List.forall_mem_singleton.mpr keep⟩
    have split : pending ++ item :: items = pending ++ [item] ++ items := by simp
    rw [split] at alternate ⊢
    exact ih alternate all (placed_pass placed)
  | @take before item items find found here later ih =>
    obtain ⟨construct,m⟩ := find
    obtain ⟨level,title,titled⟩ := here
    have whole : item.Whole _ m := titled.whole
    obtain ⟨front,ranBefore,same⟩ := fallback_restores catalogue plain alternate.left (offset + position)
    obtain ⟨own,ranHere,sameHere⟩ := HeadingConstruct.heading_blocks titled rfl offset last
    obtain ⟨back,next,ranAfter,sameAfter⟩ : Restores ([] ++ items)
        (loader.leafBlocksFrom offset m.stop.position (spell ([] ++ items)) (some ↑level) found) :=
      ih alternate.right.tail (List.forall_mem_nil _) whole.placed
    refine ⟨front ++ own ++ back,next,?_,?_⟩
    · simp only [leafBlocksFrom,whole.front placed,whole.back placed]
      exact Logged.outcome_bind_ok.mpr ⟨_,ranBefore,Logged.outcome_bind_ok.mpr ⟨_,ranHere,
        Logged.outcome_bind_ok.mpr ⟨_,ranAfter,rfl⟩⟩⟩
    · rw [List.map_append,List.map_append,same,sameHere,sameAfter,← contents_append,← contents_append]
      simp

theorem leafBlocks_restores (catalogue : loader.catalogue = Catalogue.standard)
    (left : ∀ item ∈ items, item.Left Block.standard.length) (alternate : Alternate items) :
    Restores items (loader.leafBlocks offset (spell items) last) := by
  have all : Alternate ([] ++ items) := alternate
  have none : ([] : Text).length = 0 + (spell []).length := rfl
  rw [leafBlocks,catalogue]
  exact leafBlocksFrom_cut catalogue (HeadingConstruct.findAll_cut left alternate) all (List.forall_mem_nil _) none

end Loader
end LightMarkup
