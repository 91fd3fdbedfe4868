import LightMarkup.Proofs.Loading.Tags

/-!
The lines below a heading. The pattern of a heading prefers to take all lines of tags below it, each to its end, and then a line
with a style.
-/

namespace LightMarkup

open Pattern

namespace Pattern

variable {p : Pattern} {c : Cursor} {way : Way} {rest : Text} {ts : List Text}

theorem Takes.some_head {t : Text} (taken : p.Takes c t) : ∃ way, (p.ways c).head? = some way := by
  obtain ⟨g,found⟩ := taken
  exact Option.isSome_iff_exists.mp (List.isSome_head?.mpr (List.ne_nil_of_mem found))

-- A piece that is read in the preferred way, before anything that may stand behind it; it may itself stand behind another.
structure IsRound (p : Pattern) (Next : Text → Prop) (t : Text) : Prop where
  some : t ≠ []
  next : ∀ u, Next (t ++ u)
  head : ∀ {c : Cursor} {u : Text}, c.after = t ++ u → Next u → (p.ways c).head? = .some (c.past t.length,[])

variable {Next : Text → Prop}

theorem next_rounds (each : ∀ t ∈ ts, p.IsRound Next t) (last : Next rest) : Next (ts.flatten ++ rest) := by
  cases ts with
  | nil => exact last
  | cons t ts =>
    rw [List.flatten_cons,List.append_assoc]
    exact (each t (List.mem_cons_self ..)).next _

theorem upTo_rounds {left : Text} (begins : c.after = ts.flatten ++ rest) (last : Next rest)
    (each : ∀ t ∈ ts, p.IsRound Next t) (stops : ∀ {c : Cursor}, c.after = rest → p.ways c = [])
    (room : ts.flatten.length ≤ left.length) :
    (waysUpTo p.ways false left c).head? = some (c.past ts.flatten.length,[]) := by
  induction ts generalizing c left with
  | nil =>
    have none : p.ways c = [] := stops begins
    cases left <;> simp [waysUpTo,none,thenWays]
  | cons t ts ih =>
    obtain ⟨round,others⟩ := List.forall_mem_cons.mp each
    rw [List.flatten_cons,List.append_assoc] at begins
    have ahead : (c.past t.length).after = ts.flatten ++ rest := by rw [Cursor.past_after,begins,List.drop_left]
    have taken := List.length_pos_of_ne_nil round.some
    rw [List.flatten_cons,List.length_append] at room
    obtain ⟨x,left,rfl⟩ := List.exists_cons_of_length_pos (show 0 < left.length by omega)
    have fewer : ts.flatten.length ≤ left.length := by
      rw [List.length_cons] at room
      omega
    obtain ⟨ways,split⟩ := List.head?_eq_some_iff.mp (round.head begins (next_rounds others last))
    rw [waysUpTo,if_neg (by decide),List.head?_append,head_then,split,List.findSome?_cons,ih ahead others fewer]
    simp [Cursor.past_past]

-- A greedy repetition goes on with the preferred way of every round, up to where no further round is possible.
theorem head_rounds (begins : c.after = ts.flatten ++ rest) (last : Next rest) (each : ∀ t ∈ ts, p.IsRound Next t)
    (stops : ∀ {c : Cursor}, c.after = rest → p.ways c = []) :
    ((many p).ways c).head? = some (c.past ts.flatten.length,[]) := by
  show (thenWays [(c,[])] (waysRounds p.ways false 0 none)).head? = _
  rw [thenWays_plain,waysRounds]
  refine upTo_rounds begins last each stops ?_
  rw [begins,List.length_append]
  omega

end Pattern

namespace HeadingConstruct

open Inline (char onLine)

variable {c mid : Cursor} {way : Way} {t u style : Text} {tag : WrittenTag}

theorem opening_brace : Text.ofString "\x7b" = ['\x7b'] := by
  rw [Text.ofString_ofList]

theorem closing_brace : Text.ofString "\x7d" = ['\x7d'] := by
  rw [Text.ofString_ofList]

def valueEnd : Pattern :=
  maybe ((.char CharSet.gap ++ many onLine) <|> char '\r')

-- A tag on the next line.
def tagBelow : Pattern :=
  lineBreak ++ literal (Text.ofString "@") ++ plus (.char .word) ++ valueEnd ++ .ahead (char '\n' <|> .textEnd)

theorem leads_lineEnd : (char '\n' <|> Pattern.textEnd).Leads (fun _ => True) c ↔ Text.EndsLine c.after := by
  rw [leads_choice,Inline.char,Block.leads_one,Block.leads_textEnd]
  cases c.after <;> simp [Text.EndsLine]

theorem tagBelow_reads (found : way ∈ tagBelow.ways c) : ∃ b v, Block.Break b ∧ c.Reads (b ++ '@' :: v) way.1 ∧
    '\n' ∉ '@' :: v ∧ Text.EndsLine way.1.after ∧ way.2 = [] := by
  have groupless : tagBelow.groups = [] := by
    simp [tagBelow,valueEnd,append_eq,orElse_eq,groups,many,plus,maybe,lineBreak,Inline.char,onLine]
  obtain ⟨mid,_,_,front,ahead,_⟩ := seq_parts (show (way.1,way.2) ∈ tagBelow.ways c from found)
  obtain ⟨leads,same⟩ := (mem_ahead rfl).mp ahead
  obtain ⟨_,_,_,keyed,value,_⟩ := seq_parts front
  obtain ⟨_,_,_,signed,key,_⟩ := seq_parts keyed
  obtain ⟨_,_,_,broken,sign,_⟩ := seq_parts signed
  obtain ⟨b,readBreak,isBreak,_⟩ := Block.mem_break.mp broken
  obtain ⟨readSign,_⟩ := literal_reads sign
  have keyOnly : (plus (.char .word)).Only (· ≠ '\n') := Block.avoids_only (by decide +kernel)
  have valueOnly : valueEnd.Only (· ≠ '\n') := Block.avoids_only (by decide)
  obtain ⟨k,readKey,keySingle⟩ := ways_only keyOnly _ _ key
  obtain ⟨v,readValue,valueSingle⟩ := ways_only valueOnly _ _ value
  rw [sign_at] at readSign
  rw [(Prod.mk.inj same).1]
  refine ⟨b,k ++ v,isBreak,?_,?_,leads_lineEnd.mp leads,no_captures groupless found⟩
  · simpa using readBreak.append ((readSign.append readKey).append readValue)
  · simp only [List.mem_cons,List.mem_append,not_or]
    exact ⟨by decide,fun member => keySingle _ member rfl,fun member => valueSingle _ member rfl⟩

theorem tagBelow_stops (begins : c.after = '\n' :: (tag.line ++ u)) (ended : Text.EndsLine u)
    (found : way ∈ tagBelow.ways c) : way = (c.past ('\n' :: tag.line).length,[]) := by
  obtain ⟨b,v,isBreak,read,single,ends,none⟩ := tagBelow_reads found
  obtain ⟨rfl,behind⟩ := isBreak.single ((List.append_assoc ..).symm.trans (read.1.symm.trans begins))
  obtain ⟨written,_⟩ := Text.line_once single tag.line_tight.single ends ended behind
  rw [written] at read
  exact Prod.ext read.eq_past none

-- A line with a style is no tag.
theorem tagBelow_dead (behind : u = [] ∨ ∃ w, u = '\n' :: '\x7b' :: w) (begins : c.after = u) : tagBelow.ways c = [] := by
  refine List.eq_nil_iff_forall_not_mem.mpr fun way found => ?_
  obtain ⟨b,v,isBreak,read,_⟩ := tagBelow_reads found
  have same := begins.symm.trans read.1
  rcases behind with rfl | ⟨w,rfl⟩
  · rcases isBreak with rfl | rfl <;> cases same
  · rw [List.append_assoc] at same
    obtain ⟨_,later⟩ := isBreak.single same.symm
    cases later

theorem valueEnd_accepts (tag : WrittenTag) : valueEnd.Accepts (WrittenTag.valueText tag.value) := by
  cases known : tag.value with
  | none => exact maybe_accepts_none _
  | some v =>
    have text : (many onLine).Accepts v := run_accepts (Text.line_chars (tag.valueTight v known).single)
    have gap : (Pattern.char CharSet.gap).Accepts [' '] := fun _ _ begins => takes_char begins rfl
    exact Accepts.maybe fun _ _ begins => (gap.seq text begins).left

theorem tagBelow_takes (begins : c.after = '\n' :: (tag.line ++ u)) (ended : Text.EndsLine u) :
    tagBelow.Takes c ('\n' :: tag.line) := by
  have front : (lineBreak ++ literal (Text.ofString "@") : Pattern).Takes c (['\n'] ++ ['@']) := by
    rw [sign_at]
    have signed : c.after = ['\n'] ++ (['@'] ++ (tag.key ++ WrittenTag.valueText tag.value ++ u)) := by
      simp [begins,WrittenTag.line]
    exact (Block.takes_newline begins).then signed (literal_accepts ['@'])
  have written : c.after = ['\n'] ++ ['@'] ++ (tag.key ++ (WrittenTag.valueText tag.value ++ u)) := by
    simp [begins,WrittenTag.line]
  have keyed := front.then written (key_accepts tag)
  rw [← List.append_assoc] at written
  have line := keyed.then written (valueEnd_accepts tag)
  have same : ['\n'] ++ ['@'] ++ tag.key ++ WrittenTag.valueText tag.value = '\n' :: tag.line := by simp [WrittenTag.line]
  rw [same] at line
  refine line.looking (takes_nothing ((mem_ahead rfl).mpr ⟨leads_lineEnd.mpr ?_,rfl⟩))
  have behind : (c.past ('\n' :: tag.line).length).after = u := by
    rw [Cursor.past_after,begins,← List.cons_append]
    exact List.drop_left
  rwa [behind]

-- All lines of tags are taken, and each is taken whole.
theorem tagLines_head {tags : List WrittenTag} (begins : c.after = tags.flatMap (fun tag => '\n' :: tag.line) ++ u)
    (behind : u = [] ∨ ∃ w, u = '\n' :: '\x7b' :: w) :
    (tagLines.ways c).head? = some (c.past (tags.flatMap fun tag => '\n' :: tag.line).length,[]) := by
  have ended : Text.EndsLine u := by
    rcases behind with rfl | ⟨w,rfl⟩ <;> simp [Text.EndsLine]
  rw [List.flatMap_def] at begins ⊢
  refine head_rounds begins ended (List.forall_mem_map.mpr fun tag _ => ?_) (tagBelow_dead behind)
  exact {
    some := List.cons_ne_nil _ _
    next := fun u => by simp [Text.EndsLine]
    head := fun begins ended => (tagBelow_takes begins ended).head fun way found => tagBelow_stops begins ended found }

theorem leads_break : (lineBreak <|> Pattern.textEnd).Leads (fun _ => True) c ↔ Block.Stops c.after := by
  rw [leads_choice,Block.leads_break,Block.leads_textEnd]
  simp [Block.Stops,or_comm]

abbrev StyleFree (style : Text) : Prop :=
  ∀ x ∈ style, x ≠ '\x7b' ∧ x ≠ '\x7d' ∧ x ≠ '\n'

theorem styleSet_contains {x : Char} :
    (CharSet.noneOf (Text.ofString "\x7b\x7d\n")).contains x = true ↔ x ≠ '\x7b' ∧ x ≠ '\x7d' ∧ x ≠ '\n' := by
  rw [Text.ofString_ofList]
  simp [CharSet.noneOf,CharSet.anyOf,CharSet.contains]

-- A style is read up to the first brace.
theorem styleLine_reads {stop : Cursor} {g : Captures} (begins : c.after = '\n' :: '\x7b' :: (style ++ ['\x7d']))
    (free : StyleFree style) (found : (stop,g) ∈ styleLine.ways c) :
    stop.after = [] ∧ ∃ start last : Cursor, g = [⟨styleGroup,start,last⟩] ∧ start.Reads style last := by
  obtain ⟨_,_,_,trailed,ahead,rfl⟩ := seq_parts found
  obtain ⟨_,_,_,closed,trailing,rfl⟩ := seq_parts trailed
  obtain ⟨_,_,_,styled,closing,rfl⟩ := seq_parts closed
  obtain ⟨styleStart,_,_,opened,isStyle,rfl⟩ := seq_parts styled
  obtain ⟨_,_,_,broken,opening,rfl⟩ := seq_parts opened
  obtain ⟨_,same⟩ := (mem_ahead (by simp [orElse_eq,append_eq,groups,maybe,lineBreak])).mp ahead
  obtain ⟨b,readBreak,isBreak,noBreak⟩ := Block.mem_break.mp broken
  obtain ⟨readOpening,noOpening⟩ := literal_reads opening
  obtain ⟨inner,isInner,captured⟩ := mem_captured rfl isStyle
  obtain ⟨t,readStyle,inSet,_⟩ := mem_many.mp isInner
  obtain ⟨readClosing,noClosing⟩ := literal_reads closing
  obtain ⟨blanks,readBlanks,_,noBlanks⟩ := Block.mem_gaps.mp trailing
  cases same
  cases captured
  rw [opening_brace] at readOpening
  rw [closing_brace] at readClosing
  dsimp only at readBreak readOpening readStyle readClosing readBlanks noBreak noOpening noClosing noBlanks
  have line := (readOpening.append readStyle).append (readClosing.append readBlanks)
  obtain ⟨rfl,behind⟩ := isBreak.single (readBreak.1.symm.trans begins)
  have same := line.1.symm.trans behind
  simp only [List.append_assoc,List.cons_append,List.nil_append,List.cons.injEq,true_and] at same
  obtain ⟨rfl,_,none⟩ := Text.run_once (fun x member => styleSet_contains.mp (inSet x member)) free (by simp) (by simp) same
  refine ⟨(List.append_eq_nil_iff.mp none).2,styleStart,inner.1,?_,readStyle⟩
  rw [noBreak,noOpening,noClosing,noBlanks]
  rfl

theorem styleLine_takes (begins : c.after = '\n' :: '\x7b' :: (style ++ ['\x7d'])) (free : StyleFree style) :
    styleLine.Takes c ('\n' :: '\x7b' :: (style ++ ['\x7d'])) := by
  have opening : (lineBreak ++ literal (Text.ofString "\x7b") : Pattern).Takes c (['\n'] ++ ['\x7b']) := by
    rw [opening_brace]
    exact (Block.takes_newline begins).then (show c.after = ['\n'] ++ (['\x7b'] ++ (style ++ ['\x7d'])) from begins)
      (literal_accepts ['\x7b'])
  have inner : (named styleGroup "style" (many (.char (CharSet.noneOf (Text.ofString "\x7b\x7d\n"))))).Accepts style :=
    (run_accepts fun x member => styleSet_contains.mpr (free x member)).group
  have styled := opening.then (show c.after = ['\n'] ++ ['\x7b'] ++ (style ++ ['\x7d']) from begins) inner
  have closing : (literal (Text.ofString "\x7d")).Accepts ['\x7d'] := by
    rw [closing_brace]
    exact literal_accepts ['\x7d']
  have written : c.after = ['\n'] ++ ['\x7b'] ++ style ++ (['\x7d'] ++ []) := by simp [begins]
  have closed := styled.then written closing
  have same : ['\n'] ++ ['\x7b'] ++ style ++ ['\x7d'] = '\n' :: '\x7b' :: (style ++ ['\x7d']) := by simp
  rw [same] at closed
  refine (closed.looking (Block.takes_gaps _)).looking (takes_nothing ((mem_ahead ?_).mpr ⟨leads_break.mpr (Or.inl ?_),rfl⟩))
  · simp [orElse_eq,append_eq,groups,maybe,lineBreak]
  · rw [Cursor.past_after,begins,List.drop_length]

-- The preferred way of a heading with its lines: any way of its own line, and behind it the preferred ones.
theorem patternOf_head {marker : Pattern} (head : ((patternOf marker).ways c).head? = some way) :
    ∃ line tags style : Way, line ∈ (lineOf marker).ways c ∧ (tagLines.ways line.1).head? = some tags ∧
      ((maybe styleLine).ways tags.1).head? = some style ∧
      way = (style.1,style.2 ++ (⟨tagsGroup,line.1,tags.1⟩ :: tags.2 ++ line.2)) := by
  obtain ⟨skipped,front,_,style,split,alive,rfl,dead⟩ := head_seq_inv head
  have none : skipped = [] := by
    cases skipped with
    | nil => rfl
    | cons first skipped =>
      have never := dead first (List.mem_cons_self ..)
      rw [ways_maybe] at never
      simp at never
  rw [none,List.nil_append] at split
  obtain ⟨_,line,_,_,lines,tagged,rfl,_⟩ := head_seq_inv (List.head?_eq_some_iff.mpr ⟨_,split⟩)
  change ((tagLines.ways line.1).map _).head? = _ at tagged
  rw [List.head?_map] at tagged
  obtain ⟨tags,isTags,rfl⟩ := Option.map_eq_some_iff.mp tagged
  exact ⟨line,tags,style,by simp [lines],isTags,alive,rfl⟩

end HeadingConstruct
end LightMarkup
