import LightMarkup.Proofs.Loading.Cutting
import LightMarkup.Proofs.Pattern.Taking

/-!
Blocks that a construct takes whole. In a solid block a match can end only where the block does; behind the fence that
opens code, the text taken is the least one up to a fence, which the text of the code does not have.
-/

namespace LightMarkup
namespace Block

open Pattern

variable {body : Pattern} {c : Cursor} {way : Way} {chars : List Char} {t before rest language : Text}

theorem Ends.shut (shut : Shut t) : Ends t := by
  rcases shut with rfl | ⟨v,rfl⟩
  · exact .nil
  · have stops : Stops ('\n' :: v) := Or.inr ⟨['\n'],v,rfl,Or.inl rfl⟩
    have closes : Closes ('\n' :: '\n' :: v) :=
      Or.inr ⟨['\n'],'\n' :: v,rfl,Or.inl rfl,Or.inr ⟨[],_,rfl,List.forall_mem_nil _,stops⟩⟩
    exact ⟨[],_,rfl,List.forall_mem_nil _,closes⟩

theorem shut_lineStart (clear : Shut before) : isLineStart ⟨before,t⟩ = true := by
  rcases clear with rfl | ⟨v,rfl⟩ <;> rfl

theorem shut_lineEnd (shut : Shut c.after) : isLineEnd c = true := by
  obtain ⟨before,after⟩ := c
  rcases shut with rfl | ⟨v,rfl⟩ <;> rfl

theorem shut_blockStart (clear : Shut before) : (⟨before,t⟩ : Cursor).isBlockStart = true := by
  rcases clear with rfl | ⟨v,rfl⟩
  · rfl
  · simp [Cursor.isBlockStart,Text.isAllBlank,Text.trim,Text.trimStart,Text.trimEnd]

theorem block_ends (found : way ∈ (block body).ways c) : Ends way.1.after := by
  obtain ⟨mid,_,next,looked,rfl⟩ := mem_seq.mp found
  obtain ⟨ends,rfl⟩ := mem_blockEnd.mp looked
  exact ends

-- Any way that stays in a solid block takes all of it.
theorem solid_taken (solid : Solid t) (inside : (block body).reach chars .inside = .inside)
    (known : ∀ x ∈ t, x = '\n' ∨ x ∈ chars) (shut : Shut rest) (taken : body.Takes ⟨before,t ++ rest⟩ t) :
    ∃ m, (block body).matchAt? ⟨before,t ++ rest⟩ = some m ∧ m.start = ⟨before,t ++ rest⟩ ∧
      m.stop = (⟨before,t ++ rest⟩ : Cursor).past t.length := by
  have stops : ∀ way ∈ (block body).ways ⟨before,t ++ rest⟩, way.1 = (⟨before,t ++ rest⟩ : Cursor).past t.length := by
    intro way found
    have begun : Reach.inside.Holds ⟨before,t ++ rest⟩ t ⟨before,t ++ rest⟩ := ⟨0,Nat.zero_le _,by simp⟩
    have reached := reach_holds rfl shut known begun way found
    rw [inside] at reached
    obtain ⟨n,bound,stop⟩ := reached
    have ends := block_ends found
    rw [stop,Cursor.past_after,List.drop_append_of_le_length bound] at ends
    rcases Nat.lt_or_eq_of_le bound with inner | rfl
    · exact absurd ends (solid.not_ends inner rest)
    · exact stop
  obtain ⟨g,found⟩ := taken
  have ending : Ends ((⟨before,t ++ rest⟩ : Cursor).past t.length).after := by
    rw [Cursor.past_after,List.drop_left]
    exact .shut shut
  have some : (_,_) ∈ (block body).ways ⟨before,t ++ rest⟩ :=
    mem_seq.mpr ⟨_,found,_,mem_blockEnd.mpr ⟨ending,rfl⟩,rfl⟩
  obtain ⟨way,others,ways⟩ := List.exists_cons_of_ne_nil (List.ne_nil_of_mem some)
  refine ⟨⟨⟨before,t ++ rest⟩,way.1,way.2⟩,?_,rfl,stops way (by rw [ways]; exact List.mem_cons_self ..)⟩
  rw [matchAt_head,ways]
  rfl

theorem takes_lineStart (line : isLineStart c = true) : Pattern.lineStart.Takes c [] :=
  takes_nothing (mem_waysIf.mpr ⟨line,rfl⟩)

theorem takes_lineEnd (line : isLineEnd c = true) : Pattern.lineEnd.Takes c [] :=
  takes_nothing (mem_waysIf.mpr ⟨line,rfl⟩)

theorem takes_gaps (c : Cursor) : gaps.Takes c [] :=
  takes_none _ c

theorem takes_newline (begins : c.after = '\n' :: rest) : lineBreak.Takes c ['\n'] := by
  have read : c.Reads ['\n'] (c.past 1) := .of_after begins
  exact ⟨[],mem_break.mpr ⟨_,read,Or.inl rfl,rfl⟩⟩

theorem takes_restOfLine (shut : Shut c.after) : restOfLine.Takes c [] :=
  ((takes_gaps c).also (takes_maybe_none _ c)).also (takes_lineEnd (shut_lineEnd shut))

theorem rule_taken (mark : Mark) (clear : Shut before) (shut : Shut rest) :
    (Pattern.lineStart ++ atLeast 3 (Inline.char mark.char) ++ restOfLine).Takes
      ⟨before,List.replicate 3 mark.char ++ rest⟩ (List.replicate 3 mark.char) := by
  have marks : (atLeast 3 (Inline.char mark.char)).Takes ⟨before,List.replicate 3 mark.char ++ rest⟩
      (List.replicate 3 mark.char) := takes_atLeast 3 rfl (by simp [CharSet.contains])
  refine ((takes_lineStart (shut_lineStart clear)).looked marks).looking (takes_restOfLine ?_)
  rwa [Cursor.past_after,List.drop_left]

theorem takes_sign {sign : String} {x : Char} (one : sign.toList = [x]) (begins : c.after = x :: rest) :
    (literal sign).Takes c [x] := by
  rw [Text.ofString_eq,one]
  exact takes_literal begins

theorem takes_bullet (begins : c.after = '-' :: rest) : bullet.Takes c ['-'] := by
  have dash : (literal "-").Takes c ['-'] := takes_sign rfl begins
  exact .right (.right (.right (.right (.right (.right (.left dash))))))

theorem notNewline_line (line : Line) : ∀ x ∈ line.text, CharSet.notNewline.contains x = true := by
  intro x member
  simpa [CharSet.notNewline,CharSet.contains] using (line.single x member).1

-- An item on the first line.
theorem takes_item {line : Line} (begins : c.after = '-' :: ' ' :: line.text ++ rest) (start : isLineStart c = true) :
    (Pattern.lineStart ++ gaps ++ bullet ++ literal " " ++ many Inline.onLine).Takes c ('-' :: ' ' :: line.text) := by
  have space : (literal " ").Takes (c.past 1) [' '] := takes_sign rfl (by rw [Cursor.past_after,begins]; rfl)
  have content : (many Inline.onLine).Takes (c.past 2) line.text :=
    takes_run (by rw [Cursor.past_after,begins]; rfl) (notNewline_line line)
  have bulleted := ((takes_lineStart start).also (takes_gaps c)).looked (takes_bullet begins)
  exact (bulleted.seq space).seq content

-- An item on the next line.
theorem takes_nextItem {line : Line} (begins : c.after = '\n' :: '-' :: ' ' :: line.text ++ rest) :
    (lineBreak ++ .notAhead (Inline.char '#') ++ gaps ++ .char (.complement .blank) ++ many Inline.onLine : Pattern).Takes c
      ('\n' :: '-' :: ' ' :: line.text) := by
  have newline : lineBreak.Takes c ['\n'] := takes_newline begins
  have ahead : (c.past 1).after = '-' :: (' ' :: line.text ++ rest) := by rw [Cursor.past_after,begins]; rfl
  have notHash : (Pattern.notAhead (Inline.char '#')).Takes (c.past 1) [] := by
    refine takes_nothing (mem_waysIf.mpr ⟨?_,rfl⟩)
    rw [Inline.char,ways_char_cons ahead]
    rfl
  have dash : (Pattern.char (.complement .blank)).Takes (c.past 1) ['-'] := takes_char ahead rfl
  have content : (many Inline.onLine).Takes (c.past 2) (' ' :: line.text) := by
    refine takes_run (by rw [Cursor.past_after,begins]; rfl) (List.forall_mem_cons.mpr ⟨rfl,notNewline_line line⟩)
  exact (((newline.looking notHash).looking (takes_gaps _)).seq dash).seq content

theorem takes_list {first : Line} {others : List Line} (clear : Shut before) :
    (Pattern.lineStart ++ gaps ++ bullet ++ literal " " ++ many Inline.onLine ++ many (lineBreak
        ++ .notAhead (Inline.char '#') ++ gaps ++ .char (.complement .blank) ++ many Inline.onLine)).Takes
      ⟨before,(Written.list first others).text ++ rest⟩ (Written.list first others).text := by
  have split : (Written.list first others).text =
      '-' :: ' ' :: first.text ++ (others.map fun line => '\n' :: '-' :: ' ' :: line.text).flatten := by
    simp [Written.text,Text.join_cons,Text.ofString_eq,List.flatMap_def,Function.comp_def]
  rw [split,List.append_assoc]
  refine (takes_item rfl (shut_lineStart clear)).seq ?_
  refine (takes_rounds (P := fun _ => True) (by rw [Cursor.past_after,List.drop_left]) trivial ?_).1
  exact List.forall_mem_map.mpr fun line _ => ⟨List.cons_ne_nil _ _,fun begins _ => ⟨takes_nextItem begins,trivial⟩⟩

-- Rows but the last one, each with its newline, and the last one.
theorem table_text (first : TableLine) (others : List TableLine) : ∃ (rows : List TableLine) (last : TableLine),
    (Written.table first others).text = (rows.map fun row => row.text ++ ['\n']).flatten ++ last.text := by
  rw [Written.text,Text.newline]
  induction others generalizing first with
  | nil => exact ⟨[],first,by simp [Text.join_cons]⟩
  | cons next others ih =>
    obtain ⟨rows,last,same⟩ := ih next
    refine ⟨first :: rows,last,?_⟩
    rw [List.map_cons,Text.join_cons] at same ⊢
    simp only [List.map_cons,List.flatMap_cons,List.flatten_cons,List.append_assoc,← same]

theorem takes_row {row : TableLine} (begins : c.after = row.text ++ rest) (start : isLineStart c = true) :
    tableRow.Takes c row.text := by
  rw [row.text_eq] at begins ⊢
  have cells : (many Inline.onLine).Takes (c.past 1) row.cells := by
    have ahead : (c.past 1).after = row.cells ++ '|' :: rest := by rw [Cursor.past_after,begins]; simp
    refine takes_run ahead fun x member => ?_
    have single := row.single x (by rw [row.text_eq]; simp [member])
    simpa [CharSet.notNewline,CharSet.contains] using single.1
  have last : (literal "|").Takes (c.past ('|' :: row.cells).length) ['|'] := by
    have ahead : (c.past ('|' :: row.cells).length).after = '|' :: rest := by rw [Cursor.past_after,begins]; simp
    exact takes_sign rfl ahead
  have first : (literal "|").Takes c ['|'] := takes_sign rfl begins
  have opened := ((takes_lineStart start).also (takes_gaps c)).looked first
  exact (((opened.seq cells).seq last).looking (takes_gaps _)).looking (takes_maybe_none _ _)

theorem takes_table {first : TableLine} {others : List TableLine} (clear : Shut before) (shut : Shut rest) :
    (many (tableRow ++ (Inline.char '\n' <|> .textEnd)) ++ tableRow ++ .lineEnd ++ maybe tableMetadata).Takes
      ⟨before,(Written.table first others).text ++ rest⟩ (Written.table first others).text := by
  obtain ⟨rows,last,split⟩ := table_text first others
  have round : ∀ t ∈ rows.map fun row => row.text ++ ['\n'], t ≠ [] ∧ ∀ {c : Cursor} {rest : Text},
      c.after = t ++ rest → isLineStart c = true →
        (tableRow ++ (Inline.char '\n' <|> .textEnd) : Pattern).Takes c t ∧ isLineStart (c.past t.length) = true := by
    refine List.forall_mem_map.mpr fun row _ => ⟨by simp,fun {c rest} begins start => ⟨?_,?_⟩⟩
    · rw [List.append_assoc] at begins
      have ahead : (c.past row.text.length).after = '\n' :: rest := by
        rw [Cursor.past_after,begins,List.drop_left]
        rfl
      exact (takes_row begins start).seq (.left (takes_char ahead rfl))
    · have read : c.Reads (row.text ++ ['\n']) _ := .of_after begins
      rw [isLineStart,read.2]
      simp
  rw [split,List.append_assoc]
  obtain ⟨rounds,start⟩ : (many (tableRow ++ (Inline.char '\n' <|> .textEnd))).Takes
      ⟨before,(rows.map fun row => row.text ++ ['\n']).flatten ++ (last.text ++ rest)⟩ _ ∧ _ :=
    takes_rounds rfl (shut_lineStart clear) round
  have row := takes_row (by rw [Cursor.past_after,List.drop_left]) start
  refine ((rounds.seq row).looking (takes_lineEnd (shut_lineEnd ?_))).looking (takes_maybe_none _ _)
  rwa [Cursor.past_after,← List.append_assoc,List.drop_left]

-- The fence that opens code, with its line, and the one that closes it.
def codeOpening : Pattern :=
  literal "```" ++ gaps ++ captured 1 (many (.char (.word ∪ CharSet.anyOf "+#-"))) ++ gaps ++ lineBreak

def codeClosing : Pattern :=
  lineBreak ++ (gaps ++ (literal "```" ++ blockEnd))

theorem code_ways (c : Cursor) :
    code.pattern.ways c = (codeOpening ++ (captured 2 (lazyMany Inline.anything) ++ codeClosing)).ways c := by
  show (codeOpening ++ captured 2 (lazyMany Inline.anything) ++ lineBreak ++ gaps ++ literal "```" ++ blockEnd).ways c = _
  rw [seq_assoc,seq_assoc,seq_assoc,seq_assoc,codeClosing]

theorem fence : ("```" : Text) = List.replicate 3 '\x60' := by
  rw [Text.ofString_eq]
  rfl

theorem Break.single {u v : Text} (isBreak : Break t) (same : t ++ u = '\n' :: v) : t = ['\n'] ∧ u = v := by
  rcases isBreak with rfl | rfl
  · exact ⟨rfl,(List.cons.inj same).2⟩
  · exact absurd (List.cons.inj same).1 (by decide)

-- What a language is named with.
def IsLanguage (language : Text) : Prop :=
  ∀ x ∈ language, (CharSet.word ∪ CharSet.anyOf "+#-").contains x = true

theorem IsLanguage.nil : IsLanguage [] :=
  List.forall_mem_nil _

theorem IsLanguage.single (isLanguage : IsLanguage language) : '\n' ∉ language ∧ '\r' ∉ language :=
  ⟨fun member => absurd (isLanguage _ member) (by decide +kernel),
    fun member => absurd (isLanguage _ member) (by decide +kernel)⟩

-- There are no gaps in a language.
theorem IsLanguage.gapless {g : Text} (isLanguage : IsLanguage language) (gaps : Gaps g) (inside : g ⊆ language) : g = [] := by
  cases g with
  | nil => rfl
  | cons x g =>
    have worded := isLanguage x (inside (List.mem_cons_self ..))
    rcases CharSet.gap_cases (gaps x (List.mem_cons_self ..)) with rfl | rfl <;> exact absurd worded (by decide +kernel)

-- The line of the fence that opens code is read in one way, with the language for its group.
theorem codeOpening_stops (isLanguage : IsLanguage language) (begins : c.after = "```" ++ (language ++ '\n' :: rest))
    (found : way ∈ codeOpening.ways c) :
    way = (c.past (language.length + 4),[⟨1,c.past 3,c.past (language.length + 3)⟩]) := by
  obtain ⟨_,front,last,newline,rfl⟩ := mem_seq.mp found
  obtain ⟨_,worded,after,gaps',rfl⟩ := mem_seq.mp front
  obtain ⟨_,spaced,_,named,rfl⟩ := mem_seq.mp worded
  obtain ⟨opening,opened,before,gaps,rfl⟩ := mem_seq.mp spaced
  obtain ⟨inner,word,rfl⟩ := mem_group.mp named
  obtain ⟨readFence,noneFence⟩ := literal_reads opened
  obtain ⟨g,readGaps,isGaps,noneGaps⟩ := mem_gaps.mp gaps
  obtain ⟨w,readWord,isWord,noneWord⟩ := mem_many.mp word
  obtain ⟨g',readGaps',isGaps',noneGaps'⟩ := mem_gaps.mp gaps'
  obtain ⟨b,readBreak,isBreak,noneBreak⟩ := mem_break.mp newline
  have wordSingle : '\n' ∉ w := (IsLanguage.single isWord).1
  obtain ⟨b,isReturn,rfl⟩ : ∃ r, (r = [] ∨ r = ['\r']) ∧ b = r ++ ['\n'] := by
    rcases isBreak with rfl | rfl
    · exact ⟨[],Or.inl rfl,rfl⟩
    · exact ⟨['\r'],Or.inr rfl,rfl⟩
  have read := ((readGaps.append readWord).append readGaps').append readBreak
  have ahead : g ++ w ++ g' ++ b ++ '\n' :: last.1.after = language ++ '\n' :: rest := by
    have whole := readFence.1
    rw [begins] at whole
    rw [List.append_cancel_left whole,read.1]
    simp
  have single : '\n' ∉ g ++ w ++ g' ++ b := by
    have noBreak : '\n' ∉ b := by rcases isReturn with rfl | rfl <;> decide
    simp only [List.mem_append,not_or]
    exact ⟨⟨⟨isGaps.single,wordSingle⟩,isGaps'.single⟩,noBreak⟩
  obtain ⟨whole,_⟩ := Text.ends_once single isLanguage.single.1 ahead
  obtain rfl : b = [] := by
    rcases isReturn with rfl | rfl
    · rfl
    · exact absurd (by simp [← whole]) isLanguage.single.2
  obtain rfl : g = [] := isLanguage.gapless isGaps fun x member => by simp [← whole,member]
  obtain rfl : g' = [] := isLanguage.gapless isGaps' fun x member => by simp [← whole,member]
  obtain rfl : w = language := by simpa using whole
  dsimp only at readFence readGaps readWord readGaps' readBreak noneFence noneGaps noneWord noneGaps' noneBreak
  have readFront := readFence.append readGaps
  have readAll := ((readFront.append readWord).append readGaps').append readBreak
  have atWord : before.1 = c.past 3 := by
    rw [readFront.eq_past,fence]
    rfl
  have pastWord : inner.1 = c.past (w.length + 3) := by
    rw [(readFront.append readWord).eq_past,fence]
    congr 1
  have stop : last.1 = c.past (w.length + 4) := by
    rw [readAll.eq_past,fence]
    congr 1
    simp
  rw [noneFence,noneGaps,noneWord,noneGaps',noneBreak,atWord,pastWord,stop]
  rfl

theorem mem_codeClosing (found : way ∈ codeClosing.ways c) :
    ∃ b g, c.Reads (b ++ (g ++ "```")) way.1 ∧ Break b ∧ Gaps g := by
  obtain ⟨broken,newline,_,later,rfl⟩ := mem_seq.mp found
  obtain ⟨spaced,gaps,_,closing,rfl⟩ := mem_seq.mp later
  obtain ⟨closed,fenced,_,looked,rfl⟩ := mem_seq.mp closing
  obtain ⟨b,readBreak,isBreak,_⟩ := mem_break.mp newline
  obtain ⟨g,readGaps,isGaps,_⟩ := mem_gaps.mp gaps
  obtain ⟨readFence,_⟩ := literal_reads fenced
  obtain ⟨_,rfl⟩ := mem_blockEnd.mp looked
  exact ⟨b,g,readBreak.append (readGaps.append readFence),isBreak,isGaps⟩

-- Inside a text without fences no fence closes it.
theorem codeClosing_dead {body : Text} {n : Nat} (fenceless : ¬ ("```" : Text) <:+: body) (returnless : '\r' ∉ body)
    (inner : n < body.length) (begins : c.after = body ++ '\n' :: rest) : codeClosing.ways (c.past n) = [] := by
  obtain ⟨v,x,w,rfl,rfl⟩ : ∃ v x w, body = v ++ x :: w ∧ n = v.length :=
    ⟨body.take n,body[n],body.drop (n + 1),by rw [← List.drop_eq_getElem_cons inner,List.take_append_drop],
      by rw [List.length_take,Nat.min_eq_left (Nat.le_of_lt inner)]⟩
  rw [List.eq_nil_iff_forall_not_mem]
  intro way found
  obtain ⟨b,g,read,isBreak,isGaps⟩ := mem_codeClosing found
  have ahead : b ++ (g ++ "```" ++ way.1.after) = x :: (w ++ '\n' :: rest) := by
    rw [← List.append_assoc,← read.1,Cursor.past_after,begins,List.append_assoc,List.drop_left]
    rfl
  rcases isBreak with rfl | rfl
  · have later : g ++ "```" ++ way.1.after = w ++ '\n' :: rest := (List.cons.inj ahead).2
    have inside : ("```" : Text) <:+: w := by
      rcases List.append_eq_append_iff.mp later with ⟨a,long,_⟩ | ⟨a,long,behind⟩
      · exact ⟨g,a,long.symm⟩
      · cases a with
        | nil => exact ⟨g,[],by simpa using long⟩
        | cons y a =>
          obtain ⟨rfl,_⟩ := List.cons.inj behind
          have newline : '\n' ∈ g ++ ("```" : Text) := by rw [long]; simp
          rcases List.mem_append.mp newline with inGaps | inFence
          · exact absurd inGaps isGaps.single
          · rw [fence] at inFence
            exact absurd (List.eq_of_mem_replicate inFence) (by decide)
    exact fenceless (inside.trans ⟨v ++ [x],[],by simp⟩)
  · have return_ : '\r' = x := (List.cons.inj ahead).1
    exact returnless (return_ ▸ by simp)

theorem takes_codeOpening (isLanguage : IsLanguage language) (begins : c.after = "```" ++ (language ++ '\n' :: rest)) :
    codeOpening.Takes c ("```" ++ (language ++ ['\n'])) := by
  have ahead : (c.past ("```" : Text).length).after = language ++ '\n' :: rest := by
    rw [Cursor.past_after,begins,List.drop_left]
  have word : (captured 1 (many (.char (.word ∪ CharSet.anyOf "+#-")))).Takes (c.past ("```" : Text).length) language :=
    .group (takes_run ahead isLanguage)
  have opened := (((takes_literal begins).looking (takes_gaps _)).seq word).looking (takes_gaps _)
  have behind : (c.past ("```" ++ language : Text).length).after = '\n' :: rest := by
    rw [List.length_append,← Cursor.past_past,Cursor.past_after,ahead,List.drop_left]
  have whole := opened.seq (takes_newline behind)
  rwa [List.append_assoc] at whole

theorem takes_codeClosing (shut : Shut rest) (begins : c.after = '\n' :: ("```" ++ rest)) :
    codeClosing.Takes c ('\n' :: "```") := by
  have newline : lineBreak.Takes c ['\n'] := takes_newline begins
  have ahead : (c.past 1).after = "```" ++ rest := by rw [Cursor.past_after,begins]; rfl
  have ends : blockEnd.Takes ((c.past 1).past ("```" : Text).length) [] := by
    refine takes_nothing (mem_blockEnd.mpr ⟨?_,rfl⟩)
    rw [Cursor.past_after,ahead,List.drop_left]
    exact .shut shut
  exact newline.seq ((takes_gaps _).looked ((takes_literal ahead).looking ends))

theorem codeClosing_stops (begins : c.after = '\n' :: ("```" ++ rest)) (found : way ∈ codeClosing.ways c) :
    way.1 = c.past ('\n' :: ("```" : Text)).length := by
  obtain ⟨b,g,read,isBreak,isGaps⟩ := mem_codeClosing found
  have whole := read.1
  rw [begins,List.append_assoc,List.append_assoc] at whole
  obtain ⟨rfl,later⟩ := isBreak.single whole.symm
  have none : g = [] := by
    cases g with
    | nil => rfl
    | cons x g =>
      rw [fence] at later
      obtain ⟨rfl,_⟩ := List.cons.inj later
      exact absurd (isGaps _ (List.mem_cons_self ..)) (by decide)
  rw [none] at read
  exact read.eq_past

-- The language and the text between the fences are the groups.
theorem code_taken {body : Text} (isLanguage : IsLanguage language) (fenceless : ¬ ("```" : Text) <:+: body)
    (returnless : '\r' ∉ body) (shut : Shut rest)
    (begins : c.after = "```" ++ (language ++ '\n' :: (body ++ '\n' :: ("```" ++ rest)))) :
    code.pattern.matchAt? c = some ⟨c,c.past (language.length + body.length + 8),
      [⟨2,c.past (language.length + 4),c.past (language.length + 4 + body.length)⟩,
        ⟨1,c.past 3,c.past (language.length + 3)⟩]⟩ := by
  obtain ⟨_,opened⟩ := takes_codeOpening isLanguage begins
  have inside : (c.past (language.length + 4)).after = body ++ '\n' :: ("```" ++ rest) := by
    have split : c.after = ("```" ++ language ++ ['\n']) ++ (body ++ '\n' :: ("```" ++ rest)) := by
      rw [begins]
      simp
    have length : ("```" ++ language ++ ['\n'] : Text).length = language.length + 4 := by
      simp [fence]
    rw [Cursor.past_after,split,← length,List.drop_left]
  have closing : ((c.past (language.length + 4)).past body.length).after = '\n' :: ("```" ++ rest) := by
    rw [Cursor.past_after,inside,List.drop_left]
  obtain ⟨_,closed⟩ := takes_codeClosing shut closing
  obtain ⟨next,others,ways⟩ := List.exists_cons_of_ne_nil (List.ne_nil_of_mem closed)
  have isNext : next ∈ codeClosing.ways ((c.past (language.length + 4)).past body.length) := by
    rw [ways]
    exact List.mem_cons_self ..
  have reached : language.length + 4 + (body.length + ('\n' :: ("```" : Text)).length) = language.length + body.length + 8 := by
    simp [fence]
    omega
  have stop : next.1 = c.past (language.length + body.length + 8) := by
    rw [codeClosing_stops closing isNext,Cursor.past_past,Cursor.past_past,reached]
  have groupless : codeClosing.groups = [] := by
    rw [codeClosing,Text.ofString_ofList]
    rfl
  have none : next.2 = [] := no_captures groupless isNext
  have alive : (codeClosing.ways ((c.past (language.length + 4)).past body.length)).head? = some next := by rw [ways]; rfl
  have any : ∀ x ∈ body, CharSet.all.contains x = true := fun _ _ => rfl
  have head : ((captured 2 (lazyMany Inline.anything) ++ codeClosing).ways (c.past (language.length + 4))).head? = _ :=
    lazy_takes (.of_after inside) any (fun n inner => codeClosing_dead fenceless returnless inner inside) alive
  obtain ⟨way,skipped,split⟩ := List.exists_cons_of_ne_nil (List.ne_nil_of_mem opened)
  obtain rfl := codeOpening_stops isLanguage begins (show way ∈ codeOpening.ways c by rw [split]; exact List.mem_cons_self ..)
  have whole := head_seq (show codeOpening.ways c = [] ++ _ by rw [split]; rfl) (List.forall_mem_nil _) head
  rw [matchAt_head,code_ways,whole,none,stop,Cursor.past_past]
  rfl

end Block
end LightMarkup
