import LightMarkup.Paragraph.Bullets
import LightMarkup.Paragraph.Table
import LightMarkup.Proofs.Loading.Rematching
import LightMarkup.Proofs.Paragraph.Quoting

/-!
The lines that quotes, lists, tables and rows of images are read from. They are read under every line break, and the
patterns of the blocks know newlines only: the two agree on a text in which no other break stands within a line, and there
every line of a quote, a list or a table is accounted for.
-/

namespace LightMarkup

namespace Text

variable {t u rest line : Text}

-- The lines between newlines, each without a carriage return at its end.
def newlineLines (t : Text) : List Text :=
  (splitAtChar '\n' t).map (dropEnding ['\r'])

-- No break but newlines, with or without a carriage return before them.
def Straight (t : Text) : Prop :=
  ∀ line ∈ newlineLines t, Unbroken line

theorem splitAtChar_append {c : Char} (free : c ∉ t) (rest : Text) :
    splitAtChar c (t ++ c :: rest) = t :: splitAtChar c rest := by
  induction t with
  | nil => simp [splitAtChar]
  | cons x t ih =>
    obtain ⟨other,free⟩ := List.ne_and_not_mem_of_not_mem_cons free
    rw [List.cons_append,splitAtChar,if_neg (Ne.symm other),ih free]

theorem splitAtChar_free {c : Char} (free : c ∉ t) : splitAtChar c t = [t] := by
  induction t with
  | nil => rfl
  | cons x t ih =>
    obtain ⟨other,free⟩ := List.ne_and_not_mem_of_not_mem_cons free
    rw [splitAtChar,if_neg (Ne.symm other),ih free]

theorem newlineLines_break (free : '\n' ∉ t) (rest : Text) :
    newlineLines (t ++ '\n' :: rest) = dropEnding ['\r'] t :: newlineLines rest := by
  rw [newlineLines,splitAtChar_append free,List.map_cons,newlineLines]

theorem newlineLines_last (free : '\n' ∉ t) : newlineLines t = [dropEnding ['\r'] t] := by
  rw [newlineLines,splitAtChar_free free,List.map_singleton]

theorem dropReturn_cases (t : Text) :
    (∃ u, t = u ++ ['\r'] ∧ dropEnding ['\r'] t = u) ∨ dropEnding ['\r'] t = t := by
  unfold dropEnding
  split
  · rename_i ends
    obtain ⟨u,rfl⟩ := List.isSuffixOf_iff_suffix.mp ends
    exact Or.inl ⟨u,rfl,by simp⟩
  · exact Or.inr rfl

theorem lines_return (unbroken : Unbroken t) : lines (t ++ ['\r']) = [t] ∧
    ∀ rest, lines (t ++ '\r' :: '\n' :: rest) = t :: lines rest := by
  induction t with
  | nil => exact ⟨rfl,fun rest => rfl⟩
  | cons x t ih =>
    obtain ⟨here,others⟩ := List.forall_mem_cons.mp unbroken
    obtain ⟨last,inner⟩ := ih others
    exact ⟨by rw [List.cons_append,lines_cons here,last],fun rest => by rw [List.cons_append,lines_cons here,inner]⟩

theorem lines_piece (unbroken : Unbroken (dropEnding ['\r'] t)) (rest : Text) :
    lines (t ++ '\n' :: rest) = dropEnding ['\r'] t :: lines rest := by
  rcases dropReturn_cases t with ⟨u,rfl,dropped⟩ | same
  · rw [dropped] at unbroken ⊢
    rw [List.append_assoc]
    exact (lines_return unbroken).2 rest
  · rw [same] at unbroken ⊢
    exact lines_break unbroken rest

theorem lines_end (unbroken : Unbroken (dropEnding ['\r'] t)) (some : t ≠ []) : lines t = [dropEnding ['\r'] t] := by
  rcases dropReturn_cases t with ⟨u,rfl,dropped⟩ | same
  · rw [dropped] at unbroken ⊢
    exact (lines_return unbroken).1
  · rw [same] at unbroken ⊢
    exact lines_last unbroken some

theorem lines_unbroken (t : Text) : ∀ line ∈ lines t, Unbroken line := by
  have none : Unbroken [] := List.forall_mem_nil _
  induction t using lines.induct with
  | case1 => exact List.forall_mem_nil _
  | case2 rest ih => exact List.forall_mem_cons.mpr ⟨none,ih⟩
  | case3 x rest other isBreak ih =>
    rw [lines,if_pos isBreak]
    · exact List.forall_mem_cons.mpr ⟨none,ih⟩
    · exact other
  | case4 x rest other unbroken empty ih =>
    rw [lines_cons (Bool.eq_false_iff.mpr unbroken),empty]
    exact List.forall_mem_singleton.mpr (List.forall_mem_singleton.mpr (Bool.eq_false_iff.mpr unbroken))
  | case5 x rest other unbroken line others split ih =>
    rw [lines_cons (Bool.eq_false_iff.mpr unbroken),split]
    rw [split] at ih
    obtain ⟨here,later⟩ := List.forall_mem_cons.mp ih
    exact List.forall_mem_cons.mpr ⟨List.forall_mem_cons.mpr ⟨Bool.eq_false_iff.mpr unbroken,here⟩,later⟩

-- Something is written, and there is no newline behind it.
def Ended (t : Text) : Prop :=
  ∃ front last, t = front ++ [last] ∧ last ≠ '\n'

theorem ended_rest (ended : Ended (t ++ '\n' :: rest)) : Ended rest := by
  obtain ⟨front,last,whole,other⟩ := ended
  rcases List.eq_nil_or_concat rest with rfl | ⟨inner,x,rfl⟩
  · exact absurd (List.append_inj' whole rfl).2 (by simp [other.symm])
  · have ends : (t ++ '\n' :: inner) ++ [x] = front ++ [last] := by simpa using whole
    obtain rfl : x = last := List.singleton_inj.mp (List.append_inj' ends rfl).2
    exact ⟨inner,x,List.concat_eq_append,other⟩

-- A text in one line, or a first line before the rest.
theorem newline_cases (t : Text) : '\n' ∉ t ∨ ∃ front rest, t = front ++ '\n' :: rest ∧ '\n' ∉ front := by
  by_cases member : '\n' ∈ t
  · exact Or.inr (List.eq_append_cons_of_mem member)
  · exact Or.inl member

theorem straight_break (free : '\n' ∉ t) :
    Straight (t ++ '\n' :: rest) ↔ Unbroken (dropEnding ['\r'] t) ∧ Straight rest := by
  rw [Straight,newlineLines_break free,List.forall_mem_cons,Straight]

theorem straight_last (free : '\n' ∉ t) : Straight t ↔ Unbroken (dropEnding ['\r'] t) := by
  rw [Straight,newlineLines_last free,List.forall_mem_singleton]

theorem lines_straight (straight : Straight t) (ended : Ended t) : lines t = newlineLines t := by
  induction length : t.length using Nat.strong_induction_on generalizing t with
  | h n ih =>
    subst length
    rcases newline_cases t with free | ⟨front,rest,rfl,free⟩
    · have some : t ≠ [] := by
        obtain ⟨front,last,rfl,_⟩ := ended
        simp
      rw [newlineLines_last free,lines_end ((straight_last free).mp straight) some]
    · obtain ⟨here,others⟩ := (straight_break free).mp straight
      rw [newlineLines_break free,lines_piece here,ih rest.length (by simp; omega) others (ended_rest ended) rfl]

-- The lines are those between newlines exactly where no other break stands in them.
theorem lines_newlines (ended : Ended t) : lines t = newlineLines t ↔ Straight t :=
  ⟨fun same line member => lines_unbroken t line (same ▸ member),fun straight => lines_straight straight ended⟩

-- For every text, if blank lines are left out.
theorem lines_filled (straight : Straight t) : (lines t).filter (fun line => !isAllBlank line) =
    (newlineLines t).filter fun line => !isAllBlank line := by
  induction length : t.length using Nat.strong_induction_on generalizing t with
  | h n ih =>
    subst length
    rcases newline_cases t with free | ⟨front,rest,rfl,free⟩
    · rw [newlineLines_last free]
      by_cases none : t = []
      · subst none
        rfl
      · rw [lines_end ((straight_last free).mp straight) none]
    · obtain ⟨here,others⟩ := (straight_break free).mp straight
      rw [newlineLines_break free,lines_piece here,List.filter_cons,List.filter_cons,
        ih rest.length (by simp; omega) others rfl]

end Text

namespace Quote

open Text

-- What is left of a line without its mark, nothing of a blank one.
def contentOf (line : Text) : Text :=
  (content? line).getD []

-- Every line that is not blank begins with the mark.
def AllMarked (lines : List Text) : Prop :=
  ∀ line ∈ lines, isAllBlank line = true ∨ line.head? = some '>'

theorem content_head {line : Text} (begins : line.head? = some '>') : ∃ content, content? line = some content := by
  obtain ⟨rest,rfl⟩ := List.head?_eq_some_iff.mp begins
  have trimmed : trim ('>' :: rest) = '>' :: trimEnd rest := (trim_marked rfl rest).trans (trimEnd_cons rfl rest)
  rw [content?,trimmed]
  cases trimEnd rest with
  | nil => exact ⟨[],rfl⟩
  | cons x t =>
    by_cases space : x = ' '
    · exact ⟨t,by rw [space]; rfl⟩
    · refine ⟨x :: t,?_⟩
      split
      · rename_i same
        cases same
        exact absurd rfl space
      · rename_i same
        cases same
        rfl
      · rename_i other
        exact absurd rfl (other _)

theorem bodyLines_all {lines : List Text} (strict : Bool) (marked : AllMarked lines) :
    bodyLines strict lines = pure (lines.map contentOf) := by
  induction lines with
  | nil => rfl
  | cons line lines ih =>
    obtain ⟨here,others⟩ := List.forall_mem_cons.mp marked
    rw [bodyLines,ih others,List.map_cons,contentOf]
    cases known : content? line with
    | some content => exact Logged.pure_bind _ _
    | none =>
      rcases here with blank | begins
      · rw [if_pos blank]
        exact Logged.pure_bind _ _
      · obtain ⟨content,some⟩ := content_head begins
        rw [known] at some
        cases some

-- The lines of the body: the first line may name the type instead.
def bodyOf (lines : List Text) : List Text :=
  (if (firstType? lines).isSome then lines.tail else lines).map contentOf

-- Nothing is refused and nothing is left out, in either mode.
theorem ofText_straight {raw : Text} (straight : Straight raw) (ended : Ended raw) (marked : AllMarked (newlineLines raw))
    (strict : Bool) : ofText strict raw = pure (firstType? (newlineLines raw),join "\n" (bodyOf (newlineLines raw))) := by
  have others : AllMarked (newlineLines raw).tail := fun line member => marked line (List.mem_of_mem_tail member)
  rw [ofText,lines_straight straight ended]
  simp only [bodyOf]
  cases firstType? (newlineLines raw) with
  | some type => simp only [bodyLines_all strict others,Logged.pure_bind]; rfl
  | none => simp only [bodyLines_all strict marked,Logged.pure_bind]; rfl

end Quote

namespace ListItem

open Text

theorem item_filled {line : Text} {item : ListItem} (isItem : ofLine? line = some item) : isAllBlank line = false := by
  obtain ⟨m,found,_⟩ := Option.map_eq_some_iff.mp isItem
  obtain ⟨start,isWay⟩ := Pattern.matchAt_way found
  have needed : Block.listItem.needs CharSet.solid = true := by decide +kernel
  obtain ⟨t,x,set,read,member,solid,inSet⟩ := Pattern.needs_reads needed isWay
  have inside : x ∈ line := by
    have whole : line = t ++ m.stop.after := by
      have ahead := read.1
      rwa [start] at ahead
    rw [whole]
    exact List.mem_append_left _ member
  rw [isAllBlank,List.all_eq_false]
  exact ⟨x,inside,by simp [CharSet.solid_contains solid inSet]⟩

theorem ofLinesAfter_items {lines : List Text} {items : List ListItem} (strict : Bool) (before : List ListItem)
    (each : lines.map ofLine? = items.map some) : ofLinesAfter strict before lines = pure (before ++ items) := by
  induction lines generalizing before items with
  | nil =>
    obtain rfl := List.map_eq_nil_iff.mp each.symm
    rw [ofLinesAfter,List.append_nil]
  | cons line lines ih =>
    cases items with
    | nil => cases each
    | cons item items =>
      obtain ⟨here,others⟩ := List.cons.inj each
      rw [ofLinesAfter,item_filled here,if_neg Bool.false_ne_true,here]
      show ofLinesAfter strict (before ++ [item]) lines = _
      rw [ih (before ++ [item]) others,List.append_assoc]
      rfl

-- One item for each line.
theorem ofText_straight {raw : Text} {items : List ListItem} (straight : Straight raw) (ended : Ended raw)
    (each : (newlineLines raw).map ofLine? = items.map some) (strict : Bool) : ofText strict raw = pure items := by
  rw [ofText,lines_straight straight ended,ofLinesAfter_items strict [] each,List.nil_append]

end ListItem

namespace Table

open Text

def isAlignment (row : Row) : Bool :=
  (alignmentsOf? row).isSome

-- The rows that are shown, from first to last.
def shown (table : Table) : List Row :=
  table.header.toList ++ table.body ++ table.footer.toList

theorem splitHeader_rows (rows : List Row) : ∃ between, between.all isAlignment = true ∧
    rows = ((splitHeader rows).1.map Prod.fst).toList ++ between ++ (splitHeader rows).2 := by
  unfold splitHeader
  split
  · rename_i first second rest
    split
    · rename_i alignments aligned
      exact ⟨[second],by simp [isAlignment,aligned],rfl⟩
    · exact ⟨[],rfl,rfl⟩
  · exact ⟨[],rfl,rfl⟩

theorem splitFooter_rows (rows : List Row) : ∃ between, between.all isAlignment = true ∧
    rows = (splitFooter rows).1 ++ between ++ ((splitFooter rows).2.map Prod.fst).toList := by
  unfold splitFooter
  split
  · rename_i last second rest reversed
    have whole : rows = rest.reverse ++ [second] ++ [last] := by
      rw [← List.reverse_reverse rows,reversed]
      simp
    split
    · rename_i alignments aligned
      exact ⟨[second],by simp [isAlignment,aligned],whole⟩
    · exact ⟨[],rfl,by simp⟩
  · exact ⟨[],rfl,by simp⟩

theorem filter_between {between : List Row} (all : between.all isAlignment = true) :
    between.filter (fun row => !isAlignment row) = [] := by
  rw [List.filter_eq_nil_iff]
  intro row member
  simpa using List.all_eq_true.mp all row member

-- Cut at the pipes, a line is cut into texts that make it up again.
theorem split_join {p : Pattern} {mark t : Text} (each : ∀ m ∈ p.occurrences t, m.text = mark) : join mark (p.split t) = t := by
  have laid : ∀ {ms : List Match} {position : Nat} {t : Text}, Match.Follow (fun _ => True) position t ms →
      (∀ m ∈ ms, m.text = mark) → join mark (gapsBetween position t (ms.map Match.span)) = t := by
    intro ms
    induction ms with
    | nil => intro position t _ _; rw [List.map_nil,gapsBetween,join_cons,List.flatMap_nil,List.append_nil]
    | cons m ms ih =>
      intro position t follow all
      obtain ⟨here,others⟩ := List.forall_mem_cons.mp all
      obtain ⟨inner,whole,_,read,_,later⟩ := follow.cut
      have text : inner = mark := read.textTo.symm.trans here
      have rest := ih later others
      have some : gapsBetween m.stop.position (t.drop (m.stop.position - position)) (ms.map Match.span) ≠ [] := by
        cases ms <;> exact List.cons_ne_nil _ _
      obtain ⟨first,more,same⟩ := List.exists_cons_of_ne_nil some
      rw [List.map_cons,Match.span,gapsBetween]
      rw [same] at rest ⊢
      rw [join_more,rest,← text,← whole]
  exact laid (Pattern.occurrences_follow p t fun _ _ _ _ => trivial) each

theorem separator_text {t : Text} {m : Match} (found : m ∈ separator.occurrences t) : m.text = ['|'] := by
  obtain ⟨mid,_,_,start,last,_⟩ := Pattern.seq_parts (Pattern.occurrences_way found)
  obtain ⟨_,same⟩ := Pattern.mem_waysIf.mp start
  obtain rfl : mid = m.start := congrArg Prod.fst same
  rw [Text.ofString_ofList] at last
  exact (Pattern.literal_reads last).1.textTo

-- The cells hold all that is written between the pipes at the ends of the line.
theorem cells_whole (line : Text) : ∃ pieces, cellsOf line = pieces.map unescapePipes ∧
    join ['|'] pieces = dropClosingPipe (dropOpeningPipe (trim line)) :=
  ⟨_,rfl,split_join fun _ found => separator_text found⟩

-- The rows that are not shown are rows of alignments.
theorem ofRows_shown (rows : List Row) (metadata : Option TableMetadata) : (ofRows rows metadata).shown.Sublist rows ∧
    (ofRows rows metadata).shown.filter (fun row => !isAlignment row) = rows.filter fun row => !isAlignment row := by
  obtain ⟨above,isAbove,whole⟩ := splitHeader_rows rows
  obtain ⟨below,isBelow,rest⟩ := splitFooter_rows (splitHeader rows).2
  have body : (ofRows rows metadata).body = (splitFooter (splitHeader rows).2).1.filter fun row => !isAlignment row := by
    simp [ofRows,isAlignment]
  have shown : (ofRows rows metadata).shown = ((splitHeader rows).1.map Prod.fst).toList ++
      (splitFooter (splitHeader rows).2).1.filter (fun row => !isAlignment row) ++
        ((splitFooter (splitHeader rows).2).2.map Prod.fst).toList := by
    rw [Table.shown,body]
    rfl
  rw [rest] at whole
  generalize ((splitHeader rows).1.map Prod.fst).toList = header at whole shown
  generalize (splitFooter (splitHeader rows).2).1 = middle at whole shown
  generalize ((splitFooter (splitHeader rows).2).2.map Prod.fst).toList = footer at whole shown
  rw [shown,whole]
  constructor
  · have inner : (middle.filter fun row => !isAlignment row).Sublist (middle ++ below) :=
      List.filter_sublist.trans (List.sublist_append_left ..)
    exact ((List.sublist_append_left header above).append inner).append (.refl footer) |>.trans (by simp)
  · simp only [List.filter_append,filter_between isAbove,filter_between isBelow,List.filter_filter,Bool.and_self,
      List.nil_append,List.append_assoc]

-- Every line begins with a pipe.
def AllPiped (lines : List Text) : Prop :=
  ∀ line ∈ lines, line.head? = some '|'

-- One row for each line.
theorem ofText_straight {raw : Text} (straight : Straight raw) (piped : AllPiped (newlineLines raw)) :
    ofText raw = ofRows ((newlineLines raw).map cellsOf) none := by
  have filled : ∀ line ∈ newlineLines raw, (!isAllBlank line) = true := by
    intro line member
    obtain ⟨rest,rfl⟩ := List.head?_eq_some_iff.mp (piped line member)
    rfl
  have unsplit : splitMetadata (newlineLines raw) = (newlineLines raw,none) := by
    unfold splitMetadata
    split
    · rename_i none
      rw [List.getLast?_eq_none_iff.mp none]
    · rename_i last isLast
      obtain ⟨rest,rfl⟩ := List.head?_eq_some_iff.mp (piped last (List.mem_of_getLast? isLast))
      have begins : (trim ('|' :: rest)).head? = some '|' := by
        rw [trim_marked rfl,trimEnd_cons rfl]
        rfl
      rw [if_pos begins]
  rw [ofText,lines_filled straight,List.filter_eq_self.mpr filled,unsplit]

end Table

namespace Image

open Text

theorem ofLines_filled (lines : List Text) : ofLines (lines.filter fun line => !isAllBlank line) = ofLines lines := by
  induction lines with
  | nil => rfl
  | cons line lines ih =>
    rw [List.filter_cons]
    cases blank : isAllBlank line with
    | true => rw [ofLines,if_pos blank]; exact ih
    | false =>
      simp only [Bool.not_false,↓reduceIte,ofLines,blank,Bool.false_eq_true,ih]

theorem ofLines_straight {t : Text} (straight : Straight t) : ofLines (lines t) = ofLines (newlineLines t) := by
  rw [← ofLines_filled (lines t),lines_filled straight,ofLines_filled]

end Image
end LightMarkup
