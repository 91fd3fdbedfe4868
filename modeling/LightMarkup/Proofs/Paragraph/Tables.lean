import LightMarkup.Proofs.Paragraph.Lines
import LightMarkup.Proofs.Pattern.Taking

/-!
Tables as they are written and as they are read. A line of cells is cut at the pipes that stand between the cells, for those
inside them have backslashes before them, and of the rows none is left out but rows of dashes.
-/

namespace LightMarkup
namespace Table

open Pattern Text

section Cells

variable {cell t u : Text} {cells : Row} {pieces : List Text} {before : Text} {c : Cursor}

def escapePipes (cell : Text) : Text :=
  replaceChar '|' escapedPipe cell

-- The line of a row: its cells between pipes, with the pipes in them behind backslashes.
def written (cells : Row) : Text :=
  '|' :: (join ['|'] (cells.map escapePipes) ++ ['|'])

theorem escapePipes_cons (x : Char) (t : Text) :
    escapePipes (x :: t) = (if x = '|' then ['\\','|'] else [x]) ++ escapePipes t := by
  simp [escapePipes,replaceChar,escapedPipe,ofString_eq]

theorem escapePipes_append (t u : Text) : escapePipes (t ++ u) = escapePipes t ++ escapePipes u :=
  List.flatMap_append

-- A pipe in the text has a backslash before it.
def Guarded (t : Text) : Prop :=
  ∀ a b, t = a ++ '|' :: b → a.getLast? = some '\\'

theorem escapePipes_guarded (t : Text) : Guarded (escapePipes t) := by
  induction t with
  | nil =>
    intro a b split
    exact absurd split (by simp [escapePipes,replaceChar])
  | cons x t ih =>
    intro a b split
    rw [escapePipes_cons] at split
    -- A pipe further on has its backslash there.
    have later : ∀ {v : Text}, escapePipes t = v ++ '|' :: b → ∀ w : Text, (w ++ v).getLast? = some '\\' := by
      intro v inside w
      rw [List.getLast?_append,ih v b inside]
      rfl
    by_cases pipe : x = '|'
    · rw [if_pos pipe] at split
      rcases a with _ | ⟨y,_ | ⟨z,v⟩⟩
      · simp at split
      · simp at split
        simp [← split.1]
      · simp at split
        exact later split.2.2 [y,z]
    · rw [if_neg pipe] at split
      rcases a with _ | ⟨y,v⟩
      · simp [pipe] at split
      · simp at split
        exact later split.2 [y]

theorem unescape_escape (t : Text) : unescapePipes (escapePipes t) = t := by
  induction t with
  | nil => rfl
  | cons x t ih =>
    rw [escapePipes_cons]
    by_cases pipe : x = '|'
    · rw [if_pos pipe,pipe]
      exact congrArg (List.cons '|') ih
    · rw [if_neg pipe,List.singleton_append,unescapePipes,ih]
      rintro rest rfl begins
      exact absurd (escapePipes_guarded t [] rest begins) (by simp)

-- No backslash at its end, so that a pipe may follow.
abbrev Open (t : Text) : Prop :=
  t.getLast? ≠ some '\\'

theorem escapePipes_open (isOpen : Open cell) : Open (escapePipes cell) := by
  rcases List.eq_nil_or_concat cell with rfl | ⟨v,y,rfl⟩
  · exact isOpen
  · rw [List.concat_eq_append] at isOpen ⊢
    have last : y ≠ '\\' := by simpa using isOpen
    rw [Open,escapePipes_append,escapePipes_cons,List.getLast?_append]
    by_cases pipe : y = '|'
    · rw [if_pos pipe]
      simp [escapePipes,replaceChar]
    · rw [if_neg pipe]
      simpa [escapePipes,replaceChar] using last

theorem separator_ways (c : Cursor) :
    separator.ways c = if Open c.before.reverse ∧ c.after.head? = some '|' then [(c.past 1,[])] else [] := by
  have bar : ("|" : Text) = ['|'] := by rw [ofString_eq]; rfl
  have behind : (Pattern.notBehind (.one '\\')).ways c = waysIf (decide (Open c.before.reverse)) c := by
    rw [ways]
    congr 1
    cases c.before with
    | nil => rfl
    | cons x before => by_cases same : x = '\\' <;> simp [CharSet.contains,same]
  have pipe : (literal "|").ways c = if c.after.head? = some '|' then [(c.past 1,[])] else [] := by
    rw [bar,ways_literal]
    cases c.after with
    | nil => rfl
    | cons x rest => simp [eq_comm]
  show thenWays ((Pattern.notBehind (.one '\\')).ways c) (literal "|").ways = _
  rw [behind]
  by_cases isOpen : Open c.before.reverse
  · rw [decide_eq_true isOpen,waysIf,if_pos rfl,thenWays_plain,pipe]
    exact if_congr (and_iff_right isOpen).symm rfl rfl
  · rw [decide_eq_false isOpen,if_neg fun both => isOpen both.1]
    rfl

theorem separator_none (other : Open c.before.reverse → c.after.head? ≠ some '|') : separator.matchSomeAt? c = none := by
  rw [matchSomeAt_none,separator_ways,if_neg fun both => other both.1 both.2]
  exact List.forall_mem_nil _

theorem separator_some (isOpen : Open c.before.reverse) (pipe : c.after.head? = some '|') :
    separator.matchSomeAt? c = some ⟨c,c.past 1,[]⟩ := by
  refine matchSomeAt_some ?_ ?_
  · rw [matchAt_head,separator_ways,if_pos ⟨isOpen,pipe⟩]
    rfl
  · obtain ⟨rest,begins⟩ := List.head?_eq_some_iff.mp pipe
    have stop : (c.past 1).position = c.position + 1 := Cursor.past_position (by simp [begins])
    simp [Match.length,stop]

-- From a place behind which the pieces stand, with pipes between them.
theorem scan_pieces (isOpen : Open before.reverse) (some : pieces ≠ []) (each : ∀ piece ∈ pieces, Guarded piece ∧ Open piece) :
    gapsBetween before.length (join ['|'] pieces)
      ((scanFrom Match.length separator.matchSomeAt? before 0 (join ['|'] pieces)).map Match.span) = pieces := by
  induction pieces generalizing before with
  | nil => exact absurd rfl some
  | cons piece pieces ih =>
    obtain ⟨⟨guarded,last⟩,others⟩ := List.forall_mem_cons.mp each
    -- The pipes in the piece are not cut at.
    have inner : ∀ rest : Text, ∀ n < piece.length,
        separator.matchSomeAt? ((⟨before,piece ++ rest⟩ : Cursor).past n) = none := by
      intro rest n inside
      refine separator_none fun isOpen pipe => isOpen ?_
      rw [Cursor.past_after,List.drop_append_of_le_length (Nat.le_of_lt inside),List.drop_eq_getElem_cons inside] at pipe
      have here : piece[n] = '|' := Option.some.inj pipe
      have split : piece = piece.take n ++ '|' :: piece.drop (n + 1) := by
        rw [← here,← List.drop_eq_getElem_cons inside,List.take_append_drop]
      have behind : ((⟨before,piece ++ rest⟩ : Cursor).past n).before.reverse = before.reverse ++ piece.take n := by
        simp [Cursor.past,List.take_append_of_le_length (Nat.le_of_lt inside)]
      rw [behind,List.getLast?_append,guarded _ _ split]
      rfl
    cases pieces with
    | nil =>
      have none := separator_none (c := ⟨piece.reverse ++ before,[]⟩) (by simp)
      have passed : scanFrom Match.length separator.matchSomeAt? before 0 (piece ++ []) = _ := scan_pass (inner [])
      rw [List.append_nil,scanFrom,none] at passed
      rw [join_cons,List.flatMap_nil,List.append_nil,passed]
      rfl
    | cons next pieces =>
      have isNext : Open (piece.reverse ++ before).reverse := by
        rw [List.reverse_append,List.reverse_reverse,Open,List.getLast?_append]
        cases isLast : piece.getLast? with
        | none => exact isOpen
        | some x => exact fun same => last (isLast.trans same)
      have found := separator_some (c := ⟨piece.reverse ++ before,['|'] ++ join ['|'] (next :: pieces)⟩) isNext rfl
      have length : (⟨⟨piece.reverse ++ before,['|'] ++ join ['|'] (next :: pieces)⟩,
          Cursor.past ⟨piece.reverse ++ before,['|'] ++ join ['|'] (next :: pieces)⟩ 1,[]⟩ : Match).length = ['|'].length := by
        simp [Match.length,Cursor.past,Cursor.position]
      have taken := scan_take found (List.cons_ne_nil _ _) length
      have isBar : Open ('|' :: (piece.reverse ++ before)).reverse := by simp [Open]
      have later := ih isBar (List.cons_ne_nil _ _) others
      rw [join_more,scan_pass (inner _),taken,List.map_cons,Match.span,gapsBetween]
      generalize join ['|'] (next :: pieces) = rest at later
      have behind : (piece ++ '|' :: rest).drop (piece.length + before.length + 1 - before.length) = rest := by
        rw [show piece.length + before.length + 1 - before.length = piece.length + 1 by omega]
        simp
      simpa [Cursor.position,Cursor.past,behind] using later

theorem split_pieces (some : pieces ≠ []) (each : ∀ piece ∈ pieces, Guarded piece ∧ Open piece) :
    separator.split (join ['|'] pieces) = pieces := by
  have none : Open ([] : Text).reverse := by simp [Open]
  exact scan_pieces none some each

theorem pieces_open (each : ∀ piece ∈ pieces, Open piece) : Open (join ['|'] pieces) := by
  induction pieces with
  | nil => simp [Open,join]
  | cons piece pieces ih =>
    obtain ⟨here,others⟩ := List.forall_mem_cons.mp each
    cases pieces with
    | nil => rwa [join_cons,List.flatMap_nil,List.append_nil]
    | cons next pieces =>
      have later := ih others
      rw [join_more,Open,List.getLast?_append,List.singleton_append,List.getLast?_cons]
      cases isLast : (join ['|'] (next :: pieces)).getLast? with
      | none => simp
      | some x =>
        rw [Open,isLast] at later
        simpa using later

theorem dropClosing_written (isOpen : Open t) : dropClosingPipe (t ++ ['|']) = t := by
  have bar : ("|" : Text) = ['|'] := by rw [ofString_eq]; rfl
  have escaped : escapedPipe = ['\\','|'] := by rw [escapedPipe,ofString_eq]; rfl
  have other : ¬ escapedPipe.isSuffixOf (t ++ ['|']) = true := by
    rw [escaped,List.isSuffixOf_iff_suffix]
    rintro ⟨v,same⟩
    have front : v ++ ['\\'] = t := List.append_inj_left' (by simpa using same) rfl
    exact isOpen (by simp [← front])
  have ends : (['|'] : Text).isSuffixOf (t ++ ['|']) = true := List.isSuffixOf_iff_suffix.mpr (List.suffix_append _ _)
  rw [dropClosingPipe,if_neg other,bar,dropEnding,if_pos ends]
  simp

-- A line that is written from cells is read as these cells.
theorem cellsOf_written (some : cells ≠ []) (isOpen : ∀ cell ∈ cells, Open cell) : cellsOf (written cells) = cells := by
  have trimmed : trim (written cells) = written cells :=
    trim_solid rfl rfl (v := '|' :: join ['|'] (cells.map escapePipes)) (y := '|') rfl rfl
  have each : ∀ piece ∈ cells.map escapePipes, Guarded piece ∧ Open piece :=
    List.forall_mem_map.mpr fun cell member => ⟨escapePipes_guarded cell,escapePipes_open (isOpen cell member)⟩
  have line : dropClosingPipe (dropOpeningPipe (written cells)) = join ['|'] (cells.map escapePipes) :=
    dropClosing_written (pieces_open fun piece member => (each piece member).2)
  rw [cellsOf,trimmed,line,split_pieces (by simpa using some) each,List.map_map]
  exact List.map_id'' unescape_escape cells

theorem cellsOf_written_pipes : ([[],['a','\\','b'],['|','|'],[]] : Row) ≠ [] ∧
    cellsOf (written [[],['a','\\','b'],['|','|'],[]]) = [[],['a','\\','b'],['|','|'],[]] :=
  ⟨List.cons_ne_nil _ _,cellsOf_written (List.cons_ne_nil _ _) (by decide)⟩

end Cells

section Rows

variable {cell : Text} {row first second : Row} {rows kept : List Row} {one two : Option Alignment}
  {alignments : List (Option Alignment)}

def colonIf (given : Bool) : Text :=
  if given then [':'] else []

def side (left right : Bool) : Option Alignment :=
  match left, right with
  | true, true => some .center
  | true, false => some .left
  | false, true => some .right
  | false, false => none

-- A cell of dashes, with colons at the sides it is aligned to.
def Aligns (cell : Text) (alignment : Option Alignment) : Prop :=
  ∃ g left n right h, Block.Gaps g ∧ Block.Gaps h ∧ alignment = side left right ∧
    cell = g ++ colonIf left ++ List.replicate (n + 1) '-' ++ colonIf right ++ h

theorem mem_colonIf {given : Bool} {x : Char} : x ∈ colonIf given ↔ given = true ∧ x = ':' := by
  cases given <;> simp [colonIf]

-- The colons are told by what stands before the first dash and behind it.
theorem Aligns.unique (first : Aligns cell one) (second : Aligns cell two) : one = two := by
  obtain ⟨g,left,n,right,h,gaps,others,rfl,rfl⟩ := first
  obtain ⟨g',left',n',right',h',gaps',others',rfl,same⟩ := second
  have apart : ∀ {g : Text} {given : Bool}, Block.Gaps g → '-' ∉ g ++ colonIf given := by
    intro g given gaps member
    rcases List.mem_append.mp member with member | member
    · exact absurd (gaps _ member) (by decide)
    · exact absurd (mem_colonIf.mp member).2 (by decide)
  have colon : ∀ {g : Text}, Block.Gaps g → ':' ∉ g := fun gaps member => absurd (gaps _ member) (by decide)
  simp only [List.replicate_succ,List.append_assoc,List.cons_append] at same
  rw [← List.append_assoc,← List.append_assoc g'] at same
  obtain ⟨before,behind⟩ := Text.ends_once (apart gaps) (apart gaps') same
  have sameLeft : left = true ↔ left' = true := by
    have member : ':' ∈ g ++ colonIf left ↔ ':' ∈ g' ++ colonIf left' := by rw [before]
    simpa [mem_colonIf,colon gaps,colon gaps'] using member
  have sameRight : right = true ↔ right' = true := by
    have member := congrArg (':' ∈ ·) behind
    simpa [mem_colonIf,colon others,colon others'] using member
  rw [Bool.eq_iff_iff.mpr sameLeft,Bool.eq_iff_iff.mpr sameRight]

theorem colon_reads {number : Nat} {name : String} {stop : Cursor} {g : Captures}
    (found : (stop,g) ∈ (named number name (maybe (literal ":"))).ways c) :
    ∃ given, c.Reads (colonIf given) stop ∧ g = [⟨number,c,stop⟩] := by
  have bar : (":" : Text) = [':'] := by rw [ofString_eq]; rfl
  obtain ⟨inner,isInner,same⟩ := mem_captured (by simp [maybe,groups]) found
  cases same
  rcases mem_maybe isInner with colon | none
  · rw [bar] at colon
    exact ⟨true,(literal_reads colon).1,rfl⟩
  · exact ⟨false,none ▸ .refl c,rfl⟩

theorem dashes_read {stop : Cursor} {g : Captures} (found : (stop,g) ∈ (plus (literal "-")).ways c) :
    ∃ n, c.Reads (List.replicate (n + 1) '-') stop ∧ g = [] := by
  have bar : ("-" : Text) = ['-'] := by rw [ofString_eq]; rfl
  rw [bar] at found
  have only : (plus (literal ['-'])).Only (· = '-') := by
    intro x inSet
    simpa [CharSet.contains] using inSet
  obtain ⟨t,read,dashes⟩ := ways_only only c _ found
  obtain ⟨u,same,some⟩ := plus_reads (show _ ∈ (plus (.char (.one '-'))).ways c from found)
  obtain rfl := read.unique same
  obtain ⟨n,length⟩ := Nat.exists_eq_succ_of_ne_zero fun none => some (List.length_eq_zero_iff.mp none)
  obtain rfl : t = List.replicate (n + 1) '-' := List.eq_replicate_iff.mpr ⟨length,dashes⟩
  exact ⟨n,read,no_captures (by simp [plus,groups]) found⟩

theorem alignment_reads {m : Match} (found : alignmentCell.fullMatch? cell = some m) :
    ∃ g left n right h, Block.Gaps g ∧ Block.Gaps h ∧ m.group 1 = colonIf left ∧ m.group 2 = colonIf right ∧
      cell = g ++ colonIf left ++ List.replicate (n + 1) '-' ++ colonIf right ++ h := by
  obtain ⟨start,way,ended⟩ := fullMatch_way found
  obtain ⟨d,_,_,front,last,captures⟩ := seq_parts way
  obtain ⟨c,_,_,middle,two,rfl⟩ := seq_parts front
  obtain ⟨b,_,_,sides,dashes,rfl⟩ := seq_parts middle
  obtain ⟨a,_,_,first,one,rfl⟩ := seq_parts sides
  obtain ⟨g,readFirst,gaps,none⟩ := Block.mem_gaps.mp first
  obtain ⟨left,readLeft,rfl⟩ := colon_reads one
  obtain ⟨n,readDashes,rfl⟩ := dashes_read dashes
  obtain ⟨right,readRight,rfl⟩ := colon_reads two
  obtain ⟨h,readLast,others,nothing⟩ := Block.mem_gaps.mp last
  obtain rfl : _ = [] := none
  obtain rfl : _ = [] := nothing
  refine ⟨g,left,n,right,h,gaps,others,?_,?_,?_⟩
  · simpa [Match.group,Match.group?,Match.capture?,captures] using readLeft.textTo
  · simpa [Match.group,Match.group?,Match.capture?,captures] using readRight.textTo
  · have read := (((readFirst.append readLeft).append readDashes).append readRight).append readLast
    have whole := read.1
    rwa [start,ended,List.append_nil] at whole

theorem alignmentOf_reads {alignment : Option Alignment} (found : alignmentOf? cell = some alignment) :
    Aligns cell alignment := by
  obtain ⟨m,isMatch,same⟩ := Option.map_eq_some_iff.mp found
  obtain ⟨g,left,n,right,h,gaps,others,isLeft,isRight,whole⟩ := alignment_reads isMatch
  refine ⟨g,left,n,right,h,gaps,others,?_,whole⟩
  rw [← same,isLeft,isRight]
  cases left <;> cases right <;> rfl

theorem colon_accepts {number : Nat} {name : String} (given : Bool) :
    (named number name (maybe (literal ":"))).Accepts (colonIf given) := by
  cases given with
  | false => exact (maybe_accepts_none _).group
  | true =>
    have bar : colonIf true = (":" : Text) := by rw [ofString_eq]; rfl
    rw [bar]
    exact (literal_accepts _).maybe.group

theorem alignmentOf_some {alignment : Option Alignment} (aligns : Aligns cell alignment) : alignmentOf? cell = some alignment := by
  obtain ⟨g,left,n,right,h,gaps,others,_,whole⟩ := id aligns
  have dash : ("-" : Text) = ['-'] := by rw [ofString_eq]; rfl
  have dashes : (plus (literal "-")).Accepts (List.replicate (n + 1) '-') := by
    rw [dash]
    exact plus_accepts (List.cons_ne_nil _ _) fun x member => by
      rw [List.eq_of_mem_replicate member]
      rfl
  have accepts : alignmentCell.Accepts cell := by
    rw [whole]
    exact ((((run_accepts gaps).seq (colon_accepts left)).seq dashes).seq (colon_accepts right)).seq (run_accepts others)
  obtain ⟨m,found⟩ := accepts.full
  have known : alignmentOf? cell = some _ := Option.map_eq_some_iff.mpr ⟨m,found,rfl⟩
  rw [known,(alignmentOf_reads known).unique aligns]

theorem alignmentOf_iff {alignment : Option Alignment} : alignmentOf? cell = some alignment ↔ Aligns cell alignment :=
  ⟨alignmentOf_reads,alignmentOf_some⟩

-- Cell by cell.
abbrev RowAligns (row : Row) (alignments : List (Option Alignment)) : Prop :=
  List.Forall₂ Aligns row alignments

theorem alignmentsOf_iff : alignmentsOf? row = some alignments ↔ RowAligns row alignments := by
  rw [alignmentsOf?]
  induction row generalizing alignments with
  | nil => simp [eq_comm]
  | cons cell row ih =>
    simp only [List.mapM_cons,Option.bind_eq_bind,Option.bind_eq_some_iff,Option.pure_def,Option.some.injEq,
      List.forall₂_cons_left_iff,ih,alignmentOf_iff]
    constructor
    · rintro ⟨alignment,here,others,later,rfl⟩
      exact ⟨alignment,others,here,later,rfl⟩
    · rintro ⟨alignment,others,here,later,rfl⟩
      exact ⟨alignment,here,others,later,rfl⟩

def AlignmentRow (row : Row) : Prop :=
  ∀ cell ∈ row, ∃ alignment, Aligns cell alignment

theorem alignmentRow_iff : AlignmentRow row ↔ ∃ alignments, alignmentsOf? row = some alignments := by
  simp only [alignmentsOf_iff]
  induction row with
  | nil => simp [AlignmentRow]
  | cons cell row ih =>
    rw [AlignmentRow] at ih
    simp [AlignmentRow,ih,List.forall₂_cons_left_iff]

-- Some rows of others, in their order. Only rows of alignments are left out.
inductive LeavesOut : List Row → List Row → Prop where
  | nil : LeavesOut [] []
  | keep (row : Row) {kept rows : List Row} (later : LeavesOut kept rows) : LeavesOut (row :: kept) (row :: rows)
  | leave {row : Row} {kept rows : List Row} (aligned : AlignmentRow row) (later : LeavesOut kept rows) :
      LeavesOut kept (row :: rows)

theorem LeavesOut.sublist (leavesOut : LeavesOut kept rows) : kept.Sublist rows := by
  induction leavesOut with
  | nil => exact .slnil
  | keep row later ih => exact ih.cons_cons row
  | leave aligned later ih => exact ih.cons _

theorem LeavesOut.all (rows : List Row) : LeavesOut rows rows := by
  induction rows with
  | nil => exact .nil
  | cons row rows ih => exact .keep row ih

theorem LeavesOut.none (aligned : ∀ row ∈ rows, AlignmentRow row) : LeavesOut [] rows := by
  induction rows with
  | nil => exact .nil
  | cons row rows ih =>
    obtain ⟨here,others⟩ := List.forall_mem_cons.mp aligned
    exact .leave here (ih others)

theorem LeavesOut.append {others later : List Row} (one : LeavesOut kept rows) (two : LeavesOut others later) :
    LeavesOut (kept ++ others) (rows ++ later) := by
  induction one with
  | nil => exact two
  | keep row _ ih => exact .keep row ih
  | leave aligned _ ih => exact .leave aligned ih

theorem leavesOut_filter (rows : List Row) : LeavesOut (rows.filter fun row => (alignmentsOf? row).isNone) rows := by
  induction rows with
  | nil => exact .nil
  | cons row rows ih =>
    cases found : alignmentsOf? row with
    | none =>
      rw [List.filter_cons_of_pos (by simp [found])]
      exact .keep row ih
    | some alignments =>
      rw [List.filter_cons_of_neg (by simp [found])]
      exact .leave (alignmentRow_iff.mpr ⟨alignments,found⟩) ih

-- There are two rows, and the second one is of alignments.
def Headed (rows : List Row) : Prop :=
  2 ≤ rows.length ∧ ∃ second, rows[1]? = some second ∧ AlignmentRow second

-- There are two rows, and the last but one is of alignments.
def Footed (rows : List Row) : Prop :=
  2 ≤ rows.length ∧ ∃ second, rows[rows.length - 2]? = some second ∧ AlignmentRow second

theorem RowAligns.aligned (aligns : RowAligns row alignments) : AlignmentRow row :=
  alignmentRow_iff.mpr ⟨alignments,alignmentsOf_iff.mpr aligns⟩

-- A row at the edge, with the alignments of the row next to it.
abbrev Edge : Option Row → Option (Row × List (Option Alignment)) → Prop :=
  Option.Rel fun row edge => RowAligns row edge.2

theorem splitHeader_cut (rows : List Row) : ∃ header above rest, splitHeader rows = (header,rest) ∧ Edge above header ∧
    rows = (header.map Prod.fst).toList ++ above.toList ++ rest ∧ (header.isSome = true ↔ Headed rows) ∧
    rest = if header.isSome then rows.drop 2 else rows := by
  match rows with
  | [] => exact ⟨none,none,[],rfl,.none,rfl,by simp [Headed],rfl⟩
  | [row] => exact ⟨none,none,[row],rfl,.none,rfl,by simp [Headed],rfl⟩
  | first :: second :: rest =>
    have headed : Headed (first :: second :: rest) ↔ ∃ alignments, alignmentsOf? second = some alignments := by
      simp [Headed,alignmentRow_iff]
    cases found : alignmentsOf? second with
    | some alignments =>
      exact ⟨some (first,alignments),some second,rest,by simp [splitHeader,found],.some (alignmentsOf_iff.mp found),rfl,
        by simp [headed,found],rfl⟩
    | none => exact ⟨none,none,_,by simp [splitHeader,found],.none,rfl,by simp [headed,found],rfl⟩

theorem splitFooter_cut (rows : List Row) : ∃ front below footer, splitFooter rows = (front,footer) ∧ Edge below footer ∧
    rows = front ++ below.toList ++ (footer.map Prod.fst).toList ∧ (footer.isSome = true ↔ Footed rows) := by
  obtain ⟨backward,rfl⟩ : ∃ backward : List Row, rows = backward.reverse := ⟨rows.reverse,by simp⟩
  match backward with
  | [] => exact ⟨[],none,none,rfl,.none,rfl,by simp [Footed]⟩
  | [row] => exact ⟨[row],none,none,rfl,.none,rfl,by simp [Footed]⟩
  | last :: second :: rest =>
    have footed : Footed (last :: second :: rest).reverse ↔ ∃ alignments, alignmentsOf? second = some alignments := by
      simp [Footed,alignmentRow_iff]
    cases found : alignmentsOf? second with
    | some alignments =>
      exact ⟨rest.reverse,some second,some (last,alignments),by simp [splitFooter,found],.some (alignmentsOf_iff.mp found),
        by simp,by rw [footed]; simp [found]⟩
    | none =>
      exact ⟨(last :: second :: rest).reverse,none,none,by simp [splitFooter,found],.none,by simp,
        by rw [footed]; simp [found]⟩

-- The lines of the rows: those that are not blank, without the last one if it begins with no pipe.
def rowLines (raw : Text) : List Text :=
  let filled := (lines raw).filter fun line => !isAllBlank line
  if filled.getLast?.any fun last => (trim last).head? != some '|' then filled.dropLast else filled

def rowsOf (raw : Text) : List Row :=
  (rowLines raw).map cellsOf

theorem ofText_rows (raw : Text) : ∃ metadata, ofText raw = ofRows (rowsOf raw) metadata := by
  refine ⟨(splitMetadata ((lines raw).filter fun line => !isAllBlank line)).2,?_⟩
  rw [ofText,rowsOf,rowLines]
  generalize (lines raw).filter (fun line => !isAllBlank line) = filled
  have same : (splitMetadata filled).1 =
      if filled.getLast?.any fun last => (trim last).head? != some '|' then filled.dropLast else filled := by
    unfold splitMetadata
    cases isLast : filled.getLast? with
    | none => rw [List.getLast?_eq_none_iff.mp isLast]; rfl
    | some last => by_cases pipe : (trim last).head? = some '|' <;> simp [pipe]
  rw [← same]

-- What a table shows of the rows it is read from.
structure Accounts (table : Table) (rows : List Row) : Prop where
  leavesOut : LeavesOut table.shown rows
  sublist : table.shown.Sublist rows
  headed : table.header.isSome = true ↔ Headed rows
  footed : table.footer.isSome = true ↔ Footed (if table.header.isSome then rows.drop 2 else rows)
  -- The rows one by one, with those above and below the body that the alignments come from.
  apart : ∃ (above below : Option Row) (middle : List Row),
    rows = table.header.toList ++ above.toList ++ middle ++ below.toList ++ table.footer.toList ∧
      above.isSome = table.header.isSome ∧ below.isSome = table.footer.isSome ∧ LeavesOut table.body middle ∧
      (above.or below).elim (table.alignments = []) fun row => RowAligns row table.alignments

theorem edge_leavesOut {above : Option Row} {edge : Option (Row × List (Option Alignment))} (beside : Edge above edge) :
    LeavesOut [] above.toList := by
  cases beside with
  | none => exact .nil
  | some aligns => exact .none (List.forall_mem_singleton.mpr aligns.aligned)

theorem ofRows_accounts (rows : List Row) (metadata : Option TableMetadata) : (ofRows rows metadata).Accounts rows := by
  obtain ⟨header,above,rest,atTop,besideTop,whole,headed,isRest⟩ := splitHeader_cut rows
  obtain ⟨middle,below,footer,atEnd,besideEnd,inner,footed⟩ := splitFooter_cut rest
  have table : ofRows rows metadata = ⟨header.map Prod.fst,middle.filter fun row => (alignmentsOf? row).isNone,
      footer.map Prod.fst,((header.or footer).map Prod.snd).getD [],metadata⟩ := by
    simp only [ofRows,atTop,atEnd]
  have body := leavesOut_filter middle
  have laid : rows = (header.map Prod.fst).toList ++ above.toList ++ middle ++ below.toList ++ (footer.map Prod.fst).toList := by
    simpa [inner] using whole
  have leavesOut : LeavesOut (ofRows rows metadata).shown rows := by
    have front := (LeavesOut.all (header.map Prod.fst).toList).append (edge_leavesOut besideTop)
    have back := (edge_leavesOut besideEnd).append (.all (footer.map Prod.fst).toList)
    have all := (front.append body).append back
    rw [table,Table.shown,laid]
    simpa using all
  rw [table] at leavesOut ⊢
  refine ⟨leavesOut,leavesOut.sublist,by simpa using headed,?_,above,below,middle,laid,?_,?_,body,?_⟩
  · simpa [← isRest] using footed
  · cases besideTop <;> rfl
  · cases besideEnd <;> rfl
  · cases besideTop with
    | some aligns => exact aligns
    | none =>
      cases besideEnd with
      | some aligns => exact aligns
      | none => rfl

theorem ofText_accounts (raw : Text) : (ofText raw).Accounts (rowsOf raw) := by
  obtain ⟨metadata,whole⟩ := ofText_rows raw
  rw [whole]
  exact ofRows_accounts (rowsOf raw) metadata

end Rows

end Table
end LightMarkup
