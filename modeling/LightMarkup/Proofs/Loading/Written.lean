import Mathlib
import LightMarkup.Loading
import LightMarkup.Proofs.Loading.Endings

/-!
Documents as they are written: blocks of plain lines, and how each of them is spelled. But for code, which may hold
anything, a block is solid: it does not end in a blank, and behind each of its newlines a line goes on that neither is
blank nor begins with a hash. So nothing inside it looks like the end of a block.
-/

namespace LightMarkup

-- Letters with spaces between them.
structure Line where
  text : Text
  plain : text.all (fun x => x.isAlpha || x == ' ') = true
  begins : text.head?.any Char.isAlpha = true
  ends : text.getLast?.any Char.isAlpha = true

-- The cells of a row of a table.
structure TableLine where
  first : Line
  others : List Line

-- What a rule is drawn with. Hashes make a page break.
inductive Mark where
  | hash
  | dash
  | star
  | plus
  deriving DecidableEq, Repr

inductive Written where
  | paragraph (first : Line) (others : List Line)
      (notTodo : (first.text.takeWhile (· != ' ')).map Char.toLower ≠ ['t','o','d','o'])
  | heading (level : Nat) (title : Line) (proper : 1 ≤ level ∧ level ≤ 6)
  | code (body : Text) (fenceless : ¬ ("```" : Text) <:+: body) (returnless : '\r' ∉ body)
  | list (first : Line) (others : List Line)
  | table (first : TableLine) (others : List TableLine)
  | rule (mark : Mark)

namespace Mark

def char : Mark → Char
  | .hash => '#'
  | .dash => '-'
  | .star => '*'
  | .plus => '+'

def construct : Mark → BlockConstruct
  | .hash => Block.pageBreak
  | .dash => Block.lineBreakByDashes
  | .star => Block.lineBreakByStars
  | .plus => Block.lineBreakByPluses

end Mark

namespace TableLine

def text (row : TableLine) : Text :=
  "| " ++ Text.join " | " ((row.first :: row.others).map Line.text) ++ " |"

end TableLine

namespace BlockConstruct

-- What a construct that finds nothing else in its text makes of it.
def leafOf (construct : BlockConstruct) (raw : Text) : Paragraph :=
  .leaf raw construct.name none
    (match construct.loading with
    | some (.replacement pieces) =>
      .replacement ⟨construct.name,construct.pattern,construct.excluded,.pieces pieces⟩
    | some .list => .list
    | some .table => .table
    | _ => .common)

end BlockConstruct

namespace Written

def text : Written → Text
  | .paragraph first others _ => Text.join "\n" ((first :: others).map Line.text)
  | .heading level title _ => List.replicate level '#' ++ " " ++ title.text
  | .code body _ _ => "```\n" ++ body ++ "\n```"
  | .list first others => Text.join "\n" ((first :: others).map fun item => "- " ++ item.text)
  | .table first others => Text.join "\n" ((first :: others).map TableLine.text)
  | .rule mark => List.replicate 3 mark.char

-- The block that it is to be loaded as.
def content : Written → BlockContent
  | .heading level title _ => .heading { level := level, title := title.text }
  | written@(.paragraph ..) => .paragraph (Block.fallback.leafOf written.text)
  | written@(.code ..) => .paragraph (Block.code.leafOf written.text)
  | written@(.list ..) => .paragraph (Block.list.leafOf written.text)
  | written@(.table ..) => .paragraph (Block.table.leafOf written.text)
  | written@(.rule mark) => .paragraph (mark.construct.leafOf written.text)

end Written

namespace Text

theorem newline : ("\n" : Text) = ['\n'] := by
  rw [ofString_eq]
  rfl

theorem join_cons (separator t : Text) (ts : List Text) :
    join separator (t :: ts) = t ++ ts.flatMap (separator ++ ·) := by
  induction ts generalizing t with
  | nil => simp [join,List.intercalate]
  | cons u ts ih =>
    have later := ih u
    simp only [join,List.intercalate] at later ⊢
    simp [List.intersperse,later]

-- Lines one below the other have the characters of each.
theorem join_chars {chars : List Char} {ts : List Text} (each : ∀ t ∈ ts, ∀ x ∈ t, x ∈ chars) :
    ∀ x ∈ join "\n" ts, x = '\n' ∨ x ∈ chars := by
  intro x member
  cases ts with
  | nil => cases member
  | cons t ts =>
    obtain ⟨first,others⟩ := List.forall_mem_cons.mp each
    rw [join_cons,newline] at member
    rcases List.mem_append.mp member with here | later
    · exact Or.inr (first x here)
    · obtain ⟨u,isLine,inside⟩ := List.mem_flatMap.mp later
      rcases List.mem_cons.mp inside with end_ | inside
      · exact Or.inl end_
      · exact Or.inr (others u isLine x inside)

end Text

namespace Block

-- A line without its end.
structure Firm (t : Text) : Prop where
  single : '\n' ∉ t
  returnless : '\r' ∉ t
  ends : ∃ v y, t = v ++ [y] ∧ Text.isBlank y = false

-- The begin of a line on which a block goes on.
def Opens (t : Text) : Prop :=
  ∃ y rest, t = y :: rest ∧ Text.isBlank y = false ∧ y ≠ '#'

structure Solid (t : Text) : Prop where
  returnless : '\r' ∉ t
  ends : ∃ v y, t = v ++ [y] ∧ Text.isBlank y = false
  opens : ∀ v w, t = v ++ '\n' :: w → Opens w

variable {t u : Text}

theorem Opens.append (opens : Opens t) (u : Text) : Opens (t ++ u) := by
  obtain ⟨y,rest,rfl,solid⟩ := opens
  exact ⟨y,rest ++ u,rfl,solid⟩

theorem Firm.solid (firm : Firm t) : Solid t := by
  refine ⟨firm.returnless,firm.ends,?_⟩
  rintro v w rfl
  exact absurd (by simp) firm.single

theorem Solid.newline (first : Firm t) (opens : Opens u) (solid : Solid u) : Solid (t ++ '\n' :: u) := by
  constructor
  case returnless => simp [first.returnless,solid.returnless]
  case ends =>
    obtain ⟨v,y,rfl,last⟩ := solid.ends
    exact ⟨t ++ '\n' :: v,y,by simp,last⟩
  case opens =>
    intro v w same
    rcases List.append_eq_append_iff.mp same with ⟨a,rfl,rest⟩ | ⟨a,rfl,rest⟩
    · cases a with
      | nil =>
        cases rest
        exact opens
      | cons x a =>
        obtain ⟨rfl,later⟩ := List.cons.inj rest
        exact solid.opens a w later
    · cases a with
      | nil =>
        cases rest
        exact opens
      | cons x a =>
        obtain ⟨rfl,_⟩ := List.cons.inj rest
        exact absurd (by simp) first.single

-- Lines one below the other.
theorem solid_lines {ts : List Text} (first : Firm t) (others : ∀ u ∈ ts, Firm u ∧ Opens u) :
    Solid (Text.join ['\n'] (t :: ts)) := by
  induction ts generalizing t with
  | nil => simpa [Text.join_cons] using first.solid
  | cons u ts ih =>
    obtain ⟨⟨firm,opens⟩,later⟩ := List.forall_mem_cons.mp others
    have rest := ih firm later
    rw [Text.join_cons] at rest ⊢
    exact .newline first (opens.append _) rest

-- Inside a solid text no block ends.
theorem Solid.not_ends (solid : Solid t) {n : Nat} (inner : n < t.length) (rest : Text) : ¬ Ends (t.drop n ++ rest) := by
  rintro ⟨g,u,whole,gaps,closes⟩
  obtain ⟨v,y,same,last⟩ := solid.ends
  have inside : y ∈ t.drop n := by
    have bound : n ≤ v.length := by simpa [same,Nat.lt_succ_iff] using inner
    rw [same,List.drop_append_of_le_length bound]
    simp
  have notGap : y ∉ g := by
    intro member
    have blank := gaps.blank y member
    rw [last] at blank
    cases blank
  -- The blanks do not reach the last character, so what comes behind them begins in the text.
  have short : ∃ a, t.drop n = g ++ a ∧ u = a ++ rest ∧ a ≠ [] := by
    rcases List.append_eq_append_iff.mp whole with ⟨a,long,_⟩ | ⟨a,front,back⟩
    · exact absurd (long ▸ List.mem_append_left _ inside) notGap
    · refine ⟨a,front,back,?_⟩
      rintro rfl
      rw [front,List.append_nil] at inside
      exact notGap inside
  obtain ⟨a,front,rfl,some⟩ := short
  obtain ⟨x,a,rfl⟩ := List.exists_cons_of_ne_nil some
  have split : t = t.take n ++ g ++ x :: a := by rw [List.append_assoc,← front,List.take_append_drop]
  rcases closes with none | ⟨b,w,broken,isBreak,after⟩
  · cases none
  · rcases isBreak with rfl | rfl
    · obtain ⟨rfl,behind⟩ := List.cons.inj broken
      obtain ⟨z,more,rfl,notBlank,notHash⟩ := solid.opens _ _ split
      obtain rfl : w = z :: more ++ rest := behind.symm
      rcases after with hash | ⟨h,r,line,others,stops⟩
      · exact notHash (Option.some.inj hash)
      · cases h with
        | nil =>
          obtain rfl : r = z :: more ++ rest := line.symm
          rcases stops with none | ⟨e,s,ended,isBreak⟩
          · cases none
          · rcases isBreak with rfl | rfl <;> obtain ⟨rfl,_⟩ := List.cons.inj ended <;> cases notBlank
        | cons w h =>
          obtain ⟨rfl,_⟩ := List.cons.inj line
          have blank := others.blank z (List.mem_cons_self ..)
          rw [notBlank] at blank
          cases blank
    · obtain ⟨rfl,_⟩ := List.cons.inj broken
      exact solid.returnless (split ▸ by simp)

end Block

theorem alpha_range {x : Char} (alpha : x.isAlpha = true) : 65 ≤ x.toNat ∧ x.toNat ≤ 90 ∨ 97 ≤ x.toNat ∧ x.toNat ≤ 122 := by
  simpa [Char.isAlpha,Char.isUpper,Char.isLower,UInt32.le_iff_toNat_le] using alpha

theorem alpha_solid {x : Char} (alpha : x.isAlpha = true) : Text.isBlank x = false := by
  have range := alpha_range alpha
  simp only [Text.isBlank,Bool.or_eq_false_iff,Bool.and_eq_false_iff,decide_eq_false_iff_not,beq_eq_false_iff_ne]
  omega

theorem alpha_other {x y : Char} (alpha : x.isAlpha = true) (other : y.isAlpha = false) : x ≠ y := by
  rintro rfl
  rw [alpha] at other
  cases other

def letters : List Char :=
  (List.range 26).flatMap fun n => [Char.ofNat (65 + n),Char.ofNat (97 + n)]

theorem mem_letters {x : Char} (alpha : x.isAlpha = true) : x ∈ letters := by
  rw [← Char.ofNat_toNat x]
  rcases alpha_range alpha with upper | lower
  · refine List.mem_flatMap.mpr ⟨x.toNat - 65,List.mem_range.mpr (by omega),?_⟩
    rw [show 65 + (x.toNat - 65) = x.toNat by omega]
    exact List.mem_cons_self ..
  · refine List.mem_flatMap.mpr ⟨x.toNat - 97,List.mem_range.mpr (by omega),?_⟩
    rw [show 97 + (x.toNat - 97) = x.toNat by omega]
    exact List.mem_cons_of_mem _ (List.mem_cons_self ..)

namespace Line

open Block

theorem chars (line : Line) : ∀ x ∈ line.text, x.isAlpha = true ∨ x = ' ' := by
  intro x member
  simpa using List.all_eq_true.mp line.plain x member

-- A line has letters and spaces only.
theorem apart (line : Line) {chars : List Char} (none : chars.all (fun x => !x.isAlpha && x != ' ') = true) :
    ∀ x ∈ line.text, x ∉ chars := by
  intro x member inChars
  have other := List.all_eq_true.mp none x inChars
  rcases line.chars x member with letter | rfl
  · simp [letter] at other
  · simp at other

theorem single (line : Line) : ∀ x ∈ line.text, x ≠ '\n' ∧ x ≠ '\r' := by
  intro x member
  rcases line.chars x member with alpha | rfl
  · exact ⟨alpha_other alpha rfl,alpha_other alpha rfl⟩
  · decide

theorem first (line : Line) : ∃ x rest, line.text = x :: rest ∧ x.isAlpha = true := by
  have begins := line.begins
  cases held : line.text with
  | nil =>
    rw [held] at begins
    cases begins
  | cons x rest =>
    rw [held] at begins
    exact ⟨x,rest,rfl,begins⟩

theorem last (line : Line) : ∃ v x, line.text = v ++ [x] ∧ x.isAlpha = true := by
  have ends := line.ends
  rcases List.eq_nil_or_concat line.text with none | ⟨v,x,held⟩
  · rw [none] at ends
    cases ends
  · rw [held] at ends
    exact ⟨v,x,by rw [held,List.concat_eq_append],by simpa using ends⟩

theorem firm (line : Line) {t : Text} (single : ∀ x ∈ t, x ≠ '\n' ∧ x ≠ '\r') : Firm (t ++ line.text) := by
  have all : ∀ x ∈ t ++ line.text, x ≠ '\n' ∧ x ≠ '\r' := List.forall_mem_append.mpr ⟨single,line.single⟩
  obtain ⟨v,x,held,alpha⟩ := line.last
  refine ⟨fun member => (all _ member).1 rfl,fun member => (all _ member).2 rfl,t ++ v,x,?_,alpha_solid alpha⟩
  rw [held,List.append_assoc]

theorem opens (line : Line) : Opens line.text := by
  obtain ⟨x,rest,held,alpha⟩ := line.first
  exact ⟨x,rest,held,alpha_solid alpha,alpha_other alpha rfl⟩

end Line

namespace TableLine

open Block

-- Between its bars.
def cells (row : TableLine) : Text :=
  ' ' :: Text.join [' ','|',' '] ((row.first :: row.others).map Line.text) ++ [' ']

theorem text_eq (row : TableLine) : row.text = '|' :: (row.cells ++ ['|']) := by
  simp [text,cells,Text.ofString_eq]

theorem cells_chars (row : TableLine) : ∀ x ∈ row.cells, x.isAlpha = true ∨ x = ' ' ∨ x = '|' := by
  intro x member
  have inLine : ∀ line : Line, x ∈ line.text → x.isAlpha = true ∨ x = ' ' ∨ x = '|' := by
    intro line inside
    rcases line.chars x inside with alpha | space
    · exact Or.inl alpha
    · exact Or.inr (Or.inl space)
  simp only [cells,List.map_cons,Text.join_cons,List.flatMap_map,List.cons_append,List.nil_append,List.mem_cons,
    List.mem_append,List.mem_flatMap,List.not_mem_nil,or_false] at member
  rcases member with space | (first | ⟨line,_,space | bar | space | inside⟩) | space
  · exact Or.inr (Or.inl space)
  · exact inLine _ first
  · exact Or.inr (Or.inl space)
  · exact Or.inr (Or.inr bar)
  · exact Or.inr (Or.inl space)
  · exact inLine line inside
  · exact Or.inr (Or.inl space)

theorem chars (row : TableLine) : ∀ x ∈ row.text, x.isAlpha = true ∨ x = ' ' ∨ x = '|' := by
  rw [text_eq]
  refine List.forall_mem_cons.mpr ⟨by decide,List.forall_mem_append.mpr ⟨row.cells_chars,?_⟩⟩
  exact List.forall_mem_singleton.mpr (by decide)

theorem single (row : TableLine) : ∀ x ∈ row.text, x ≠ '\n' ∧ x ≠ '\r' := by
  intro x member
  rcases row.chars x member with alpha | rfl | rfl
  · exact ⟨alpha_other alpha rfl,alpha_other alpha rfl⟩
  · decide
  · decide

theorem firm (row : TableLine) : Firm row.text := by
  have single := row.single
  exact ⟨fun member => (single _ member).1 rfl,fun member => (single _ member).2 rfl,'|' :: row.cells,'|',
    row.text_eq,rfl⟩

theorem opens (row : TableLine) : Opens row.text :=
  ⟨'|',_,row.text_eq,rfl,by decide⟩

end TableLine

-- The kinds of blocks that are written.
inductive Kind where
  | paragraph
  | heading
  | code
  | list
  | table
  | rule (mark : Mark)
  deriving DecidableEq, Repr

namespace Kind

-- How many block constructs are tried before its own.
def rank : Kind → Nat
  | .code => 0
  | .table => 4
  | .list => 7
  | .rule .hash => 11
  | .rule .dash => 12
  | .rule .star => 13
  | .rule .plus => 14
  | .paragraph | .heading => 19

-- The characters of its lines. In code there may be any, but no construct is tried before it.
def chars : Kind → List Char
  | .paragraph => ' ' :: letters
  | .heading => '#' :: ' ' :: letters
  | .code => []
  | .list => '-' :: ' ' :: letters
  | .table => '|' :: ' ' :: letters
  | .rule mark => [mark.char]

def all : List Kind :=
  [.paragraph,.heading,.code,.list,.table,.rule .hash,.rule .dash,.rule .star,.rule .plus]

theorem mem_all (kind : Kind) : kind ∈ all := by
  cases kind with
  | rule mark => cases mark <;> decide
  | paragraph | heading | code | list | table => decide

end Kind

namespace Written

open Block

def kind : Written → Kind
  | .paragraph .. => .paragraph
  | .heading .. => .heading
  | .code .. => .code
  | .list .. => .list
  | .table .. => .table
  | .rule mark => .rule mark

theorem heading_text (level : Nat) (title : Line) (proper : 1 ≤ level ∧ level ≤ 6) :
    (heading level title proper).text = List.replicate level '#' ++ ' ' :: title.text := by
  simp [text,Text.ofString_eq]

theorem bulleted (line : Line) : ("- " ++ line.text : Text) = '-' :: ' ' :: line.text := by
  simp [Text.ofString_eq]

theorem chars_kind {written : Written} (some : 0 < written.kind.rank) :
    ∀ x ∈ written.text, x = '\n' ∨ x ∈ written.kind.chars := by
  have plain : ∀ line : Line, ∀ x ∈ line.text, x ∈ ' ' :: letters := by
    intro line x member
    rcases line.chars x member with alpha | rfl
    · exact List.mem_cons_of_mem _ (mem_letters alpha)
    · exact List.mem_cons_self ..
  cases written with
  | paragraph first others =>
    refine Text.join_chars (List.forall_mem_map.mpr fun line _ => plain line)
  | heading level title =>
    intro x member
    rw [heading_text] at member
    rcases List.mem_append.mp member with hash | later
    · exact Or.inr (List.mem_cons.mpr (Or.inl (List.eq_of_mem_replicate hash)))
    · rcases List.mem_cons.mp later with rfl | inside
      · exact Or.inr (List.mem_cons_of_mem _ (List.mem_cons_self ..))
      · exact Or.inr (List.mem_cons_of_mem _ (plain title x inside))
  | code => cases some
  | list first others =>
    refine Text.join_chars (List.forall_mem_map.mpr fun line _ => ?_)
    rw [bulleted]
    refine List.forall_mem_cons.mpr ⟨List.mem_cons_self ..,List.forall_mem_cons.mpr ⟨?_,fun x inside => ?_⟩⟩
    · exact List.mem_cons_of_mem _ (List.mem_cons_self ..)
    · exact List.mem_cons_of_mem _ (plain line x inside)
  | table first others =>
    refine Text.join_chars (List.forall_mem_map.mpr fun row _ x member => ?_)
    rcases row.chars x member with alpha | rfl | rfl
    · exact List.mem_cons_of_mem _ (List.mem_cons_of_mem _ (mem_letters alpha))
    · exact List.mem_cons_of_mem _ (List.mem_cons_self ..)
    · exact List.mem_cons_self ..
  | rule mark =>
    intro x member
    exact Or.inr (List.mem_singleton.mpr (List.eq_of_mem_replicate member))

theorem solid {written : Written} (some : 0 < written.kind.rank) : Solid written.text := by
  have plain : ∀ line : Line, Firm line.text := fun line => line.firm (List.forall_mem_nil _)
  have item : ∀ line : Line, Firm ("- " ++ line.text) := by
    intro line
    refine line.firm ?_
    simp [Text.ofString_eq]
  cases written with
  | paragraph first others =>
    rw [text,Text.newline]
    exact solid_lines (plain first) (List.forall_mem_map.mpr fun line _ => ⟨plain line,line.opens⟩)
  | heading level title proper =>
    rw [heading_text,show ' ' :: title.text = [' '] ++ title.text from rfl,← List.append_assoc]
    refine (title.firm (List.forall_mem_append.mpr ⟨fun x member => ?_,List.forall_mem_singleton.mpr (by decide)⟩)).solid
    obtain rfl := List.eq_of_mem_replicate member
    decide
  | code => cases some
  | list first others =>
    rw [text,Text.newline]
    refine solid_lines (item first) (List.forall_mem_map.mpr fun line _ => ⟨item line,?_⟩)
    rw [bulleted]
    exact ⟨'-',_,rfl,rfl,by decide⟩
  | table first others =>
    rw [text,Text.newline]
    exact solid_lines first.firm (List.forall_mem_map.mpr fun row _ => ⟨row.firm,row.opens⟩)
  | rule mark =>
    have firm : Firm (List.replicate 3 mark.char) := by
      refine ⟨?_,?_,List.replicate 2 mark.char,mark.char,rfl,?_⟩ <;> cases mark <;> decide
    exact firm.solid

theorem text_begins (written : Written) : ∃ x rest, written.text = x :: rest ∧ Text.isBlank x = false := by
  cases written with
  | paragraph first others =>
    obtain ⟨x,rest,begins,alpha⟩ := first.first
    exact ⟨x,_,by rw [text,List.map_cons,Text.join_cons,begins]; rfl,alpha_solid alpha⟩
  | heading level title proper =>
    obtain ⟨level,rfl⟩ := Nat.exists_eq_succ_of_ne_zero (Nat.ne_of_gt proper.1)
    exact ⟨'#',_,heading_text _ title proper,rfl⟩
  | code body => exact ⟨'\x60',_,by simp only [text,Text.ofString_eq]; rfl,rfl⟩
  | list first others =>
    exact ⟨'-',_,by rw [text,List.map_cons,Text.join_cons,bulleted]; rfl,rfl⟩
  | table first others => exact ⟨'|',_,by rw [text,List.map_cons,Text.join_cons,first.text_eq]; rfl,rfl⟩
  | rule mark => exact ⟨mark.char,_,rfl,by cases mark <;> rfl⟩

theorem text_some (written : Written) : written.text ≠ [] := by
  obtain ⟨x,rest,begins,_⟩ := written.text_begins
  rw [begins]
  exact List.cons_ne_nil _ _

end Written
end LightMarkup
