import LightMarkup.Construct.Inline
import LightMarkup.Proofs.Construct.Emitting
import LightMarkup.Proofs.Draft.Atoms
import LightMarkup.Proofs.Pattern.Needing

/-!
The constructs that put tags around the text between two marks: what they match, and what they make of a match in which
parts are hidden.
-/

namespace LightMarkup

inductive Wrapper where
  | highlight
  | bold
  | italic
  | strikethrough
  | underlined
  | superscript
  | subscript
  deriving DecidableEq, Repr

namespace Wrapper

open Pattern

def mark : Wrapper → Text
  | highlight => "=="
  | bold => "**"
  | italic => "*"
  | strikethrough => "~~"
  | underlined => "++"
  | superscript => "^"
  | subscript => "~"

def opening : Wrapper → Text
  | highlight => "<mark class=\"highlight\">"
  | bold => "<strong class=\"bold\">"
  | italic => "<em class=\"italic\">"
  | strikethrough => "<del class=\"strikethrough\">"
  | underlined => "<u class=\"underlined\">"
  | superscript => "<sup class=\"superscript\">"
  | subscript => "<sub class=\"subscript\">"

def closing : Wrapper → Text
  | highlight => "</mark>"
  | bold => "</strong>"
  | italic => "</em>"
  | strikethrough => "</del>"
  | underlined => "</u>"
  | superscript => "</sup>"
  | subscript => "</sub>"

def construct : Wrapper → Construct
  | highlight => Inline.highlight
  | bold => Inline.boldByStars
  | italic => Inline.italicByStars
  | strikethrough => Inline.strikethrough
  | underlined => Inline.underlined
  | superscript => Inline.superscript
  | subscript => Inline.subscript

-- How many wrappers come before it.
def index : Wrapper → Nat
  | highlight => 0
  | bold => 1
  | italic => 2
  | strikethrough => 3
  | underlined => 4
  | superscript => 5
  | subscript => 6

-- What may stand between the marks.
def body : Wrapper → Pattern
  | superscript => .char (CharSet.noneOf "[\n") ++ lazyMany Inline.onLine
  | subscript => lazyPlus (.char (CharSet.noneOf "~\n"))
  | _ => lazyMany Inline.onLine

theorem construct_pattern (w : Wrapper) :
    w.construct.pattern = literal w.mark ++ captured 1 w.body ++ literal w.mark := by
  cases w <;> rfl

theorem construct_rewrite (w : Wrapper) : w.construct.rewrite = Inline.wrapped w.opening w.closing := by
  cases w <;> rfl

theorem construct_excluded (w : Wrapper) : w.construct.excluded = .nothing := by
  cases w <;> rfl

def letter : Wrapper → Char
  | highlight => '='
  | bold | italic => '*'
  | strikethrough | subscript => '~'
  | underlined => '+'
  | superscript => '^'

theorem mark_letters (w : Wrapper) : w.mark = [w.letter] ∨ w.mark = [w.letter,w.letter] := by
  cases w <;> simp [mark,letter,Text.ofString_eq]

-- ASCII letters and digits, and the space.
def isPlain (c : Char) : Bool :=
  c.isAlphanum || c == ' '

-- Plain characters and those of the marks.
def isWritten (c : Char) : Bool :=
  isPlain c || ['=','*','~','+','^'].contains c

theorem letter_not_plain (w : Wrapper) : isPlain w.letter = false := by
  cases w <;> decide

theorem letter_written (w : Wrapper) : isWritten w.letter = true := by
  cases w <;> decide

theorem mark_written (w : Wrapper) : ∀ c ∈ w.mark, isWritten c = true := by
  rcases w.mark_letters with same | same <;> simp [same,letter_written]

variable {w v : Wrapper} {t u rest : Text} {c : Cursor} {n : Nat}

-- A plain character does not begin a mark.
theorem plain_not_mark {x : Char} (plain : isPlain x = true) : ¬ w.mark <+: x :: rest := by
  have other : w.letter ≠ x := by
    rintro rfl
    rw [letter_not_plain] at plain
    cases plain
  rcases w.mark_letters with same | same <;> simp [same,other]

-- Wrappers that share a letter: the earlier one has it twice.
theorem later_letter (later : w.index < v.index) (same : w.letter = v.letter) :
    w.mark = [w.letter,w.letter] ∧ v.mark = [w.letter] := by
  cases w <;> cases v <;> simp [index] at later <;> simp [letter] at same <;> simp [mark,letter,Text.ofString_eq]

theorem mark_drop (inside : n < v.mark.length) : ∃ t, v.mark.drop n = v.letter :: t := by
  rcases v.mark_letters with same | same
  · rw [same] at inside ⊢
    obtain rfl : n = 0 := by simpa using inside
    exact ⟨[],rfl⟩
  · rw [same] at inside ⊢
    match n,inside with
    | 0,_ => exact ⟨[v.letter],rfl⟩
    | 1,_ => exact ⟨[],rfl⟩

-- Nor does a place in the mark of a later wrapper, if a plain character or nothing comes behind it.
theorem later_not_mark (later : w.index < v.index) (inside : n < v.mark.length)
    (plain : ∀ x ∈ rest.head?, isPlain x = true) : ¬ w.mark <+: v.mark.drop n ++ rest := by
  by_cases same : w.letter = v.letter
  · obtain ⟨twice,once⟩ := later_letter later same
    rw [once] at inside ⊢
    obtain rfl : n = 0 := by simpa using inside
    rw [twice,List.drop_zero,List.singleton_append,List.cons_prefix_cons]
    rintro ⟨_,x,rfl⟩
    have isPlain := plain w.letter rfl
    rw [letter_not_plain] at isPlain
    cases isPlain
  · obtain ⟨t,begins⟩ := mark_drop inside
    rw [begins]
    rcases w.mark_letters with one | two
    · simp [one,same]
    · simp [two,same]

-- No mark begins in a text, whatever comes behind it.
def Passes (w : Wrapper) (t rest : Text) : Prop :=
  ∀ n < t.length, ¬ w.mark <+: t.drop n ++ rest

theorem Passes.append (first : Passes w t (u ++ rest)) (second : Passes w u rest) : Passes w (t ++ u) rest := by
  intro n inside
  by_cases before : n < t.length
  · rw [List.drop_append_of_le_length (Nat.le_of_lt before),List.append_assoc]
    exact first n before
  · rw [List.drop_append,List.drop_eq_nil_of_le (by omega),List.nil_append]
    rw [List.length_append] at inside
    exact second (n - t.length) (by omega)

theorem plain_passes (plain : ∀ x ∈ t, isPlain x = true) (rest : Text) : Passes w t rest := by
  intro n inside
  rw [List.drop_eq_getElem_cons inside]
  exact plain_not_mark (plain _ (List.getElem_mem inside))

-- Where no mark begins the wrapper does not match.
theorem ways_none (other : ¬ w.mark <+: c.after) : w.construct.pattern.ways c = [] := by
  rw [construct_pattern,seq_assoc,append_eq,ways,ways_literal_none other]
  rfl

-- A wrapper may take any text in which no mark begins.
theorem body_grows (begins : c.after = t ++ (w.mark ++ rest)) (some : t ≠ []) (written : ∀ x ∈ t, isWritten x = true)
    (passes : Passes w t (w.mark ++ rest)) : w.body.Grows c t := by
  have other : ∀ x ∈ t, ∀ y, isWritten y = false → x ≠ y := by
    rintro x member y unwritten rfl
    rw [written x member] at unwritten
    cases unwritten
  have onLine : ∀ x ∈ t, CharSet.notNewline.contains x = true := fun x member => by
    simp [CharSet.notNewline,CharSet.contains,other x member '\n' (by decide)]
  obtain ⟨x,t,rfl⟩ := List.exists_cons_of_ne_nil some
  have behind : (c.past 1).after = t ++ (w.mark ++ rest) := by simp [begins]
  cases w with
  | superscript =>
    have first : (CharSet.noneOf "[\n").contains x = true := by
      have here := other x (List.mem_cons_self ..)
      simp [CharSet.noneOf,CharSet.anyOf,CharSet.contains,Text.ofString_eq,here '[' (by decide),here '\n' (by decide)]
    exact char_grows begins first (lazyMany_grows behind fun y member => onLine y (List.mem_cons_of_mem _ member))
  | subscript =>
    have all : ∀ y ∈ x :: t, (CharSet.noneOf "~\n").contains y = true := by
      intro y member
      have noMark : y ≠ '~' := by
        rintro rfl
        obtain ⟨n,inside,here⟩ := List.mem_iff_getElem.mp member
        refine passes n inside ?_
        rw [List.drop_eq_getElem_cons inside,here]
        simp [mark,Text.ofString_eq]
      simp [CharSet.noneOf,CharSet.anyOf,CharSet.contains,Text.ofString_eq,noMark,other y member '\n' (by decide)]
    have grows := char_grows begins (all x (List.mem_cons_self ..))
      (lazyMany_grows behind fun y member => all y (List.mem_cons_of_mem _ member))
    simp only [Grows,body,lazyPlus_ways] at grows ⊢
    exact grows
  | highlight | bold | italic | strikethrough | underlined => exact lazyMany_grows begins onLine

-- It takes the text up to the next mark.
theorem wrapper_takes (begins : c.after = w.mark ++ (t ++ (w.mark ++ rest))) (some : t ≠ [])
    (written : ∀ x ∈ t, isWritten x = true) (passes : Passes w t (w.mark ++ rest)) :
    (w.construct.pattern.ways c).head? = .some (c.past (w.mark.length + t.length + w.mark.length),
      [⟨1,c.past w.mark.length,c.past (w.mark.length + t.length)⟩]) := by
  have opened : (c.past w.mark.length).after = t ++ (w.mark ++ rest) := by simp [begins]
  have grows := body_grows opened some written passes
  have dead : ∀ n < t.length, (literal w.mark).ways ((c.past w.mark.length).past n) = [] := by
    intro n inside
    refine ways_literal_none ?_
    rw [Cursor.past_after,opened,List.drop_append_of_le_length (Nat.le_of_lt inside)]
    exact passes n inside
  have closed : ((c.past w.mark.length).past t.length).after = w.mark ++ rest := by
    rw [Cursor.past_after,opened,List.drop_left]
  have alive : ((literal w.mark).ways ((c.past w.mark.length).past t.length)).head? =
      Option.some (((c.past w.mark.length).past t.length).past w.mark.length,[]) := by
    rw [ways_literal_at closed]
    rfl
  have head : ((captured 1 w.body ++ literal w.mark).ways (c.past w.mark.length)).head? = _ := grows.head dead alive
  rw [construct_pattern,seq_assoc,head_literal begins,head]
  simp [Cursor.past_past]

end Wrapper

namespace Draft

variable {t : Text} {scope : Option String}

-- Live text that excludes nothing, by its characters.
def liveAtoms (t : Text) : List Part :=
  t.map fun c => .live [c] .nothing

theorem liveAtoms_append (t u : Text) : liveAtoms (t ++ u) = liveAtoms t ++ liveAtoms u :=
  List.map_append

theorem atoms_liveAtoms (t : Text) : atoms (liveAtoms t) = liveAtoms t := by
  rw [liveAtoms,atoms,List.flatMap_map]
  exact (List.map_eq_flatMap ..).symm

@[simp] theorem visibleContentOf_liveAtoms (scope : Option String) (t : Text) :
    visibleContentOf scope (liveAtoms t) = t := by
  have visible : (Part.live t .nothing).visibleTo scope = true := by
    cases scope <;> rfl
  have live := visibleContentOf_live scope t .nothing []
  rw [visibleContentOf_cons,if_pos visible] at live
  simpa [liveAtoms,Part.content] using live

theorem liveAtoms_visible : ∀ part ∈ liveAtoms t, part.visibleTo scope = true := by
  intro part member
  obtain ⟨c,_,rfl⟩ := List.mem_map.mp member
  cases scope <;> rfl

theorem liveAtoms_shuts (scope : Option String) (t : Text) : Shuts scope (liveAtoms t) :=
  fun part member => liveAtoms_visible part (List.mem_of_getLast? member)

theorem liveAtoms_opens (scope : Option String) (t : Text) : Opens scope (liveAtoms t) :=
  fun part member => liveAtoms_visible part (List.mem_of_head? member)

end Draft

namespace Rewriting

open Draft

variable {r : Rewriting} {opening closing : Text} {parts : List Part} {start stop : Nat}

theorem captured_atoms (r : Rewriting) (parts : List Part) :
    atoms (parts.map (r.captured false)) = (atoms parts).map (r.captured false) := by
  induction parts with
  | nil => rfl
  | cons part parts ih =>
    rw [List.map_cons,atoms_cons,atoms_cons,List.map_append,ih]
    congr 1
    cases part <;> simp [captured,Part.atoms]

theorem build_capture (given : r.construct.pattern.hasGroup 1 = true) (captured : r.found.groupSpan? 1 = some (start,stop))
    (sliced : r.draft.slice start stop .both = .ok parts) :
    r.build (Inline.capture 1) = .ok (parts.map (r.captured false)) := by
  simp [build,Inline.capture,GroupKey.resolve,given,captured,sliced,bind,Except.bind,pure,Except.pure]

theorem build_text (r : Rewriting) (t : Text) : r.build (.text t) = .ok [.fixed t] := by
  simp [build,Piece.text,expand,bind,Except.bind,pure,Except.pure]

-- Between the two tags stands what the group holds.
theorem buildAll_wrapped (given : r.construct.pattern.hasGroup 1 = true) (excludes : r.construct.excluded = .nothing)
    (captured : r.found.groupSpan? 1 = some (start,stop)) (sliced : r.draft.slice start stop .both = .ok parts) :
    ∃ out, r.buildAll [.text opening,Inline.capture 1,.text closing] = .ok out ∧
      atoms out = .fixed opening :: (atoms parts ++ [.fixed closing]) := by
  refine ⟨.fixed opening :: (parts ++ [.fixed closing]),?_,?_⟩
  · have copied : parts.map (r.captured false) = parts := by rw [funext (captured_same excludes),List.map_id']
    simp [buildAll,build_text,build_capture given captured sliced,copied,bind,Except.bind,pure,Except.pure]
  · rw [atoms_cons,atoms_append]
    rfl

end Rewriting

namespace Wrapper

open Draft Pattern

variable {w : Wrapper} {settings : CompileSettings} {context : Context} {d : Draft} {inner : List Part}

theorem construct_group (w : Wrapper) : w.construct.pattern.hasGroup 1 = true := by
  cases w <;> decide_cbv

-- A match is wrapped in the tags, and all that stood between the marks stands between them.
theorem rewriteMatch_wraps (whole : atoms d.parts = liveAtoms w.mark ++ (inner ++ liveAtoms w.mark))
    (some : visibleContentOf d.scope inner ≠ [])
    (written : ∀ x ∈ visibleContentOf d.scope inner, isWritten x = true)
    (passes : Passes w (visibleContentOf d.scope inner) w.mark) :
    ∃ out, (w.construct.rewriteMatch settings context d).outcome = .ok out ∧
      atoms out = .fixed w.opening :: (inner ++ [.fixed w.closing]) := by
  generalize shown : visibleContentOf d.scope inner = t at some written passes
  have visible : d.visibleContent = w.mark ++ (t ++ w.mark) := by
    rw [visibleContent,← visibleContentOf_atoms,whole]
    simp [shown]
  have begins : (Cursor.start d.visibleContent).after = w.mark ++ (t ++ (w.mark ++ [])) := by
    rw [visible,List.append_nil]
    rfl
  have length : (Cursor.start d.visibleContent).after.length = w.mark.length + t.length + w.mark.length := by
    simp [begins,Nat.add_assoc]
  obtain ⟨m,matched,captured⟩ : ∃ m, w.construct.pattern.matchAt? (.start d.visibleContent) = Option.some m ∧
      m.groupSpan? 1 = Option.some (w.mark.length,w.mark.length + t.length) := by
    refine ⟨_,by rw [matchAt_head,wrapper_takes begins some written (by rwa [List.append_nil])]; rfl,?_⟩
    have start : (Cursor.start d.visibleContent).position = 0 := rfl
    simp only [Match.groupSpan?,Match.capture?,List.find?_cons,Nat.one_ne_zero,↓reduceIte,BEq.rfl,Option.map_some]
    rw [Cursor.past_position (by omega),Cursor.past_position (by omega),start,Nat.zero_add,Nat.zero_add]
  have sliced : d.slice w.mark.length (w.mark.length + t.length) .both = .ok _ :=
    slice_both (by omega) (by simp [visible])
  have inside : atoms (windowFrom d.scope .both w.mark.length (w.mark.length + t.length) 0 d.parts) = inner :=
    stretch_atoms whole (by simp) (by rw [shown]) (liveAtoms_shuts _ _) (liveAtoms_opens _ _)
  rw [Construct.rewriteMatch,search_start matched,← inside]
  simp only [construct_rewrite,Inline.wrapped,Rewriting.parts,Logged.outcome_ofExcept]
  exact Rewriting.buildAll_wrapped w.construct_group w.construct_excluded captured sliced

end Wrapper
end LightMarkup
