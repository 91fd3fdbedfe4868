import LightMarkup.Proofs.Loading.Borders
import LightMarkup.Proofs.Loading.Passing
import LightMarkup.Proofs.Returns.Pairing

/-!
The blocks of a text and of the text with carriage returns. All constructs but one find the same blocks in both. The one
for a todo without a description does not allow for a carriage return, and finds the same in texts that spare it.
-/

namespace LightMarkup

open Cursor (Facing)
open Text (withReturns)

section

variable {c c' : Cursor} {b b' : Text}

theorem Text.trim_return (t : Text) : trim (t ++ ['\r']) = trim t := by
  unfold trim trimStart
  rw [List.dropWhile_append]
  cases front : t.dropWhile isBlank with
  | nil => rfl
  | cons x rest => simp [trimEnd,show isBlank '\r' = true from rfl]

-- What stands before a place on its line, the nearest character first.
def onLine (b : Text) : Text :=
  b.takeWhile (· != '\n')

theorem Behind.sameLine (behind : Behind b b') : onLine b = onLine b' := by
  induction behind with
  | start | line | cut => rfl
  | inner newline _ _ ih => simpa [onLine,newline] using ih

theorem Behind.earlier (behind : Behind b b') :
    (b.drop (onLine b).length = [] ∧ b'.drop (onLine b').length = []) ∨ ∃ e e', b.drop (onLine b).length = '\n' :: e ∧
      b'.drop (onLine b').length = '\n' :: e' ∧ Text.trim (onLine e).reverse = Text.trim (onLine e').reverse := by
  induction behind with
  | start => exact Or.inl ⟨rfl,rfl⟩
  | cut => exact Or.inr ⟨[],[],rfl,rfl,rfl⟩
  | inner newline _ _ ih => simpa [onLine,newline] using ih
  | @line b b' behind =>
    refine Or.inr ⟨b,'\r' :: b',rfl,rfl,?_⟩
    have return_ : onLine ('\r' :: b') = '\r' :: onLine b' := by simp [onLine]
    rw [return_,List.reverse_cons,Text.trim_return,behind.sameLine]

-- Whether a block may start at a place is decided by its line and the line before, without the blanks around them.
theorem Cursor.Level.isBlockStart (level : Level c c') : c.isBlockStart = c'.isBlockStart := by
  have line := level.behind.sameLine
  have earlier := level.behind.earlier
  unfold onLine at line earlier
  rw [← line] at earlier
  unfold Cursor.isBlockStart
  rcases earlier with ⟨none,none'⟩ | ⟨e,e',some,some',same⟩
  · simp only [← line,none,none']
  · simp only [← line,some,some',same]

end

namespace Text

open Block (Gaps Ends)

variable {t u word : Text}

-- The word with nothing but gaps behind it.
def IsTodo (line : Text) : Prop :=
  ∃ word g, line = word ++ g ∧ word.map Char.toLower = ['t','o','d','o'] ∧ Gaps g

-- No line that ends with a newline is the word alone.
def Spared (t : Text) : Prop :=
  ∀ before line after, t = before ++ (line ++ '\n' :: after) → (before = [] ∨ ∃ b, before = b ++ ['\n']) → ¬ IsTodo line

theorem isTodo_free {line : Text} (todo : IsTodo line) : '\n' ∉ line := by
  obtain ⟨word,g,rfl,letters,gaps⟩ := todo
  intro member
  rcases List.mem_append.mp member with member | member
  · have lower : '\n' ∈ word.map Char.toLower := List.mem_map.mpr ⟨_,member,rfl⟩
    rw [letters] at lower
    exact absurd lower (by decide)
  · exact gaps.single member

theorem blank_lower {x : Char} (blank : isBlank x = true) : x.toLower = x := by
  unfold Char.toLower
  split
  · rename_i range
    have least : 65 ≤ x.toNat := range.1
    have most : x.toNat ≤ 90 := range.2
    simp [isBlank] at blank
    omega
  · rfl

theorem isTodo_some {line : Text} (todo : IsTodo line) : Text.isAllBlank line = false := by
  obtain ⟨word,g,rfl,letters,_⟩ := todo
  cases word with
  | nil => cases letters
  | cons x word =>
    obtain ⟨first,_⟩ := List.cons.inj letters
    have solid : isBlank x = false := Bool.eq_false_iff.mpr fun blank => by
      rw [blank_lower blank] at first
      subst first
      exact absurd blank (by decide)
    simp [isAllBlank,solid]

theorem Spared.front (spared : Spared (t ++ u)) : Spared t := by
  rintro before line after rfl begins
  exact spared before line (after ++ u) (by simp) begins

-- Behind the end of a line, or where a block may end.
theorem Spared.back (spared : Spared (t ++ u)) (begins : (t = [] ∨ ∃ b, t = b ++ ['\n']) ∨ Ends u) : Spared u := by
  rintro before line after rfl starts todo
  rcases starts with rfl | ⟨b,rfl⟩
  · rcases begins with begins | ends
    · exact spared t line after rfl begins todo
    · have blank := Block.ends_blank ends (isTodo_free todo)
      rw [isTodo_some todo] at blank
      cases blank
  · exact spared (t ++ (b ++ ['\n'])) line after (by simp) (Or.inr ⟨t ++ b,by simp⟩) todo

theorem isTodo_iff {line : Text} :
    IsTodo line ↔ (line.take 4).map Char.toLower = ['t','o','d','o'] ∧ (line.drop 4).all CharSet.gap.contains = true := by
  rw [List.all_eq_true]
  constructor
  · rintro ⟨word,g,rfl,letters,gaps⟩
    have length : word.length = 4 := by simpa using congrArg List.length letters
    rw [← length,List.take_left,List.drop_left]
    exact ⟨letters,gaps⟩
  · exact fun ⟨letters,gaps⟩ => ⟨_,_,(List.take_append_drop 4 line).symm,letters,gaps⟩

instance : DecidablePred IsTodo := fun _ =>
  decidable_of_iff' _ isTodo_iff

theorem spared_last (free : '\n' ∉ t) : Spared t := by
  rintro before line after rfl _ _
  exact free (by simp)

theorem spared_break (free : '\n' ∉ t) : Spared (t ++ '\n' :: u) ↔ ¬ IsTodo t ∧ Spared u := by
  have whole : t ++ '\n' :: u = (t ++ ['\n']) ++ u := by simp
  refine ⟨fun spared => ⟨spared [] t u rfl (Or.inl rfl),(whole ▸ spared).back (Or.inl (Or.inr ⟨t,rfl⟩))⟩,?_⟩
  rintro ⟨here,spared⟩ before line after split begins todo
  have first : ∀ {line rest : Text}, '\n' ∉ line → t ++ '\n' :: u = line ++ '\n' :: rest → t = line ∧ u = rest := by
    intro line rest single same
    have cut := congrArg (splitAtChar '\n') same
    rw [splitAtChar_append free,splitAtChar_append single] at cut
    obtain ⟨rfl,_⟩ := List.cons.inj cut
    exact ⟨rfl,(List.cons.inj (List.append_cancel_left same)).2⟩
  rcases begins with rfl | ⟨b,rfl⟩
  · exact here ((first (isTodo_free todo) split).1 ▸ todo)
  · rcases newline_cases b with single | ⟨front,rest,rfl,single⟩
    · obtain ⟨_,rfl⟩ := first single (by simpa using split)
      exact spared [] line after rfl (Or.inl rfl) todo
    · obtain ⟨_,rfl⟩ := first single (by simpa using split)
      exact spared (rest ++ ['\n']) line after (by simp) (Or.inr ⟨rest,rfl⟩) todo

theorem splitAtChar_some (t : Text) : splitAtChar '\n' t ≠ [] := by
  rcases newline_cases t with free | ⟨front,rest,rfl,free⟩
  · rw [splitAtChar_free free]
    exact List.cons_ne_nil _ _
  · rw [splitAtChar_append free]
    exact List.cons_ne_nil _ _

-- It is decided line by line.
theorem spared_iff (t : Text) : Spared t ↔ ∀ line ∈ (splitAtChar '\n' t).dropLast, ¬ IsTodo line := by
  induction length : t.length using Nat.strong_induction_on generalizing t with
  | h n ih =>
    subst length
    rcases newline_cases t with free | ⟨front,rest,rfl,free⟩
    · rw [splitAtChar_free free]
      exact iff_of_true (spared_last free) (List.forall_mem_nil _)
    · rw [spared_break free,ih rest.length (by simp; omega) rest rfl,splitAtChar_append free,
        List.dropLast_cons_of_ne_nil (splitAtChar_some rest),List.forall_mem_cons]

instance : DecidablePred Spared := fun t =>
  decidable_of_iff' _ (spared_iff t)

theorem withReturns_head (t : Text) : (withReturns t).head? ≠ some '\n' := by
  cases t with
  | nil => simp [withReturns]
  | cons y t =>
    by_cases newline : y = '\n'
    · simp [newline,withReturns_newline]
    · simp [withReturns_cons newline,newline]

-- Before a newline there is a carriage return.
theorem withReturns_before {x : Char} {a b : Text} (whole : withReturns t = a ++ x :: '\n' :: b) : x = '\r' := by
  induction t generalizing a with
  | nil =>
    cases a <;> cases whole
  | cons y t ih =>
    by_cases newline : y = '\n'
    · rw [newline,withReturns_newline] at whole
      rcases a with _ | ⟨z,_ | ⟨w,a⟩⟩
      · exact (List.cons.inj whole).1.symm
      · have next := (List.cons.inj (List.cons.inj whole).2).2
        exact absurd (by rw [next]; rfl) (withReturns_head t)
      · exact ih (List.cons.inj (List.cons.inj whole).2).2
    · rw [withReturns_cons newline] at whole
      cases a with
      | nil => exact absurd (by rw [(List.cons.inj whole).2]; rfl) (withReturns_head t)
      | cons z a => exact ih (List.cons.inj whole).2

-- Carriage returns spare it too.
theorem spared_returns {t t' : Text} (facing : Facing (.start t) (.start t')) : Spared t' := by
  rintro before line after whole _ todo
  obtain ⟨word,g,rfl,letters,gaps⟩ := id todo
  -- The last character of the line is a letter or a gap.
  have ends : ∃ v x, word ++ g = v ++ [x] ∧ x ≠ '\r' := by
    rcases List.eq_nil_or_concat g with rfl | ⟨v,x,rfl⟩
    · rcases List.eq_nil_or_concat word with rfl | ⟨v,x,rfl⟩
      · cases letters
      · refine ⟨v,x,by simp,?_⟩
        rintro rfl
        have lower : '\r' ∈ (v.concat '\r').map Char.toLower := List.mem_map.mpr ⟨'\r',by simp,rfl⟩
        rw [letters] at lower
        exact absurd lower (by decide)
    · refine ⟨word ++ v,x,by simp,?_⟩
      rintro rfl
      exact absurd (gaps '\r' (by simp)) (by decide)
  obtain ⟨v,x,last,other⟩ := ends
  rw [last] at whole
  have inside : t' = (before ++ v) ++ x :: '\n' :: after := by rw [whole]; simp
  rcases facing with level | ⟨rest,between⟩
  · have ahead : t' = withReturns t := level.ahead
    exact other (withReturns_before (ahead ▸ inside))
  · have ahead : t' = '\n' :: withReturns rest := between.ahead
    rw [ahead] at inside
    cases front : before ++ v with
    | nil =>
      rw [front] at inside
      exact absurd (by rw [(List.cons.inj inside).2]; rfl) (withReturns_head rest)
    | cons y front' =>
      rw [front] at inside
      exact other (withReturns_before (List.cons.inj inside).2)

end Text

namespace Block

open Pattern

variable {c c' : Cursor} {t t' : Text} {construct : BlockConstruct}

-- The word alone at the end of the text.
def lastTodo : Pattern :=
  block (.lineStart ++ anyCase "todo" ++ gaps ++ .textEnd)

theorem lineStart_before (starts : isLineStart c = true) : c.before.reverse = [] ∨ ∃ b, c.before.reverse = b ++ ['\n'] := by
  unfold isLineStart at starts
  split at starts
  · rename_i none
    exact Or.inl (by rw [none]; rfl)
  · rename_i x before first
    obtain rfl : x = '\n' := by simpa using starts
    exact Or.inr ⟨before.reverse,by rw [first,List.reverse_cons]⟩

theorem spared_matches (spared : Text.Spared t) (text : c.text = t) : abridgedTodo.pattern.matchAt? c = lastTodo.matchAt? c := by
  have same : (.lineStart ++ anyCase "todo" ++ gaps ++ .lineEnd : Pattern).ways c =
      (.lineStart ++ anyCase "todo" ++ gaps ++ .textEnd : Pattern).ways c := by
    refine List.flatMap_congr fun way found => ?_
    obtain ⟨mid,front,next,gapped,rfl⟩ := mem_seq.mp found
    obtain ⟨starts,word,read,letters⟩ := todoWord_reads front
    obtain ⟨g,more,gaps,_⟩ := mem_gaps.mp gapped
    have whole := read.append more
    have other : isLineEnd next.1 = next.1.after.isEmpty := by
      unfold isLineEnd
      cases behind : next.1.after with
      | nil => rfl
      | cons x after =>
        refine beq_eq_false_iff_ne.mpr ?_
        rintro rfl
        refine spared c.before.reverse (word ++ g) after ?_ (lineStart_before starts) ⟨word,g,rfl,letters,gaps⟩
        rw [← text,Cursor.text,whole.1,behind]
    show (ways .lineEnd next.1).map _ = (ways .textEnd next.1).map _
    simp only [ways,other]
  rw [matchAt_head,matchAt_head]
  show ((thenWays _ blockEnd.ways).head?).map _ = ((thenWays _ blockEnd.ways).head?).map _
  rw [same]

-- All patterns but one allow for carriage returns.
theorem standard_turns (member : construct ∈ standard) :
    construct = abridgedTodo ∨ construct.pattern.Turns [2] .same .apart := by
  have all : standard.all (fun construct => construct = abridgedTodo ∨ turn [2] construct.pattern .same = some .apart) = true := by
    decide +kernel
  have here := List.all_eq_true.mp all construct member
  exact (of_decide_eq_true here).imp_right turn_turns

theorem lastTodo_turns : lastTodo.Turns [2] .same .apart := by
  have turned : turn [2] lastTodo .same = some .apart := by decide_cbv
  exact turn_turns turned

theorem standard_matches (member : construct ∈ standard) (facing : c.Facing c')
    (spared : construct = abridgedTodo → Text.Spared c.text ∧ Text.Spared c'.text) :
    Option.Rel (fun m m' : Match => m.Faces [2] .same m' ∧ m.start.after.head? ≠ some '\n') (construct.pattern.matchAt? c)
      (construct.pattern.matchAt? c') := by
  obtain ⟨p,turns,same,same'⟩ : ∃ p : Pattern, p.Turns [2] .same .apart ∧ construct.pattern.matchAt? c = p.matchAt? c ∧
      construct.pattern.matchAt? c' = p.matchAt? c' := by
    rcases standard_turns member with rfl | turns
    · exact ⟨lastTodo,lastTodo_turns,spared_matches (spared rfl).1 rfl,spared_matches (spared rfl).2 rfl⟩
    · exact ⟨construct.pattern,turns,rfl,rfl⟩
  rw [same,same']
  have rel := turns.matches rfl (Or.inl rfl) facing
  cases found : p.matchAt? c with
  | none => rw [rel_none rel found]; exact .none
  | some m =>
    rw [found] at rel
    obtain ⟨m',found',faces⟩ := rel_some rel
    rw [found']
    exact .some ⟨faces,(matchAt_way found).1 ▸ turns.inner (Or.inl rfl) found⟩

end Block

namespace BlockConstruct

variable {c c' : Cursor} {construct : BlockConstruct}

-- The same block in both texts.
structure BothFind (construct : BlockConstruct) (m m' : Match) : Prop where
  faces : m.Faces [2] .same m'
  inner : m.start.after.head? ≠ some '\n'
  found : construct.blockAt? m.start = some m
  found' : construct.blockAt? m'.start = some m'

-- Related matches are related blocks if blocks start at both places or at neither.
theorem blockAt_related {R S : Match → Match → Prop} (member : construct ∈ Block.standard)
    (rel : Option.Rel R (construct.pattern.matchAt? c) (construct.pattern.matchAt? c'))
    (level : ∀ {m m'}, R m m' → m.start = c → m'.start = c' → c.isBlockStart = c'.isBlockStart)
    (both : ∀ {m m'}, R m m' → m.start = c → construct.blockAt? m.start = some m → construct.blockAt? m'.start = some m' →
      S m m') : Option.Rel S (construct.blockAt? c) (construct.blockAt? c') := by
  cases found : construct.pattern.matchAt? c with
  | none =>
    rw [blockAt_none found,blockAt_none (Pattern.rel_none rel found)]
    exact .none
  | some m =>
    rw [found] at rel
    obtain ⟨m',found',related⟩ := Pattern.rel_some rel
    have start := (Pattern.matchAt_way found).1
    have start' := (Pattern.matchAt_way found').1
    have here := Block.blockAt_some member found
    have here' := Block.blockAt_some member found'
    rw [← level related start start'] at here'
    rw [here,here']
    split
    · rename_i starts
      rw [if_pos starts] at here here'
      exact .some (both related start (start ▸ here) (start' ▸ here'))
    · exact .none

theorem blockAt_both (member : construct ∈ Block.standard) (facing : c.Facing c')
    (spared : construct = Block.abridgedTodo → Text.Spared c.text ∧ Text.Spared c'.text) :
    Option.Rel construct.BothFind (construct.blockAt? c) (construct.blockAt? c') := by
  refine blockAt_related member (Block.standard_matches member facing spared) ?_ ?_
  · rintro m m' ⟨faces,inner⟩ rfl rfl
    exact (faces.start.level_of inner).isBlockStart
  · rintro m m' ⟨faces,inner⟩ _ found found'
    exact ⟨faces,inner,found,found'⟩

-- The blocks of a construct in two texts.
theorem blockMatches_paired {t t' : Text} (member : construct ∈ Block.standard) (facing : Cursor.Facing (.start t) (.start t'))
    (spared : construct = Block.abridgedTodo → Text.Spared t) : ∃ ms ms', construct.blockMatches t = .ok ms ∧ construct.blockMatches t' = .ok ms' ∧
      Pattern.Paired Cursor.Facing id construct.BothFind (.start t) (.start t') ms ms' := by
  have found : ∀ t, construct.blockMatches t = .ok (Pattern.foundFrom construct.blockAt? id (.start t)) :=
    fun t => matchesFrom_ok (Block.standard_some member) t [] 0
  refine ⟨_,_,found t,found t',Pattern.foundFrom_paired t t' construct.blockAt_finds ?_ ?_ facing rfl rfl⟩
  · exact fun stops text text' => blockAt_both member stops fun todo => ⟨text ▸ spared todo,text' ▸ Text.spared_returns facing⟩
  · exact fun both => both.faces.stop

end BlockConstruct

-- With the construct, a catalogue is for texts that spare it.
def Catalogue.Spares (catalogue : Catalogue) (t : Text) : Prop :=
  Block.abridgedTodo ∈ catalogue.blocks → Text.Spared t

namespace Catalogue

variable {catalogue : Catalogue} {t u : Text}

theorem Spares.front (spares : catalogue.Spares (t ++ u)) : catalogue.Spares t :=
  fun todo => (spares todo).front

theorem Spares.back (spares : catalogue.Spares (t ++ u)) (begins : (t = [] ∨ ∃ b, t = b ++ ['\n']) ∨ Block.Ends u) :
    catalogue.Spares u :=
  fun todo => (spares todo).back begins

end Catalogue
end LightMarkup
