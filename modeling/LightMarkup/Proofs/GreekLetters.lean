import Mathlib
import LightMarkup.GreekLetters

/-!
Greek letters by the longest key. A text has just one cut into segments of which each is the longest key that stands at its
place, or a character at which no key stands, and this cut is the one that is written. A reader that goes from place to place
and takes the first key of a list finds the same if the longer keys come first, in whatever order those of one length are.
-/

namespace LightMarkup
namespace GreekLetters

variable {t rest : Text} {c : Char} {entry other : Text × Text} {order : List (Text × Text)} {key command : Text}
  {segment : Segment} {cut : List Segment} {result : Text × List Text}

theorem commands_some (member : entry ∈ commands) : entry.1 ≠ [] := by
  have some : commands.all (fun entry => !entry.1.isEmpty) = true := by decide +kernel
  simpa using List.all_eq_true.mp some entry member

-- Two keys of one length at one place are the same key, and a key has one command.
theorem commands_single (member : entry ∈ commands) (member' : other ∈ commands) (begins : entry.1 <+: t)
    (begins' : other.1 <+: t) (same : entry.1.length = other.1.length) : entry = other := by
  have distinct : (commands.map Prod.fst).Nodup := by decide +kernel
  have key : entry.1 = other.1 := by
    rw [List.prefix_iff_eq_take.mp begins,List.prefix_iff_eq_take.mp begins',same]
  exact List.inj_on_of_nodup_map distinct member member' key

/-- A key that stands at the beginning of a text, and no longer one does. -/
structure LongestKey (t : Text) (entry : Text × Text) : Prop where
  known : entry ∈ commands
  begins : entry.1 <+: t
  longest : ∀ other ∈ commands, other.1 <+: t → other.1.length ≤ entry.1.length

theorem LongestKey.unique (one : LongestKey t entry) (two : LongestKey t other) : entry = other :=
  commands_single one.known two.known one.begins two.begins
    (Nat.le_antisymm (two.longest entry one.known one.begins) (one.longest other two.known two.begins))

/-- The first key of a list that stands at the beginning of a text. -/
def firstKey? (order : List (Text × Text)) (t : Text) : Option (Text × Text) :=
  order.find? fun entry => entry.1.isPrefixOf t

/-- All keys, longer ones before shorter ones. Those of one length stand in any order. -/
structure LongestFirst (order : List (Text × Text)) : Prop where
  whole : order.Perm commands
  ordered : order.Pairwise fun one two => two.1.length ≤ one.1.length

theorem LongestFirst.firstKey?_none (longestFirst : LongestFirst order) :
    firstKey? order t = none ↔ ∀ entry ∈ commands, ¬ entry.1 <+: t := by
  rw [firstKey?,List.find?_eq_none]
  simp only [List.isPrefixOf_iff_prefix,longestFirst.whole.mem_iff]

theorem LongestFirst.firstKey?_longest (longestFirst : LongestFirst order) (found : firstKey? order t = some entry) :
    LongestKey t entry := by
  obtain ⟨begins,before,behind,split,none⟩ := List.find?_eq_some_iff_append.mp found
  refine ⟨longestFirst.whole.mem_iff.mp (by simp [split]),List.isPrefixOf_iff_prefix.mp begins,fun other member at_ => ?_⟩
  have inOrder := longestFirst.whole.mem_iff.mpr member
  rw [split] at inOrder
  rcases List.mem_append.mp inOrder with early | here
  · have dead := none other early
    rw [List.isPrefixOf_iff_prefix.mpr at_] at dead
    cases dead
  · have ordered := longestFirst.ordered
    rw [split] at ordered
    rcases List.mem_cons.mp here with rfl | late
    · exact Nat.le_refl _
    · exact List.rel_of_pairwise_cons (List.pairwise_append.mp ordered).2.1 late

theorem LongestFirst.firstKey?_some (longestFirst : LongestFirst order) :
    firstKey? order t = some entry ↔ LongestKey t entry := by
  refine ⟨longestFirst.firstKey?_longest,fun longest => ?_⟩
  cases found : firstKey? order t with
  | none => exact absurd longest.begins (longestFirst.firstKey?_none.mp found entry longest.known)
  | some other => rw [longest.unique (longestFirst.firstKey?_longest found)]

/-- Keys sorted by their length, the longest first. Those of one length stay in their order. -/
def byLength (keys : List (Text × Text)) : List (Text × Text) :=
  keys.mergeSort fun one two => two.1.length ≤ one.1.length

theorem byLength_longestFirst {keys : List (Text × Text)} (permuted : keys.Perm commands) : LongestFirst (byLength keys) where
  whole := (List.mergeSort_perm keys _).trans permuted
  ordered := by
    refine (List.pairwise_mergeSort (fun one two three behind ahead => ?_) (fun one two => ?_) keys).imp of_decide_eq_true
    · exact decide_eq_true (Nat.le_trans (of_decide_eq_true ahead) (of_decide_eq_true behind))
    · simpa using Nat.le_total two.1.length one.1.length

theorem commands_longestFirst : LongestFirst (byLength commands) :=
  byLength_longestFirst (.refl _)

-- The tries with three characters, with two and with one are one search through the sorted keys.
theorem longestKey?_eq (t : Text) : longestKey? t = firstKey? (byLength commands) t := by
  have split : byLength commands = [3,2,1].flatMap fun length => commands.filter fun entry => entry.1.length == length := by
    decide_cbv
  have tried : ∀ length, (commands.filter fun entry => entry.1.length == length).find? (fun entry => entry.1.isPrefixOf t) =
      keyOfLength? length t := fun length => by
    rw [keyOfLength?,List.find?_filter]
    refine congrArg (commands.find? ·) (funext fun entry => ?_)
    simp only [Bool.decide_and,Bool.decide_eq_true]
  simp only [firstKey?,split,List.flatMap_cons,List.flatMap_nil,List.append_nil,List.find?_append,tried,longestKey?]
  cases keyOfLength? 3 t <;> cases keyOfLength? 2 t <;> rfl

theorem longestKey?_some : longestKey? t = some entry ↔ LongestKey t entry := by
  rw [longestKey?_eq]
  exact commands_longestFirst.firstKey?_some

theorem longestKey?_none : longestKey? t = none ↔ ∀ entry ∈ commands, ¬ entry.1 <+: t := by
  rw [longestKey?_eq]
  exact commands_longestFirst.firstKey?_none

-- The order of the keys of one length makes no difference to a search.
theorem LongestFirst.firstKey?_eq (longestFirst : LongestFirst order) (t : Text) : firstKey? order t = longestKey? t := by
  cases found : longestKey? t with
  | none => exact longestFirst.firstKey?_none.mpr (longestKey?_none.mp found)
  | some entry => exact longestFirst.firstKey?_some.mpr (longestKey?_some.mp found)

theorem segmentsFrom_drop (skip : Nat) (t : Text) : segmentsFrom skip t = segments (t.drop skip) := by
  induction t generalizing skip with
  | nil => cases skip <;> rfl
  | cons c rest ih =>
    cases skip with
    | zero => rfl
    | succ skip => exact ih skip

theorem segments_other (none : longestKey? (c :: rest) = none) : segments (c :: rest) = .other c :: segments rest := by
  rw [segments,segmentsFrom,none]
  rfl

theorem segments_letter (found : longestKey? t = some (key,command)) :
    segments t = .letter key command :: segments (t.drop key.length) := by
  have longest := longestKey?_some.mp found
  obtain ⟨x,tail,rfl⟩ := List.exists_cons_of_ne_nil (commands_some longest.known)
  obtain ⟨rest,rfl⟩ := longest.begins
  rw [List.cons_append] at found
  rw [List.cons_append,segments,segmentsFrom,found]
  exact congrArg _ (segmentsFrom_drop _ _)

-- A reader goes behind the key that it finds, or to the next character.
theorem reading_induct {P : Text → Prop} (ended : P [])
    (letter : ∀ {t key command}, longestKey? t = some (key,command) → P (t.drop key.length) → P t)
    (other : ∀ {c rest}, longestKey? (c :: rest) = none → P rest → P (c :: rest)) (t : Text) : P t := by
  have all : ∀ n, ∀ t : Text, t.length ≤ n → P t := by
    intro n
    induction n with
    | zero =>
      intro t bound
      rw [List.length_eq_zero_iff.mp (Nat.le_zero.mp bound)]
      exact ended
    | succ n ih =>
      intro t bound
      cases found : longestKey? t with
      | some entry =>
        have some := List.length_pos_iff.mpr (commands_some (longestKey?_some.mp found).known)
        exact letter found (ih _ (by rw [List.length_drop]; omega))
      | none =>
        cases t with
        | nil => exact ended
        | cons c rest => exact other found (ih rest (Nat.le_of_succ_le_succ bound))
  exact all _ t (Nat.le_refl _)

/-- The characters that a segment has. -/
def Segment.text : Segment → Text
  | .letter key _ => key
  | .other c => [c]

/-- The character that is kept, if there is no key. -/
def Segment.kept? : Segment → Option Text
  | .letter _ _ => none
  | .other c => some [c]

/-- What stands at the beginning of a text: its longest key, or a character where there is no key. -/
def Segment.Stands (t : Text) : Segment → Prop
  | .letter key command => LongestKey t (key,command)
  | .other c => [c] <+: t ∧ ∀ entry ∈ commands, ¬ entry.1 <+: t

/-- A cut of a text into segments, each of which stands at its place. -/
structure LongestCut (t : Text) (cut : List Segment) : Prop where
  whole : cut.flatMap Segment.text = t
  stands : ∀ front segment back, cut = front ++ segment :: back →
    segment.Stands (t.drop (front.flatMap Segment.text).length)

theorem Segment.Stands.begins (stands : segment.Stands t) : segment.text <+: t := by
  cases segment with
  | letter key command => exact LongestKey.begins stands
  | other c => exact stands.1

theorem Segment.Stands.some (stands : segment.Stands t) : segment.text ≠ [] := by
  cases segment with
  | letter key command => exact commands_some (LongestKey.known stands)
  | other c => exact List.cons_ne_nil _ _

-- At one place stands one segment.
theorem Segment.Stands.unique {segment' : Segment} (one : segment.Stands t) (two : segment'.Stands t) : segment = segment' := by
  cases segment with
  | letter key command =>
    cases segment' with
    | letter key' command' =>
      obtain ⟨rfl,rfl⟩ := Prod.mk.inj (LongestKey.unique one two)
      rfl
    | other c => exact absurd one.begins (two.2 _ (LongestKey.known one))
  | other c =>
    cases segment' with
    | letter key command => exact absurd two.begins (one.2 _ (LongestKey.known two))
    | other c' =>
      obtain ⟨rest,rfl⟩ := one.1
      rw [(List.cons_prefix_cons.mp two.1).1]

theorem LongestCut.nil : LongestCut [] [] :=
  ⟨rfl,fun front segment back split => by simp at split⟩

theorem LongestCut.cons (first : segment.Stands t) (later : LongestCut (t.drop segment.text.length) cut) :
    LongestCut t (segment :: cut) := by
  obtain ⟨rest,rfl⟩ := first.begins
  rw [List.drop_left] at later
  refine ⟨by rw [List.flatMap_cons,later.whole],fun front segment' back split => ?_⟩
  cases front with
  | nil =>
    obtain ⟨rfl,_⟩ := List.cons.inj split
    exact first
  | cons head front =>
    obtain ⟨rfl,behind⟩ := List.cons.inj split
    have stands := later.stands front segment' back behind
    rw [List.flatMap_cons,List.length_append,← List.drop_drop,List.drop_left]
    exact stands

theorem LongestCut.tail (longest : LongestCut t (segment :: cut)) :
    segment.Stands t ∧ LongestCut (t.drop segment.text.length) cut := by
  refine ⟨longest.stands [] segment cut rfl,?_,fun front segment' back split => ?_⟩
  · rw [← longest.whole,List.flatMap_cons,List.drop_left]
  · have stands := longest.stands (segment :: front) segment' back (by rw [split]; rfl)
    rwa [List.flatMap_cons,List.length_append,← List.drop_drop] at stands

theorem segments_cut (t : Text) : LongestCut t (segments t) := by
  refine reading_induct (P := fun t => LongestCut t (segments t)) .nil (fun found later => ?_) (fun none later => ?_) t
  · rw [segments_letter found]
    exact .cons (longestKey?_some.mp found) later
  · rw [segments_other none]
    exact .cons ⟨List.prefix_append [_] _,longestKey?_none.mp none⟩ later

-- Segment by segment there is no choice.
theorem LongestCut.unique {cut' : List Segment} (one : LongestCut t cut) (two : LongestCut t cut') : cut = cut' := by
  induction cut generalizing t cut' with
  | nil =>
    cases cut' with
    | nil => rfl
    | cons segment cut' =>
      obtain rfl := one.whole
      exact absurd (List.prefix_nil.mp two.tail.1.begins) two.tail.1.some
  | cons segment cut ih =>
    cases cut' with
    | nil =>
      obtain rfl := two.whole
      exact absurd (List.prefix_nil.mp one.tail.1.begins) one.tail.1.some
    | cons segment' cut' =>
      obtain ⟨first,later⟩ := one.tail
      obtain ⟨first',later'⟩ := two.tail
      obtain rfl := first.unique first'
      rw [ih later later']

/-- A reader that tries the keys of a list one after the other. It goes on behind the first that stands at its place, and
keeps a character where none does; it ends with the text. -/
inductive Decomposes (order : List (Text × Text)) : Text → Text × List Text → Prop where
  | ended : Decomposes order [] ([],[])
  | letter {c : Char} {rest key command latex : Text} {unknown : List Text}
      (found : firstKey? order (c :: rest) = some (key,command))
      (later : Decomposes order ((c :: rest).drop key.length) (latex,unknown)) :
      Decomposes order (c :: rest) ('\\' :: command ++ latex,unknown)
  | other {c : Char} {rest latex : Text} {unknown : List Text} (none : firstKey? order (c :: rest) = none)
      (later : Decomposes order rest (latex,unknown)) : Decomposes order (c :: rest) (c :: latex,[c] :: unknown)

theorem decompose_eq (t : Text) :
    decompose t = ((segments t).flatMap Segment.latex,(segments t).filterMap Segment.kept?) := by
  refine Prod.ext rfl (List.filterMap_congr fun segment _ => ?_)
  cases segment <;> rfl

theorem decompose_letter (found : longestKey? t = some (key,command)) : decompose t =
    ('\\' :: command ++ (decompose (t.drop key.length)).1,(decompose (t.drop key.length)).2) := by
  rw [decompose,segments_letter found]
  rfl

theorem decompose_other (none : longestKey? (c :: rest) = none) :
    decompose (c :: rest) = (c :: (decompose rest).1,[c] :: (decompose rest).2) := by
  rw [decompose,segments_other none]
  rfl

-- A reader ends on every text, whatever the order of the keys of one length is.
theorem LongestFirst.decomposes (longestFirst : LongestFirst order) (t : Text) : Decomposes order t (decompose t) := by
  refine reading_induct (P := fun t => Decomposes order t (decompose t)) .ended (fun {t key command} found later => ?_)
    (fun none later => ?_) t
  · have longest := longestKey?_some.mp found
    rw [decompose_letter found]
    rw [← longestFirst.firstKey?_eq] at found
    cases t with
    | nil => exact absurd (List.prefix_nil.mp longest.begins) (commands_some longest.known)
    | cons c rest => exact .letter found later
  · rw [decompose_other none]
    rw [← longestFirst.firstKey?_eq] at none
    exact .other none later

theorem Decomposes.unique {result' : Text × List Text} (one : Decomposes order t result) (two : Decomposes order t result') :
    result = result' := by
  induction one generalizing result' with
  | ended => cases two; rfl
  | letter found _ ih =>
    cases two with
    | letter found' later =>
      obtain ⟨rfl,rfl⟩ := Prod.mk.inj (Option.some.inj (found.symm.trans found'))
      cases ih later
      rfl
    | other none => cases none.symm.trans found
  | other none _ ih =>
    cases two with
    | letter found => cases none.symm.trans found
    | other _ later =>
      cases ih later
      rfl

-- Of every text there is one cut by the longest keys. What is written is the command of each key and each character that is
-- kept, in their order, what is reported are the characters that are kept, and every reader that tries longer keys first ends
-- with just this.
theorem decompose_longest (t : Text) : ∃ cut, LongestCut t cut ∧ (∀ other, LongestCut t other → other = cut) ∧
    decompose t = (cut.flatMap Segment.latex,cut.filterMap Segment.kept?) ∧
    ∀ order, LongestFirst order → ∀ result, Decomposes order t result ↔ result = decompose t := by
  refine ⟨segments t,segments_cut t,fun other longest => longest.unique (segments_cut t),decompose_eq t,
    fun order longestFirst result => ?_⟩
  have read := longestFirst.decomposes t
  exact ⟨fun other => other.unique read,fun same => same ▸ read⟩

-- The keys of one length the other way round.
theorem decompose_longest_backwards : LongestFirst (byLength commands.reverse) ∧
    byLength commands.reverse ≠ byLength commands ∧
    Decomposes (byLength commands.reverse) "thnuphiq" ("\\theta\\nu\\phiq",["q"]) := by
  have longestFirst := byLength_longestFirst (List.reverse_perm commands)
  obtain ⟨_,_,_,_,reads⟩ := decompose_longest "thnuphiq"
  exact ⟨longestFirst,by decide_cbv,(reads _ longestFirst _).mpr (by decide_cbv)⟩

end GreekLetters
end LightMarkup
