import LightMarkup.Proofs.Loading.Likeness
import LightMarkup.Proofs.Returns.Grouping

/-!
Headings and chapter tags of a text and of the text with carriage returns: the titles and the styles are the same, and a
tag is read from its line without the carriage return that may end it.
-/

namespace LightMarkup

open Cursor (Facing)
open PlacedBlock (SameGists SameAfter)
open Text (withReturns)

namespace Pattern

variable {p : Pattern} {c c' : Cursor} {t t' : Text}

theorem needs_some (needed : p.needs (fun _ => true) = true) (c : Cursor) : p.matchSomeAt? c = p.matchAt? c := by
  cases found : p.matchAt? c with
  | none => exact matchSomeAt_none.mpr (by simp [matchAt_none found])
  | some m =>
    obtain ⟨rfl,way⟩ := matchAt_way found
    obtain ⟨t,read⟩ := way.reads
    refine matchSomeAt_some found ?_
    have less : m.stop.after.length < m.start.after.length := needs_eats needed _ _ way
    have length := read.length
    rw [Match.length,read.position]
    omega

theorem inside_past {x : Char} (begins : c.after = x :: t) : (c.inside .newline).past 1 = (c.past 1).inside .newline := by
  simp [Cursor.inside,Cursor.past,begins]

-- The occurrences in a text and in the text with a newline behind it.
theorem found_newline (stays : p.staysOnLine = true) (needed : p.needs (fun _ => true) = true) (c : Cursor) :
    foundFrom p.matchSomeAt? id (c.inside .newline) = (foundFrom p.matchSomeAt? id c).map (·.inside .newline) := by
  have finds := occurrences_find p
  have same : ∀ c : Cursor, p.matchSomeAt? (c.inside .newline) = (p.matchSomeAt? c).map (·.inside .newline) := by
    intro c
    rw [needs_some needed,needs_some needed,line_matches stays]
  refine search_induct (P := fun c => foundFrom p.matchSomeAt? id (c.inside .newline) =
    (foundFrom p.matchSomeAt? id c).map (·.inside .newline)) finds ?_ ?_ ?_ c
  · rintro ⟨before,after⟩ ended
    obtain rfl : after = [] := ended
    have here := same ⟨before,[]⟩
    rw [finds.not_at_end] at here
    rw [foundFrom_pass rfl here,foundFrom_ended finds rfl,foundFrom_ended finds rfl]
    rfl
  · intro c x t begins none next
    have here := same c
    rw [none] at here
    have ahead : (c.inside .newline).after = x :: (t ++ ['\n']) := by simp [Cursor.inside,begins,Cursor.newline]
    rw [foundFrom_pass ahead here,foundFrom_pass begins none,inside_past begins]
    exact next
  · intro c m found next
    have here := same c
    rw [found] at here
    rw [foundFrom_take finds here,foundFrom_take finds found,List.map_cons]
    exact congrArg _ next

theorem occurrences_newline (stays : p.staysOnLine = true) (needed : p.needs (fun _ => true) = true) (t : Text) :
    (p.occurrences (t ++ ['\n'])).map Match.text = (p.occurrences t).map Match.text := by
  have found := found_newline stays needed (.start t)
  have here : p.occurrences (t ++ ['\n']) = (p.occurrences t).map (·.inside .newline) := found
  rw [here,List.map_map]
  exact List.map_congr_left fun m member => Match.inside_text (occurrences_way member) _

-- Two matches of a pattern.
structure BothWays (p : Pattern) (exact : List Nat) (m m' : Match) : Prop where
  faces : m.Faces exact .same m'
  way : m.IsWay p
  way' : m'.IsWay p

theorem occurrences_paired {exact : List Nat} {l : Accord} (turns : p.Turns exact .same l) (le : l.le .same = true)
    (needed : p.needs (fun _ => true) = true) (facing : Facing (.start t) (.start t')) :
    Paired Facing id (p.BothWays exact) (.start t) (.start t') (p.occurrences t) (p.occurrences t') := by
  refine foundFrom_paired t t' (occurrences_find p) ?_ (fun both => both.faces.stop) facing rfl rfl
  intro d d' facing _ _
  have rel := turns.matches le (Or.inl rfl) facing
  rw [needs_some needed,needs_some needed]
  cases found : p.matchAt? d with
  | none => rw [rel_none rel found]; exact .none
  | some m =>
    rw [found] at rel
    obtain ⟨m',found',faces⟩ := rel_some rel
    rw [found']
    exact .some ⟨faces,(matchAt_way found).2,(matchAt_way found').2⟩

end Pattern

namespace HeadingConstruct

variable {c c' d d' : Cursor} {t t' line line' : Text}

-- The same line, or with a carriage return at its end.
structure Lined (line line' : Text) : Prop where
  single : '\n' ∉ line
  free : '\r' ∉ line
  same : line' = line ∨ line' = line ++ ['\r']

theorem nonBlankLine_stays : nonBlankLine.staysOnLine = true := by decide

theorem nonBlankLine_needs : nonBlankLine.needs (fun _ => true) = true := by decide

theorem nonBlankLine_turns : nonBlankLine.Turns [] .same .same := by
  have turned : Pattern.turn [] nonBlankLine .same = some .same := by decide
  exact Pattern.turn_turns turned

theorem lined_of_matches {m m' : Match} (both : nonBlankLine.BothWays [] m m') : Lined m.text m'.text := by
  obtain ⟨t,read,free⟩ := Pattern.ways_only (Block.avoids_only (Bool.and_eq_true_iff.mp nonBlankLine_stays).2) _ _ both.way
  obtain ⟨t',read'⟩ := both.way'.reads
  have single : '\n' ∉ t := fun member => free _ member rfl
  have text : m.text = t := read.textTo
  have text' : m'.text = t' := read'.textTo
  rw [text,text']
  refine ⟨single,fun member => both.faces.start.free (by rw [read.1]; exact List.mem_append_left _ member),?_⟩
  obtain ⟨lead,trail,same,front,back⟩ := both.faces.start.between both.faces.stop read read'
  rw [Text.withReturns_free single] at same
  have some : t ≠ [] := by
    rintro rfl
    have less : m.stop.after.length < m.start.after.length := Pattern.needs_eats nonBlankLine_needs _ _ both.way
    have length := read.length
    simp only [List.length_nil] at length
    omega
  obtain rfl : lead = [] := by
    rcases front with ⟨none,_⟩ | ⟨_,head⟩
    · exact none
    · obtain ⟨x,u,rfl⟩ := List.exists_cons_of_ne_nil some
      rw [read.1] at head
      obtain rfl : x = '\n' := Option.some.inj head
      exact absurd (List.mem_cons_self ..) single
  rcases back with ⟨rfl,_⟩ | ⟨rfl,_⟩
  · exact Or.inl (by simpa using same)
  · exact Or.inr same

-- The lines of the tags of a heading, which may be cut behind a carriage return at both ends.
theorem tagLines_lined (start : Facing c c') (stop : Facing d d') (read : c.Reads t d) (read' : c'.Reads t' d') :
    List.Forall₂ Lined ((nonBlankLine.occurrences t).map Match.text) ((nonBlankLine.occurrences t').map Match.text) := by
  have lined : ∀ {u u'}, Facing (.start u) (.start u') →
      List.Forall₂ Lined ((nonBlankLine.occurrences u).map Match.text) ((nonBlankLine.occurrences u').map Match.text) := by
    intro u u' facing
    have paired := Pattern.occurrences_paired nonBlankLine_turns rfl nonBlankLine_needs facing
    rw [List.forall₂_map_left_iff,List.forall₂_map_right_iff]
    exact paired.related.imp fun _ _ both => lined_of_matches both
  have free : '\r' ∉ t := fun member => start.free (by rw [read.1]; exact List.mem_append_left _ member)
  obtain ⟨lead,trail,same,front,back⟩ := start.between stop read read'
  rcases back with ⟨rfl,_⟩ | ⟨rfl,_⟩
  · rw [List.append_nil] at same
    refine lined (Cursor.facing_start same free ?_)
    rcases front with ⟨none,_⟩ | ⟨rfl,head⟩
    · exact Or.inl none
    · refine Or.inr ⟨rfl,?_⟩
      cases t with
      | nil => cases same
      | cons x t => rwa [read.1] at head
  · rw [← Pattern.occurrences_newline nonBlankLine_stays nonBlankLine_needs t,
      ← Pattern.occurrences_newline nonBlankLine_stays nonBlankLine_needs t']
    have longer : lead ++ (t' ++ ['\n']) = withReturns (t ++ ['\n']) := by
      rw [← List.append_assoc,same,Text.withReturns_append,List.append_assoc]
      rfl
    refine lined (Cursor.facing_start longer (by simpa using free) ?_)
    rcases front with ⟨none,_⟩ | ⟨rfl,head⟩
    · exact Or.inl none
    · refine Or.inr ⟨rfl,?_⟩
      cases t with
      | nil => rfl
      | cons x t => rwa [read.1] at head

theorem tagLine_stays : tagLine.staysOnLine = true := by decide_cbv

theorem tagLine_turns : tagLine.Turns [1,2] .same .apart := by
  have turned : Pattern.turn [1,2] tagLine .same = some .apart := by decide_cbv
  exact Pattern.turn_turns turned

-- The key and the value of a tag do not take the carriage return behind them.
theorem tagOfLine_return (single : '\n' ∉ line) (free : '\r' ∉ line) :
    Failure.Alike Eq (tagOfLine line) (tagOfLine (line ++ ['\r'])) := by
  have alone : '\n' ∉ line ++ ['\r'] := by simpa using single
  have level : (Cursor.start (line ++ ['\n'])).Level (.start (line ++ ['\r'] ++ ['\n'])) := by
    have same : line ++ ['\r'] ++ ['\n'] = withReturns (line ++ ['\n']) := by
      rw [Text.withReturns_append,Text.withReturns_free single,List.append_assoc]
      rfl
    rw [same]
    exact Cursor.level_start (by simpa using free)
  have rel := tagLine_turns.matches rfl (Or.inl rfl) level.facing
  have longer : ∀ t : Text, tagLine.matchAt? (.start (t ++ ['\n'])) = (tagLine.matchStart? t).map (·.inside .newline) :=
    fun t => Pattern.line_matches tagLine_stays (.start t)
  rw [longer,longer] at rel
  unfold tagOfLine
  rw [Pattern.line_full rfl single,Pattern.line_full rfl alone]
  cases found : tagLine.matchStart? line with
  | none =>
    rw [found] at rel
    rw [Option.map_eq_none_iff.mp (Pattern.rel_none rel rfl)]
    exact .error _ _
  | some m =>
    rw [found] at rel
    obtain ⟨n,isInside,faces⟩ := Pattern.rel_some rel
    obtain ⟨m',found',rfl⟩ := Option.map_eq_some_iff.mp isInside
    have way := (Pattern.matchAt_way found).2
    have way' := (Pattern.matchAt_way found').2
    have inside : ∀ {m : Match}, m.IsWay tagLine → (m.inside .newline).IsWay tagLine := Pattern.line_way tagLine_stays
    have group : ∀ n ∈ [1,2], m'.group? n = m.group? n := by
      intro n member
      rw [← Match.inside_group way .newline,← Match.inside_group way' .newline]
      refine faces.group_same (inside way) (inside way') ?_ member (by decide_cbv)
      rintro rfl
      exact absurd member (by decide)
    rw [found']
    simp only [Match.group,group 1 (by decide),group 2 (by decide)]
    exact .same fun _ => rfl

theorem Lined.tag (lined : Lined line line') : Failure.Alike Eq (tagOfLine line) (tagOfLine line') := by
  rcases lined.same with rfl | rfl
  · exact .same fun _ => rfl
  · exact tagOfLine_return lined.single lined.free

variable {construct : HeadingConstruct} {m m' : Match}

theorem standard_turns (member : construct ∈ standard) : construct.pattern.Turns [titleGroup,styleGroup] .same .apart := by
  have all : standard.all (fun construct =>
      Pattern.turn [titleGroup,styleGroup] construct.pattern .same = some .apart) = true := by decide +kernel
  exact Pattern.turn_turns (of_decide_eq_true (List.all_eq_true.mp all construct member))

theorem standard_single (member : construct ∈ standard) :
    construct.pattern.groupsAvoid '\n' [titleGroup,styleGroup] = true := by
  have all : standard.all (fun construct => construct.pattern.groupsAvoid '\n' [titleGroup,styleGroup]) = true := by
    decide_cbv
  exact List.all_eq_true.mp all construct member

theorem tags_alike (both : construct.pattern.BothWays [titleGroup,styleGroup] m m') (offset offset' : Nat) :
    Failure.Alike SameGists (tags offset (m.group tagsGroup)) (tags offset' (m'.group tagsGroup)) := by
  have rel := both.faces.capture (n := tagsGroup) (by decide)
  cases found : m.capture? tagsGroup with
  | none =>
    rw [found] at rel
    rw [Match.group,Match.group,Match.group?,Match.group?,found,Pattern.rel_none rel rfl]
    exact tagsOfLines_alike .nil offset offset'
  | some held =>
    rw [found] at rel
    obtain ⟨held',found',faces⟩ := Pattern.rel_some rel
    obtain ⟨t,read,text⟩ := both.way.reads_group found
    obtain ⟨t',read',text'⟩ := both.way'.reads_group found'
    rw [Match.group,Match.group,text,text']
    have lined := tagLines_lined faces.start faces.stop read read'
    rw [List.forall₂_map_left_iff,List.forall₂_map_right_iff] at lined
    exact tagsOfLines_alike (lined.imp fun _ _ line => line.tag) offset offset'

theorem headsAlike_of_ways (member : construct ∈ standard) (both : construct.pattern.BothWays [titleGroup,styleGroup] m m') :
    HeadsAlike (construct,m) (construct,m') := by
  have same : ∀ n ∈ [titleGroup,styleGroup], m'.group? n = m.group? n := fun n isExact =>
    both.faces.group_same both.way both.way' (by rintro rfl; exact absurd isExact (by decide)) isExact (standard_single member)
  refine ⟨rfl,blocks_alike ?_ (same styleGroup (by decide)) (tags_alike both)⟩
  rw [Match.group,same titleGroup (by decide)]
  rfl

end HeadingConstruct
end LightMarkup
