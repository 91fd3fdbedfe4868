import Mathlib.Data.List.Basic
import Mathlib.Data.List.Pairwise
import Mathlib.Tactic.ByContra
import LightMarkup.Proofs.Draft.Atoms
import LightMarkup.Proofs.Draft.Selection

/-!
Slices, for all four ways of treating their ends. An end that leaves out what is hidden there moves inward to an edge
first; between the ends every part gives at most one piece, in the order of the parts. Two slices that meet at an edge
are one slice if just one of them keeps what is hidden there.
-/

namespace LightMarkup
namespace Draft

variable {scope : Option String} {boundary : Boundary} {start stop first last middle position edge : Nat} {parts : List Part}
  {placed : Nat × Part} {d : Draft}

-- Where a visible part that is not empty begins or ends.
def IsEdge (scope : Option String) (position : Nat) (parts : List Part) (edge : Nat) : Prop :=
  ∃ placed ∈ placedFrom scope position parts, placed.2.visibleTo scope = true ∧ placed.2.content ≠ [] ∧
    (edge = placed.1 ∨ edge = placed.1 + placed.2.content.length)

theorem mem_edgesFrom : edge ∈ edgesFrom scope position parts ↔ IsEdge scope position parts edge := by
  induction parts generalizing position with
  | nil => simp [edgesFrom,IsEdge,placedFrom]
  | cons part rest ih =>
    rw [IsEdge,placedFrom,List.exists_mem_cons_iff]
    by_cases counts : part.visibleTo scope = true ∧ part.content ≠ []
    · have width : widthOf scope part = part.content.length := if_pos counts.1
      have test : (part.visibleTo scope && !part.content.isEmpty) = true := by simpa using counts
      rw [edgesFrom,if_pos test,List.mem_cons,List.mem_cons,ih,width,IsEdge]
      simp only [counts.1,counts.2,ne_eq,not_false_eq_true,true_and,or_assoc]
    · have width : widthOf scope part = 0 := by
        rw [widthOf]
        split
        · rename_i visible
          exact List.length_eq_zero_iff.mpr (Classical.not_not.mp fun some => counts ⟨visible,some⟩)
        · rfl
      have test : ¬ (part.visibleTo scope && !part.content.isEmpty) = true := by simpa using counts
      rw [edgesFrom,if_neg test,ih,width,Nat.add_zero,IsEdge]
      exact ⟨Or.inr,fun here => here.resolve_left fun counted => counts ⟨counted.1,counted.2.1⟩⟩

-- The first edge from an offset on, and the last one up to it. Without such an edge the offset stays.
def EdgeFrom (d : Draft) (start first : Nat) : Prop :=
  (IsEdge d.scope 0 d.parts first ∧ start ≤ first ∧ ∀ edge, IsEdge d.scope 0 d.parts edge → start ≤ edge → first ≤ edge) ∨
    (first = start ∧ ∀ edge, IsEdge d.scope 0 d.parts edge → edge < start)

def EdgeUpTo (d : Draft) (stop last : Nat) : Prop :=
  (IsEdge d.scope 0 d.parts last ∧ last ≤ stop ∧ ∀ edge, IsEdge d.scope 0 d.parts edge → edge ≤ stop → edge ≤ last) ∨
    (last = stop ∧ ∀ edge, IsEdge d.scope 0 d.parts edge → stop < edge)

theorem innerStart_edge (d : Draft) (start : Nat) : EdgeFrom d start (innerStart d.edges start) := by
  simp only [EdgeFrom,← mem_edgesFrom]
  rw [innerStart]
  cases least : (d.edges.filter (start ≤ ·)).min? with
  | none =>
    rw [List.min?_eq_none_iff,List.filter_eq_nil_iff] at least
    exact Or.inr ⟨rfl,fun edge isEdge => by simpa using least edge isEdge⟩
  | some first =>
    obtain ⟨member,smallest⟩ := List.min?_eq_some_iff.mp least
    obtain ⟨isEdge,after⟩ := List.mem_filter.mp member
    exact Or.inl ⟨isEdge,by simpa using after,fun edge isEdge after =>
      smallest edge (List.mem_filter.mpr ⟨isEdge,by simpa using after⟩)⟩

theorem innerStop_edge (d : Draft) (stop : Nat) : EdgeUpTo d stop (innerStop d.edges stop) := by
  simp only [EdgeUpTo,← mem_edgesFrom]
  rw [innerStop]
  cases greatest : (d.edges.filter (· ≤ stop)).max? with
  | none =>
    rw [List.max?_eq_none_iff,List.filter_eq_nil_iff] at greatest
    exact Or.inr ⟨rfl,fun edge isEdge => by simpa using greatest edge isEdge⟩
  | some last =>
    obtain ⟨member,largest⟩ := List.max?_eq_some_iff.mp greatest
    obtain ⟨isEdge,before⟩ := List.mem_filter.mp member
    exact Or.inl ⟨isEdge,by simpa using before,fun edge isEdge before =>
      largest edge (List.mem_filter.mpr ⟨isEdge,by simpa using before⟩)⟩

-- Of two parts one ends where the other begins, or before.
theorem placedFrom_apart {other : Nat × Part} (member : placed ∈ placedFrom scope position parts)
    (isOther : other ∈ placedFrom scope position parts) (different : placed ≠ other) :
    placed.1 + widthOf scope placed.2 ≤ other.1 ∨ other.1 + widthOf scope other.2 ≤ placed.1 := by
  have symmetric : Std.Symm fun one two : Nat × Part =>
      one.1 + widthOf scope one.2 ≤ two.1 ∨ two.1 + widthOf scope two.2 ≤ one.1 := ⟨fun _ _ => Or.symm⟩
  have apart : (placedFrom scope position parts).Pairwise fun one two =>
      one.1 + widthOf scope one.2 ≤ two.1 ∨ two.1 + widthOf scope two.2 ≤ one.1 :=
    (placedFrom_sorted scope position parts).imp Or.inl
  exact apart.forall member isOther different

-- No visible part goes over an edge.
theorem edge_apart (isEdge : IsEdge scope position parts edge) (member : placed ∈ placedFrom scope position parts)
    (visible : placed.2.visibleTo scope = true) : edge ≤ placed.1 ∨ placed.1 + placed.2.content.length ≤ edge := by
  obtain ⟨other,isOther,seen,_,here⟩ := isEdge
  by_cases same : placed = other
  · subst same
    omega
  · have apart := placedFrom_apart member isOther same
    simp only [widthOf,visible,seen,↓reduceIte] at apart
    omega

-- The ends of a slice after those that leave out what is hidden there have moved.
structure SliceEnds (d : Draft) (boundary : Boundary) (start stop first last : Nat) : Prop where
  left : if boundary.left then first = start else EdgeFrom d start first
  right : if boundary.right then last = stop else EdgeUpTo d stop last

-- What a slice between two ends takes.
structure Slices (d : Draft) (boundary : Boundary) (first last : Nat) (parts : List Part) : Prop where
  order : parts = (placedFrom d.scope 0 d.parts).flatMap (keptIn d.scope boundary first last)
  shows : visibleContentOf d.scope parts = (d.visibleContent.take last).drop first
  hides : parts.filter (fun part => !part.visibleTo d.scope) = ((hiddenFrom d.scope 0 d.parts).filter fun placed =>
    first < placed.1 ∧ placed.1 < last ∨ placed.1 = first ∧ boundary.left ∨ placed.1 = last ∧ boundary.right).map Prod.snd
  -- A visible part that gives a piece lies on the inner side of an end that has moved.
  uncut : ∀ placed ∈ placedFrom d.scope 0 d.parts, placed.2.visibleTo d.scope = true →
    keptIn d.scope boundary first last placed ≠ [] →
      (boundary.left = false → first ≤ placed.1) ∧ (boundary.right = false → placed.1 + placed.2.content.length ≤ last)
  whole : boundary = .neither → ∀ part ∈ parts, part ∈ d.parts

theorem placedFrom_part (member : placed ∈ placedFrom scope position parts) : placed.2 ∈ parts := by
  induction parts generalizing position with
  | nil => cases member
  | cons part rest ih =>
    rcases List.mem_cons.mp member with rfl | later
    · exact List.mem_cons_self ..
    · exact List.mem_cons_of_mem _ (ih later)

theorem keptIn_reaches (visible : placed.2.visibleTo scope = true) (kept : keptIn scope boundary first last placed ≠ []) :
    first < placed.1 + placed.2.content.length ∧ placed.1 < last := by
  by_contra outside
  refine kept ?_
  simpa [keptIn,visible] using Part.between_outside (by omega)

-- Neither end, where it has moved, lies within a visible part that gives a piece.
theorem SliceEnds.uncut (ends : SliceEnds d boundary start stop first last) (member : placed ∈ placedFrom d.scope 0 d.parts)
    (visible : placed.2.visibleTo d.scope = true) (kept : keptIn d.scope boundary first last placed ≠ []) :
    (boundary.left = false → first ≤ placed.1) ∧ (boundary.right = false → placed.1 + placed.2.content.length ≤ last) := by
  obtain ⟨begun,open_⟩ := keptIn_reaches visible kept
  have some : placed.2.content ≠ [] := by
    rintro empty
    refine kept ?_
    simpa [keptIn,visible] using Part.between_outside (by rw [empty,List.length_nil]; omega)
  have begins : IsEdge d.scope 0 d.parts placed.1 := ⟨placed,member,visible,some,Or.inl rfl⟩
  have finishes : IsEdge d.scope 0 d.parts (placed.1 + placed.2.content.length) :=
    ⟨placed,member,visible,some,Or.inr rfl⟩
  constructor
  · intro excluded
    have moved := ends.left
    simp only [excluded,Bool.false_eq_true,↓reduceIte] at moved
    rcases moved with ⟨isEdge,_,_⟩ | ⟨rfl,none⟩
    · have apart := edge_apart isEdge member visible
      omega
    · have before := none _ finishes
      omega
  · intro excluded
    have moved := ends.right
    simp only [excluded,Bool.false_eq_true,↓reduceIte] at moved
    rcases moved with ⟨isEdge,_,_⟩ | ⟨rfl,none⟩
    · have apart := edge_apart isEdge member visible
      omega
    · have behind := none _ begins
      omega

theorem window_slices (ends : SliceEnds d boundary start stop first last) :
    Slices d boundary first last (windowFrom d.scope boundary first last 0 d.parts) := by
  constructor
  case order => rfl
  case shows => rw [visibleContentOf_window,Nat.sub_zero,Nat.sub_zero]; rfl
  case hides =>
    rw [windowFrom_hides]
    congr 1
    refine List.filter_congr fun placed _ => ?_
    rw [Bool.eq_iff_iff]
    simp [Boundary.keeps,or_assoc]
  case uncut => exact fun _ member visible kept => ends.uncut member visible kept
  case whole =>
    rintro rfl part member
    obtain ⟨placed,isPlaced,kept⟩ := List.mem_flatMap.mp member
    cases visible : placed.2.visibleTo d.scope with
    | false =>
      simp only [keptIn,visible,Bool.false_eq_true,↓reduceIte] at kept
      split at kept
      · exact List.mem_singleton.mp kept ▸ placedFrom_part isPlaced
      · cases kept
    | true =>
      obtain ⟨before,after⟩ := ends.uncut isPlaced visible (List.ne_nil_of_mem kept)
      simp only [keptIn,visible,↓reduceIte,Part.between_whole (before rfl) (after rfl),Part.keep] at kept
      split at kept
      · cases kept
      · exact List.mem_singleton.mp kept ▸ placedFrom_part isPlaced

theorem slice_ok (d : Draft) (boundary : Boundary) (ordered : start ≤ stop) (within : stop ≤ d.visibleContent.length) :
    ∃ first last, SliceEnds d boundary start stop first last ∧
      d.slice start stop boundary =
        .ok (if last < first then [] else windowFrom d.scope boundary first last 0 d.parts) := by
  refine ⟨if boundary.left then start else innerStart d.edges start,
    if boundary.right then stop else innerStop d.edges stop,⟨?_,?_⟩,?_⟩
  · split
    · rfl
    · exact innerStart_edge d start
  · split
    · rfl
    · exact innerStop_edge d stop
  · rw [slice,if_neg (by omega),if_neg (by omega),← sliceFrom_eq]
    exact (apply_ite Except.ok _ _ _).symm

theorem slice_error (d : Draft) (boundary : Boundary) (start stop : Nat) :
    (∃ failure, d.slice start stop boundary = .error failure) ↔ stop < start ∨ d.visibleContent.length < stop := by
  constructor
  · rintro ⟨failure,stopped⟩
    by_contra proper
    rw [not_or,Nat.not_lt,Nat.not_lt] at proper
    obtain ⟨first,last,_,fine⟩ := d.slice_ok boundary proper.1 proper.2
    rw [fine] at stopped
    cases stopped
  · intro improper
    by_cases reversed : stop < start
    · exact ⟨_,by rw [slice,if_pos reversed]⟩
    · exact ⟨_,by rw [slice,if_neg reversed,if_pos (by omega)]⟩

theorem slice_within (taken : d.slice start stop boundary = .ok parts) : start ≤ stop ∧ stop ≤ d.visibleContent.length := by
  by_contra improper
  have failed := (slice_error d boundary start stop).mpr (by omega)
  rw [taken] at failed
  obtain ⟨failure,none⟩ := failed
  cases none

-- What gives a piece behind an offset, once what is hidden there is left out, ends behind it.
theorem keptIn_beyond (proper : middle < stop) (kept : keptIn scope ⟨false,true⟩ middle stop placed ≠ []) :
    middle < placed.1 + widthOf scope placed.2 := by
  cases visible : placed.2.visibleTo scope with
  | true => simpa [widthOf,visible] using (keptIn_reaches visible kept).1
  | false =>
    have keeps : Boundary.keeps ⟨false,true⟩ middle stop placed.1 = true := by
      by_contra dropped
      exact kept (by simp [keptIn,visible,dropped])
    simp only [Boundary.keeps,Bool.and_false,Bool.or_false,Bool.and_true,Bool.or_eq_true,Bool.and_eq_true,
      decide_eq_true_eq,beq_iff_eq] at keeps
    omega

-- A hidden part at an edge goes to what is before it, and no visible part is on both sides.
theorem keptIn_edge (isEdge : IsEdge scope position parts middle) (member : placed ∈ placedFrom scope position parts)
    (after : start ≤ middle) (before : middle < stop) :
    keptIn scope .both start stop placed =
      keptIn scope .both start middle placed ++ keptIn scope ⟨false,true⟩ middle stop placed := by
  have proper := Nat.le_trans after (Nat.le_of_lt before)
  cases visible : placed.2.visibleTo scope with
  | false =>
    have all : Boundary.both.keeps start stop placed.1 = true ↔ _ := Boundary.keeps_both proper
    have front : Boundary.both.keeps start middle placed.1 = true ↔ _ := Boundary.keeps_both after
    simp only [keptIn,visible,Bool.false_eq_true,↓reduceIte,all,front]
    by_cases inFront : start ≤ placed.1 ∧ placed.1 ≤ middle
    · have notBack : ¬ Boundary.keeps ⟨false,true⟩ middle stop placed.1 = true := by
        simp [Boundary.keeps]
        omega
      rw [if_pos (by omega),if_pos inFront,if_neg notBack,List.append_nil]
    · have back : Boundary.keeps ⟨false,true⟩ middle stop placed.1 = true ↔ start ≤ placed.1 ∧ placed.1 ≤ stop := by
        simp [Boundary.keeps]
        omega
      simp only [back,if_neg inFront,List.nil_append]
  | true =>
    simp only [keptIn,visible,↓reduceIte]
    rcases edge_apart isEdge member visible with behind | ahead
    · have front : (placed.2.between placed.1 start middle).keep = [] := Part.between_outside (by omega)
      rw [front,List.nil_append,Part.between,Part.between,show start - placed.1 = middle - placed.1 by omega]
    · have allTaken : ∀ {end_}, middle ≤ end_ → placed.2.content.take (end_ - placed.1) = placed.2.content :=
        fun far => List.take_of_length_le (by omega)
      have back : (placed.2.between placed.1 middle stop).keep = [] := Part.between_outside (by omega)
      rw [back,List.append_nil,Part.between,Part.between,allTaken (Nat.le_of_lt before),allTaken (Nat.le_refl _)]

-- Cut at an edge, a window is the window up to there, with what is hidden there, and the window from there on without it.
theorem windowFrom_edge (isEdge : IsEdge scope position parts middle) (after : start ≤ middle) (before : middle < stop) :
    windowFrom scope .both start stop position parts =
      windowFrom scope .both start middle position parts ++ windowFrom scope ⟨false,true⟩ middle stop position parts := by
  -- A part behind one that gives a piece from the edge on gives none before it.
  have apart : (placedFrom scope position parts).Pairwise fun one two =>
      keptIn scope ⟨false,true⟩ middle stop one = [] ∨ keptIn scope .both start middle two = [] := by
    refine (placedFrom_sorted scope position parts).imp fun {one two} ordered => ?_
    by_cases nothing : keptIn scope ⟨false,true⟩ middle stop one = []
    · exact Or.inl nothing
    · have beyond := keptIn_beyond before nothing
      exact Or.inr (keptIn_outside after (Or.inl (by omega)))
  rw [windowFrom,windowFrom,windowFrom,flatMap_append_flatMap apart]
  exact List.flatMap_congr fun placed member => keptIn_edge isEdge member after before

-- A slice fails just for offsets that are out of order or out of bounds. Otherwise its ends, once moved, say what it takes,
-- and any edge in it parts it in two.
theorem slice_takes (d : Draft) (boundary : Boundary) (start stop : Nat) :
    ((∃ failure, d.slice start stop boundary = .error failure) ↔ stop < start ∨ d.visibleContent.length < stop) ∧
    (∀ failure, d.slice start stop boundary = .error failure →
      failure = .sliceReversed start stop ∨ failure = .sliceOverflow stop d.visibleContent.length) ∧
    (∀ parts, d.slice start stop boundary = .ok parts → ∃ first last, SliceEnds d boundary start stop first last ∧
      (last < first → parts = []) ∧ (first ≤ last → Slices d boundary first last parts)) ∧
    (∀ parts, d.slice start stop .both = .ok parts →
      visibleContentOf d.scope parts = (d.visibleContent.take stop).drop start ∧
      parts.filter (fun part => !part.visibleTo d.scope) =
        ((hiddenFrom d.scope 0 d.parts).filter fun placed => start ≤ placed.1 ∧ placed.1 ≤ stop).map Prod.snd) ∧
    ∀ edge, IsEdge d.scope 0 d.parts edge → start ≤ edge → edge < stop → stop ≤ d.visibleContent.length →
      ∃ front back, d.slice start edge .both = .ok front ∧ d.slice edge stop ⟨false,true⟩ = .ok back ∧
        d.slice start stop .both = .ok (front ++ back) := by
  refine ⟨slice_error d boundary start stop,fun failure stopped => ?_,fun parts taken => ?_,fun parts taken => ?_,?_⟩
  · by_cases reversed : stop < start
    · rw [slice,if_pos reversed] at stopped
      exact Or.inl (Except.error.inj stopped).symm
    · have overflow := ((slice_error d boundary start stop).mp ⟨failure,stopped⟩).resolve_left reversed
      rw [slice,if_neg reversed,if_pos overflow] at stopped
      exact Or.inr (Except.error.inj stopped).symm
  · obtain ⟨ordered,within⟩ := slice_within taken
    obtain ⟨first,last,ends,fine⟩ := d.slice_ok boundary ordered within
    cases fine.symm.trans taken
    refine ⟨first,last,ends,fun reversed => if_pos reversed,fun ordered => ?_⟩
    rw [if_neg (Nat.not_lt.mpr ordered)]
    exact window_slices ends
  · obtain ⟨ordered,within⟩ := slice_within taken
    cases (slice_both ordered within).symm.trans taken
    rw [visibleContentOf_window,windowFrom_hides]
    refine ⟨rfl,?_⟩
    congr 1
    refine List.filter_congr fun placed _ => ?_
    rw [Bool.eq_iff_iff,Boundary.keeps_both ordered,decide_eq_true_eq]
  · intro edge isEdge after before within
    have near : edge ≤ d.visibleContent.length := Nat.le_trans (Nat.le_of_lt before) within
    obtain ⟨first,last,ends,back⟩ := d.slice_ok ⟨false,true⟩ (Nat.le_of_lt before) within
    -- An edge is the nearest edge to itself.
    have same : first = edge ∧ last = stop := by
      refine ⟨?_,ends.right⟩
      rcases ends.left with ⟨_,far,least⟩ | ⟨_,none⟩
      · exact Nat.le_antisymm (least edge isEdge (Nat.le_refl _)) far
      · exact absurd (none edge isEdge) (Nat.lt_irrefl _)
    obtain ⟨rfl,rfl⟩ := same
    rw [if_neg (Nat.not_lt.mpr (Nat.le_of_lt before))] at back
    refine ⟨_,_,slice_both after near,back,?_⟩
    rw [slice_both (by omega) within,windowFrom_edge isEdge after before]

-- Six letters in three parts, with two hidden parts and an empty one between the first two, and a cut in the third.
def sixLetters : Draft :=
  ⟨[.live "ab" .nothing,.fixed "<i>",.live "x" .everything,.live "" .nothing,.live "cd" .nothing,.fixed "</i>",
    .live "ef" .nothing],none,some "link"⟩

theorem slice_takes_sixLetters :
    (∃ first last, SliceEnds sixLetters ⟨false,true⟩ 1 5 first last ∧
      (last < first → [Part.live "cd" .nothing,.fixed "</i>",.live "e" .nothing] = []) ∧
      (first ≤ last → Slices sixLetters ⟨false,true⟩ first last
        [.live "cd" .nothing,.fixed "</i>",.live "e" .nothing])) ∧
    ∃ front back, sixLetters.slice 1 2 .both = .ok front ∧ sixLetters.slice 2 5 ⟨false,true⟩ = .ok back ∧
      sixLetters.slice 1 5 .both = .ok (front ++ back) := by
  have taken : sixLetters.slice 1 5 ⟨false,true⟩ = .ok [.live "cd" .nothing,.fixed "</i>",.live "e" .nothing] := by cbv
  have isEdge : IsEdge sixLetters.scope 0 sixLetters.parts 2 := mem_edgesFrom.mp (by decide +kernel)
  obtain ⟨_,_,takes,_,parts⟩ := slice_takes sixLetters ⟨false,true⟩ 1 5
  exact ⟨takes _ taken,parts 2 isEdge (by decide) (by decide) (by decide +kernel)⟩

end Draft
end LightMarkup
