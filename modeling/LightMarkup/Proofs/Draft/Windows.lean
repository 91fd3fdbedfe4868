import LightMarkup.Draft

/-!
Windows: what lies between two offsets of the text that a construct sees. Visible parts are cut to the window, a
hidden part stands at an offset of its own, and the ends of the window say whether they keep the hidden parts that lie
exactly there. A slice is a window (`sliceFrom_eq`).
-/

namespace LightMarkup
namespace Part

variable {scope : Option String} {position start stop : Nat} {part : Part} {t u : Text}

@[simp] theorem content_withContent (t : Text) (part : Part) : (part.withContent t).content = t := by
  cases part <;> rfl

@[simp] theorem visibleTo_withContent (scope : Option String) (t : Text) (part : Part) :
    (part.withContent t).visibleTo scope = part.visibleTo scope := by
  cases part <;> cases scope <;> rfl

@[simp] theorem withContent_withContent (t u : Text) (part : Part) :
    (part.withContent t).withContent u = part.withContent u := by
  cases part <;> rfl

@[simp] theorem withContent_content (part : Part) : part.withContent part.content = part := by
  cases part <;> rfl

-- The characters between two offsets of a part that begins at `position`.
def between (position start stop : Nat) (part : Part) : Part :=
  part.withContent ((part.content.take (stop - position)).drop (start - position))

def keep (part : Part) : List Part :=
  if part.content.isEmpty then [] else [part]

theorem keep_empty (empty : part.content = []) : part.keep = [] := by
  simp [keep,empty]

theorem keep_some (some : part.content ≠ []) : part.keep = [part] := by
  simp [keep,some]

theorem between_outside (outside : min (position + part.content.length) stop ≤ max position start) :
    (part.between position start stop).keep = [] := by
  refine keep_empty ?_
  simp only [between,content_withContent,List.drop_eq_nil_iff,List.length_take]
  omega

theorem between_whole (before : start ≤ position) (after : position + part.content.length ≤ stop) :
    part.between position start stop = part := by
  have none : start - position = 0 := by omega
  rw [between,List.take_of_length_le (by omega),none,List.drop_zero,withContent_content]

end Part

namespace Boundary

def neither : Boundary := ⟨false,false⟩

-- Whether a window keeps a hidden part at an offset.
def keeps (ends : Boundary) (start stop position : Nat) : Bool :=
  (start < position && position < stop) || (position == start && ends.left) || (position == stop && ends.right)

variable {start stop position : Nat}

theorem keeps_both (ordered : start ≤ stop) :
    both.keeps start stop position = true ↔ start ≤ position ∧ position ≤ stop := by
  simp [keeps,both]
  omega

theorem keeps_neither : neither.keeps start stop position = true ↔ start < position ∧ position < stop := by
  simp [keeps,neither]

end Boundary

namespace Draft

variable {scope : Option String} {ends : Boundary} {start stop position : Nat} {part : Part} {parts rest : List Part}

-- What a part adds to the text visible to `scope`.
def widthOf (scope : Option String) (part : Part) : Nat :=
  if part.visibleTo scope then part.content.length else 0

-- Parts with the offsets in the visible text at which they begin.
def placedFrom (scope : Option String) (position : Nat) : List Part → List (Nat × Part)
  | [] => []
  | part :: rest => (position,part) :: placedFrom scope (position + widthOf scope part) rest

theorem placedFrom_after : ∀ placed ∈ placedFrom scope position parts, position ≤ placed.1 := by
  induction parts generalizing position with
  | nil => intro placed member; cases member
  | cons part rest ih =>
    intro placed member
    rcases List.mem_cons.mp member with rfl | member
    · exact Nat.le_refl _
    · exact Nat.le_trans (Nat.le_add_right _ _) (ih placed member)

theorem placedFrom_sorted (scope : Option String) (position : Nat) (parts : List Part) :
    (placedFrom scope position parts).Pairwise fun one two => one.1 + widthOf scope one.2 ≤ two.1 := by
  induction parts generalizing position with
  | nil => exact .nil
  | cons part rest ih => exact .cons placedFrom_after (ih _)

-- What a window keeps of a part that begins at an offset.
def keptIn (scope : Option String) (ends : Boundary) (start stop : Nat) (placed : Nat × Part) : List Part :=
  if placed.2.visibleTo scope then (placed.2.between placed.1 start stop).keep
  else if ends.keeps start stop placed.1 then [placed.2] else []

def windowFrom (scope : Option String) (ends : Boundary) (start stop position : Nat) (parts : List Part) : List Part :=
  (placedFrom scope position parts).flatMap (keptIn scope ends start stop)

-- The parts hidden from `scope`, with the offsets at which they stand.
def hiddenFrom (scope : Option String) (position : Nat) (parts : List Part) : List (Nat × Part) :=
  (placedFrom scope position parts).filter fun placed => !placed.2.visibleTo scope

theorem windowFrom_visible (visible : part.visibleTo scope = true) :
    windowFrom scope ends start stop position (part :: rest) =
      (part.between position start stop).keep ++ windowFrom scope ends start stop (position + part.content.length) rest := by
  simp [windowFrom,placedFrom,keptIn,widthOf,visible]

theorem windowFrom_hidden (hidden : part.visibleTo scope = false) :
    windowFrom scope ends start stop position (part :: rest) =
      (if ends.keeps start stop position then [part] else []) ++ windowFrom scope ends start stop position rest := by
  simp [windowFrom,placedFrom,keptIn,widthOf,hidden]

theorem sliceFrom_eq (scope : Option String) (ends : Boundary) (start stop position : Nat) (parts : List Part) :
    sliceFrom scope ends start stop position parts = windowFrom scope ends start stop position parts := by
  induction parts generalizing position with
  | nil => rfl
  | cons part rest ih =>
    cases visible : part.visibleTo scope with
    | false =>
      rw [windowFrom_hidden visible,← ih]
      simp only [sliceFrom,visible,Bool.false_eq_true,↓reduceIte]
      by_cases kept : ends.keeps start stop position = true
      · rw [if_pos kept]
        exact if_pos kept
      · rw [if_neg kept]
        exact if_neg kept
    | true =>
      rw [windowFrom_visible visible,← ih]
      simp only [sliceFrom,visible,↓reduceIte]
      by_cases inside : max position start < min (position + part.content.length) stop
      · have same : part.withContent ((part.content.take (min (position + part.content.length) stop - position)).drop
            (max position start - position)) = part.between position start stop := by
          have last : part.content.take (min (position + part.content.length) stop - position) =
              part.content.take (stop - position) := by
            rw [List.take_eq_take_iff]
            omega
          rw [last,Part.between,show max position start - position = start - position by omega]
        have some : (part.between position start stop).content ≠ [] := by
          simp only [Part.between,Part.content_withContent,ne_eq,List.drop_eq_nil_iff,List.length_take]
          omega
        rw [if_pos inside,same,Part.keep_some some,List.singleton_append]
      · rw [if_neg inside,Part.between_outside (by omega),List.nil_append]

-- A window holds hidden parts as they are and pieces of visible ones.
theorem mem_windowFrom {piece : Part} (member : piece ∈ windowFrom scope ends start stop position parts) :
    ∃ part ∈ parts, piece = part ∨ part.visibleTo scope = true ∧ ∃ t ⊆ part.content, piece = part.withContent t := by
  induction parts generalizing position with
  | nil => cases member
  | cons part rest ih =>
    cases visible : part.visibleTo scope with
    | false =>
      rw [windowFrom_hidden visible] at member
      rcases List.mem_append.mp member with here | later
      · split at here
        · exact ⟨part,by simp,Or.inl (List.mem_singleton.mp here)⟩
        · cases here
      · obtain ⟨kept,isKept,same⟩ := ih later
        exact ⟨kept,List.mem_cons_of_mem _ isKept,same⟩
    | true =>
      rw [windowFrom_visible visible] at member
      rcases List.mem_append.mp member with here | later
      · simp only [Part.keep] at here
        split at here
        · cases here
        · refine ⟨part,by simp,Or.inr ⟨visible,_,?_,List.mem_singleton.mp here⟩⟩
          exact List.Subset.trans (List.drop_subset _ _) (List.take_subset _ _)
      · obtain ⟨kept,isKept,same⟩ := ih later
        exact ⟨kept,List.mem_cons_of_mem _ isKept,same⟩

-- Hidden parts only move the offsets on, so nothing stands before the offset at which the parts begin.
theorem windowFrom_past (before : start < position) (after : stop ≤ position)
    (right : stop = position → ends.right = false) : windowFrom scope ends start stop position parts = [] := by
  induction parts generalizing position with
  | nil => rfl
  | cons part rest ih =>
    cases visible : part.visibleTo scope with
    | true =>
      rw [windowFrom_visible visible,Part.between_outside (by omega),List.nil_append]
      refine ih (by omega) (by omega) fun same => right (by omega)
    | false =>
      have dropped : ends.keeps start stop position = false := by
        simp only [Boundary.keeps,Bool.or_eq_false_iff,Bool.and_eq_false_iff,decide_eq_false_iff_not,beq_eq_false_iff_ne]
        refine ⟨⟨Or.inr (by omega),Or.inl (by omega)⟩,?_⟩
        by_cases same : stop = position
        · exact Or.inr (right same)
        · exact Or.inl (Ne.symm same)
      rw [windowFrom_hidden visible,dropped]
      exact ih before after right

-- A window that begins inside a visible part sees the rest of that part only.
theorem windowFrom_rest {middle : Nat} (visible : part.visibleTo scope = true) (before : position ≤ middle)
    (inside : middle ≤ position + part.content.length) (later : middle ≤ start) :
    windowFrom scope ends start stop position (part :: rest) =
      windowFrom scope ends start stop middle (part.withContent (part.content.drop (middle - position)) :: rest) := by
  have same : part.between position start stop =
      (part.withContent (part.content.drop (middle - position))).between middle start stop := by
    simp only [Part.between,Part.content_withContent,Part.withContent_withContent]
    congr 1
    rw [List.take_drop,List.drop_drop]
    rw [show middle - position + (start - middle) = start - position by omega]
    by_cases reached : middle ≤ stop
    · rw [show middle - position + (stop - middle) = stop - position by omega]
    · rw [List.drop_eq_nil_iff.mpr (by simp; omega),List.drop_eq_nil_iff.mpr (by simp; omega)]
  rw [windowFrom_visible visible,windowFrom_visible (by simpa using visible),same]
  simp only [Part.content_withContent,List.length_drop]
  rw [show middle + (part.content.length - (middle - position)) = position + part.content.length by omega]

theorem hiddenFrom_visible (visible : part.visibleTo scope = true) :
    hiddenFrom scope position (part :: rest) = hiddenFrom scope (position + part.content.length) rest := by
  simp [hiddenFrom,placedFrom,widthOf,visible]

theorem hiddenFrom_hidden (hidden : part.visibleTo scope = false) :
    hiddenFrom scope position (part :: rest) = (position,part) :: hiddenFrom scope position rest := by
  simp [hiddenFrom,placedFrom,widthOf,hidden]

-- A window takes the hidden parts unchanged, by their offsets.
theorem windowFrom_hides (scope : Option String) (ends : Boundary) (start stop position : Nat) (parts : List Part) :
    (windowFrom scope ends start stop position parts).filter (fun part => !part.visibleTo scope) =
      ((hiddenFrom scope position parts).filter fun placed => ends.keeps start stop placed.1).map Prod.snd := by
  induction parts generalizing position with
  | nil => rfl
  | cons part rest ih =>
    cases visible : part.visibleTo scope with
    | false =>
      rw [windowFrom_hidden visible,hiddenFrom_hidden visible,List.filter_append,ih,List.filter_cons]
      cases ends.keeps start stop position <;> simp [visible]
    | true =>
      rw [windowFrom_visible visible,hiddenFrom_visible visible,List.filter_append,ih]
      have none : (part.between position start stop).keep.filter (fun part => !part.visibleTo scope) = [] := by
        rw [Part.keep]
        split <;> simp [Part.between,visible]
      rw [none,List.nil_append]

theorem hiddenFrom_parts (scope : Option String) (position : Nat) (parts : List Part) :
    (hiddenFrom scope position parts).map Prod.snd = parts.filter fun part => !part.visibleTo scope := by
  induction parts generalizing position with
  | nil => rfl
  | cons part rest ih =>
    cases visible : part.visibleTo scope with
    | false => rw [hiddenFrom_hidden visible,List.map_cons,ih,List.filter_cons_of_pos (by simp [visible])]
    | true => rw [hiddenFrom_visible visible,ih,List.filter_cons_of_neg (by simp [visible])]

theorem hiddenFrom_sorted (scope : Option String) (position : Nat) (parts : List Part) :
    (hiddenFrom scope position parts).Pairwise fun one two => one.1 ≤ two.1 :=
  ((placedFrom_sorted scope position parts).imp fun sorted => by omega).filter _

-- In a window the hidden parts stand at offsets counted from its beginning.
theorem hiddenFrom_window (ordered : start ≤ stop) (position : Nat) (parts : List Part) :
    hiddenFrom scope (position - start) (windowFrom scope .neither start stop position parts) =
      ((hiddenFrom scope position parts).filter fun placed => Boundary.neither.keeps start stop placed.1).map
        fun placed => (placed.1 - start,placed.2) := by
  induction parts generalizing position with
  | nil => rfl
  | cons part rest ih =>
    cases visible : part.visibleTo scope with
    | false =>
      rw [windowFrom_hidden visible,hiddenFrom_hidden visible,List.filter_cons]
      split
      · rw [List.singleton_append,hiddenFrom_hidden visible,ih,List.map_cons]
      · exact ih position
    | true =>
      rw [windowFrom_visible visible,hiddenFrom_visible visible,← ih]
      have skip : ∀ behind : List Part, hiddenFrom scope (position - start)
          ((part.between position start stop).keep ++ behind) =
            hiddenFrom scope (position - start + (part.between position start stop).content.length) behind := by
        intro behind
        by_cases empty : (part.between position start stop).content = []
        · simp [Part.keep_empty empty,empty]
        · rw [Part.keep_some empty,List.singleton_append,hiddenFrom_visible (by simpa [Part.between] using visible)]
      rw [skip]
      by_cases inside : position + part.content.length ≤ stop
      · have next : position - start + (part.between position start stop).content.length =
            position + part.content.length - start := by
          simp only [Part.between,Part.content_withContent,List.length_drop,List.length_take]
          omega
        rw [next]
      · rw [windowFrom_past (by omega) (by omega) (by simp [Boundary.neither])]
        rfl

theorem contentOf_nil : contentOf [] = [] := rfl

theorem contentOf_cons (part : Part) (rest : List Part) : contentOf (part :: rest) = part.content ++ contentOf rest :=
  List.flatMap_cons

theorem contentOf_append (one two : List Part) : contentOf (one ++ two) = contentOf one ++ contentOf two :=
  List.flatMap_append

theorem contentOf_keep (part : Part) : contentOf part.keep = part.content := by
  by_cases none : part.content = []
  · rw [Part.keep_empty none,none]
    rfl
  · rw [Part.keep_some none]
    exact List.append_nil _

@[simp] theorem visibleContentOf_nil (scope : Option String) : visibleContentOf scope [] = [] := rfl

theorem visibleContentOf_cons (scope : Option String) (part : Part) (rest : List Part) :
    visibleContentOf scope (part :: rest) =
      (if part.visibleTo scope then part.content else []) ++ visibleContentOf scope rest := by
  cases visible : part.visibleTo scope <;> simp [visibleContentOf,visible]

@[simp] theorem visibleContentOf_append (scope : Option String) (one two : List Part) :
    visibleContentOf scope (one ++ two) = visibleContentOf scope one ++ visibleContentOf scope two := by
  simp [visibleContentOf]

theorem visibleContentOf_keep (scope : Option String) (part : Part) :
    visibleContentOf scope part.keep = if part.visibleTo scope then part.content else [] := by
  by_cases empty : part.content = []
  · simp [Part.keep_empty empty,empty]
  · rw [Part.keep_some empty,visibleContentOf_cons,visibleContentOf_nil,List.append_nil]

theorem hiddenFrom_within {placed : Nat × Part} (hidden : placed ∈ hiddenFrom scope position parts) :
    placed.1 ≤ position + (visibleContentOf scope parts).length := by
  induction parts generalizing position with
  | nil => cases hidden
  | cons part rest ih =>
    rw [visibleContentOf_cons,List.length_append]
    cases visible : part.visibleTo scope with
    | false =>
      rw [hiddenFrom_hidden visible] at hidden
      rcases List.mem_cons.mp hidden with rfl | hidden
      · exact Nat.le_add_right _ _
      · simpa using ih hidden
    | true =>
      rw [hiddenFrom_visible visible] at hidden
      simpa [Nat.add_assoc] using ih hidden

-- What the window shows is what lies between its ends.
theorem visibleContentOf_window (scope : Option String) (ends : Boundary) (start stop position : Nat)
    (parts : List Part) : visibleContentOf scope (windowFrom scope ends start stop position parts) =
      ((visibleContentOf scope parts).take (stop - position)).drop (start - position) := by
  induction parts generalizing position with
  | nil => simp [windowFrom,placedFrom]
  | cons part rest ih =>
    cases visible : part.visibleTo scope with
    | false =>
      rw [windowFrom_hidden visible,visibleContentOf_append,ih,visibleContentOf_cons]
      split <;> simp [visibleContentOf_cons,visible]
    | true =>
      rw [windowFrom_visible visible,visibleContentOf_append,ih,visibleContentOf_cons,visibleContentOf_keep]
      simp only [Part.between,Part.visibleTo_withContent,visible,↓reduceIte,Part.content_withContent]
      rw [List.take_append,List.drop_append,List.length_take]
      congr 1
      by_cases short : stop - position < part.content.length
      · rw [show stop - (position + part.content.length) = 0 by omega,
          show stop - position - part.content.length = 0 by omega]
        simp
      · rw [Nat.min_eq_right (by omega),Nat.sub_sub,Nat.sub_sub]

end Draft
end LightMarkup
