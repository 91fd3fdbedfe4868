import LightMarkup.Proofs.Draft.Splicing

/-!
Atoms: the parts of a draft with every live character as a part of its own. How live text is cut into parts makes no
difference to a construct, so what a window or a splice holds can be said of the atoms.
-/

namespace LightMarkup

def Part.atoms : Part → List Part
  | .fixed content => [.fixed content]
  | .live content excluded => content.map fun c => .live [c] excluded

namespace Draft

variable {scope : Option String} {ends : Boundary} {start stop position : Nat} {part : Part}
  {parts rest front inner back : List Part}

def atoms (parts : List Part) : List Part :=
  parts.flatMap Part.atoms

@[simp] theorem atoms_nil : atoms [] = [] := rfl

@[simp] theorem atoms_cons (part : Part) (rest : List Part) : atoms (part :: rest) = part.atoms ++ atoms rest :=
  List.flatMap_cons

@[simp] theorem atoms_append (parts rest : List Part) : atoms (parts ++ rest) = atoms parts ++ atoms rest :=
  List.flatMap_append

theorem atoms_atoms (parts : List Part) : atoms (atoms parts) = atoms parts := by
  induction parts with
  | nil => rfl
  | cons part rest ih =>
    rw [atoms_cons,atoms_append,ih]
    congr 1
    cases part with
    | fixed content => rfl
    | live content excluded =>
      rw [Part.atoms,atoms,List.flatMap_map]
      exact (List.map_eq_flatMap ..).symm

theorem contentOf_atoms (parts : List Part) : contentOf (atoms parts) = contentOf parts := by
  have one : ∀ part : Part, contentOf part.atoms = part.content := by
    intro part
    cases part with
    | fixed content => simp [Part.atoms,contentOf,Part.content]
    | live content excluded => simp [Part.atoms,contentOf,Part.content,List.flatMap_map]
  have all : ∀ parts rest : List Part, contentOf (parts ++ rest) = contentOf parts ++ contentOf rest := by
    simp [contentOf]
  induction parts with
  | nil => rfl
  | cons part rest ih =>
    rw [atoms_cons,all,one,ih]
    rfl

theorem visibleContentOf_live (scope : Option String) (content : Text) (excluded : Exclusion) (rest : List Part) :
    visibleContentOf scope (content.map (fun c => Part.live [c] excluded) ++ rest) =
      visibleContentOf scope (.live content excluded :: rest) := by
  induction content with
  | nil => simp [visibleContentOf_cons,Part.content]
  | cons c content ih =>
    rw [List.map_cons,List.cons_append,visibleContentOf_cons,ih,visibleContentOf_cons,visibleContentOf_cons]
    have same : ∀ t u : Text, (Part.live t excluded).visibleTo scope = (Part.live u excluded).visibleTo scope := by
      intro t u
      cases scope <;> rfl
    rw [same [c] content,same (c :: content) content]
    split <;> simp [Part.content]

theorem visibleContentOf_atoms (scope : Option String) (parts : List Part) :
    visibleContentOf scope (atoms parts) = visibleContentOf scope parts := by
  induction parts with
  | nil => rfl
  | cons part rest ih =>
    cases part with
    | fixed content => rw [atoms_cons,Part.atoms,List.singleton_append,visibleContentOf_cons,visibleContentOf_cons,ih]
    | live content excluded =>
      rw [atoms_cons,Part.atoms,visibleContentOf_live,visibleContentOf_cons,visibleContentOf_cons,ih]

theorem windowFrom_append (scope : Option String) (ends : Boundary) (start stop position : Nat) (parts rest : List Part) :
    windowFrom scope ends start stop position (parts ++ rest) =
      windowFrom scope ends start stop position parts ++
        windowFrom scope ends start stop (position + (visibleContentOf scope parts).length) rest := by
  induction parts generalizing position with
  | nil => rfl
  | cons part parts ih =>
    cases visible : part.visibleTo scope with
    | false =>
      rw [List.cons_append,windowFrom_hidden visible,windowFrom_hidden visible,ih,visibleContentOf_cons]
      simp [visible]
    | true =>
      rw [List.cons_append,windowFrom_visible visible,windowFrom_visible visible,ih,visibleContentOf_cons]
      simp [visible,Nat.add_assoc]

theorem take_drop_cons (c : Char) (t : Text) : ((c :: t).take (stop - position)).drop (start - position) =
    (if start ≤ position ∧ position < stop then [c] else []) ++ (t.take (stop - (position + 1))).drop (start - (position + 1)) := by
  by_cases before : position < stop
  · rw [show stop - position = stop - (position + 1) + 1 by omega,List.take_succ_cons]
    by_cases behind : start ≤ position
    · rw [if_pos ⟨behind,before⟩,show start - position = 0 by omega,show start - (position + 1) = 0 by omega]
      rfl
    · rw [if_neg (by omega),show start - position = start - (position + 1) + 1 by omega,List.drop_succ_cons]
      rfl
  · rw [if_neg (by omega),show stop - position = 0 by omega,show stop - (position + 1) = 0 by omega]
    simp

theorem atoms_keep (content : Text) (excluded : Exclusion) :
    atoms (Part.live content excluded).keep = content.map fun c => .live [c] excluded := by
  cases content <;> simp [Part.keep,Part.content,Part.atoms]

theorem windowFrom_live (content : Text) (excluded : Exclusion) :
    windowFrom scope ends start stop position (Part.live content excluded).atoms =
      atoms (windowFrom scope ends start stop position [.live content excluded]) := by
  have empty : ∀ position, windowFrom scope ends start stop position [] = [] := fun _ => rfl
  have one : ∀ t u : Text, (Part.live t excluded).visibleTo scope = (Part.live u excluded).visibleTo scope := by
    intro t u
    cases scope <;> rfl
  cases visible : (Part.live content excluded).visibleTo scope with
  | false =>
    rw [windowFrom_hidden visible,empty,List.append_nil]
    have all : ∀ t : Text, windowFrom scope ends start stop position (t.map fun c => .live [c] excluded) =
        if ends.keeps start stop position then t.map fun c => .live [c] excluded else [] := by
      intro t
      induction t with
      | nil => simp [empty]
      | cons c t ih =>
        rw [List.map_cons,windowFrom_hidden (one [c] content ▸ visible),ih]
        split <;> rfl
    rw [Part.atoms,all]
    split <;> simp [Part.atoms]
  | true =>
    rw [windowFrom_visible visible,empty,List.append_nil,Part.between,Part.withContent,atoms_keep,Part.atoms]
    have all : ∀ (t : Text) position, windowFrom scope ends start stop position (t.map fun c => .live [c] excluded) =
        ((t.take (stop - position)).drop (start - position)).map fun c => .live [c] excluded := by
      intro t
      induction t with
      | nil => simp [empty]
      | cons c t ih =>
        intro position
        rw [List.map_cons,windowFrom_visible (one [c] content ▸ visible),ih,take_drop_cons,List.map_append]
        congr 1
        have here : ([c].take (stop - position)).drop (start - position) =
            if start ≤ position ∧ position < stop then [c] else [] := by
          simpa using take_drop_cons c []
        rw [Part.between,Part.withContent,Part.content,here]
        split <;> simp [Part.keep,Part.content]
    exact all content position

-- The atoms of a window are the window of the atoms.
theorem atoms_window (scope : Option String) (ends : Boundary) (start stop position : Nat) (parts : List Part) :
    atoms (windowFrom scope ends start stop position parts) = windowFrom scope ends start stop position (atoms parts) := by
  induction parts generalizing position with
  | nil => rfl
  | cons part rest ih =>
    have width : (visibleContentOf scope [part]).length = (visibleContentOf scope part.atoms).length := by
      rw [← visibleContentOf_atoms scope [part],atoms_cons,atoms_nil,List.append_nil]
    rw [atoms_cons,windowFrom_append,← List.singleton_append,windowFrom_append,atoms_append,ih,width]
    congr 1
    cases part with
    | fixed content =>
      rw [Part.atoms,windowFrom_hidden rfl]
      split <;> rfl
    | live content excluded => exact (windowFrom_live content excluded).symm

-- What ends before a window is not in it. A hidden part that stands where the window begins may be.
theorem windowFrom_front (reach : position + (visibleContentOf scope front).length ≤ start) (ordered : start ≤ stop)
    (left : position + (visibleContentOf scope front).length = start → ends.left = false ∧ start < stop) :
    windowFrom scope ends start stop position front = [] := by
  induction front generalizing position with
  | nil => rfl
  | cons part rest ih =>
    rw [visibleContentOf_cons,List.length_append] at reach left
    cases visible : part.visibleTo scope with
    | true =>
      simp only [visible,↓reduceIte] at reach left
      rw [windowFrom_visible visible,Part.between_outside (by omega),List.nil_append]
      exact ih (by omega) fun end_ => left (by omega)
    | false =>
      simp only [visible,Bool.false_eq_true,↓reduceIte,List.length_nil,Nat.zero_add] at reach left
      have dropped : ends.keeps start stop position = false := by
        simp only [Boundary.keeps,Bool.or_eq_false_iff,Bool.and_eq_false_iff,decide_eq_false_iff_not,beq_eq_false_iff_ne]
        refine ⟨⟨Or.inl (by omega),?_⟩,Or.inl ?_⟩
        · by_cases here : position = start
          · exact Or.inr (left (by omega)).1
          · exact Or.inl here
        · intro here
          have open_ := (left (by omega)).2
          omega
      rw [windowFrom_hidden visible,dropped,ih reach left]
      rfl

-- What lies in a window is kept if the window keeps the hidden parts of it.
theorem windowFrom_inner (some : ∀ part ∈ inner, part.visibleTo scope = true → part.content ≠ []) (after : start ≤ position)
    (before : position + (visibleContentOf scope inner).length ≤ stop)
    (keeps : ∀ placed ∈ hiddenFrom scope position inner, ends.keeps start stop placed.1 = true) :
    windowFrom scope ends start stop position inner = inner := by
  induction inner generalizing position with
  | nil => rfl
  | cons part rest ih =>
    obtain ⟨here,others⟩ := List.forall_mem_cons.mp some
    rw [visibleContentOf_cons,List.length_append] at before
    cases visible : part.visibleTo scope with
    | true =>
      simp only [visible,↓reduceIte] at before
      rw [hiddenFrom_visible visible] at keeps
      rw [windowFrom_visible visible,Part.between_whole after (by omega),Part.keep_some (here visible),
        ih others (by omega) (by omega) keeps]
      rfl
    | false =>
      simp only [visible,Bool.false_eq_true,↓reduceIte,List.length_nil,Nat.zero_add] at before
      rw [hiddenFrom_hidden visible] at keeps
      obtain ⟨kept,later⟩ := List.forall_mem_cons.mp keeps
      rw [windowFrom_hidden visible,if_pos kept,ih others after before later]
      rfl

theorem atoms_some : ∀ part ∈ atoms parts, part.visibleTo scope = true → part.content ≠ [] := by
  intro part member visible
  obtain ⟨whole,_,inside⟩ := List.mem_flatMap.mp member
  cases whole with
  | fixed content =>
    cases List.mem_singleton.mp inside
    cases visible
  | live content excluded =>
    obtain ⟨c,_,rfl⟩ := List.mem_map.mp inside
    exact List.cons_ne_nil _ _

-- No hidden part stands at an edge: the parts end, or begin, with a visible one.
def Shuts (scope : Option String) (parts : List Part) : Prop :=
  ∀ part ∈ parts.getLast?, part.visibleTo scope = true

def Opens (scope : Option String) (parts : List Part) : Prop :=
  ∀ part ∈ parts.head?, part.visibleTo scope = true

theorem windowFrom_shut (some : ∀ part ∈ front, part.visibleTo scope = true → part.content ≠ [])
    (shuts : Shuts scope front) (reach : position + (visibleContentOf scope front).length ≤ start)
    (ordered : start ≤ stop) : windowFrom scope ends start stop position front = [] := by
  rcases List.eq_nil_or_concat front with rfl | ⟨others,part,rfl⟩
  · rfl
  · rw [List.concat_eq_append] at *
    have visible : part.visibleTo scope = true := shuts part (by simp)
    have positive := List.length_pos_iff.mpr (some part (by simp) visible)
    rw [visibleContentOf_append,visibleContentOf_cons,List.length_append] at reach
    simp only [visible,↓reduceIte,visibleContentOf_nil,List.append_nil] at reach
    rw [windowFrom_append,windowFrom_front (by omega) ordered fun end_ => by omega,windowFrom_visible visible,
      Part.between_outside (by omega)]
    rfl

theorem windowFrom_open (some : ∀ part ∈ back, part.visibleTo scope = true → part.content ≠ [])
    (opens : Opens scope back) (reach : stop ≤ position) (ordered : start ≤ stop) :
    windowFrom scope ends start stop position back = [] := by
  cases back with
  | nil => rfl
  | cons part others =>
    have visible : part.visibleTo scope = true := opens part rfl
    have positive := List.length_pos_iff.mpr (some part (by simp) visible)
    rw [windowFrom_visible visible,Part.between_outside (by omega),
      windowFrom_past (by omega) (by omega) fun end_ => by omega]
    rfl

-- Between what ends where the window begins and what begins where it ends.
theorem window_between (whole : atoms parts = front ++ (inner ++ back))
    (begins : (visibleContentOf scope front).length = start)
    (stops : start + (visibleContentOf scope inner).length = stop)
    (left : Shuts scope front ∨ ends.left = false ∧ start < stop)
    (right : Opens scope back ∨ ends.right = false ∧ start < stop)
    (keeps : ∀ placed ∈ hiddenFrom scope start inner, ends.keeps start stop placed.1 = true) :
    atoms (windowFrom scope ends start stop 0 parts) = inner := by
  have some : ∀ part ∈ front ++ (inner ++ back), part.visibleTo scope = true → part.content ≠ [] :=
    whole ▸ atoms_some
  simp only [List.forall_mem_append] at some
  obtain ⟨someFront,someInner,someBack⟩ := some
  have before : windowFrom scope ends start stop 0 front = [] := by
    rcases left with shuts | ⟨open_,proper⟩
    · exact windowFrom_shut someFront shuts (by omega) (by omega)
    · exact windowFrom_front (by omega) (by omega) fun _ => ⟨open_,proper⟩
  have behind : windowFrom scope ends start stop stop back = [] := by
    rcases right with opens | ⟨open_,proper⟩
    · exact windowFrom_open someBack opens (Nat.le_refl _) (by omega)
    · exact windowFrom_past proper (Nat.le_refl _) fun _ => open_
  rw [atoms_window,whole,windowFrom_append,windowFrom_append,before,Nat.zero_add,begins,stops,behind,
    windowFrom_inner someInner (Nat.le_refl _) (Nat.le_of_eq stops) keeps]
  simp

-- Between two matches the hidden parts at both ends stay.
theorem stretch_atoms (whole : atoms parts = front ++ (inner ++ back))
    (begins : (visibleContentOf scope front).length = start)
    (stops : start + (visibleContentOf scope inner).length = stop) (shuts : Shuts scope front)
    (opens : Opens scope back) : atoms (stretch scope parts start stop) = inner := by
  refine window_between whole begins stops (Or.inl shuts) (Or.inl opens) fun placed hidden => ?_
  have bound := hiddenFrom_within hidden
  exact (Boundary.keeps_both (by omega)).mpr ⟨placedFrom_after _ (List.mem_filter.mp hidden).1,by omega⟩

theorem hiddenFrom_append (scope : Option String) (position : Nat) (parts rest : List Part) :
    hiddenFrom scope position (parts ++ rest) =
      hiddenFrom scope position parts ++ hiddenFrom scope (position + (visibleContentOf scope parts).length) rest := by
  induction parts generalizing position with
  | nil => rfl
  | cons part parts ih =>
    rw [List.cons_append,visibleContentOf_cons]
    cases visible : part.visibleTo scope with
    | true => simp [hiddenFrom_visible visible,ih,Nat.add_assoc]
    | false => simp [hiddenFrom_hidden visible,ih]

-- A match that begins and ends with visible text holds the hidden parts in between.
theorem matchedAt_atoms (whole : atoms parts = front ++ (inner ++ back))
    (begins : (visibleContentOf scope front).length = start)
    (stops : start + (visibleContentOf scope inner).length = stop) (some : inner ≠ []) (opens : Opens scope inner)
    (shuts : Shuts scope inner) : atoms (matchedAt scope parts (start,stop)) = inner := by
  have filled : ∀ part ∈ front ++ (inner ++ back), part.visibleTo scope = true → part.content ≠ [] :=
    whole ▸ atoms_some
  have first : ∀ placed ∈ hiddenFrom scope start inner, start < placed.1 := by
    intro placed hidden
    cases inner with
    | nil => cases hidden
    | cons part others =>
      have visible : part.visibleTo scope = true := opens part rfl
      have positive := List.length_pos_iff.mpr (filled part (by simp) visible)
      rw [hiddenFrom_visible visible] at hidden
      have after := placedFrom_after _ (List.mem_filter.mp hidden).1
      omega
  have last : ∀ placed ∈ hiddenFrom scope start inner, placed.1 < stop := by
    intro placed hidden
    obtain ⟨others,part,rfl⟩ := (List.eq_nil_or_concat inner).resolve_left some
    rw [List.concat_eq_append] at *
    have visible : part.visibleTo scope = true := shuts part (by simp)
    have positive := List.length_pos_iff.mpr (filled part (by simp) visible)
    rw [hiddenFrom_append,hiddenFrom_visible visible] at hidden
    have bound := hiddenFrom_within ((List.mem_append.mp hidden).resolve_right List.not_mem_nil)
    rw [visibleContentOf_append,visibleContentOf_cons,List.length_append] at stops
    simp only [visible,↓reduceIte,visibleContentOf_nil,List.append_nil] at stops
    omega
  have proper : start < stop := by
    cases inner with
    | nil => exact absurd rfl some
    | cons part others =>
      have visible : part.visibleTo scope = true := opens part rfl
      have positive := List.length_pos_iff.mpr (filled part (by simp) visible)
      rw [visibleContentOf_cons,List.length_append] at stops
      simp only [visible,↓reduceIte] at stops
      omega
  exact window_between whole begins stops (Or.inr ⟨rfl,proper⟩) (Or.inr ⟨rfl,proper⟩) fun placed hidden =>
    Boundary.keeps_neither.mpr ⟨first placed hidden,last placed hidden⟩

theorem slice_both {d : Draft} (ordered : start ≤ stop) (within : stop ≤ d.visibleContent.length) :
    d.slice start stop .both = .ok (windowFrom d.scope .both start stop 0 d.parts) := by
  simp only [slice,Boundary.both,↓reduceIte]
  rw [if_neg (by omega),if_neg (by omega),if_neg (by omega),← sliceFrom_eq]

end Draft
end LightMarkup
