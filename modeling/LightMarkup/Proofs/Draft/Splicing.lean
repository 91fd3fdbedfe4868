import LightMarkup.Proofs.Draft.Windows
import LightMarkup.Proofs.Logged
import LightMarkup.Proofs.Pattern.Following

/-!
Splicing: how the matches of a construct are cut out of a draft and what is put in their place. Between the matches
stand windows that keep the hidden parts at their ends, and a match takes the window that leaves them out.
-/

namespace LightMarkup
namespace Draft

variable {scope : Option String} {first last position start stop : Nat} {part : Part} {parts rest pieces : List Part}
  {spans : List (Nat × Nat)}

-- Pieces that the parts are cut into: hidden parts stay whole, and what is empty is dropped.
inductive Cuts (scope : Option String) : List Part → List Part → Prop where
  | nil : Cuts scope [] []
  | hidden {part : Part} {parts pieces : List Part} (hidden : part.visibleTo scope = false)
      (later : Cuts scope parts pieces) : Cuts scope (part :: parts) (part :: pieces)
  | visible {part : Part} {parts pieces : List Part} (contents : List Text) (visible : part.visibleTo scope = true)
      (some : ∀ t ∈ contents, t ≠ []) (whole : contents.flatten = part.content) (later : Cuts scope parts pieces) :
      Cuts scope (part :: parts) (contents.map (fun t => part.withContent t) ++ pieces)

-- The cuts as the matches prescribe them. `first` is where the match before ended.
def layout (scope : Option String) (position : Nat) (parts : List Part) (last : Nat) : Nat → List (Nat × Nat) → List Cut
  | first, [] => (windowFrom scope .both first last position parts).map .outside
  | first, (start, stop) :: spans =>
    (windowFrom scope .both first start position parts).map .outside ++
      ((windowFrom scope .neither start stop position parts).map .inside ++
        .close :: layout scope position parts last stop spans)

-- The first match may have begun, but it goes on at `position`.
def Ahead (position : Nat) (spans : List (Nat × Nat)) : Prop :=
  ∀ span ∈ spans.head?, position < span.2

theorem ahead_ordered (ordered : InOrder first last spans) : Ahead first spans := by
  intro span member
  cases spans with
  | nil => cases member
  | cons next spans =>
    cases Option.some.inj member
    exact Nat.lt_of_le_of_lt ordered.1 ordered.2.1

theorem layout_congr {position' : Nat} {parts' : List Part} (ordered : InOrder first last spans)
    (same : ∀ ends start stop, first ≤ start → start ≤ stop →
      windowFrom scope ends start stop position parts = windowFrom scope ends start stop position' parts') :
    layout scope position parts last first spans = layout scope position' parts' last first spans := by
  induction spans generalizing first with
  | nil => rw [layout,layout,same _ _ _ (Nat.le_refl _) ordered]
  | cons span spans ih =>
    obtain ⟨start,stop⟩ := span
    obtain ⟨before,some,after⟩ := ordered
    simp only [layout]
    rw [same _ _ _ (Nat.le_refl _) before,same _ _ _ before (Nat.le_of_lt some)]
    rw [ih after fun ends start' stop' later => same ends start' stop' (by omega)]

theorem keepSome_eq (kind : Part → Cut) (part : Part) : keepSome kind part = part.keep.map kind := by
  rw [keepSome,Part.keep]
  split <;> rfl

theorem layout_hidden (hidden : part.visibleTo scope = false) (ordered : InOrder first last spans)
    (before : first ≤ position) (after : position ≤ last) (ahead : Ahead position spans) :
    layout scope position (part :: rest) last first spans =
      (if (match spans with | [] => false | (start, _) :: _ => decide (start < position)) then .inside part
        else .outside part) :: layout scope position rest last first spans := by
  cases spans with
  | nil =>
    have kept : Boundary.both.keeps first last position = true :=
      (Boundary.keeps_both ordered).mpr ⟨before,after⟩
    simp [layout,windowFrom_hidden hidden,kept]
  | cons span spans =>
    obtain ⟨start,stop⟩ := span
    obtain ⟨earlier,some,later⟩ := ordered
    have open_ : position < stop := ahead (start,stop) rfl
    -- The match that is not closed yet ends after the hidden part, so no later window keeps it.
    have others : layout scope position (part :: rest) last stop spans = layout scope position rest last stop spans := by
      refine layout_congr later fun ends start' stop' far ordered => ?_
      have dropped : ends.keeps start' stop' position = false := by
        simp [Boundary.keeps]
        omega
      rw [windowFrom_hidden hidden,dropped]
      rfl
    simp only [layout,others,windowFrom_hidden hidden]
    by_cases begun : start < position
    · have outer : Boundary.both.keeps first start position = false := by
        rw [Bool.eq_false_iff,ne_eq,Boundary.keeps_both earlier]
        omega
      have inner : Boundary.neither.keeps start stop position = true := Boundary.keeps_neither.mpr ⟨begun,open_⟩
      have none : windowFrom scope .both first start position rest = [] :=
        windowFrom_past (by omega) (by omega) (by omega)
      simp [begun,outer,inner,none]
    · have outer : Boundary.both.keeps first start position = true :=
        (Boundary.keeps_both earlier).mpr ⟨before,by omega⟩
      have inner : Boundary.neither.keeps start stop position = false := by
        rw [Bool.eq_false_iff,ne_eq,Boundary.keeps_neither]
        omega
      simp [begun,outer,inner]

theorem between_outer (before : first ≤ position) :
    part.between position first start = part.withContent (part.content.take (start - position)) := by
  rw [Part.between,show first - position = 0 by omega,List.drop_zero]

theorem between_inner : part.between position start stop =
    part.withContent ((part.content.drop (start - position)).take (stop - max position start)) := by
  rw [Part.between,List.drop_take,show stop - position - (start - position) = stop - max position start by omega]

-- A match that goes on behind a part leaves the matches behind it to the rest.
theorem layout_open (visible : part.visibleTo scope = true) (ordered : InOrder first last ((start,stop) :: spans))
    (before : first ≤ position) (open_ : position + part.content.length < stop) :
    layout scope position (part :: rest) last first ((start,stop) :: spans) =
      (cutVisible part position ((start,stop) :: spans)).1 ++
        layout scope (position + part.content.length) rest last first ((start,stop) :: spans) := by
  obtain ⟨earlier,some,later⟩ := ordered
  have others : layout scope position (part :: rest) last stop spans =
      layout scope (position + part.content.length) rest last stop spans := by
    refine layout_congr later fun ends start' stop' far ordered => ?_
    rw [windowFrom_visible visible,Part.between_outside (by omega),List.nil_append]
  simp only [layout,others,windowFrom_visible visible,cutVisible,open_,↓reduceIte,keepSome_eq,between_outer before,
    between_inner,List.map_append,List.append_assoc]
  -- Either the match has not begun in this part, or nothing lies outside it behind the part.
  by_cases inside : start < position + part.content.length
  · have gone : windowFrom scope .both first start (position + part.content.length) rest = [] :=
      windowFrom_past (by omega) (by omega) (by omega)
    simp [gone]
  · rw [← between_inner,Part.between_outside (by omega)]
    simp

-- A match that ends in a part leaves the rest of the part to the matches behind it.
theorem layout_closed (visible : part.visibleTo scope = true) (ordered : InOrder first last ((start,stop) :: spans))
    (before : first ≤ position) (begun : position < stop) (closed : stop ≤ position + part.content.length) :
    layout scope position (part :: rest) last first ((start,stop) :: spans) =
      keepSome .outside (part.withContent (part.content.take (start - position))) ++
        keepSome .inside (part.withContent ((part.content.drop (start - position)).take (stop - max position start))) ++
        .close :: layout scope stop (part.withContent (part.content.drop (stop - position)) :: rest) last stop spans := by
  obtain ⟨earlier,some,later⟩ := ordered
  have others : layout scope position (part :: rest) last stop spans =
      layout scope stop (part.withContent (part.content.drop (stop - position)) :: rest) last stop spans :=
    layout_congr later fun ends start' stop' far ordered => windowFrom_rest visible (Nat.le_of_lt begun) closed far
  have outside : windowFrom scope .both first start (position + part.content.length) rest = [] :=
    windowFrom_past (by omega) (by omega) (by omega)
  have inside : windowFrom scope .neither start stop (position + part.content.length) rest = [] :=
    windowFrom_past (by omega) (by omega) (by simp [Boundary.neither])
  rw [layout,others,windowFrom_visible visible,windowFrom_visible visible,outside,inside]
  simp [between_outer before,between_inner,keepSome_eq]

-- One visible part is cut as the layout says up to its end, and the matches that are left go on behind it.
theorem cutVisible_layout (rest : List Part) (visible : part.visibleTo scope = true) (ordered : InOrder first last spans)
    (before : first ≤ position) (after : position + part.content.length ≤ last) (ahead : Ahead position spans) :
    ∃ next, next ≤ position + part.content.length ∧ InOrder next last (cutVisible part position spans).2 ∧
      Ahead (position + part.content.length) (cutVisible part position spans).2 ∧
      layout scope position (part :: rest) last first spans =
        (cutVisible part position spans).1 ++
          layout scope (position + part.content.length) rest last next (cutVisible part position spans).2 := by
  induction spans generalizing part position first with
  | nil =>
    refine ⟨first,by omega,ordered,by simp [cutVisible,Ahead],?_⟩
    simp only [cutVisible,layout,windowFrom_visible visible,keepSome_eq,Part.between_whole before after,List.map_append]
  | cons span spans ih =>
    obtain ⟨start,stop⟩ := span
    have begun : position < stop := ahead (start,stop) rfl
    by_cases open_ : position + part.content.length < stop
    · have left : (cutVisible part position ((start,stop) :: spans)).2 = (start,stop) :: spans := by
        simp [cutVisible,open_]
      rw [left]
      refine ⟨first,by omega,ordered,?_,layout_open visible ordered before open_⟩
      simpa [Ahead] using open_
    · have some : start < stop := ordered.2.1
      have later := ordered.2.2
      have remainder : part.withContent ((part.content.drop (start - position)).drop (stop - max position start)) =
          part.withContent (part.content.drop (stop - position)) := by
        rw [List.drop_drop,show start - position + (stop - max position start) = stop - position by omega]
      have seen : (part.withContent (part.content.drop (stop - position))).visibleTo scope = true := by
        simpa using visible
      have end_ : stop + (part.withContent (part.content.drop (stop - position))).content.length =
          position + part.content.length := by
        rw [Part.content_withContent,List.length_drop]
        omega
      obtain ⟨next,near,orderedNext,aheadNext,same⟩ :=
        ih seen later (Nat.le_refl _) (by omega) (ahead_ordered later)
      rw [end_] at near aheadNext same
      simp only [cutVisible,open_,↓reduceIte,remainder]
      refine ⟨next,near,orderedNext,aheadNext,?_⟩
      rw [layout_closed visible ordered before begun (by omega),same]
      simp

-- The walk over the parts cuts them as the matches prescribe.
theorem cutFrom_layout (ordered : InOrder first last spans) (before : first ≤ position) (ahead : Ahead position spans)
    (whole : last = position + (visibleContentOf scope parts).length) :
    cutFrom scope position spans parts = layout scope position parts last first spans := by
  induction parts generalizing position first spans with
  | nil =>
    cases spans with
    | nil => rfl
    | cons span spans =>
      obtain ⟨start,stop⟩ := span
      have open_ : position < stop := ahead (start,stop) rfl
      have bound := ordered.2.2.le
      simp at whole
      omega
  | cons part rest ih =>
    rw [visibleContentOf_cons,List.length_append] at whole
    cases visible : part.visibleTo scope with
    | false =>
      simp only [visible,Bool.false_eq_true,↓reduceIte,List.length_nil,Nat.zero_add] at whole
      rw [layout_hidden visible ordered before (by omega) ahead,← ih ordered before ahead whole]
      cases spans <;> simp only [cutFrom,visible,Bool.false_eq_true,↓reduceIte]
    | true =>
      simp only [visible,↓reduceIte] at whole
      obtain ⟨next,near,orderedNext,aheadNext,same⟩ :=
        cutVisible_layout rest visible ordered before (by omega) ahead
      rw [same,← ih orderedNext near aheadNext (by omega)]
      simp only [cutFrom,visible,↓reduceIte]

def Cut.part? : Cut → Option Part
  | .outside part => some part
  | .inside part => some part
  | .close => none

theorem keepSome_parts (kind : Part → Cut) (same : ∀ part, (kind part).part? = some part) (part : Part) :
    (keepSome kind part).filterMap Cut.part? = part.keep := by
  rw [keepSome_eq,List.filterMap_map]
  have identity : Cut.part? ∘ kind = some := funext same
  rw [identity,List.filterMap_some]

theorem cutVisible_cuts (part : Part) (position : Nat) (spans : List (Nat × Nat)) :
    ∃ contents : List Text, (cutVisible part position spans).1.filterMap Cut.part? =
        contents.map (fun t => part.withContent t) ∧ (∀ t ∈ contents, t ≠ []) ∧ contents.flatten = part.content := by
  have kept : ∀ t, ∃ contents : List Text, (part.withContent t).keep = contents.map (fun t => part.withContent t) ∧
      (∀ t ∈ contents, t ≠ []) ∧ contents.flatten = t := by
    intro t
    by_cases empty : t = []
    · exact ⟨[],by simp [Part.keep,empty],by simp,by simp [empty]⟩
    · exact ⟨[t],by simp [Part.keep,empty],by simpa using empty,by simp⟩
  induction spans generalizing part position with
  | nil =>
    simp only [cutVisible,keepSome_parts Cut.outside fun _ => rfl]
    simpa using kept part.content
  | cons span spans ih =>
    obtain ⟨start,stop⟩ := span
    obtain ⟨before,keptBefore,someBefore,wholeBefore⟩ := kept (part.content.take (start - position))
    obtain ⟨inner,keptInner,someInner,wholeInner⟩ :=
      kept ((part.content.drop (start - position)).take (stop - max position start))
    by_cases closes : position + part.content.length < stop
    · refine ⟨before ++ inner,?_,?_,?_⟩
      · simp only [cutVisible,closes,↓reduceIte,List.filterMap_append,keepSome_parts Cut.outside fun _ => rfl,
          keepSome_parts Cut.inside fun _ => rfl,keptBefore,keptInner,List.map_append]
      · simpa [or_imp,forall_and] using ⟨someBefore,someInner⟩
      · have all : (part.content.drop (start - position)).take (stop - max position start) =
            part.content.drop (start - position) := List.take_of_length_le (by simp; omega)
        rw [List.flatten_append,wholeBefore,wholeInner,all,List.take_append_drop]
    · obtain ⟨after,keptAfter,someAfter,wholeAfter⟩ :=
        ih (part.withContent ((part.content.drop (start - position)).drop (stop - max position start))) stop
          (by simpa using kept)
      refine ⟨before ++ (inner ++ after),?_,?_,?_⟩
      · simp only [cutVisible,closes,↓reduceIte,List.filterMap_append,keepSome_parts Cut.outside fun _ => rfl,
          keepSome_parts Cut.inside fun _ => rfl,keptBefore,keptInner,List.map_append,List.append_assoc]
        rw [List.filterMap_cons_none (by rfl),keptAfter]
        simp
      · simpa [or_imp,forall_and] using ⟨someBefore,someInner,someAfter⟩
      · rw [List.flatten_append,List.flatten_append,wholeBefore,wholeInner,wholeAfter]
        rw [Part.content_withContent,List.take_append_drop,List.take_append_drop]

theorem cutFrom_cuts (scope : Option String) (position : Nat) (spans : List (Nat × Nat)) (parts : List Part) :
    Cuts scope parts ((cutFrom scope position spans parts).filterMap Cut.part?) := by
  induction parts generalizing position spans with
  | nil => cases spans <;> exact .nil
  | cons part rest ih =>
    cases visible : part.visibleTo scope with
    | false =>
      have same : ∀ begun : Bool, (if begun then Cut.inside part else .outside part).part? = some part := by
        intro begun
        cases begun <;> rfl
      simp only [cutFrom,visible,Bool.false_eq_true,↓reduceIte]
      rw [List.filterMap_cons_some (same _)]
      exact .hidden visible (ih position spans)
    | true =>
      obtain ⟨contents,kept,some,whole⟩ := cutVisible_cuts part position spans
      simp only [cutFrom,visible,↓reduceIte,List.filterMap_append,kept]
      exact .visible contents visible some whole (ih _ _)

-- What a match takes, and what stands between two matches.
def matchedAt (scope : Option String) (parts : List Part) (span : Nat × Nat) : List Part :=
  windowFrom scope .neither span.1 span.2 0 parts

def stretch (scope : Option String) (parts : List Part) (first last : Nat) : List Part :=
  windowFrom scope .both first last 0 parts

-- The stretches around the matches, with an output in the place of each match.
def spliced (scope : Option String) (parts : List Part) (last : Nat) : Nat → List (Nat × Nat) → List (List Part) → List Part
  | first, (start, stop) :: spans, out :: outs =>
    stretch scope parts first start ++ (out ++ spliced scope parts last stop spans outs)
  | first, _, _ => stretch scope parts first last

theorem mem_spliced {outs : List (List Part)} (member : part ∈ spliced scope parts last first spans outs) :
    (∃ start stop, part ∈ stretch scope parts start stop) ∨ ∃ out ∈ outs, part ∈ out := by
  induction outs generalizing first spans with
  | nil =>
    cases spans <;> exact Or.inl ⟨_,_,member⟩
  | cons out outs ih =>
    cases spans with
    | nil => exact Or.inl ⟨_,_,member⟩
    | cons span spans =>
      simp only [spliced,List.mem_append] at member
      rcases member with before | here | later
      · exact Or.inl ⟨_,_,before⟩
      · exact Or.inr ⟨out,by simp,here⟩
      · rcases ih later with outside | ⟨other,isOther,inside⟩
        · exact Or.inl outside
        · exact Or.inr ⟨other,List.mem_cons_of_mem _ isOther,inside⟩

theorem layout_parts (scope : Option String) (parts : List Part) (last first : Nat) (spans : List (Nat × Nat)) :
    (layout scope 0 parts last first spans).filterMap Cut.part? =
      spliced scope parts last first spans (spans.map (matchedAt scope parts)) := by
  have outer : ∀ parts : List Part, (parts.map Cut.outside).filterMap Cut.part? = parts := by
    intro parts
    simp [List.filterMap_map,Function.comp_def,Cut.part?]
  have inner : ∀ parts : List Part, (parts.map Cut.inside).filterMap Cut.part? = parts := by
    intro parts
    simp [List.filterMap_map,Function.comp_def,Cut.part?]
  induction spans generalizing first with
  | nil => exact outer _
  | cons span spans ih =>
    simp only [layout,List.filterMap_append,outer,inner,List.map_cons,spliced]
    rw [List.filterMap_cons_none (by rfl),ih]
    rfl

variable {construct : String} {rewrite : List Part → Logged (List Part)} {d : Draft}

theorem splice_outside (pending parts : List Part) (cuts : List Cut) :
    splice construct rewrite pending (parts.map .outside ++ cuts) = (do
      let rest ← splice construct rewrite pending cuts
      pure (parts ++ rest)) := by
  induction parts with
  | nil => simp
  | cons part parts ih =>
    rw [List.map_cons,List.cons_append,splice,ih]
    simp

theorem splice_inside (pending parts : List Part) (cuts : List Cut) :
    splice construct rewrite pending (parts.map .inside ++ cuts) = splice construct rewrite (pending ++ parts) cuts := by
  induction parts generalizing pending with
  | nil => simp
  | cons part parts ih =>
    rw [List.map_cons,List.cons_append,splice,ih,List.append_assoc,List.singleton_append]

-- Each match is rewritten once, in order, and no match is left open at the end.
theorem splice_layout (scope : Option String) (parts : List Part) (last first : Nat) (spans : List (Nat × Nat)) :
    splice construct rewrite [] (layout scope 0 parts last first spans) = (do
      let outs ← spans.mapM fun span => rewrite (matchedAt scope parts span)
      pure (spliced scope parts last first spans outs)) := by
  induction spans generalizing first with
  | nil =>
    have none : splice construct rewrite [] [] = pure [] := rfl
    rw [layout,← List.append_nil (List.map _ _),splice_outside,none]
    simp [spliced,stretch]
  | cons span spans ih =>
    simp only [layout,splice_outside,splice_inside,List.nil_append,splice,ih,List.mapM_cons,bind_assoc,pure_bind]
    rfl

-- How a draft is rewritten at the spans of its matches, whatever the rewrite does.
structure Splices (construct : String) (spans : List (Nat × Nat)) (d : Draft) : Prop where
  -- A match is handed over as a text of its own, of which the construct sees what lies in the span.
  sees : ∀ span ∈ spans, visibleContentOf (some construct) (matchedAt (some construct) d.parts span) =
    ((visibleContentOf (some construct) d.parts).take span.2).drop span.1
  -- It takes the hidden parts strictly between its ends.
  hides : ∀ span ∈ spans,
    (matchedAt (some construct) d.parts span).filter (fun part => !part.visibleTo (some construct)) =
      ((hiddenFrom (some construct) 0 d.parts).filter fun placed => decide (span.1 < placed.1 ∧ placed.1 < span.2)).map
        Prod.snd
  -- Those at an end of a match stay outside, also between two matches that touch.
  stays : ∀ first last, first ≤ last →
    (stretch (some construct) d.parts first last).filter (fun part => !part.visibleTo (some construct)) =
      ((hiddenFrom (some construct) 0 d.parts).filter fun placed => decide (first ≤ placed.1 ∧ placed.1 ≤ last)).map
        Prod.snd
  -- Putting every match back as it was cuts the parts, and does nothing else to them.
  cuts : Cuts (some construct) d.parts (spliced (some construct) d.parts
    (visibleContentOf (some construct) d.parts).length 0 spans (spans.map (matchedAt (some construct) d.parts)))
  -- Every match is rewritten once, in order, and its output stands in its place.
  rewrites : ∀ rewrite : Draft → Logged (List Part), d.applyAt construct spans rewrite =
    if spans = [] then pure d
    else do
      .debug .drafts
        ("applying " ++ inTicks (Text.ofString construct) ++ " on " ++ Text.ofNat spans.length ++ " match(es)")
      let outs ← spans.mapM fun span => rewrite ⟨matchedAt (some construct) d.parts span,d.nuid,some construct⟩
      pure ⟨spliced (some construct) d.parts (visibleContentOf (some construct) d.parts).length 0 spans outs,
        d.nuid,d.scope⟩
  -- No other failure is added: no match stays open.
  closes : ∀ (rewrite : Draft → Logged (List Part)) (failure : Failure),
    (d.applyAt construct spans rewrite).outcome = .error failure →
      ∃ span ∈ spans,
        (rewrite ⟨matchedAt (some construct) d.parts span,d.nuid,some construct⟩).outcome = .error failure

theorem applyAt_eq (ordered : InOrder 0 (visibleContentOf (some construct) d.parts).length spans)
    (rewrite : Draft → Logged (List Part)) : d.applyAt construct spans rewrite =
      if spans = [] then pure d
      else (do
        .debug .drafts
          ("applying " ++ inTicks (Text.ofString construct) ++ " on " ++ Text.ofNat spans.length ++ " match(es)")
        let outs ← spans.mapM fun span => rewrite ⟨matchedAt (some construct) d.parts span,d.nuid,some construct⟩
        pure ⟨spliced (some construct) d.parts (visibleContentOf (some construct) d.parts).length 0 spans outs,
          d.nuid,d.scope⟩) := by
  cases spans with
  | nil => rfl
  | cons span spans =>
    rw [applyAt,cutFrom_layout ordered (Nat.le_refl _) (ahead_ordered ordered) (by simp),splice_layout]
    simp only [List.isEmpty_cons,Bool.false_eq_true,↓reduceIte,reduceCtorEq,bind_assoc,pure_bind]

theorem spansOf_inOrder (construct : String) (pattern : Pattern) (d : Draft) :
    InOrder 0 (visibleContentOf (some construct) d.parts).length (spansOf construct pattern d) :=
  pattern.occurrences_inOrder _

-- A rewriting that succeeds leaves the draft alone, or it has rewritten every match with success.
theorem applyAt_ok {e : Draft} {rewrite : Draft → Logged (List Part)}
    (ordered : InOrder 0 (visibleContentOf (some construct) d.parts).length spans)
    (run : (d.applyAt construct spans rewrite).outcome = .ok e) : spans = [] ∧ e = d ∨
      ∃ outs, List.Forall₂ (fun span out =>
          (rewrite ⟨matchedAt (some construct) d.parts span,d.nuid,some construct⟩).outcome = .ok out) spans outs ∧
        e = ⟨spliced (some construct) d.parts (visibleContentOf (some construct) d.parts).length 0 spans outs,
          d.nuid,d.scope⟩ := by
  rw [applyAt_eq ordered] at run
  split at run
  · rename_i none
    cases run
    exact Or.inl ⟨none,rfl⟩
  · obtain ⟨_,_,run⟩ := Logged.outcome_bind_ok.mp run
    obtain ⟨outs,ran,same⟩ := Logged.outcome_bind_ok.mp run
    cases same
    exact Or.inr ⟨outs,Logged.mapM_ok ran,rfl⟩

theorem Cuts.visibleContentOf (cuts : Cuts scope parts pieces) (observer : Option String) :
    visibleContentOf observer pieces = visibleContentOf observer parts := by
  induction cuts with
  | nil => rfl
  | hidden hidden later ih => rw [visibleContentOf_cons,visibleContentOf_cons,ih]
  | @visible part parts pieces contents visible some whole later ih =>
    have same : LightMarkup.visibleContentOf observer (contents.map fun t => part.withContent t) =
        if part.visibleTo observer then contents.flatten else [] := by
      clear some whole
      induction contents with
      | nil => simp
      | cons t contents ih =>
        rw [List.map_cons,visibleContentOf_cons,ih]
        split <;> simp_all
    rw [visibleContentOf_append,visibleContentOf_cons,same,whole,ih]

theorem spliced_whole (ordered : InOrder 0 (visibleContentOf scope parts).length spans) (observer : Option String) :
    visibleContentOf observer
        (spliced scope parts (visibleContentOf scope parts).length 0 spans (spans.map (matchedAt scope parts))) =
      visibleContentOf observer parts := by
  rw [← layout_parts,← cutFrom_layout ordered (Nat.le_refl _) (ahead_ordered ordered) (by simp)]
  exact (cutFrom_cuts _ _ _ _).visibleContentOf observer

-- Who sees no more of each output sees no more of the whole.
theorem spliced_sublist {outs inners : List (List Part)} {observer : Option String}
    (smaller : List.Forall₂ (fun out inner =>
      (visibleContentOf observer out).Sublist (visibleContentOf observer inner)) outs inners) :
    (visibleContentOf observer (spliced scope parts last first spans outs)).Sublist
      (visibleContentOf observer (spliced scope parts last first spans inners)) := by
  induction smaller generalizing first spans with
  | nil => exact .refl _
  | cons here later ih =>
    cases spans with
    | nil => exact .refl _
    | cons span spans =>
      simp only [spliced,visibleContentOf_append]
      exact .append (.refl _) (.append here ih)

-- The spans of a pattern's matches are in order, and every other splicing of matches in order goes the same way.
theorem applyAt_splices (construct : String) (d : Draft) :
    (∀ pattern : Pattern, InOrder 0 (visibleContentOf (some construct) d.parts).length (spansOf construct pattern d) ∧
      spansOf construct pattern d = ((pattern.findAll (visibleContentOf (some construct) d.parts)).filter
        fun m => m.length != 0).map Match.span) ∧
    ∀ spans, InOrder 0 (visibleContentOf (some construct) d.parts).length spans → Splices construct spans d := by
  refine ⟨fun pattern => ⟨spansOf_inOrder construct pattern d,by rw [spansOf,pattern.findAll_nonempty]⟩,?_⟩
  intro spans ordered
  constructor
  case sees =>
    intro span _
    rw [matchedAt,visibleContentOf_window,Nat.sub_zero,Nat.sub_zero]
  case hides =>
    intro span _
    simp only [matchedAt,windowFrom_hides,← Boundary.keeps_neither,Bool.decide_eq_true]
  case stays =>
    intro first last before
    simp only [stretch,windowFrom_hides,← Boundary.keeps_both before,Bool.decide_eq_true]
  case cuts =>
    rw [← layout_parts,← cutFrom_layout ordered (Nat.le_refl _) (ahead_ordered ordered) (by simp)]
    exact cutFrom_cuts _ _ _ _
  case rewrites => exact applyAt_eq ordered
  case closes =>
    intro rewrite failure stopped
    rw [applyAt_eq ordered] at stopped
    split at stopped
    · cases stopped
    · rw [Logged.outcome_bind_error] at stopped
      rcases stopped with none | ⟨_,_,stopped⟩
      · cases none
      · rcases Logged.outcome_bind_error.mp stopped with here | ⟨outs,_,none⟩
        · exact Logged.mapM_error here
        · cases none

-- Two matches that touch: a hidden part lies between them, another one inside the first.
def touching : Draft :=
  ⟨[.live "a" .nothing,.fixed "<br>",.live "b" .nothing,.live "x" .everything,.live "" .nothing,.live "cd" .nothing],
    none,none⟩

theorem applyAt_splices_touching :
    InOrder 0 (visibleContentOf (some "bold") touching.parts).length [(0,2),(2,3)] ∧
      Splices "bold" [(0,2),(2,3)] touching ∧
      (touching.applyAt "bold" [(0,2),(2,3)] fun d => pure (.fixed "|" :: d.parts)).outcome =
        .ok ⟨[.fixed "|",.live "a" .nothing,.fixed "<br>",.live "b" .nothing,.live "x" .everything,.fixed "|",
          .live "c" .nothing,.live "d" .nothing],none,none⟩ :=
  ⟨by decide +kernel,(applyAt_splices "bold" touching).2 [(0,2),(2,3)] (by decide +kernel),by cbv⟩

end Draft
end LightMarkup
