import LightMarkup.Proofs.Loading.Leaves

/-!
Where the paragraphs of a text are. Whatever their contents are, each gets a span behind the one before it and within
the text. If they are the pieces between the blank lines, each has just the place that it was cut out of: what is looked
for begins with a character that is not blank, and there are only blanks between the piece before and its own place.
-/

namespace LightMarkup

-- The texts around spans, as `gapsBetween` cuts them, with the places where they begin.
def placesBetween (position : Nat) (t : Text) : List (Nat × Nat) → List (Nat × Text)
  | [] => [(position,t)]
  | (start,stop) :: spans =>
    (position,t.take (start - position)) :: placesBetween stop (t.drop (stop - position)) spans

theorem placesBetween_texts (position : Nat) (t : Text) (spans : List (Nat × Nat)) :
    (placesBetween position t spans).map Prod.snd = gapsBetween position t spans := by
  induction spans generalizing position t with
  | nil => rfl
  | cons span spans ih => rw [placesBetween,gapsBetween,List.map_cons,ih]

namespace Text

variable {needle t : Text} {start found : Nat}

theorem findFrom?_within (at? : findFrom? needle start t = some found) :
    start ≤ found ∧ found + needle.length ≤ start + t.length := by
  induction t generalizing start with
  | nil =>
    unfold findFrom? at at?
    split at at?
    · rename_i empty
      cases at?
      simp [List.isEmpty_iff.mp empty]
    · cases at?
  | cons x rest ih =>
    unfold findFrom? at at?
    split at at?
    · rename_i begins
      cases at?
      exact ⟨Nat.le_refl _,Nat.add_le_add_left (List.isPrefixOf_iff_prefix.mp begins).length_le _⟩
    · have later := ih at?
      rw [List.length_cons]
      omega

-- What is found lies behind the place where the search begins, and within the text.
theorem find?_within (at? : find? needle start t = some found) : start ≤ found ∧ found + needle.length ≤ t.length := by
  unfold find? at at?
  split at at?
  · cases at?
  · have within := findFrom?_within at?
    rw [List.length_drop] at within
    omega

end Text

namespace PlacedBlock

section

variable {t : Text} {raws : List Text} {start length count index cursor : Nat}

-- A share of the text lies within it.
theorem share_within (inside : start + length ≤ t.length) (bound : index ≤ count) :
    start + length * index / count ≤ t.length := by
  have part : length * index / count ≤ length := by
    refine Nat.div_le_of_le_mul ?_
    rw [Nat.mul_comm count]
    exact Nat.mul_le_mul_left _ bound
  omega

-- One paragraph gets a span behind the cursor, and the cursor moves to its end.
theorem spansFrom_step (inside : start + length ≤ t.length) (bound : index < count) (within : cursor ≤ t.length)
    (raw : Text) (raws : List Text) :
    ∃ span : Nat × Nat, spansFrom t start length count index cursor (raw :: raws) =
        span :: spansFrom t start length count (index + 1) span.2 raws ∧
      cursor ≤ span.1 ∧ span.1 ≤ span.2 ∧ span.2 ≤ t.length := by
  cases at? : (if raw.isEmpty then none else Text.find? raw cursor t) with
  | none =>
    have first := share_within inside (Nat.le_of_lt bound)
    have last := share_within inside (Nat.succ_le_of_lt bound)
    refine ⟨_,by rw [spansFrom,at?],Nat.le_max_right _ _,Nat.le_max_right _ _,?_⟩
    exact Nat.max_le.mpr ⟨last,Nat.max_le.mpr ⟨first,within⟩⟩
  | some found =>
    refine ⟨_,by rw [spansFrom,at?],?_⟩
    split at at?
    · cases at?
    · have here := Text.find?_within at?
      exact ⟨here.1,Nat.le_add_right _ _,here.2⟩

theorem spansFrom_within (inside : start + length ≤ t.length) (bound : index + raws.length ≤ count)
    (within : cursor ≤ t.length) :
    ∀ span ∈ spansFrom t start length count index cursor raws,
      cursor ≤ span.1 ∧ span.1 ≤ span.2 ∧ span.2 ≤ t.length := by
  induction raws generalizing index cursor with
  | nil => exact List.forall_mem_nil _
  | cons raw raws ih =>
    rw [List.length_cons] at bound
    have some : index < count := by omega
    obtain ⟨span,step,before,ordered,last⟩ := spansFrom_step inside some within raw raws
    rw [step]
    refine List.forall_mem_cons.mpr ⟨⟨before,ordered,last⟩,fun next member => ?_⟩
    have later := ih (by omega) last next member
    exact ⟨by omega,later.2⟩

theorem spansFrom_apart (inside : start + length ≤ t.length) (bound : index + raws.length ≤ count)
    (within : cursor ≤ t.length) :
    (spansFrom t start length count index cursor raws).Pairwise fun one two => one.2 ≤ two.1 := by
  induction raws generalizing index cursor with
  | nil => exact .nil
  | cons raw raws ih =>
    rw [List.length_cons] at bound
    have some : index < count := by omega
    obtain ⟨span,step,_,_,last⟩ := spansFrom_step inside some within raw raws
    rw [step]
    exact .cons (fun next member => (spansFrom_within inside (by omega) last next member).1) (ih (by omega) last)

end

-- What is not blank lies within the text.
theorem content_within (t : Text) :
    t.length - (Text.trimStart t).length + ((Text.trimEnd t).length - (t.length - (Text.trimStart t).length)) ≤ t.length := by
  obtain ⟨trail,_,split⟩ := Text.trimEnd_split t
  have ends := congrArg List.length split
  rw [List.length_append] at ends
  omega

-- Whatever the contents are, there is a span for each, in order and within the text.
theorem spans_within (t : Text) (raws : List Text) : ∀ span ∈ spans t raws, span.1 ≤ span.2 ∧ span.2 ≤ t.length := by
  unfold spans
  split
  · exact List.forall_mem_singleton.mpr ⟨Nat.zero_le _,Nat.le_refl _⟩
  · exact fun span member => (spansFrom_within (content_within t) (by omega) (Nat.zero_le _) span member).2

theorem spans_apart (t : Text) (raws : List Text) : (spans t raws).Pairwise fun one two => one.2 ≤ two.1 := by
  unfold spans
  split
  · exact List.pairwise_singleton _ _
  · exact spansFrom_apart (content_within t) (by omega) (Nat.zero_le _)

end PlacedBlock

namespace Loading

-- A text without the blanks around it, at the place where that begins.
def trimmed (place : Nat × Text) : Nat × Text :=
  (place.1 + (place.2.takeWhile Text.isBlank).length,Text.trim place.2)

/-- The pieces between blank lines, each with the place that it was cut out of. -/
def placedPieces (t : Text) : List (Nat × Text) :=
  ((placesBetween 0 t ((blankLines.occurrences t).map Match.span)).map trimmed).filter fun placed => !placed.2.isEmpty

def extent (placed : Nat × Text) : Nat × Nat :=
  (placed.1,placed.1 + placed.2.length)

theorem placedPieces_texts (t : Text) : (placedPieces t).map Prod.snd = pieces t := by
  have trims : Prod.snd ∘ trimmed = Text.trim ∘ Prod.snd := rfl
  rw [pieces,Pattern.split,← placesBetween_texts,List.map_map,← trims,← List.map_map,List.filter_map]
  rfl

variable {position next : Nat} {t u rest : Text} {placed : List (Nat × Text)} {x : Char} {others : Text}

theorem placesBetween_stand {spans : List (Nat × Nat)} (before : Text) (reached : before.length = position)
    (ordered : InOrder position (position + t.length) spans) :
    ∀ place ∈ placesBetween position t spans, place.2 <+: (before ++ t).drop place.1 := by
  induction spans generalizing position before t with
  | nil =>
    rw [← reached]
    refine List.forall_mem_singleton.mpr ?_
    rw [List.drop_left]
  | cons span spans ih =>
    obtain ⟨first,some,after⟩ := ordered
    have bound := after.le
    refine List.forall_mem_cons.mpr ⟨?_,?_⟩
    · rw [← reached,List.drop_left]
      exact List.take_prefix _ _
    · have next : (before ++ t.take (span.2 - position)).length = span.2 := by
        rw [List.length_append,List.length_take]
        omega
      have last : span.2 + (t.drop (span.2 - position)).length = position + t.length := by
        rw [List.length_drop]
        omega
      have stand := ih _ next (by rw [last]; exact after)
      rwa [List.append_assoc,List.take_append_drop] at stand

-- Each piece stands at its place.
theorem placedPieces_stand (t : Text) : ∀ placed ∈ placedPieces t, placed.2 <+: t.drop placed.1 := by
  intro placed member
  obtain ⟨place,cut,rfl⟩ := List.mem_map.mp (List.mem_filter.mp member).1
  have ordered := Pattern.occurrences_inOrder blankLines t
  rw [← Nat.zero_add t.length] at ordered
  obtain ⟨behind,stands⟩ := placesBetween_stand [] rfl ordered place cut
  obtain ⟨trail,_,split⟩ := Text.trim_split place.2
  have whole := congrArg (· ++ behind) split
  simp only [List.append_assoc] at whole
  refine ⟨trail ++ behind,?_⟩
  rw [trimmed,← List.drop_drop,← List.nil_append t,← stands,whole,List.drop_left]

section

variable (start length count : Nat)

-- The pieces of a text that begins at `position` are found where they are, whatever blanks lie between it and the piece
-- before.
def Located (position : Nat) (t : Text) (placed : List (Nat × Text)) : Prop :=
  ∀ (before gap : Text) (index : Nat), Blank gap → before.length + gap.length = position →
    PlacedBlock.spansFrom (before ++ (gap ++ t)) start length count index before.length (placed.map Prod.snd) =
      placed.map extent

variable {start length count}

theorem Located.gap (blank : Blank u) (moved : position + u.length = next)
    (later : Located start length count next rest placed) : Located start length count position (u ++ rest) placed := by
  intro before gap index blankGap reached
  rw [← List.append_assoc gap]
  refine later before (gap ++ u) index (fun x member => (List.mem_append.mp member).elim (blankGap x) (blank x)) ?_
  rw [List.length_append,← Nat.add_assoc,reached,moved]

theorem Located.piece (begins : Text.isBlank x = false) (moved : position + (x :: others).length = next)
    (later : Located start length count next rest placed) :
    Located start length count position (x :: others ++ rest) ((position,x :: others) :: placed) := by
  intro before gap index blankGap reached
  have same := later (before ++ (gap ++ x :: others)) [] (index + 1) (List.forall_mem_nil _)
    (by rw [List.length_append,List.length_append,← Nat.add_assoc,reached]; exact moved)
  rw [List.map_cons,PlacedBlock.spansFrom_piece blankGap begins,reached,List.map_cons]
  exact congrArg ((position,position + (x :: others).length) :: ·) same

-- What trimming leaves of a text is located there, or there is nothing to locate.
theorem Located.part (moved : position + u.length = next) (later : Located start length count next rest placed) :
    Located start length count position (u ++ rest)
      (([(position,u)].map trimmed).filter (fun placed => !placed.2.isEmpty) ++ placed) := by
  obtain ⟨trail,blank,split⟩ := Text.trim_split u
  have lengths := congrArg List.length split
  have whole := congrArg (· ++ rest) split
  simp only [List.length_append] at lengths
  simp only [List.append_assoc] at whole
  rw [whole,List.map_singleton,trimmed]
  refine .gap (Text.takeWhile_blank u) rfl ?_
  cases held : Text.trim u with
  | nil =>
    rw [held,List.length_nil,Nat.zero_add] at lengths
    rw [List.nil_append]
    exact .gap blank (by rw [Nat.add_assoc,← lengths,moved]) later
  | cons x others =>
    rw [held] at lengths
    exact .piece (Text.trim_begins held) rfl (.gap blank (by rw [Nat.add_assoc,Nat.add_assoc,← lengths,moved]) later)

theorem gapsBetween_located {P : Char → Prop} {ms : List Match} (follow : Match.Follow P position t ms)
    (blank : ∀ m ∈ ms, Blank m.text) :
    Located start length count position t
      (((placesBetween position t (ms.map Match.span)).map trimmed).filter fun placed => !placed.2.isEmpty) := by
  induction ms generalizing position t with
  | nil =>
    have none : Located start length count (position + t.length) [] [] := fun _ _ _ _ _ => rfl
    simpa [placesBetween] using none.part rfl
  | cons m ms ih =>
    obtain ⟨here,others⟩ := List.forall_mem_cons.mp blank
    obtain ⟨inner,whole,some,read,reached,later⟩ := follow.cut
    have text : m.text = inner := read.textTo
    have located := ((ih later others).gap (text ▸ here) read.position.symm).part reached
    rw [← whole] at located
    rwa [List.map_cons,Match.span,placesBetween,List.map_cons,← List.singleton_append,List.filter_append]

end

-- Pieces between blank lines are found where they were cut out.
theorem spans_pieces {t : Text} (several : 2 ≤ (pieces t).length) :
    PlacedBlock.spans t (pieces t) = (placedPieces t).map extent := by
  have follow := Pattern.occurrences_follow (P := fun _ => True) blankLines t fun _ _ _ _ => trivial
  unfold PlacedBlock.spans
  split
  · rename_i single
    rw [single] at several
    exact absurd several (by simp)
  · rw [← placedPieces_texts]
    exact gapsBetween_located follow blankLines_text [] [] 0 (List.forall_mem_nil _) rfl

end Loading

namespace PlacedBlock

open Loading

-- Paragraphs loaded from a text get a span each, in order and within the text, and pieces get their own places.
theorem place_orders (offset : Nat) (t : Text) (paragraphs : List Paragraph) :
    (place offset t paragraphs).map (·.content) = paragraphs.map BlockContent.paragraph ∧
      (∀ block ∈ place offset t paragraphs,
        offset ≤ block.start ∧ block.start ≤ block.stop ∧ block.stop ≤ offset + t.length) ∧
      ((place offset t paragraphs).Pairwise fun one two => one.stop ≤ two.start) ∧
      (2 ≤ paragraphs.length → paragraphs.map Paragraph.raw = pieces t →
        (∀ placed ∈ placedPieces t, placed.2 <+: t.drop placed.1) ∧
          (placedPieces t).map Prod.snd = paragraphs.map Paragraph.raw ∧
          (place offset t paragraphs).map span =
            (placedPieces t).map fun placed => (offset + placed.1,offset + (placed.1 + placed.2.length))) := by
  have shifted := place_spans offset t paragraphs
  refine ⟨place_contents offset t paragraphs,?_,?_,fun several own => ⟨placedPieces_stand t,?_,?_⟩⟩
  · have within : ∀ held ∈ (place offset t paragraphs).map span,
        offset ≤ held.1 ∧ held.1 ≤ held.2 ∧ held.2 ≤ offset + t.length := by
      rw [shifted]
      refine List.forall_mem_map.mpr fun held member => ?_
      have here := spans_within t _ held member
      exact ⟨Nat.le_add_right _ _,Nat.add_le_add_left here.1 _,Nat.add_le_add_left here.2 _⟩
    exact List.forall_mem_map.mp within
  · have apart : ((place offset t paragraphs).map span).Pairwise fun one two => one.2 ≤ two.1 := by
      rw [shifted]
      exact List.pairwise_map.mpr ((spans_apart t _).imp fun before => Nat.add_le_add_left before _)
    exact List.pairwise_map.mp apart
  · rw [placedPieces_texts,own]
  · rw [← List.length_map (f := Paragraph.raw),own] at several
    rw [shifted,own,spans_pieces several,List.map_map]
    rfl

-- A piece that stands in another one before is still found at its own place.
theorem place_orders_recurring :
    let pieces : List Text := [['a','b'],['b',' ','a','b'],['b']]
    2 ≤ pieces.length ∧ pieces = Loading.pieces "ab\n\n b ab\n\nb" ∧
      (place 7 "ab\n\n b ab\n\nb" (pieces.map fun piece => .common piece "paragraph")).map span =
        [(7,9),(12,16),(18,19)] := by
  intro pieces
  have placed : placedPieces "ab\n\n b ab\n\nb" = [(0,['a','b']),(5,['b',' ','a','b']),(11,['b'])] := by
    rw [Text.ofString_ofList]
    decide_cbv
  have own : pieces = Loading.pieces "ab\n\n b ab\n\nb" := by
    rw [← placedPieces_texts,placed]
    rfl
  have several : 2 ≤ pieces.length := by decide
  have raws : (pieces.map fun piece => Paragraph.common piece "paragraph").map Paragraph.raw = pieces := rfl
  obtain ⟨_,_,_,exactly⟩ := place_orders 7 "ab\n\n b ab\n\nb" (pieces.map fun piece => .common piece "paragraph")
  have spans := (exactly several (raws.trans own)).2.2
  rw [placed] at spans
  exact ⟨several,own,spans⟩

end PlacedBlock
end LightMarkup
