import LightMarkup.Proofs.Loading.Coverage

/-!
Pieces between blank lines. Each of them begins with a character that is not blank and has only blanks around it, so
that looking for it behind the piece before finds it just where it was cut out.
-/

namespace LightMarkup

-- Pieces of a text in their order, with only blanks around them.
inductive Laid : Text → List Text → Prop where
  | blank {t : Text} (blank : Blank t) : Laid t []
  | piece {gap rest : Text} {x : Char} {others : Text} {pieces : List Text} (blank : Blank gap)
      (begins : Text.isBlank x = false) (later : Laid rest pieces) :
      Laid (gap ++ (x :: others ++ rest)) ((x :: others) :: pieces)

namespace Laid

variable {t u : Text} {pieces others : List Text}

theorem gap {gap : Text} (blank : Blank gap) (laid : Laid t pieces) : Laid (gap ++ t) pieces := by
  cases laid with
  | blank around => exact .blank fun x member => (List.mem_append.mp member).elim (blank x) (around x)
  | @piece first rest x others pieces around begins later =>
    rw [← List.append_assoc]
    exact .piece (fun x member => (List.mem_append.mp member).elim (blank x) (around x)) begins later

theorem append (first : Laid t pieces) (next : Laid u others) : Laid (t ++ u) (pieces ++ others) := by
  induction first with
  | blank blank => exact next.gap blank
  | piece blank begins later ih =>
    rw [List.append_assoc,List.append_assoc,List.cons_append]
    exact .piece blank begins ih

end Laid

namespace Text

theorem takeWhile_blank (t : Text) : Blank (t.takeWhile isBlank) :=
  fun x member => List.all_eq_true.mp List.all_takeWhile x member

theorem trimStart_split (t : Text) : ∃ lead, Blank lead ∧ t = lead ++ trimStart t :=
  ⟨t.takeWhile isBlank,takeWhile_blank t,List.takeWhile_append_dropWhile.symm⟩

theorem trimEnd_split (t : Text) : ∃ trail, Blank trail ∧ t = trimEnd t ++ trail := by
  obtain ⟨lead,blank,split⟩ := trimStart_split t.reverse
  refine ⟨lead.reverse,fun x member => blank x (List.mem_reverse.mp member),?_⟩
  rw [trimEnd,← List.reverse_append,← trimStart,← split,List.reverse_reverse]

-- Nothing is trimmed from a text with solid ends.
theorem trim_solid {t v rest : Text} {x y : Char} (begins : t = x :: rest) (first : isBlank x = false)
    (ends : t = v ++ [y]) (last : isBlank y = false) : trim t = t := by
  have front : trimStart t = t := by
    rw [begins,trimStart,List.dropWhile_cons_of_neg (by simp [first])]
  have back : trimEnd t = t := by
    rw [trimEnd,ends,List.reverse_append,List.reverse_singleton,List.singleton_append,
      List.dropWhile_cons_of_neg (by simp [last])]
    simp
  rw [trim,front,back]

theorem trim_split (t : Text) : ∃ trail, Blank trail ∧ t = t.takeWhile isBlank ++ (trim t ++ trail) := by
  obtain ⟨trail,blank,split⟩ := trimEnd_split (trimStart t)
  refine ⟨trail,blank,?_⟩
  rw [trim,← split]
  exact List.takeWhile_append_dropWhile.symm

theorem trim_begins {t rest : Text} {x : Char} (held : trim t = x :: rest) : isBlank x = false := by
  obtain ⟨trail,_,split⟩ := trimEnd_split (trimStart t)
  have first := List.head?_dropWhile_not isBlank t
  rw [← trimStart,split,← trim,held] at first
  simpa using first

-- What trimming leaves of a text is its only piece, or there is none.
theorem trim_laid (t : Text) : Laid t ([trim t].filter fun piece => !piece.isEmpty) := by
  obtain ⟨trail,blankTrail,whole⟩ := trim_split t
  cases held : trim t with
  | nil =>
    rw [held] at whole
    rw [whole]
    exact .gap (takeWhile_blank t) (.blank blankTrail)
  | cons x others =>
    rw [held] at whole
    rw [whole]
    exact .piece (takeWhile_blank t) (trim_begins held) (.blank blankTrail)

-- From a place with only blanks before it, a piece is found where it begins.
theorem findFrom?_blank {gap rest : Text} {x : Char} {others : Text} (blank : Blank gap) (begins : isBlank x = false)
    (position : Nat) :
    findFrom? (x :: others) position (gap ++ (x :: others ++ rest)) = some (position + gap.length) := by
  induction gap generalizing position with
  | nil => simp [findFrom?]
  | cons y gap ih =>
    have other : x ≠ y := by
      rintro rfl
      rw [blank x (List.mem_cons_self ..)] at begins
      cases begins
    have none : (x :: others).isPrefixOf (y :: (gap ++ (x :: others ++ rest))) = false := by
      simp [List.isPrefixOf,other]
    rw [List.cons_append,findFrom?,none,ih fun z member => blank z (List.mem_cons_of_mem _ member)]
    simp
    omega

theorem find?_blank {before gap rest : Text} {x : Char} {others : Text} (blank : Blank gap)
    (begins : isBlank x = false) :
    find? (x :: others) before.length (before ++ (gap ++ (x :: others ++ rest))) = some (before.length + gap.length) := by
  rw [find?,if_neg (by simp),List.drop_left,findFrom?_blank blank begins]

end Text

namespace PlacedBlock

variable {start length count index : Nat}

-- A piece with only blanks before it gets its own place.
theorem spansFrom_piece {before gap rest : Text} {x : Char} {others : Text} {raws : List Text} (blank : Blank gap)
    (begins : Text.isBlank x = false) :
    spansFrom (before ++ (gap ++ (x :: others ++ rest))) start length count index before.length ((x :: others) :: raws) =
      (before.length + gap.length,before.length + gap.length + (x :: others).length) ::
        spansFrom (before ++ (gap ++ x :: others) ++ rest) start length count (index + 1)
          (before ++ (gap ++ x :: others)).length raws := by
  simp only [spansFrom,List.isEmpty_cons,Bool.false_eq_true,↓reduceIte,Text.find?_blank blank begins]
  simp [Nat.add_assoc]

-- Pieces that are looked for one behind the other are all found, and cover their text.
theorem spansFrom_laid {t : Text} {pieces : List Text} (laid : Laid t pieces) (before : Text)
    (start length count index : Nat) :
    Covered before.length t (spansFrom (before ++ t) start length count index before.length pieces) := by
  induction laid generalizing before index with
  | blank blank => exact .blank blank
  | @piece gap rest x others pieces blank begins later ih =>
    have next := ih (before ++ (gap ++ x :: others)) (index + 1)
    rw [spansFrom_piece blank begins]
    refine .span blank (List.cons_ne_nil _ _) ?_
    rwa [List.length_append,List.length_append,← Nat.add_assoc] at next ⊢

theorem spans_laid {t : Text} {pieces : List Text} (laid : Laid t pieces) (some : t ≠ []) : Covered 0 t (spans t pieces) := by
  unfold spans
  split
  · simpa using Covered.whole 0 some
  · exact spansFrom_laid laid [] _ _ _ _

theorem spansFrom_length (t : Text) (start length count index cursor : Nat) (raws : List Text) :
    (spansFrom t start length count index cursor raws).length = raws.length := by
  induction raws generalizing index cursor with
  | nil => rfl
  | cons raw raws ih => simp only [spansFrom,List.length_cons,ih]

theorem spans_length (t : Text) (raws : List Text) : (spans t raws).length = raws.length := by
  unfold spans
  split
  · rfl
  · exact spansFrom_length _ _ _ _ _ _ _

theorem place_spans (offset : Nat) (t : Text) (paragraphs : List Paragraph) :
    (place offset t paragraphs).map span =
      (spans t (paragraphs.map Paragraph.raw)).map fun span => (offset + span.1,offset + span.2) := by
  have length := spans_length t (paragraphs.map Paragraph.raw)
  rw [List.length_map] at length
  rw [← List.map_snd_zip (Nat.le_of_eq length),List.map_map,place,List.map_map]
  rfl

theorem place_covered {t : Text} {paragraphs : List Paragraph} (offset : Nat)
    (covered : Covered 0 t (spans t (paragraphs.map Paragraph.raw))) :
    Covered offset t ((place offset t paragraphs).map span) := by
  rw [place_spans]
  exact covered.shift offset

end PlacedBlock

namespace Pattern

theorem one_blank {c : Char} (blank : Text.isBlank c = true) : (Pattern.char (.one c)).Only fun x => Text.isBlank x = true := by
  intro x inSet
  have same : x = c := by simpa [CharSet.contains] using inSet
  exact same ▸ blank

theorem gap_blank : (Pattern.char CharSet.gap).Only fun x => Text.isBlank x = true := by
  intro x inSet
  have either : (x == ' ' || x == '\t') = true := inSet
  rcases Bool.or_eq_true_iff.mp either with same | same
  · exact one_blank rfl x same
  · exact one_blank rfl x same

theorem lineBreak_blank : lineBreak.Only fun x => Text.isBlank x = true :=
  ⟨one_blank rfl,one_blank rfl⟩

theorem gaps_blank : gaps.Only fun x => Text.isBlank x = true :=
  gap_blank

end Pattern

namespace Loading

open Pattern

theorem blankLines_blank : blankLines.Only fun x => Text.isBlank x = true :=
  ⟨⟨⟨lineBreak_blank,gaps_blank⟩,lineBreak_blank⟩,gaps_blank,lineBreak_blank⟩

-- Cutting at blanks lays the pieces between the cuts.
theorem gapsBetween_laid {P : Char → Prop} {position : Nat} {t : Text} {ms : List Match}
    (follow : Match.Follow P position t ms) (blank : ∀ m ∈ ms, Blank m.text) :
    Laid t (((gapsBetween position t (ms.map Match.span)).map Text.trim).filter fun piece => !piece.isEmpty) := by
  induction ms generalizing position t with
  | nil => exact Text.trim_laid _
  | cons m ms ih =>
    obtain ⟨here,others⟩ := List.forall_mem_cons.mp blank
    obtain ⟨inner,whole,some,read,placed,later⟩ := follow.cut
    have text : m.text = inner := read.textTo
    have laid := (Text.trim_laid (t.take (m.start.position - position))).append ((ih later others).gap (text ▸ here))
    rw [← whole] at laid
    rwa [List.map_cons,Match.span,gapsBetween,List.map_cons,← List.singleton_append,List.filter_append]

theorem blankLines_text {t : Text} : ∀ m ∈ blankLines.occurrences t, Blank m.text := by
  intro m member
  obtain ⟨inner,read,blank⟩ := ways_only blankLines_blank _ _ (occurrences_way member)
  rwa [Match.text,read.textTo]

theorem pieces_laid (t : Text) : Laid t (pieces t) :=
  gapsBetween_laid (occurrences_follow (P := fun _ => True) blankLines t fun _ _ _ _ => trivial) blankLines_text

end Loading
end LightMarkup
