import Mathlib.Data.List.Nodup
import LightMarkup.Document.Basic

/-!
The NUIDs of a document. One counter goes through all paragraphs, nested ones included, and then through all headings, so that
no text gets the same number twice; the NUIDs are told apart as far as the digests of the texts are.
-/

namespace LightMarkup

namespace Text

theorem ofNat_injective {m n : Nat} (same : ofNat m = ofNat n) : m = n := by
  calc
    m = Nat.ofDigitChars 10 (ofNat m) 0 := Nat.ofDigitChars_ten_toDigits.symm
    _ = Nat.ofDigitChars 10 (ofNat n) 0 := by rw [same]
    _ = n := Nat.ofDigitChars_ten_toDigits

theorem ofHex_length : ∀ n < 256, (ofHex 2 n).length = 2 := by
  decide +kernel

end Text

theorem Digest.ofText_length (t : Text) : (Digest.ofText t).length = 8 := by
  have byte : ∀ n, (Text.ofHex 2 (n % 256)).length = 2 := fun n => Text.ofHex_length _ (Nat.mod_lt _ (by decide))
  unfold Digest.ofText
  simp [byte]

theorem Nuid.build_injective {name one two : Text} {m n : Nat}
    (same : Nuid.build name one m = Nuid.build name two n) : Digest.ofText one = Digest.ofText two ∧ m = n := by
  unfold Nuid.build at same
  simp only [List.append_assoc,List.append_cancel_left_eq] at same
  obtain ⟨digests,rest⟩ := List.append_inj same (by rw [Digest.ofText_length,Digest.ofText_length])
  exact ⟨digests,Text.ofNat_injective (List.append_cancel_left rest)⟩

namespace Document

-- The texts behind others, each with the number of times that it has come before.
def occurrences (seen : List Text) : List Text → List (Text × Nat)
  | [] => []
  | content :: rest => (content,seen.count content) :: occurrences (seen ++ [content]) rest

section

variable {seen contents more : List Text}

theorem occurrences_append (seen contents more : List Text) :
    occurrences seen (contents ++ more) = occurrences seen contents ++ occurrences (seen ++ contents) more := by
  induction contents generalizing seen with
  | nil => rw [List.nil_append,List.append_nil,occurrences,List.nil_append]
  | cons content contents ih =>
    rw [List.cons_append,occurrences,occurrences,ih,List.cons_append,List.append_assoc,List.singleton_append]

theorem occurrences_le {content : Text} {n : Nat} (here : (content,n) ∈ occurrences seen contents) :
    content ∈ contents ∧ seen.count content ≤ n := by
  induction contents generalizing seen with
  | nil => cases here
  | cons first contents ih =>
    rcases List.mem_cons.mp here with same | later
    · cases same
      exact ⟨List.mem_cons_self ..,Nat.le_refl _⟩
    · obtain ⟨member,before⟩ := ih later
      refine ⟨List.mem_cons_of_mem _ member,Nat.le_trans ?_ before⟩
      rw [List.count_append]
      exact Nat.le_add_right ..

theorem occurrences_first {content : Text} (member : content ∈ contents) (new : content ∉ seen) :
    (content,0) ∈ occurrences seen contents := by
  induction contents generalizing seen with
  | nil => cases member
  | cons first contents ih =>
    by_cases same : content = first
    · rw [occurrences,← same,List.count_eq_zero_of_not_mem new]
      exact List.mem_cons_self ..
    · refine List.mem_cons_of_mem _ (ih ((List.mem_cons.mp member).resolve_left same) ?_)
      simp [new,same]

-- Behind a text its number is greater.
theorem occurrences_nodup (seen contents : List Text) : (occurrences seen contents).Nodup := by
  induction contents generalizing seen with
  | nil => exact List.nodup_nil
  | cons content contents ih =>
    refine List.nodup_cons.mpr ⟨fun again => ?_,ih _⟩
    have more := (occurrences_le again).2
    rw [List.count_append,List.count_singleton_self] at more
    omega

-- The NUIDs that the texts get behind others.
def stamps (name : Text) (seen contents : List Text) : List (Option Text) :=
  (occurrences seen contents).map fun occurrence => some (Nuid.build name occurrence.1 occurrence.2)

theorem stamps_cons (name : Text) (seen : List Text) (content : Text) (contents : List Text) :
    stamps name seen (content :: contents) = some (nuidAfter name seen content) :: stamps name (seen ++ [content]) contents :=
  rfl

theorem stamps_append (name : Text) (seen contents more : List Text) :
    stamps name seen (contents ++ more) = stamps name seen contents ++ stamps name (seen ++ contents) more := by
  rw [stamps,occurrences_append,List.map_append]
  rfl

theorem stamps_nodup (name : Text) (contents : List Text) : (stamps name [] contents).Nodup ↔
    ∀ one ∈ contents, ∀ two ∈ contents, Digest.ofText one = Digest.ofText two → one = two := by
  unfold stamps
  rw [List.nodup_map_iff_inj_on (occurrences_nodup [] contents)]
  constructor
  · intro apart one first two second same
    have pairs := apart (one,0) (occurrences_first first List.not_mem_nil) (two,0)
      (occurrences_first second List.not_mem_nil) (by simp only [Nuid.build,same])
    exact (Prod.mk.inj pairs).1
  · intro apart (one,m) first (two,n) second same
    obtain ⟨digests,numbers⟩ := Nuid.build_injective (Option.some.inj same)
    exact Prod.ext (apart one (occurrences_le first).1 two (occurrences_le second).1 digests) numbers

end
end Document

namespace Paragraph

mutual

-- A paragraph and those inside it, in the order of the document.
def nodes : Paragraph → List Paragraph
  | .leaf raw construct nuid body => [.leaf raw construct nuid body]
  | .container raw construct nuid kind type nested => .container raw construct nuid kind type nested :: nodesOfList nested

def nodesOfList : List Paragraph → List Paragraph
  | [] => []
  | p :: ps => p.nodes ++ nodesOfList ps

end

mutual

theorem nodes_contents : (p : Paragraph) → p.nodes.map raw = p.contents
  | .leaf .. => rfl
  | .container _ _ _ _ _ nested => congrArg (List.cons _) (nodesOfList_contents nested)

theorem nodesOfList_contents : (ps : List Paragraph) → (nodesOfList ps).map raw = contentsOfList ps
  | [] => rfl
  | p :: ps => by rw [nodesOfList,List.map_append,nodes_contents p,nodesOfList_contents ps,contentsOfList]

end

end Paragraph

namespace Document

open Paragraph

mutual

theorem numberParagraph_nuids (name : Text) (seen : List Text) :
    (p : Paragraph) → (numberParagraph name seen p).nodes.map nuid = stamps name seen p.contents
  | .leaf .. => rfl
  | .container raw _ _ _ _ nested => congrArg (List.cons _) (numberParagraphs_nuids name (seen ++ [raw]) nested)

theorem numberParagraphs_nuids (name : Text) (seen : List Text) :
    (ps : List Paragraph) → (nodesOfList (numberParagraphs name seen ps)).map nuid = stamps name seen (contentsOfList ps)
  | [] => rfl
  | p :: ps => by
    rw [numberParagraphs,nodesOfList,List.map_append,numberParagraph_nuids name seen p,
      numberParagraphs_nuids name (seen ++ p.contents) ps,contentsOfList,stamps_append]

end

mutual

theorem numberParagraph_contents (name : Text) (seen : List Text) :
    (p : Paragraph) → (numberParagraph name seen p).contents = p.contents
  | .leaf .. => rfl
  | .container raw _ _ _ _ nested => congrArg (List.cons _) (numberParagraphs_contents name (seen ++ [raw]) nested)

theorem numberParagraphs_contents (name : Text) (seen : List Text) :
    (ps : List Paragraph) → contentsOfList (numberParagraphs name seen ps) = contentsOfList ps
  | [] => rfl
  | p :: ps => by
    rw [numberParagraphs,contentsOfList,numberParagraph_contents name seen p,
      numberParagraphs_contents name (seen ++ p.contents) ps,contentsOfList]

end

mutual

theorem numberParagraph_again (name : Text) (seen : List Text) :
    (p : Paragraph) → numberParagraph name seen (numberParagraph name seen p) = numberParagraph name seen p
  | .leaf .. => rfl
  | .container raw _ _ _ _ nested => by
    rw [numberParagraph,numberParagraph,numberParagraphs_again name (seen ++ [raw]) nested]

theorem numberParagraphs_again (name : Text) (seen : List Text) :
    (ps : List Paragraph) → numberParagraphs name seen (numberParagraphs name seen ps) = numberParagraphs name seen ps
  | [] => rfl
  | p :: ps => by
    rw [numberParagraphs,numberParagraphs,numberParagraph_again name seen p,numberParagraph_contents name seen p,
      numberParagraphs_again name (seen ++ p.contents) ps]

end

variable (name : Text) (seen others : List Text) (chapters : List Chapter)

theorem numberChapters_nuids :
    ((numberChapters name seen chapters).flatMap fun chapter => nodesOfList chapter.paragraphs).map nuid =
      stamps name seen (chapters.flatMap fun chapter => contentsOfList chapter.paragraphs) := by
  induction chapters generalizing seen with
  | nil => rfl
  | cons chapter chapters ih =>
    rw [numberChapters,List.flatMap_cons,List.map_append,numberParagraphs_nuids,ih,List.flatMap_cons,stamps_append]

theorem numberHeadings_nuids :
    (numberHeadings name seen chapters).map (fun chapter => chapter.heading.nuid) =
      stamps name seen (chapters.map fun chapter => chapter.heading.title) := by
  induction chapters generalizing seen with
  | nil => rfl
  | cons chapter chapters ih =>
    rw [numberHeadings,List.map_cons,ih,List.map_cons,stamps_cons]

-- What a number does not change stays the same in all chapters.
theorem numberHeadings_map {β : Type} {f : Chapter → β}
    (keeps : ∀ chapter nuid, f { chapter with heading := { chapter.heading with nuid := nuid } } = f chapter) :
    (numberHeadings name seen chapters).map f = chapters.map f := by
  induction chapters generalizing seen with
  | nil => rfl
  | cons chapter chapters ih => rw [numberHeadings,List.map_cons,keeps,ih,List.map_cons]

theorem numberChapters_map {β : Type} {f : Chapter → β}
    (keeps : ∀ chapter seen, f { chapter with paragraphs := numberParagraphs name seen chapter.paragraphs } = f chapter) :
    (numberChapters name seen chapters).map f = chapters.map f := by
  induction chapters generalizing seen with
  | nil => rfl
  | cons chapter chapters ih => rw [numberChapters,List.map_cons,keeps,ih,List.map_cons]

theorem numberChapters_again :
    numberChapters name seen (numberChapters name seen chapters) = numberChapters name seen chapters := by
  induction chapters generalizing seen with
  | nil => rfl
  | cons chapter chapters ih =>
    rw [numberChapters,numberChapters,numberParagraphs_again,numberParagraphs_contents,ih]

theorem numberHeadings_again :
    numberHeadings name seen (numberHeadings name seen chapters) = numberHeadings name seen chapters := by
  induction chapters generalizing seen with
  | nil => rfl
  | cons chapter chapters ih => rw [numberHeadings,numberHeadings,ih]

-- Headings and paragraphs are numbered in different fields.
theorem numberChapters_numberHeadings : numberChapters name seen (numberHeadings name others chapters) =
    numberHeadings name others (numberChapters name seen chapters) := by
  induction chapters generalizing seen others with
  | nil => rfl
  | cons chapter chapters ih => rw [numberHeadings,numberChapters,ih,numberChapters,numberHeadings]

-- Every paragraph of a document, those inside others included, in order.
def everyParagraph (d : Document) : List Paragraph :=
  nodesOfList d.preamble ++ d.chapters.flatMap fun chapter => nodesOfList chapter.paragraphs

-- The texts that NUIDs are made of, and the NUIDs themselves.
def texts (d : Document) : List Text :=
  d.everyParagraph.map raw ++ d.headings.map Heading.title

def nuids (d : Document) : List (Option Text) :=
  d.everyParagraph.map nuid ++ d.headings.map Heading.nuid

theorem everyParagraph_contents (d : Document) : d.everyParagraph.map raw = d.paragraphContents := by
  unfold everyParagraph paragraphContents
  rw [List.map_append,nodesOfList_contents,List.map_flatMap]
  simp only [nodesOfList_contents]

variable (d : Document)

theorem withNuids_everyParagraph : d.withNuids.everyParagraph = nodesOfList (numberParagraphs d.name [] d.preamble) ++
    (numberChapters d.name (contentsOfList d.preamble) d.chapters).flatMap fun chapter => nodesOfList chapter.paragraphs := by
  show _ ++ List.flatMap _ (numberHeadings _ _ _) = _
  rw [List.flatMap_def,numberHeadings_map _ _ _ fun _ _ => rfl,← List.flatMap_def]
  rfl

theorem withNuids_contents : d.withNuids.everyParagraph.map raw = d.everyParagraph.map raw := by
  rw [withNuids_everyParagraph,List.map_append,nodesOfList_contents,numberParagraphs_contents,List.map_flatMap,
    everyParagraph_contents]
  simp only [nodesOfList_contents]
  rw [List.flatMap_def,numberChapters_map _ _ _ fun _ _ => numberParagraphs_contents ..,← List.flatMap_def]
  rfl

theorem withNuids_titles : d.withNuids.headings.map Heading.title = d.headings.map Heading.title := by
  show ((numberHeadings _ _ _).map Chapter.heading).map Heading.title = _
  rw [List.map_map,numberHeadings_map _ _ _ fun _ _ => rfl,numberChapters_map _ _ _ fun _ _ => rfl,← List.map_map]
  rfl

theorem withNuids_nuids : d.withNuids.nuids = stamps d.name [] d.texts := by
  have paragraphs : d.withNuids.everyParagraph.map nuid = stamps d.name [] d.paragraphContents := by
    rw [withNuids_everyParagraph,List.map_append,numberParagraphs_nuids,numberChapters_nuids,paragraphContents,stamps_append]
    rfl
  have headings : d.withNuids.headings.map Heading.nuid = stamps d.name d.paragraphContents (d.headings.map Heading.title) := by
    show ((numberHeadings _ _ _).map Chapter.heading).map Heading.nuid = _
    rw [List.map_map]
    refine (numberHeadings_nuids ..).trans ?_
    rw [numberChapters_map _ _ _ fun _ _ => rfl,headings,List.map_map]
    rfl
  rw [nuids,paragraphs,headings,texts,everyParagraph_contents,stamps_append,List.nil_append]

theorem withNuids_again : d.withNuids.withNuids = d.withNuids := by
  have contents : d.withNuids.paragraphContents = d.paragraphContents := by
    rw [← everyParagraph_contents,withNuids_contents,everyParagraph_contents]
  have preamble := numberParagraphs_again d.name [] d.preamble
  have chapters : numberHeadings d.name d.paragraphContents (numberChapters d.name
      (contentsOfList (numberParagraphs d.name [] d.preamble)) d.withNuids.chapters) = d.withNuids.chapters := by
    rw [numberParagraphs_contents,withNuids,numberChapters_numberHeadings,numberChapters_again,numberHeadings_again]
  rw [withNuids,contents]
  exact congrArg₂ (fun preamble chapters => ({ d with preamble := preamble, chapters := chapters } : Document)) preamble
    chapters

-- Every paragraph and every heading has a NUID, and there are no two that are equal as long as different texts have
-- different digests. Numbering once more changes nothing.
theorem nuids_unique :
    (∀ p ∈ d.withNuids.everyParagraph, p.nuid.isSome) ∧ (∀ h ∈ d.withNuids.headings, h.nuid.isSome) ∧
      d.withNuids.everyParagraph.map raw = d.everyParagraph.map raw ∧
      d.withNuids.headings.map Heading.title = d.headings.map Heading.title ∧
      (d.withNuids.nuids.Nodup ↔ ∀ one ∈ d.texts, ∀ two ∈ d.texts, Digest.ofText one = Digest.ofText two → one = two) ∧
      d.withNuids.withNuids = d.withNuids := by
  have stamped : ∀ nuid ∈ d.withNuids.nuids, nuid.isSome := by
    rw [withNuids_nuids]
    exact List.forall_mem_map.mpr fun _ _ => rfl
  obtain ⟨paragraphs,headings⟩ := List.forall_mem_append.mp stamped
  refine ⟨List.forall_mem_map.mp paragraphs,List.forall_mem_map.mp headings,d.withNuids_contents,d.withNuids_titles,?_,
    d.withNuids_again⟩
  rw [withNuids_nuids]
  exact stamps_nodup d.name d.texts

-- One text as a paragraph, inside a quote and as a title, and another one as that of the quote.
def recurring : Document :=
  ⟨"d",[.common "Same." "text",.container "> Same." "quote" none .quote "quote" [.common "Same." "text"]],
    [⟨{ level := 1, title := "Same." },[],[]⟩],none⟩

theorem nuids_unique_recurring :
    (∀ one ∈ recurring.texts, ∀ two ∈ recurring.texts, Digest.ofText one = Digest.ofText two → one = two) ∧
      recurring.withNuids.nuids.Nodup ∧
      recurring.withNuids.nuids = [some ("d-7b6a289a-0" : Text),some ("d-e35c77f4-0" : Text),some ("d-7b6a289a-1" : Text),
        some ("d-7b6a289a-2" : Text)] := by
  have apart : ∀ one ∈ recurring.texts, ∀ two ∈ recurring.texts, Digest.ofText one = Digest.ofText two → one = two := by
    decide +kernel
  obtain ⟨_,_,_,_,unique,_⟩ := nuids_unique recurring
  exact ⟨apart,unique.mpr apart,by decide +kernel⟩

end Document
end LightMarkup
