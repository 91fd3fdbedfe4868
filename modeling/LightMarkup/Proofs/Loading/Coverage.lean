import LightMarkup.Loading
import LightMarkup.Proofs.Pattern.Following

/-!
Coverage: spans in order that take every character of a text that is not blank. Coverings of neighbouring texts are put
together by `Covered.append`, so what a text is cut into can be covered piece by piece.
-/

namespace LightMarkup

abbrev Blank (t : Text) : Prop :=
  ∀ x ∈ t, Text.isBlank x = true

-- The text begins at `offset`. Between the spans it is blank.
inductive Covered : Nat → Text → List (Nat × Nat) → Prop where
  | blank {offset : Nat} {t : Text} (blank : Blank t) : Covered offset t []
  | span {offset : Nat} {gap inner rest : Text} {spans : List (Nat × Nat)} (blank : Blank gap) (some : inner ≠ [])
      (later : Covered (offset + gap.length + inner.length) rest spans) :
      Covered offset (gap ++ (inner ++ rest)) ((offset + gap.length,offset + gap.length + inner.length) :: spans)

namespace Covered

variable {offset : Nat} {t u : Text} {spans others : List (Nat × Nat)}

theorem gap {gap : Text} (blank : Blank gap) (covered : Covered (offset + gap.length) t spans) :
    Covered offset (gap ++ t) spans := by
  cases covered with
  | blank around => exact .blank fun x member => (List.mem_append.mp member).elim (blank x) (around x)
  | @span _ first inner rest spans around some later =>
    have all : Blank (gap ++ first) := fun x member => (List.mem_append.mp member).elim (blank x) (around x)
    rw [← List.append_assoc,Nat.add_assoc offset,← List.length_append]
    refine .span all some ?_
    rwa [List.length_append,← Nat.add_assoc]

theorem append (first : Covered offset t spans) (next : Covered (offset + t.length) u others) :
    Covered offset (t ++ u) (spans ++ others) := by
  induction first with
  | blank blank => exact next.gap blank
  | @span offset gap inner rest spans blank some later ih =>
    rw [List.append_assoc,List.append_assoc,List.cons_append]
    refine .span blank some (ih ?_)
    simpa [Nat.add_assoc] using next

theorem whole (offset : Nat) (some : t ≠ []) : Covered offset t [(offset,offset + t.length)] := by
  have covered : Covered offset ([] ++ (t ++ [])) [(offset + 0,offset + 0 + t.length)] :=
    .span (List.forall_mem_nil _) some (.blank (List.forall_mem_nil _))
  simpa using covered

theorem shift {position : Nat} (covered : Covered position t spans) (offset : Nat) :
    Covered (offset + position) t (spans.map fun span => (offset + span.1,offset + span.2)) := by
  induction covered with
  | blank blank => exact .blank blank
  | @span position gap inner rest spans blank some later ih =>
    rw [List.map_cons,← Nat.add_assoc,← Nat.add_assoc,← Nat.add_assoc]
    refine .span blank some ?_
    rwa [← Nat.add_assoc,← Nat.add_assoc] at ih

theorem inOrder (covered : Covered offset t spans) : InOrder offset (offset + t.length) spans := by
  induction covered with
  | blank => exact Nat.le_add_right _ _
  | @span offset gap inner rest spans blank some later ih =>
    have positive := List.length_pos_iff.mpr some
    refine ⟨Nat.le_add_right _ _,by omega,?_⟩
    simpa [Nat.add_assoc] using ih

-- Outside the spans there are only blanks.
theorem outside (covered : Covered offset t spans) {i : Nat} (bound : i < t.length)
    (free : ∀ span ∈ spans, ¬ (span.1 ≤ offset + i ∧ offset + i < span.2)) : Text.isBlank t[i] = true := by
  induction covered generalizing i with
  | blank blank => exact blank _ (List.getElem_mem bound)
  | @span offset gap inner rest spans blank some later ih =>
    obtain ⟨here,others⟩ := List.forall_mem_cons.mp free
    by_cases before : i < gap.length
    · rw [List.getElem_append_left before]
      exact blank _ (List.getElem_mem before)
    · have behind : inner.length ≤ i - gap.length := by
        by_cases inside : i - gap.length < inner.length
        · exact absurd ⟨by omega,by omega⟩ here
        · omega
      rw [List.getElem_append_right (by omega),List.getElem_append_right behind]
      refine ih _ fun span member => ?_
      have far := others span member
      rwa [show offset + gap.length + inner.length + (i - gap.length - inner.length) = offset + i by omega]

-- Matches around which the text is blank cover it.
theorem of_follow {position : Nat} {ms : List Match}
    (follow : Match.Follow (fun x => Text.isBlank x = true) position t ms) : Covered position t (ms.map Match.span) := by
  induction follow with
  | nil around => exact .blank around
  | @cons position gap inner m rest placed around read some later ih =>
    have stop := read.position
    rw [read.1,List.map_cons,Match.span,stop,placed]
    refine .span around some ?_
    rwa [← placed,← stop]

-- What covers a match, the text before it and the text behind it covers the whole.
theorem around {P : Char → Prop} {position : Nat} {m : Match} {ms : List Match} {before here after : List (Nat × Nat)}
    (follow : Match.Follow P position t (m :: ms))
    (front : Covered (offset + position) (t.take (m.start.position - position)) before)
    (inside : ∀ inner, m.start.Reads inner m.stop → inner ≠ [] → Covered (offset + m.start.position) inner here)
    (back : Covered (offset + m.stop.position) (t.drop (m.stop.position - position)) after) :
    Covered (offset + position) t (before ++ here ++ after) := by
  obtain ⟨inner,whole,some,read,placed,_⟩ := follow.cut
  have behind : offset + m.stop.position = offset + m.start.position + inner.length := by rw [read.position,Nat.add_assoc]
  have reached : offset + m.start.position = offset + position + (t.take (m.start.position - position)).length := by
    rw [Nat.add_assoc,placed]
  have rest := (inside inner read some).append (behind ▸ back)
  have covered := front.append (reached ▸ rest)
  rwa [← whole,← List.append_assoc] at covered

end Covered

namespace PlacedBlock

def span (block : PlacedBlock) : Nat × Nat :=
  (block.start,block.stop)

end PlacedBlock

-- What is promised of the blocks of a text that begins at `offset`.
structure Partitions (offset : Nat) (t : Text) (blocks : List PlacedBlock) : Prop where
  inside : ∀ block ∈ blocks, offset ≤ block.start ∧ block.stop ≤ offset + t.length
  some : ∀ block ∈ blocks, block.start < block.stop
  apart : blocks.Pairwise fun one two => one.stop ≤ two.start
  rising : blocks.Pairwise fun one two => one.start < two.start
  blank : ∀ (i : Nat) (bound : i < t.length),
    (∀ block ∈ blocks, ¬ (block.start ≤ offset + i ∧ offset + i < block.stop)) → Text.isBlank t[i] = true

namespace Covered

theorem partitions {offset : Nat} {t : Text} {blocks : List PlacedBlock}
    (covered : Covered offset t (blocks.map PlacedBlock.span)) : Partitions offset t blocks := by
  have within := List.forall_mem_map.mp covered.inOrder.within
  have apart := List.pairwise_map.mp covered.inOrder.pairwise
  constructor
  case inside => exact fun block member => ⟨(within block member).1,(within block member).2.2⟩
  case some => exact fun block member => (within block member).2.1
  case apart => exact apart
  case rising =>
    refine apart.imp_of_mem fun {one two} isOne _ before => ?_
    exact Nat.lt_of_lt_of_le (within one isOne).2.1 before
  case blank => exact fun i bound free => covered.outside bound (List.forall_mem_map.mpr free)

end Covered

namespace Partitions

-- Sorting by starts changes nothing.
theorem sorted {offset : Nat} {t : Text} {blocks : List PlacedBlock} (partitions : Partitions offset t blocks) :
    Loader.sortBlocks blocks = blocks :=
  List.mergeSort_of_pairwise (partitions.rising.imp fun before => by simpa using Nat.le_of_lt before)

end Partitions
end LightMarkup
