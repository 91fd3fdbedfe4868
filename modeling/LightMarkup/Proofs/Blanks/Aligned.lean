import LightMarkup.Proofs.Loading.Endings
import LightMarkup.Proofs.Loading.Likeness
import LightMarkup.Proofs.Returns.Sparing

/-!
Places of a text and of the text with one gap less on a blank line. The gap is the last one of its line, so each place of the
first text has its own in the second, but for the two around the gap, which have the same.
-/

namespace LightMarkup

open Block (Gaps)

-- A text that goes on with the end of a line, or not at all.
abbrev Text.Breaks (t : Text) : Prop :=
  ∀ y ∈ t.head?, y = '\n'

-- Two brackets that close a label at the end of a line, the nearest character first.
def Text.Labelled (b : Text) : Prop :=
  ∃ e, b = ']' :: ']' :: e ∨ b = '\r' :: ']' :: ']' :: e

-- A style on the next line.
def Text.Styled (t : Text) : Prop :=
  ∃ e, t = '\n' :: '\x7b' :: '\x7b' :: e

-- A gap that ends a blank line, and is not all of a line between a label and a style.
structure Site (b : Text) (x : Char) (t : Text) : Prop where
  gap : CharSet.gap.contains x = true
  line : Gaps (onLine b)
  breaks : Text.Breaks t
  apart : ∀ e, b = '\n' :: e → Text.Labelled e → ¬ Text.Styled t

section

variable {b e t u : Text} {x : Char}

theorem onLine_cons (other : x ≠ '\n') (b : Text) : onLine (x :: b) = x :: onLine b :=
  List.takeWhile_cons_of_pos (bne_iff_ne.mpr other)

theorem onLine_append (single : '\n' ∉ b) (e : Text) : onLine (b ++ e) = b ++ onLine e :=
  List.takeWhile_append_of_pos fun _ member => bne_iff_ne.mpr (ne_of_mem_of_not_mem member single)

theorem onLine_front (broken : '\n' ∈ b) (e : Text) : onLine (b ++ e) = onLine b := by
  obtain ⟨f,g,rfl⟩ := List.append_of_mem broken
  induction f with
  | nil => rfl
  | cons y f ih =>
    by_cases newline : y = '\n'
    · rw [newline]
      rfl
    · rw [List.cons_append,List.cons_append,onLine_cons newline,onLine_cons newline,ih (by simp)]

theorem onLine_sub (b e : Text) : onLine b ⊆ onLine (b ++ e) := by
  by_cases broken : '\n' ∈ b
  · rw [onLine_front broken]
    exact List.Subset.refl _
  · have whole := onLine_append broken []
    rw [List.append_nil] at whole
    rw [onLine_append broken,whole]
    exact List.append_subset.mpr ⟨List.subset_append_left _ _,List.nil_subset _⟩

theorem Text.Breaks.onLine (breaks : Breaks t) : onLine t = [] := by
  cases t with
  | nil => rfl
  | cons y t =>
    obtain rfl := breaks y rfl
    rfl

theorem Text.Breaks.front (breaks : Breaks (t ++ u)) : Breaks t := by
  intro y first
  cases t with
  | nil => cases first
  | cons z t => exact breaks y first

theorem Text.Breaks.nothing (breaks : Breaks (b.reverse ++ t)) (single : '\n' ∉ b) : b = [] := by
  cases last : b.reverse with
  | nil => exact List.reverse_eq_nil_iff.mp last
  | cons y b' =>
    obtain rfl := breaks y (by rw [last]; rfl)
    exact absurd (List.mem_reverse.mp (last ▸ List.mem_cons_self ..)) single

theorem Site.other (site : Site b x t) : x ≠ '\n' := by
  rintro rfl
  exact absurd site.gap (by decide)

-- The same gap in a shorter text.
theorem Site.cut (site : Site (b ++ e) x (t ++ u)) : Site b x t where
  gap := site.gap
  line y member := site.line y (onLine_sub b e member)
  breaks := site.breaks.front
  apart := by
    rintro f rfl ⟨g,label⟩ ⟨h,rfl⟩
    refine site.apart (f ++ e) rfl ⟨g ++ e,?_⟩ ⟨h ++ u,rfl⟩
    rcases label with rfl | rfl
    · exact Or.inl rfl
    · exact Or.inr rfl

-- Read up to behind a gap, and without the gap up to the same place, two texts differ by the gap alone.
theorem Site.among {s t' : Text} (site : Site b x (s.reverse ++ u)) (read : s ++ x :: b = t.reverse ++ e)
    (read' : s ++ b = t'.reverse ++ e) : ∃ p q, t = p ++ x :: q ∧ t' = p ++ q ∧ Site (p.reverse ++ e) x (q ++ u) := by
  rcases List.append_eq_append_iff.mp read' with ⟨m,front,rest⟩ | ⟨m,front,rest⟩
  · rw [rest,← List.cons_append,← List.append_assoc] at read
    have whole := List.append_cancel_right read
    refine ⟨m.reverse,s.reverse,?_,?_,?_⟩
    · rw [← List.reverse_reverse t,← whole]
      simp
    · rw [← List.reverse_reverse t',front]
      simp
    · rwa [List.reverse_reverse,← rest]
  · have whole : t'.reverse ++ (m ++ [x]) = t.reverse ++ m := by
      rw [rest,front] at read
      exact List.append_cancel_right (by simpa using read)
    rcases List.eq_nil_or_concat m with rfl | ⟨m,y,rfl⟩
    · refine ⟨[],t',?_,rfl,?_⟩
      · rw [← List.reverse_reverse t,← List.append_nil t.reverse,← whole]
        simp
      · rw [rest]
        simpa [front] using site
    · obtain rfl : y = '\n' := site.breaks y (by rw [front]; simp)
      have last := congrArg List.getLast? whole
      exact absurd (by simpa using last) site.other

-- The gap does not come back behind itself.
theorem Site.once {s t' : Text} (site : Site b x (s.reverse ++ u)) (begins : t <+: u) (begins' : t' <+: u) :
    t.reverse ++ (s ++ x :: b) ≠ t'.reverse ++ (s ++ b) := by
  intro same
  have longer : t'.length = t.length + 1 := by
    have lengths := congrArg List.length same
    simp at lengths
    omega
  obtain ⟨z,rfl⟩ : ∃ z, t' = t ++ [z] := by
    obtain ⟨m,rfl⟩ := List.prefix_of_prefix_length_le begins begins' (by omega)
    obtain ⟨z,rfl⟩ := List.length_eq_one_iff.mp (by simpa using longer)
    exact ⟨z,rfl⟩
  have round : x :: (s.reverse ++ t) = (s.reverse ++ t) ++ [z] := by
    have whole := congrArg List.reverse same
    simpa using whole
  have first := congrArg List.head? round
  obtain ⟨v,rfl⟩ := begins'
  refine site.other (site.breaks x ?_)
  simpa using first.symm

end

namespace Cursor

variable {c c' d d' : Cursor} {t t' : Text}

-- On a line of gaps only.
def OnBlank (c : Cursor) : Prop :=
  Gaps (onLine c.before) ∧ Gaps (onLine c.after)

def BeforeGap (c : Cursor) : Prop :=
  ∃ x ∈ c.after.head?, CharSet.gap.contains x = true

inductive Aligned : Cursor → Cursor → Prop where
  | refl (c : Cursor) : Aligned c c
  | ahead {b w t : Text} {x : Char} (site : Site (w.reverse ++ b) x t) : Aligned ⟨b,w ++ x :: t⟩ ⟨b,w ++ t⟩
  | behind {s b t : Text} {x : Char} (site : Site b x (s.reverse ++ t)) : Aligned ⟨s ++ x :: b,t⟩ ⟨s ++ b,t⟩

-- At the end, before the same character, or before the gap.
inductive Step (c c' : Cursor) : Prop where
  | ended (none : c.after = []) (none' : c'.after = [])
  | inner {x : Char} {t t' : Text} (begins : c.after = x :: t) (begins' : c'.after = x :: t')
      (next : Aligned (c.past 1) (c'.past 1))
  | extra {x : Char} (begins : c.after = x :: c'.after) (site : Site c.before x c'.after) (same : c'.before = c.before)
      (next : Aligned (c.past 1) c')

theorem Aligned.step (aligned : Aligned c c') : Step c c' := by
  cases aligned with
  | refl =>
    cases begins : c.after with
    | nil => exact .ended begins begins
    | cons x t => exact .inner begins begins (.refl _)
  | @ahead b w t x site =>
    cases w with
    | nil => exact .extra rfl site rfl (.behind (s := []) site)
    | cons y w => exact .inner rfl rfl (.ahead (by simpa using site))
  | @behind s b t x site =>
    cases t with
    | nil => exact .ended rfl rfl
    | cons y t => exact .inner rfl rfl (.behind (s := y :: s) (by simpa using site))

theorem onBlank_before {x : Char} (site : Site c.before x t) (begins : c.after = x :: t) : c.OnBlank := by
  refine ⟨site.line,?_⟩
  rw [begins,onLine_cons site.other,site.breaks.onLine]
  exact List.forall_mem_singleton.mpr site.gap

theorem Aligned.onBlank (aligned : Aligned c c') : c.OnBlank ↔ c'.OnBlank := by
  have gaps : ∀ {one two : Text} {x : Char}, CharSet.gap.contains x = true → (Gaps (one ++ x :: two) ↔ Gaps (one ++ two)) := by
    intro one two x gap
    simp only [Gaps,List.forall_mem_append,List.forall_mem_cons,gap,true_and]
  cases aligned with
  | refl => exact Iff.rfl
  | @ahead b w t x site =>
    refine and_congr Iff.rfl ?_
    by_cases broken : '\n' ∈ w
    · rw [onLine_front broken,onLine_front broken]
    · rw [onLine_append broken,onLine_append broken,onLine_cons site.other]
      exact gaps site.gap
  | @behind s b t x site =>
    refine and_congr ?_ Iff.rfl
    by_cases broken : '\n' ∈ s
    · rw [onLine_front broken,onLine_front broken]
    · rw [onLine_append broken,onLine_append broken,onLine_cons site.other]
      exact gaps site.gap

-- The end of its line is all that may follow on a blank line besides gaps.
theorem OnBlank.next {x : Char} (blank : c.OnBlank) (begins : c.after = x :: t) : x = '\n' ∨ CharSet.gap.contains x = true := by
  by_cases newline : x = '\n'
  · exact Or.inl newline
  · refine Or.inr (blank.2 x ?_)
    rw [begins,onLine_cons newline]
    exact List.mem_cons_self ..

-- Going on along a line is staying on it.
theorem onBlank_past {x : Char} (begins : c.after = x :: t) (other : x ≠ '\n') : (c.past 1).OnBlank ↔ c.OnBlank := by
  have before : (c.past 1).before = x :: c.before := by simp [past,begins]
  have after : (c.past 1).after = t := by simp [begins]
  rw [OnBlank,OnBlank,before,after,begins,onLine_cons other,onLine_cons other]
  simp only [Gaps,List.forall_mem_cons]
  tauto

theorem onBlank_reads (read : c.Reads t d) (single : '\n' ∉ t) : d.OnBlank ↔ c.OnBlank := by
  obtain ⟨b,a⟩ := c
  obtain ⟨b',a'⟩ := d
  obtain ⟨ahead,behind⟩ := read
  simp only at ahead behind
  subst ahead behind
  rw [OnBlank,OnBlank,onLine_append single,onLine_append (by simpa using single)]
  simp only [Gaps,List.forall_mem_append,List.mem_reverse]
  tauto

theorem onBlank_behind {b u : Text} {x : Char} (site : Site b x u) (ended : onLine t = []) :
    (⟨x :: b,t⟩ : Cursor).OnBlank := by
  refine ⟨?_,?_⟩
  · rw [onLine_cons site.other]
    exact List.forall_mem_cons.mpr ⟨site.gap,site.line⟩
  · rw [ended]
    exact List.forall_mem_nil _

theorem Aligned.isLineStart (aligned : Aligned c c') (off : ¬ c.OnBlank) :
    Pattern.isLineStart c = Pattern.isLineStart c' := by
  cases aligned with
  | refl => rfl
  | ahead => rfl
  | @behind s b t x site =>
    cases s with
    | cons y s => rfl
    | nil => exact absurd (onBlank_behind site (Text.Breaks.onLine site.breaks)) off

-- Of the line before it counts what is not blank.
theorem isBlockStart_line {l : Text} (e e' : Text) (single : '\n' ∉ l) (t : Text)
    (same : Text.trim (onLine e).reverse = Text.trim (onLine e').reverse) :
    (⟨l ++ '\n' :: e,t⟩ : Cursor).isBlockStart = (⟨l ++ '\n' :: e',t⟩ : Cursor).isBlockStart := by
  have line : ∀ e, (l ++ '\n' :: e).takeWhile (· != '\n') = l := fun e => (onLine_append single _).trans (List.append_nil l)
  unfold onLine at same
  simp only [Cursor.isBlockStart,line,List.drop_left,same]

theorem Aligned.isBlockStart (aligned : Aligned c c') (off : ¬ c.OnBlank) : c.isBlockStart = c'.isBlockStart := by
  cases aligned with
  | refl => rfl
  | ahead => rfl
  | @behind s b t x site =>
    rcases Text.newline_cases s with single | ⟨l,e,rfl,single⟩
    · obtain rfl := site.breaks.nothing single
      exact absurd (onBlank_behind site (Text.Breaks.onLine site.breaks)) off
    · rw [List.append_assoc,List.append_assoc]
      refine isBlockStart_line (e ++ x :: b) (e ++ b) single t ?_
      by_cases broken : '\n' ∈ e
      · rw [onLine_front broken,onLine_front broken]
      · -- The line before is the one with the gap.
        obtain rfl : e = [] := Text.Breaks.nothing (by simpa using site.breaks) broken
        have blank : ∀ {g : Text}, Gaps g → Text.trim g.reverse = [] := by
          intro g gaps
          rw [← List.isEmpty_iff,Text.trim_blank]
          exact List.all_eq_true.mpr fun y member => gaps.blank y (List.mem_reverse.mp member)
        rw [List.nil_append,List.nil_append,onLine_cons site.other,blank site.line,
          blank (List.forall_mem_cons.mpr ⟨site.gap,site.line⟩)]

-- What is read between two pairs of places is the same, but for the gap if that is among it.
theorem Aligned.between (aligned : Aligned c c') (stops : Aligned d d') (read : c.Reads t d) (read' : c'.Reads t' d') :
    t = t' ∨ ∃ p x q, t = p ++ x :: q ∧ t' = p ++ q ∧ Site (p.reverse ++ c.before) x (q ++ d.after) := by
  have fronts : c.before = c'.before → d.before = d'.before → t = t' := by
    intro same stop
    have whole := read.2.symm.trans (stop.trans read'.2)
    rw [← same] at whole
    exact List.reverse_injective (List.append_cancel_right whole)
  have backs : c.after = c'.after → d.after = d'.after → t = t' := by
    intro same stop
    have whole := read.1.symm.trans (same.trans read'.1)
    rw [← stop] at whole
    exact List.append_cancel_right whole
  cases stops with
  | refl =>
    cases aligned with
    | refl | ahead => exact Or.inl (fronts rfl rfl)
    | behind => exact Or.inl (backs rfl rfl)
  | ahead =>
    cases aligned with
    | refl | ahead => exact Or.inl (fronts rfl rfl)
    | behind site => exact absurd (read.2.symm.trans read'.2) (site.once ⟨_,read.1.symm⟩ ⟨_,read'.1.symm⟩)
  | behind site =>
    cases aligned with
    | refl | ahead =>
      obtain ⟨p,q,gap⟩ := site.among read.2 read'.2
      exact Or.inr ⟨p,_,q,gap⟩
    | behind => exact Or.inl (backs rfl rfl)

-- A text that is read between two pairs of places.
theorem Aligned.gap (aligned : Aligned c c') (stops : Aligned d d') (read : c.Reads t d) (read' : c'.Reads t' d') :
    Aligned (.start t) (.start t') := by
  rcases aligned.between stops read read' with rfl | ⟨p,x,q,rfl,rfl,site⟩
  · exact .refl _
  · exact .ahead (b := []) (by rw [List.append_nil]; exact site.cut)

theorem Aligned.rest (aligned : Aligned c c') : Aligned (.start c.after) (.start c'.after) := by
  cases aligned with
  | refl | behind => exact .refl _
  | @ahead b w t x site =>
    rw [← List.append_nil t] at site
    exact .ahead (b := []) (by rw [List.append_nil]; exact site.cut)

-- The gap is not on a line that is not blank.
theorem Aligned.same (aligned : Aligned c c') (stops : Aligned d d') (read : c.Reads t d) (read' : c'.Reads t' d')
    (single : '\n' ∉ t) (off : ¬ c.OnBlank) : t = t' := by
  rcases aligned.between stops read read' with same | ⟨p,x,q,rfl,rfl,site⟩
  · exact same
  · obtain rfl : q = [] := by
      cases q with
      | nil => rfl
      | cons y q =>
        obtain rfl := site.breaks y rfl
        exact absurd (by simp) single
    have place : c.Reads p ⟨p.reverse ++ c.before,x :: d.after⟩ := ⟨by simpa using read.1,rfl⟩
    have blank := onBlank_before (c := ⟨p.reverse ++ c.before,x :: d.after⟩) site rfl
    exact absurd ((onBlank_reads place fun member => single (List.mem_append_left _ member)).mp blank) off

-- Whole texts.
theorem Aligned.texts (aligned : Aligned (.start t) (.start t')) :
    t = t' ∨ ∃ p x q, t = p ++ x :: q ∧ t' = p ++ q ∧ Site p.reverse x q := by
  generalize one : Cursor.start t = c,two : Cursor.start t' = c' at aligned
  cases aligned with
  | refl =>
    rw [← one] at two
    exact Or.inl (congrArg Cursor.after two).symm
  | ahead site =>
    obtain ⟨rfl,rfl⟩ := Cursor.mk.inj one
    obtain ⟨_,rfl⟩ := Cursor.mk.inj two
    exact Or.inr ⟨_,_,_,rfl,rfl,by simpa using site⟩
  | behind site =>
    have none := (Cursor.mk.inj one).1
    simp at none

theorem Aligned.blank (aligned : Aligned (.start t) (.start t')) : Text.isAllBlank t' = Text.isAllBlank t := by
  rcases aligned.texts with rfl | ⟨p,x,q,rfl,rfl,site⟩
  · rfl
  · have isBlank : Text.isBlank x = true :=
      Gaps.blank (List.forall_mem_singleton.mpr site.gap) x (List.mem_singleton_self x)
    simp [Text.isAllBlank,isBlank]

end Cursor
end LightMarkup
