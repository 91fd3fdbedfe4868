import LightMarkup.Proofs.Blanks.Leaves
import LightMarkup.Proofs.Loading.Likening
import LightMarkup.Proofs.Loading.Lines

/-!
Loading a text and the text with one gap less on a blank line: each construct takes the same blocks out of both, no quote has
a blank line in it, and rows of images leave blank lines out.
-/

namespace LightMarkup

open Block (Gaps Ends)
open Cursor (Aligned)
open Text (isAllBlank lines)

variable {b f g q t t' u : Text} {x : Char}

namespace Text

theorem gaps_unbroken (gaps : Gaps g) : Unbroken g := by
  intro y member
  rcases CharSet.gap_cases (gaps y member) with rfl | rfl <;> decide

theorem gaps_blank (gaps : Gaps g) : isAllBlank g = true :=
  List.all_eq_true.mpr gaps.blank

theorem lines_feed (isBreak : isLineBreak x = true) (other : x = '\r' → t.head? ≠ some '\n') : lines (x :: t) = [] :: lines t := by
  rw [lines]
  · exact if_pos isBreak
  · rintro rest return_ rfl
    exact other return_ rfl

theorem lines_some (some : t ≠ []) : lines t ≠ [] := by
  cases t with
  | nil => exact absurd rfl some
  | cons y rest =>
    cases isBreak : isLineBreak y with
    | false =>
      rw [lines_cons isBreak]
      split <;> exact List.cons_ne_nil _ _
    | true =>
      rw [lines.eq_def]
      split <;> simp_all

-- A newline ends a line.
theorem lines_cut (t u : Text) : lines (t ++ '\n' :: u) = lines (t ++ ['\n']) ++ lines u := by
  induction t using lines.induct with
  | case1 => rfl
  | case2 rest ih =>
    show [] :: lines (rest ++ '\n' :: u) = [] :: lines (rest ++ ['\n']) ++ lines u
    rw [ih,List.cons_append]
  | case3 y rest other isBreak ih =>
    by_cases last : rest = [] ∧ y = '\r'
    · obtain ⟨rfl,rfl⟩ := last
      rfl
    · have feed : ∀ u, y = '\r' → (rest ++ '\n' :: u).head? ≠ some '\n' := by
        intro u return_
        cases rest with
        | nil => exact absurd ⟨rfl,return_⟩ last
        | cons z rest =>
          intro newline
          obtain rfl : z = '\n' := Option.some.inj newline
          exact other rest return_ rfl
      rw [List.cons_append,List.cons_append,lines_feed isBreak (feed u),lines_feed isBreak (feed []),ih,List.cons_append]
  | case4 y rest other unbroken none ih | case5 y rest other unbroken line others same ih =>
    have whole : isLineBreak y = false := Bool.not_eq_true _ ▸ unbroken
    rw [List.cons_append,List.cons_append,lines_cons whole,lines_cons whole,ih]
    cases front : lines (rest ++ ['\n']) with
    | nil => exact absurd front (lines_some (by simp))
    | cons => rfl

-- The lines that are not blank are the same.
theorem filled_gap (gaps : Gaps g) (isGap : CharSet.gap.contains x = true) (breaks : Breaks q) :
    (lines (g ++ x :: q)).filter (fun line => !isAllBlank line) = (lines (g ++ q)).filter fun line => !isAllBlank line := by
  have more : Gaps (g ++ [x]) := List.forall_mem_append.mpr ⟨gaps,List.forall_mem_singleton.mpr isGap⟩
  have whole : ∀ u, g ++ x :: u = (g ++ [x]) ++ u := fun u => by simp
  cases q with
  | nil =>
    rw [List.append_nil,lines_last (gaps_unbroken more) (by simp)]
    by_cases none : g = []
    · rw [List.filter_cons_of_neg (by simp [gaps_blank more]),none]
      rfl
    · rw [lines_last (gaps_unbroken gaps) none]
      simp [gaps_blank more,gaps_blank gaps]
  | cons y r =>
    obtain rfl := breaks y rfl
    rw [whole,lines_break (gaps_unbroken more),lines_break (gaps_unbroken gaps)]
    simp [gaps_blank more,gaps_blank gaps]

end Text

-- The gap ends a line of gaps, which begins the text or stands behind a newline.
theorem Site.line_cases (site : Site (t.reverse ++ b) x q) :
    Gaps t ∧ Gaps (onLine b) ∨ ∃ f g, t = f ++ '\n' :: g ∧ Gaps g := by
  have line := site.line
  rcases Text.newline_cases t.reverse with free | ⟨back,rest,split,free⟩
  · rw [onLine_append free] at line
    obtain ⟨inner,outer⟩ := List.forall_mem_append.mp line
    exact Or.inl ⟨fun y member => inner y (List.mem_reverse.mpr member),outer⟩
  · rw [split,List.append_assoc,onLine_append free] at line
    refine Or.inr ⟨rest.reverse,back.reverse,?_,fun y member => ?_⟩
    · rw [← List.reverse_reverse t,split]
      simp
    · exact (List.forall_mem_append.mp line).1 y (List.mem_reverse.mp member)

-- A row of images has the same lines but for blank ones.
theorem Image.ofLines_aligned (aligned : Aligned (.start t) (.start t')) : ofLines (lines t') = ofLines (lines t) := by
  rcases aligned.texts with rfl | ⟨p,y,q,rfl,rfl,site⟩
  · rfl
  · rw [← List.append_nil p.reverse] at site
    rw [← ofLines_filled,← ofLines_filled (lines (p ++ y :: q))]
    congr 1
    rcases site.line_cases with ⟨gaps,_⟩ | ⟨f,g,rfl,gaps⟩
    · exact (Text.filled_gap gaps site.gap site.breaks).symm
    · rw [List.append_assoc,List.append_assoc,List.cons_append,List.cons_append,Text.lines_cut f (g ++ q),
        Text.lines_cut f (g ++ y :: q),List.filter_append,List.filter_append,Text.filled_gap gaps site.gap site.breaks]

namespace Block

-- Before a blank line a block may end.
theorem ends_before (gaps : Gaps g) (breaks : Text.Breaks q) : Ends ('\n' :: (g ++ q)) := by
  refine ⟨[],_,rfl,List.forall_mem_nil _,Or.inr ⟨['\n'],g ++ q,rfl,Or.inl rfl,Or.inr ⟨g,q,rfl,gaps,?_⟩⟩⟩
  cases q with
  | nil => exact Or.inl rfl
  | cons y q =>
    obtain rfl := breaks y rfl
    exact Or.inr ⟨['\n'],q,rfl,Or.inl rfl⟩

-- No line of a quote is blank, as it would end before that.
theorem quote_same {m m' : Match} (both : quote.FoundBoth m m') : m'.text = m.text := by
  have matched := (Option.filter_eq_some_iff.mp both.found).1
  have matched' := (Option.filter_eq_some_iff.mp both.found').1
  obtain ⟨rest,n,begins,read,_,earlier⟩ := quote_first matched
  obtain ⟨t',read'⟩ := (Pattern.matchAt_way matched').2.reads
  rcases both.aligns.start.between both.aligns.stop read read' with same | ⟨p,x,q,whole,_,site⟩
  · rw [Match.text,Match.text,read.textTo,read'.textTo,same]
  · exfalso
    have mark : CharSet.gap.contains '>' = false := by decide
    rcases site.line_cases with ⟨gaps,_⟩ | ⟨f,g,rfl,gaps⟩
    · -- The mark would be a gap.
      have first : '>' ∈ p ++ [x] := by
        cases p with
        | nil => exact (List.cons.inj whole).1 ▸ List.mem_cons_self ..
        | cons y p => exact (List.cons.inj whole).1 ▸ List.mem_cons_self ..
      have isGap := (List.forall_mem_append.mpr ⟨gaps,List.forall_mem_singleton.mpr site.gap⟩) '>' first
      rw [mark] at isGap
      cases isGap
    · cases f with
      | nil => exact absurd (List.cons.inj whole).1 (by decide)
      | cons y f =>
        have taken : rest.take n = f ++ '\n' :: ((g ++ [x]) ++ q) := by simpa using (List.cons.inj whole).2
        have left : m.stop.after = rest.drop n := by
          have split := read.1
          rw [begins,List.cons_append] at split
          exact List.append_cancel_left ((List.cons.inj split).2.symm.trans (List.take_append_drop n rest).symm)
        have less : f.length < n := by
          have length := congrArg List.length taken
          simp only [List.length_take,List.length_append,List.length_cons] at length
          omega
        have more : Gaps (g ++ [x]) := List.forall_mem_append.mpr ⟨gaps,List.forall_mem_singleton.mpr site.gap⟩
        refine earlier f.length less ?_
        rw [← List.take_append_drop n rest,taken,List.append_assoc,List.drop_left,List.cons_append,List.append_assoc,← left]
        exact ends_before more site.breaks

end Block

namespace Loader

-- Nothing is left of an empty text, as no construct of the catalogue is without loading.
theorem partition_nil {loader : Loader} (sound : loader.catalogue.Sound) {constructs : List BlockConstruct}
    (known : ∀ construct ∈ constructs, ∃ loading ∈ construct.loading, construct ∈ Block.standard) (offset : Nat)
    (last : LastLevel) : loader.partition constructs offset [] last = pure ([],last) := by
  cases constructs with
  | nil =>
    have none : HeadingConstruct.findAll loader.catalogue.headings [] = [] :=
      Pattern.foundFrom_ended (HeadingConstruct.findAt_finds sound.standard_headings) (c := .start []) rfl
    rw [partition,leafBlocks,none]
    rfl
  | cons construct rest =>
    obtain ⟨⟨loading,isLoading,member⟩,_⟩ := List.forall_mem_cons.mp known
    have found : construct.blockMatches [] = .ok [] := by
      have ended := Pattern.foundFrom_ended construct.blockAt_finds (c := .start []) rfl
      exact (BlockConstruct.matchesFrom_ok (Block.standard_some member) [] [] 0).trans (congrArg _ ended)
    simp only [partition,Option.mem_def.mp isLoading,found]
    rfl

end Loader

namespace Catalogue

variable {catalogue : Catalogue}

-- Every block construct is loaded somehow.
def Loaded (catalogue : Catalogue) : Prop :=
  ∀ construct ∈ catalogue.blocks, construct.loading ≠ none

theorem likens_aligned (derived : catalogue.Derived) (loaded : catalogue.Loaded) :
    catalogue.Likens (fun t t' => Aligned (.start t) (.start t')) BlockConstruct.FoundBoth where
  leaves _ _ _ _ aligned offset offset' last := Loader.leafBlocks_aligned derived.sound aligned offset offset' last
  gaps {settings nested constructs} among parts t t' aligned offset offset' last := by
    have known : ∀ construct ∈ constructs, ∃ loading ∈ construct.loading, construct ∈ Block.standard := by
      intro construct member
      obtain ⟨loading,isLoading⟩ := Option.ne_none_iff_exists'.mp (loaded construct (among member))
      exact ⟨loading,isLoading,derived.loads construct (among member) loading isLoading⟩
    have same : ∀ offset t, Loader.gapBlocks (Loader.partition ⟨catalogue,settings,nested⟩ constructs) offset t last =
        Loader.partition ⟨catalogue,settings,nested⟩ constructs offset t last := by
      intro offset t
      have none : Loader.partition ⟨catalogue,settings,nested⟩ constructs offset [] last = pure ([],last) :=
        Loader.partition_nil derived.sound known offset last
      unfold Loader.gapBlocks
      split
      · rename_i empty
        rw [List.isEmpty_iff.mp empty,none]
      · rfl
    rw [same,same]
    exact parts aligned offset offset' last
  cuts {construct loading} isBlock isLoading {t t'} aligned := by
    have member := derived.loads construct isBlock loading isLoading
    obtain ⟨ms,ms',found,found',paired⟩ := BlockConstruct.blockMatches_aligned member aligned
    refine ⟨ms,ms',found,found',paired.cut (fun aligned => aligned.rest) ?_ id⟩
    exact fun aligned both read read' => aligned.gap both.aligns.start read read'
  loads {construct loading} isBlock isLoading settings nested inside m m' both := by
    have way := (Pattern.matchAt_way (Option.filter_eq_some_iff.mp both.found).1).2
    have way' := (Pattern.matchAt_way (Option.filter_eq_some_iff.mp both.found').1).2
    have body : Aligned (.start (m.group 2)) (.start (m'.group 2)) := both.aligns.gap way way' (by decide)
    refine Loading.load_alike (derived.loads construct isBlock loading isLoading) isLoading both.found both.found' ?_ ?_ ?_
    · intro _
      rw [Image.ofLines_aligned body]
      exact .same fun _ => trivial
    · rintro rfl
      rw [Block.quote_same both]
    · exact fun _ => inside body

end Catalogue
end LightMarkup
