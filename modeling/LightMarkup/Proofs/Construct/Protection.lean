import LightMarkup.Proofs.Construct.Emitting
import LightMarkup.Proofs.Draft.Splicing

/-!
What becomes of the parts that are hidden from a construct. Between the matches all of them stay. Inside a match those
stay that stand in the text it copies, the ends included, and the others are lost: a match is found in the visible text
alone, so a hidden part may also stand inside a delimiter or in text that is written into an attribute.
-/

namespace LightMarkup

-- One list of parts that is made of two, each in its order.
inductive Interleaved : List Part → List Part → List Part → Prop where
  | nil : Interleaved [] [] []
  | left {part : Part} {one two all : List Part} (later : Interleaved one two all) :
      Interleaved (part :: one) two (part :: all)
  | right {part : Part} {one two all : List Part} (later : Interleaved one two all) :
      Interleaved one (part :: two) (part :: all)

namespace Interleaved

variable {one two all other others whole : List Part}

theorem only (parts : List Part) : Interleaved parts [] parts := by
  induction parts with
  | nil => exact .nil
  | cons part parts ih => exact ih.left

theorem append (first : Interleaved one two all) (next : Interleaved other others whole) :
    Interleaved (one ++ other) (two ++ others) (all ++ whole) := by
  induction first with
  | nil => exact next
  | left later ih => exact ih.left
  | right later ih => exact ih.right

theorem length (interleaved : Interleaved one two all) : all.length = one.length + two.length := by
  induction interleaved with
  | nil => rfl
  | left later ih => simp only [List.length_cons,ih]; omega
  | right later ih => simp only [List.length_cons,ih]; omega

end Interleaved

-- Some parts and a number of fixed tags are all that is hidden in a text.
def Keeps (scope : Option String) (kept : List Part) (count : Nat) (parts : List Part) : Prop :=
  ∃ tags, tags.length = count ∧ (∀ tag ∈ tags, ∃ content, tag = .fixed content) ∧
    Interleaved kept tags (parts.filter fun part => !part.visibleTo scope)

namespace Keeps

variable {scope : Option String} {kept others parts rest : List Part} {count more : Nat}

theorem of_hidden (same : parts.filter (fun part => !part.visibleTo scope) = kept) : Keeps scope kept 0 parts :=
  ⟨[],rfl,by simp,same ▸ .only _⟩

theorem append (first : Keeps scope kept count parts) (next : Keeps scope others more rest) :
    Keeps scope (kept ++ others) (count + more) (parts ++ rest) := by
  obtain ⟨tags,length,fixed,all⟩ := first
  obtain ⟨tags',length',fixed',all'⟩ := next
  refine ⟨tags ++ tags',by simp [length,length'],fun tag member => ?_,?_⟩
  · rcases List.mem_append.mp member with member | member
    · exact fixed tag member
    · exact fixed' tag member
  · rw [List.filter_append]
    exact all.append all'

theorem tag (content : Text) (later : Keeps scope kept count parts) :
    Keeps scope kept (count + 1) (.fixed content :: parts) := by
  obtain ⟨tags,length,fixed,all⟩ := later
  refine ⟨.fixed content :: tags,by simp [length],fun tag member => ?_,?_⟩
  · rcases List.mem_cons.mp member with rfl | member
    · exact ⟨content,rfl⟩
    · exact fixed tag member
  · rw [List.filter_cons_of_pos (by simp [Part.visibleTo])]
    exact all.right

-- The number of parts that are kept is known from the text.
theorem length (one : Keeps scope kept count parts) (two : Keeps scope others count parts) :
    kept.length = others.length := by
  obtain ⟨tags,length,_,all⟩ := one
  obtain ⟨tags',length',_,all'⟩ := two
  have same := all.length.symm.trans all'.length
  omega

end Keeps

-- Pieces that write a tag or copy text as it is.
def Piece.plain : Piece → Bool
  | .capture _ escape => !escape
  | .whole => false
  | _ => true

namespace Rewriting

open Draft

variable {r : Rewriting} {pieces : List Piece} {out : List Part}

-- A construct that copies text unescaped and excludes nothing hands on what is hidden in the copies.
theorem Emits.keeps (emits : Emits r pieces out) (plain : r.construct.excluded = .nothing)
    (simple : pieces.all Piece.plain = true) : Keeps r.draft.scope
      ((selectionFrom r.draft.scope (r.copied pieces) 0 r.draft.parts).filter fun part => !part.visibleTo r.draft.scope)
      (pieces.filter Piece.isTag).length out := by
  induction emits with
  | nil => exact .of_hidden rfl
  | tag content isTag _ ih =>
    rw [List.all_cons,Bool.and_eq_true] at simple
    rw [copied,List.filterMap_cons_none (copied?_tag isTag),List.filter_cons_of_pos isTag]
    exact .tag content (ih simple.2)
  | absent absent _ ih =>
    rw [List.all_cons,Bool.and_eq_true] at simple
    rw [copied,List.filterMap_cons_none absent,List.filter_cons_of_neg (by simp [Piece.isTag])]
    exact ih simple.2
  | @copy group escape pieces out start stop copied proper _ ih =>
    rw [List.all_cons,Bool.and_eq_true] at simple
    have unescaped : escape = false := by simpa [Piece.plain] using simple.1
    have handed : (windowFrom r.draft.scope .both start stop 0 r.draft.parts).map (r.captured escape) =
        windowFrom r.draft.scope .both start stop 0 r.draft.parts := by
      simp [unescaped,funext (captured_same plain)]
    rw [Rewriting.copied,List.filterMap_cons_some copied,List.filter_cons_of_neg (by simp [Piece.isTag]),selectionFrom,
      List.flatMap_cons,List.filter_append,handed,← Nat.zero_add (List.length _)]
    exact (Keeps.of_hidden rfl).append (ih simple.2)
  | whole => cases simple

end Rewriting

namespace Construct

def copiesPlainly (c : Construct) : Bool :=
  match c.rewrite with
  | .pieces pieces => pieces.all Piece.plain && c.excluded == .nothing
  | _ => false

-- The spans that are copied from a match.
def copies (c : Construct) (found : Match) : List (Nat × Nat) :=
  match c.rewrite with
  | .pieces pieces => pieces.filterMap (found.copied? c.pattern)
  | _ => []

def tagCount (c : Construct) : Nat :=
  match c.rewrite with
  | .pieces pieces => (pieces.filter Piece.isTag).length
  | _ => 0

-- What is copied from the match at a span, in offsets of the text that the construct sees.
def copiesAt (c : Construct) (d : Draft) (span : Nat × Nat) : List (Nat × Nat) :=
  match c.pattern.search? (((visibleContentOf (some c.name) d.parts).take span.2).drop span.1) with
  | some found => (c.copies found).map fun copy => (span.1 + copy.1,span.1 + copy.2)
  | none => []

-- An offset that lies in what is copied from a match, the ends included.
def takes (c : Construct) (d : Draft) (span : Nat × Nat) (position : Nat) : Bool :=
  (c.copiesAt d span).any fun copy => decide (copy.1 ≤ position ∧ position ≤ copy.2)

-- An offset at which nothing is lost: inside a match it is taken.
def spares (c : Construct) (d : Draft) (position : Nat) : Bool :=
  (Draft.spansOf c.name c.pattern d).all fun span =>
    !decide (span.1 < position ∧ position < span.2) || c.takes d span position

end Construct

namespace Inline

-- The constructs that put a text of their match between tags.
def wrapping : List Construct := [
  todo,bookmarkWithId,bookmark,abridgedBookmarkWithId,abridgedBookmark,styledWithId,styled,abridgedStyledWithId,
  abridgedStyled,identifier,highlight,boldByStars,boldByUnderscores,italicByStars,italicByUnderscores,strikethrough,
  underlined,superscript,subscript,link]

theorem wrapping_standard : wrapping ⊆ standard := by
  simp [wrapping,standard]

theorem wrapping_plain {c : Construct} (member : c ∈ wrapping) :
    ∃ pieces, c.rewrite = .pieces pieces ∧ pieces.all Piece.plain = true ∧ c.excluded = .nothing := by
  have all : wrapping.all (fun c => c.copiesPlainly) = true := rfl
  have plain := List.all_eq_true.mp all c member
  unfold Construct.copiesPlainly at plain
  split at plain
  · rename_i pieces rewrites
    rw [Bool.and_eq_true] at plain
    exact ⟨pieces,rewrites,plain.1,by simpa using plain.2⟩
  · cases plain

end Inline

namespace Draft

-- Two filters of a list follow each other if nothing that the first takes comes after something that the second takes.
theorem filter_append_filter {α : Type} {f g : α → Bool} {xs : List α} (one : ∀ x ∈ xs, g x = true → f x = false)
    (apart : xs.Pairwise fun x y => g x = true → f y = false) :
    xs.filter f ++ xs.filter g = xs.filter fun x => f x || g x := by
  induction apart with
  | nil => rfl
  | @cons x xs first apart ih =>
    have here := one x (List.mem_cons_self ..)
    have later := ih fun y member => one y (List.mem_cons_of_mem _ member)
    simp only [List.filter_cons]
    cases second : g x with
    | false => cases f x <;> simp [later]
    | true =>
      have none : xs.filter f = [] := List.filter_eq_nil_iff.mpr fun y member => by simp [first y member second]
      rw [none,List.nil_append] at later
      simp [here second,none,later]

variable {scope : Option String} {parts : List Part} {taken : Nat × Nat → Nat → Bool} {first last count : Nat}
  {spans : List (Nat × Nat)}

theorem spares_before (taken : Nat × Nat → Nat → Bool) {position : Nat} (ordered : InOrder first last spans)
    (before : position ≤ first) :
    (spans.all fun span => !decide (span.1 < position ∧ position < span.2) || taken span position) = true := by
  induction spans generalizing first with
  | nil => rfl
  | cons span spans ih =>
    obtain ⟨start,stop⟩ := span
    obtain ⟨earlier,some,later⟩ := ordered
    have outside : ¬ (start < position ∧ position < stop) := by omega
    rw [List.all_cons,ih later (by omega)]
    simp [outside]

-- The hidden parts up to the end of the first match: those before it, those taken from it, and those of the rest.
theorem hidden_split {start stop : Nat} (ordered : InOrder first last ((start,stop) :: spans)) :
    ((hiddenFrom scope 0 parts).filter fun placed => decide (first ≤ placed.1 ∧ placed.1 ≤ last) &&
        ((start,stop) :: spans).all fun span =>
          !decide (span.1 < placed.1 ∧ placed.1 < span.2) || taken span placed.1) =
      ((hiddenFrom scope 0 parts).filter fun placed => decide (first ≤ placed.1 ∧ placed.1 ≤ start)) ++
        (((hiddenFrom scope 0 parts).filter fun placed =>
            decide (start < placed.1 ∧ placed.1 < stop) && taken (start,stop) placed.1) ++
          (hiddenFrom scope 0 parts).filter fun placed => decide (stop ≤ placed.1 ∧ placed.1 ≤ last) &&
            spans.all fun span => !decide (span.1 < placed.1 ∧ placed.1 < span.2) || taken span placed.1) := by
  obtain ⟨before,some,later⟩ := ordered
  have bound := later.le
  have sorted := hiddenFrom_sorted scope 0 parts
  rw [filter_append_filter,filter_append_filter]
  · refine List.filter_congr fun placed _ => ?_
    rcases Nat.lt_or_ge placed.1 stop with inside | behind
    · have rest := spares_before taken later (Nat.le_of_lt inside)
      rcases Nat.lt_or_ge start placed.1 with begun | ahead
      · have near : first ≤ placed.1 ∧ placed.1 ≤ last := by omega
        have notBefore : ¬ (first ≤ placed.1 ∧ placed.1 ≤ start) := by omega
        have notBehind : ¬ (stop ≤ placed.1 ∧ placed.1 ≤ last) := by omega
        rw [List.all_cons,rest,decide_eq_true near,decide_eq_false notBefore,decide_eq_false notBehind]
        simp [begun,inside]
      · have notInside : ¬ (start < placed.1 ∧ placed.1 < stop) := by omega
        have notBehind : ¬ (stop ≤ placed.1 ∧ placed.1 ≤ last) := by omega
        have near : (first ≤ placed.1 ∧ placed.1 ≤ last) = (first ≤ placed.1 ∧ placed.1 ≤ start) := by
          rw [eq_iff_iff]
          omega
        rw [List.all_cons,rest]
        simp only [near,notInside,notBehind]
        simp
    · have notInside : ¬ (start < placed.1 ∧ placed.1 < stop) := by omega
      have notBefore : ¬ (first ≤ placed.1 ∧ placed.1 ≤ start) := by omega
      have near : (first ≤ placed.1 ∧ placed.1 ≤ last) = (stop ≤ placed.1 ∧ placed.1 ≤ last) := by
        rw [eq_iff_iff]
        omega
      rw [List.all_cons]
      simp only [near,notInside,notBefore]
      simp
  · intro placed _ behind
    rw [Bool.or_eq_true,Bool.and_eq_true,Bool.and_eq_true,decide_eq_true_eq,decide_eq_true_eq] at behind
    exact decide_eq_false (by omega)
  · refine sorted.imp fun {one two} ordered behind => ?_
    rw [Bool.or_eq_true,Bool.and_eq_true,Bool.and_eq_true,decide_eq_true_eq,decide_eq_true_eq] at behind
    exact decide_eq_false (by omega)
  · intro placed _ behind
    rw [Bool.and_eq_true,decide_eq_true_eq] at behind
    rw [decide_eq_false (by omega),Bool.false_and]
  · refine sorted.imp fun {one two} ordered behind => ?_
    rw [Bool.and_eq_true,decide_eq_true_eq] at behind
    rw [decide_eq_false (by omega),Bool.false_and]

-- If every output keeps what is taken from its match, the whole keeps that and all that stands between the matches.
theorem spliced_keeps {outs : List (List Part)} (ordered : InOrder first last spans)
    (each : List.Forall₂ (fun span out => Keeps scope (((hiddenFrom scope 0 parts).filter fun placed =>
      decide (span.1 < placed.1 ∧ placed.1 < span.2) && taken span placed.1).map Prod.snd) count out) spans outs) :
    Keeps scope (((hiddenFrom scope 0 parts).filter fun placed =>
      decide (first ≤ placed.1 ∧ placed.1 ≤ last) && spans.all fun span =>
        !decide (span.1 < placed.1 ∧ placed.1 < span.2) || taken span placed.1).map Prod.snd)
      (spans.length * count) (spliced scope parts last first spans outs) := by
  have outside {first last : Nat} (ordered : first ≤ last) : Keeps scope (((hiddenFrom scope 0 parts).filter fun placed =>
      decide (first ≤ placed.1 ∧ placed.1 ≤ last)).map Prod.snd) 0 (stretch scope parts first last) := by
    refine .of_hidden ?_
    simp only [stretch,windowFrom_hides,← Boundary.keeps_both ordered,Bool.decide_eq_true]
  induction each generalizing first with
  | nil =>
    rw [List.length_nil,Nat.zero_mul]
    simp only [List.all_nil,Bool.and_true]
    exact outside ordered
  | @cons span out spans outs here _ ih =>
    obtain ⟨start,stop⟩ := span
    have all := (outside ordered.1).append (here.append (ih ordered.2.2))
    rw [hidden_split ordered,List.map_append,List.map_append,List.length_cons,Nat.succ_mul,Nat.add_comm _ count,
      ← Nat.zero_add (count + _)]
    exact all

end Draft

namespace Construct

open Draft

variable {c : Construct} {settings : CompileSettings} {context : Context} {d e : Draft} {out : List Part}

-- A match that is rewritten keeps the hidden parts that stand in what is copied from it.
theorem rewriteMatch_keeps {span : Nat × Nat} (member : c ∈ Inline.wrapping) (proper : span.1 ≤ span.2)
    (run : (c.rewriteMatch settings context ⟨matchedAt (some c.name) d.parts span,d.nuid,some c.name⟩).outcome = .ok out) :
    Keeps (some c.name) (((hiddenFrom (some c.name) 0 d.parts).filter fun placed =>
      decide (span.1 < placed.1 ∧ placed.1 < span.2) && c.takes d span placed.1).map Prod.snd) c.tagCount out := by
  obtain ⟨pieces,rewrites,plain,nothing⟩ := Inline.wrapping_plain member
  obtain ⟨found,searched,emits⟩ := rewriteMatch_emits rewrites run
  have apart := Rewriting.copied_apart (Inline.wrapping_standard member) (Pattern.search_way searched).2 rewrites emits
  have kept := emits.keeps nothing plain
  rw [selectionFrom_hides apart] at kept
  have copies : c.copiesAt d span =
      (pieces.filterMap (found.copied? c.pattern)).map fun copy => (span.1 + copy.1,span.1 + copy.2) := by
    have seen : ((visibleContentOf (some c.name) d.parts).take span.2).drop span.1 =
        visibleContentOf (some c.name) (matchedAt (some c.name) d.parts span) := by
      rw [matchedAt,visibleContentOf_window,Nat.sub_zero,Nat.sub_zero]
    rw [copiesAt,seen]
    simp only [visibleContent] at searched
    simp [searched,Construct.copies,rewrites]
  have same : (hiddenFrom (some c.name) 0 d.parts).filter (fun placed =>
        decide (span.1 < placed.1 ∧ placed.1 < span.2) && c.takes d span placed.1) =
      ((hiddenFrom (some c.name) 0 d.parts).filter fun placed =>
        Boundary.neither.keeps span.1 span.2 placed.1).filter fun placed =>
          (pieces.filterMap (found.copied? c.pattern)).any fun copy =>
            decide (copy.1 ≤ placed.1 - span.1 ∧ placed.1 - span.1 ≤ copy.2) := by
    rw [List.filter_filter]
    refine List.filter_congr fun placed _ => ?_
    rw [takes,copies,List.any_map,Bool.and_comm]
    by_cases inside : span.1 < placed.1 ∧ placed.1 < span.2
    · rw [decide_eq_true inside,Boundary.keeps_neither.mpr inside,Bool.and_true,Bool.and_true]
      congr 1
      funext copy
      rw [Function.comp,decide_eq_decide]
      omega
    · have dropped : Boundary.neither.keeps span.1 span.2 placed.1 = false := by
        rwa [Bool.eq_false_iff,ne_eq,Boundary.keeps_neither]
      rw [decide_eq_false inside,dropped,Bool.and_false,Bool.and_false]
  have inner : hiddenFrom (some c.name) (0 - span.1) _ = _ := hiddenFrom_window proper 0 d.parts
  rw [Nat.zero_sub] at inner
  rw [tagCount,rewrites,same]
  simp only [matchedAt] at kept
  rw [inner,List.filter_map,List.map_map] at kept
  exact kept

theorem apply_keeps (member : c ∈ Inline.wrapping) (run : (c.apply settings context d).outcome = .ok e) :
    Keeps (some c.name)
      (((hiddenFrom (some c.name) 0 d.parts).filter fun placed => c.spares d placed.1).map Prod.snd)
      ((spansOf c.name c.pattern d).length * c.tagCount) e.parts := by
  have ordered := spansOf_inOrder c.name c.pattern d
  rcases applyAt_ok ordered run with ⟨none,rfl⟩ | ⟨outs,ran,rfl⟩
  · have all : (hiddenFrom (some c.name) 0 e.parts).filter (fun placed => c.spares e placed.1) =
        hiddenFrom (some c.name) 0 e.parts :=
      List.filter_eq_self.mpr fun placed _ => by rw [spares,none]; rfl
    rw [all,hiddenFrom_parts,none,List.length_nil,Nat.zero_mul]
    exact .of_hidden rfl
  · have proper := (List.forall₂_and_left _ _).mpr
      ⟨fun span member => Nat.le_of_lt (ordered.within span member).2.1,ran⟩
    have kept := spliced_keeps ordered (proper.imp fun span out both => rewriteMatch_keeps member both.1 both.2)
    have inside : (hiddenFrom (some c.name) 0 d.parts).filter (fun placed => c.spares d placed.1) =
        (hiddenFrom (some c.name) 0 d.parts).filter fun placed =>
          decide (0 ≤ placed.1 ∧ placed.1 ≤ (visibleContentOf (some c.name) d.parts).length) && c.spares d placed.1 := by
      refine List.filter_congr fun placed isHidden => ?_
      rw [decide_eq_true ⟨Nat.zero_le _,Nat.zero_add (List.length _) ▸ hiddenFrom_within isHidden⟩,Bool.true_and]
    rw [inside]
    exact kept

-- What a construct keeps of the hidden parts: those that lie in no match, and those that lie in what is copied from
-- their match. It keeps all of them just if no hidden part lies anywhere else.
theorem apply_protects (member : c ∈ Inline.wrapping) (run : (c.apply settings context d).outcome = .ok e) :
    Keeps (some c.name)
      (((hiddenFrom (some c.name) 0 d.parts).filter fun placed => c.spares d placed.1).map Prod.snd)
      ((spansOf c.name c.pattern d).length * c.tagCount) e.parts ∧
    (Keeps (some c.name) (d.parts.filter fun part => !part.visibleTo (some c.name))
      ((spansOf c.name c.pattern d).length * c.tagCount) e.parts ↔
        ∀ placed ∈ hiddenFrom (some c.name) 0 d.parts, c.spares d placed.1 = true) := by
  have kept := apply_keeps member run
  refine ⟨kept,fun all => ?_,fun all => ?_⟩
  · rw [← hiddenFrom_parts _ 0] at all
    have length := all.length kept
    simp only [List.length_map] at length
    exact List.length_filter_eq_length_iff.mp length.symm
  · rwa [List.filter_eq_self.mpr all,hiddenFrom_parts] at kept

-- Two pieces of code, one between the two stars of a delimiter and one in the bold text.
def starsAround : Draft :=
  ⟨[.live "*" .nothing,.live "x" .everything,.live "*a" .nothing,.live "y" .everything,.live "b**" .nothing],none,none⟩

def starsApplied : Draft :=
  ⟨[.fixed "<strong class=\"bold\">",.live "a" .nothing,.live "y" .everything,.live "b" .nothing,.fixed "</strong>"],
    none,none⟩

theorem apply_protects_stars : Inline.boldByStars ∈ Inline.wrapping ∧
    (Inline.boldByStars.apply {} ⟨none,none⟩ starsAround).outcome = .ok starsApplied ∧
    Keeps (some "bold-star-version") [.live "y" .everything] 2 starsApplied.parts := by
  have member : Inline.boldByStars ∈ Inline.wrapping := by simp [Inline.wrapping]
  have run : (Inline.boldByStars.apply {} ⟨none,none⟩ starsAround).outcome = .ok starsApplied := by cbv
  have kept : ((hiddenFrom (some Inline.boldByStars.name) 0 starsAround.parts).filter fun placed =>
      Inline.boldByStars.spares starsAround placed.1).map Prod.snd = [.live "y" .everything] := by decide +kernel
  have count : (spansOf Inline.boldByStars.name Inline.boldByStars.pattern starsAround).length *
      Inline.boldByStars.tagCount = 2 := by decide +kernel
  exact ⟨member,run,kept ▸ count ▸ (apply_protects member run).1⟩

-- The code between the stars is in the text and not in the result.
theorem boldByStars_loses : ¬ ∀ c ∈ Inline.wrapping, ∀ (settings : CompileSettings) (context : Context) (d e : Draft),
    (c.apply settings context d).outcome = .ok e →
      ∀ part ∈ d.parts, part.visibleTo (some c.name) = false → part ∈ e.parts := by
  intro all
  have run : (Inline.boldByStars.apply {} ⟨none,none⟩ starsAround).outcome = .ok starsApplied := by cbv
  have lost := all Inline.boldByStars (by simp [Inline.wrapping]) _ _ _ _ run (.live "x" .everything)
    (by simp [starsAround]) rfl
  exact absurd lost (by decide +kernel)

end Construct
end LightMarkup
