import LightMarkup.Proofs.Construct.Applying
import LightMarkup.Proofs.Construct.Emitting
import LightMarkup.Proofs.Draft.Splicing

/-!
What constructs see. A construct is an observer of the text: parts that exclude it are hidden from it. No standard
construct shows any observer what it did not see before, and what inline code, inline mathematics and escapes leave
behind is not shown to anyone.
-/

namespace LightMarkup

-- Every observer sees `after` as a part of what it sees of `before`, in the same order.
def Obscures (before after : List Part) : Prop :=
  ∀ observer, (visibleContentOf (some observer) after).Sublist (visibleContentOf (some observer) before)

namespace Obscures

variable {before between after : List Part}

theorem refl (parts : List Part) : Obscures parts parts :=
  fun _ => .refl _

theorem trans (one : Obscures before between) (two : Obscures between after) : Obscures before after :=
  fun observer => (two observer).trans (one observer)

-- Fixed parts are seen by nobody.
theorem fixed (before : List Part) (content : Text) : Obscures before [.fixed content] :=
  fun _ => List.nil_sublist _

end Obscures

namespace Piece

-- Pieces that take no text out of the reach of an exclusion: what is written anew must exclude everything.
def guarded (excluded : Exclusion) : Piece → Bool
  | .capture _ escape => !escape || excluded == .everything
  | .whole => false
  | _ => true

end Piece

namespace Construct

def guarded (c : Construct) : Bool :=
  match c.rewrite with
  | .pieces pieces => pieces.all (Piece.guarded c.excluded)
  | _ => true

end Construct

namespace Inline

theorem standard_guarded : ∀ c ∈ standard, c.guarded = true := by
  have all : standard.all Construct.guarded = true := rfl
  exact List.all_eq_true.mp all

end Inline

namespace Rewriting

open Draft

variable {r : Rewriting} {pieces : List Piece} {out : List Part} {escape : Bool}

theorem captured_obscures (guarded : escape = true → r.construct.excluded = .everything) (parts : List Part) :
    Obscures parts (parts.map (r.captured escape)) := by
  intro observer
  induction parts with
  | nil => exact .refl _
  | cons part parts ih =>
    rw [List.map_cons,← List.singleton_append,visibleContentOf_append,← List.singleton_append (x := part),
      visibleContentOf_append]
    exact .append (captured_visible guarded observer part) ih

-- Nothing but the copies can be seen of what a match becomes.
theorem Emits.sublist (emits : Emits r pieces out) (guarded : pieces.all (Piece.guarded r.construct.excluded) = true)
    (observer : String) : (visibleContentOf (some observer) out).Sublist
      (visibleContentOf (some observer) (selectionFrom r.draft.scope (r.copied pieces) 0 r.draft.parts)) := by
  induction emits with
  | nil => exact .refl _
  | tag content plain later ih =>
    rw [List.all_cons,Bool.and_eq_true] at guarded
    rw [copied,List.filterMap_cons_none (copied?_tag plain)]
    exact ih guarded.2
  | absent absent later ih =>
    rw [List.all_cons,Bool.and_eq_true] at guarded
    rw [copied,List.filterMap_cons_none absent]
    exact ih guarded.2
  | @copy group escape pieces out start stop copied proper later ih =>
    rw [List.all_cons,Bool.and_eq_true] at guarded
    have everything : escape = true → r.construct.excluded = .everything := by
      rintro rfl
      simpa [Piece.guarded] using guarded.1
    rw [Rewriting.copied,List.filterMap_cons_some copied,selectionFrom,List.flatMap_cons,visibleContentOf_append,
      visibleContentOf_append]
    exact .append (captured_obscures everything _ observer) (ih guarded.2)
  | whole later ih => cases guarded

-- What a construct copies is seen by nobody if it excludes everything.
theorem captured_hidden (all : r.construct.excluded = .everything) (parts : List Part) (observer : String) :
    visibleContentOf (some observer) (parts.map (r.captured escape)) = [] := by
  induction parts with
  | nil => rfl
  | cons part parts ih =>
    have dark : (r.captured escape part).visibleTo (some observer) = false := by
      cases part with
      | fixed content => rfl
      | live content excluded =>
        rw [captured,Part.visibleTo,Exclusion.contains_combine,all]
        simp [Exclusion.contains]
    rw [List.map_cons,visibleContentOf_cons,ih,dark]
    rfl

theorem Emits.hidden (emits : Emits r pieces out) (guarded : pieces.all (Piece.guarded r.construct.excluded) = true)
    (all : r.construct.excluded = .everything) (observer : String) : visibleContentOf (some observer) out = [] := by
  induction emits with
  | nil => rfl
  | tag content plain later ih =>
    rw [List.all_cons,Bool.and_eq_true] at guarded
    exact ih guarded.2
  | absent absent later ih =>
    rw [List.all_cons,Bool.and_eq_true] at guarded
    exact ih guarded.2
  | copy copied proper later ih =>
    rw [List.all_cons,Bool.and_eq_true] at guarded
    rw [visibleContentOf_append,captured_hidden all,ih guarded.2,List.append_nil]
  | whole later ih => cases guarded

theorem greekLetters_obscures (run : r.greekLetters.outcome = .ok out) (before : List Part) : Obscures before out := by
  rw [greekLetters_ok run]
  exact .fixed before _

-- What cannot be looked up is left as it is.
theorem reference_obscures (run : r.reference.outcome = .ok out) : Obscures r.draft.parts out := by
  rcases reference_ok run with ⟨entry,_,rfl⟩ | rfl
  · exact .fixed _ _
  · exact .refl _

theorem citation_obscures (run : r.citation.outcome = .ok out) : Obscures r.draft.parts out := by
  rcases citation_ok run with ⟨href,number,rfl⟩ | rfl
  · exact .fixed _ _
  · exact .refl _

end Rewriting

namespace Construct

open Draft

variable {c : Construct} {settings : CompileSettings} {context : Context} {d e : Draft} {out : List Part}

theorem rewriteMatch_obscures (member : c ∈ Inline.standard)
    (run : (c.rewriteMatch settings context d).outcome = .ok out) : Obscures d.parts out := by
  have guarded := Inline.standard_guarded c member
  cases rewrites : c.rewrite with
  | pieces pieces =>
    obtain ⟨found,searched,emits⟩ := rewriteMatch_emits rewrites run
    have apart := Rewriting.copied_apart (r := ⟨c,settings,context,d,found⟩) member (Pattern.search_way searched).2
      rewrites emits
    rw [Construct.guarded,rewrites] at guarded
    exact fun observer => (emits.sublist guarded observer).trans (visibleContentOf_selection apart (some observer))
  | greekLetters | reference | citation =>
    unfold rewriteMatch at run
    split at run
    · cases run
    · rw [rewrites] at run
      first
        | exact Rewriting.greekLetters_obscures run _
        | exact Rewriting.reference_obscures run
        | exact Rewriting.citation_obscures run

-- One step: a match is seen by nobody better than before, and between the matches nothing is touched.
theorem apply_obscures (member : c ∈ Inline.standard) (run : (c.apply settings context d).outcome = .ok e) :
    Obscures d.parts e.parts := by
  have ordered := spansOf_inOrder c.name c.pattern d
  rcases applyAt_ok ordered run with ⟨_,rfl⟩ | ⟨outs,ran,rfl⟩
  · exact .refl _
  · intro observer
    rw [← spliced_whole ordered (some observer)]
    refine spliced_sublist ?_
    rw [List.forall₂_map_right_iff]
    exact ran.flip.imp fun out span here => rewriteMatch_obscures member here observer

-- A whole run, over any constructs in any order.
theorem applyEach_obscures {constructs : List Construct} (members : constructs ⊆ Inline.standard)
    (run : (applyEach settings context constructs d).outcome = .ok e) : Obscures d.parts e.parts :=
  applyEach_induct (I := fun e => Obscures d.parts e.parts)
    (fun _ member _ _ before step => before.trans (apply_obscures (members member) step)) (.refl _) run

theorem compile_obscures {constructs : List Construct} (members : constructs ⊆ Inline.standard)
    (run : (d.compile constructs settings context).outcome = .ok e) : Obscures d.parts e.parts :=
  compile_induct (I := fun e => Obscures d.parts e.parts)
    (fun _ member _ _ before step => before.trans (apply_obscures (members member) step)) (.refl _) run

-- The text with a construct's matches taken out.
def around (c : Construct) (d : Draft) : List Part :=
  spliced (some c.name) d.parts (visibleContentOf (some c.name) d.parts).length 0 (spansOf c.name c.pattern d)
    ((spansOf c.name c.pattern d).map fun _ => [])

-- What a construct puts in the place of its matches is seen by nobody, and whatever is applied later sees no more than
-- the text around them.
structure Conceals (c : Construct) (d e : Draft) : Prop where
  hidden : spansOf c.name c.pattern d = [] ∧ e = d ∨ ∃ outs : List (List Part),
    outs.length = (spansOf c.name c.pattern d).length ∧
    (∀ out ∈ outs, ∀ observer, visibleContentOf (some observer) out = []) ∧
    e.parts = spliced (some c.name) d.parts (visibleContentOf (some c.name) d.parts).length 0
      (spansOf c.name c.pattern d) outs
  later : ∀ constructs ⊆ Inline.standard, ∀ (settings : CompileSettings) (context : Context) (f : Draft),
    (applyEach settings context constructs e).outcome = .ok f → Obscures (c.around d) f.parts

theorem rewriteMatch_hidden {pieces : List Piece} (member : c ∈ Inline.standard) (all : c.excluded = .everything)
    (rewrites : c.rewrite = .pieces pieces) (run : (c.rewriteMatch settings context d).outcome = .ok out)
    (observer : String) : visibleContentOf (some observer) out = [] := by
  have guarded := Inline.standard_guarded c member
  rw [Construct.guarded,rewrites] at guarded
  obtain ⟨found,_,emits⟩ := rewriteMatch_emits rewrites run
  exact emits.hidden guarded all observer

theorem apply_conceals {pieces : List Piece} (member : c ∈ Inline.standard) (all : c.excluded = .everything)
    (rewrites : c.rewrite = .pieces pieces) (run : (c.apply settings context d).outcome = .ok e) : Conceals c d e := by
  have ordered := spansOf_inOrder c.name c.pattern d
  rcases applyAt_ok ordered run with ⟨none,rfl⟩ | ⟨outs,ran,rfl⟩
  · refine ⟨Or.inl ⟨none,rfl⟩,fun constructs members settings context f run => ?_⟩
    have same : Obscures (c.around e) e.parts := by
      intro observer
      rw [← spliced_whole ordered (some observer),around]
      simp [none]
    exact same.trans (applyEach_obscures members run)
  · have hidden := ran.flip.imp fun out span here => rewriteMatch_hidden member all rewrites here
    have each := ((List.forall₂_and_left _ _).mp (hidden.imp fun out span dark => ⟨dark,dark⟩)).1
    refine ⟨Or.inr ⟨outs,ran.length_eq.symm,each,rfl⟩,fun constructs members settings context f run => ?_⟩
    refine Obscures.trans (fun observer => spliced_sublist ?_) (applyEach_obscures members run)
    rw [List.forall₂_map_right_iff]
    exact hidden.imp fun out span dark => by simp [dark observer]

theorem hidden_stays_hidden :
    (∀ c ∈ Inline.standard, ∀ (settings : CompileSettings) (context : Context) (d e : Draft),
      (c.apply settings context d).outcome = .ok e → Obscures d.parts e.parts) ∧
    (∀ constructs ⊆ Inline.standard, ∀ (settings : CompileSettings) (context : Context) (d e : Draft),
      (d.compile constructs settings context).outcome = .ok e → Obscures d.parts e.parts) ∧
    ∀ c ∈ [Inline.codeSpan,Inline.mathSpan,Inline.escape],
      ∀ (settings : CompileSettings) (context : Context) (d e : Draft),
        (c.apply settings context d).outcome = .ok e → Conceals c d e := by
  refine ⟨fun c member settings context d e => apply_obscures member,
    fun constructs members settings context d e => compile_obscures members,?_⟩
  intro c member settings context d e run
  simp only [List.mem_cons,List.not_mem_nil,or_false] at member
  rcases member with rfl | rfl | rfl
  · exact apply_conceals (by simp [Inline.standard]) rfl rfl run
  · exact apply_conceals (by simp [Inline.standard]) rfl rfl run
  · exact apply_conceals (by simp [Inline.standard]) rfl rfl run

-- Stars in code and stars around text.
def starred : Draft :=
  .ofLive "`*a*`*b*" .nothing none

def starredCode : Draft :=
  ⟨[.fixed "<code class=\"language-markup inline-code\">",.live "*a*" .everything,.fixed "</code>",
    .live "*b*" .nothing],none,none⟩

def starredText : Draft :=
  ⟨[.fixed "<code class=\"language-markup inline-code\">",.live "*a*" .everything,.fixed "</code>",
    .fixed "<em class=\"italic\">",.live "b" .nothing,.fixed "</em>"],none,none⟩

theorem hidden_stays_hidden_starred :
    (Inline.codeSpan.apply {} ⟨none,none⟩ starred).outcome = .ok starredCode ∧
      (starred.compile [Inline.codeSpan,Inline.italicByStars] {} ⟨none,none⟩).outcome = .ok starredText ∧
      Obscures starred.parts starredCode.parts ∧ Obscures starred.parts starredText.parts ∧
      Conceals Inline.codeSpan starred starredCode := by
  have code : (Inline.codeSpan.apply {} ⟨none,none⟩ starred).outcome = .ok starredCode := by cbv
  have text : (starred.compile [Inline.codeSpan,Inline.italicByStars] {} ⟨none,none⟩).outcome = .ok starredText := by cbv
  exact ⟨code,text,hidden_stays_hidden.1 Inline.codeSpan (by simp [Inline.standard]) _ _ _ _ code,
    hidden_stays_hidden.2.1 _ (by simp [Inline.standard]) _ _ _ _ text,
    hidden_stays_hidden.2.2 Inline.codeSpan (by simp) _ _ _ _ code⟩

end Construct
end LightMarkup
