import LightMarkup.Construct.Inline
import LightMarkup.Proofs.Draft.Selection
import LightMarkup.Proofs.Logged
import LightMarkup.Proofs.Pattern.Following

/-!
What a construct writes in the place of a match: tags of its own, and copies of what the match captures. A copy is a
window of the matched text, and the copies of a standard construct are apart from each other.
-/

namespace LightMarkup
namespace Exclusion

theorem contains_combine (a b : Exclusion) (identifier : String) :
    (a.combine b).contains identifier = (a.contains identifier || b.contains identifier) := by
  cases a <;> cases b <;> simp [combine,contains,ofList]

theorem combine_nothing (a : Exclusion) : a.combine .nothing = a := by
  cases a <;> rfl

end Exclusion

namespace Draft

theorem slice_window {d : Draft} {start stop : Nat} {parts : List Part} (sliced : d.slice start stop .both = .ok parts) :
    start ≤ stop ∧ parts = windowFrom d.scope .both start stop 0 d.parts := by
  unfold slice at sliced
  dsimp only at sliced
  split at sliced
  · cases sliced
  · rename_i ordered
    split at sliced
    · cases sliced
    · simp only [Boundary.both,↓reduceIte,if_neg ordered] at sliced
      cases sliced
      exact ⟨by omega,sliceFrom_eq _ _ _ _ _ _⟩

end Draft

-- The span of a match that a piece copies.
def Match.copied? (m : Match) (p : Pattern) : Piece → Option (Nat × Nat)
  | .capture group _ =>
    match group.resolve p with
    | .ok n => m.groupSpan? n
    | .error _ => none
  | _ => none

-- Pieces that write a tag and copy nothing.
def Piece.isTag : Piece → Bool
  | .capture _ _ => false
  | .whole => false
  | _ => true

namespace Rewriting

open Draft

variable {r : Rewriting} {piece : Piece} {pieces : List Piece} {out : List Part} {group : GroupKey} {escape : Bool}

def copied? (r : Rewriting) (piece : Piece) : Option (Nat × Nat) :=
  r.found.copied? r.construct.pattern piece

def copied (r : Rewriting) (pieces : List Piece) : List (Nat × Nat) :=
  pieces.filterMap r.copied?

-- What is built from pieces, one after the other.
inductive Emits (r : Rewriting) : List Piece → List Part → Prop where
  | nil : Emits r [] []
  | tag {piece : Piece} {pieces : List Piece} {out : List Part} (content : Text) (plain : piece.isTag = true)
      (later : Emits r pieces out) : Emits r (piece :: pieces) (.fixed content :: out)
  | absent {group : GroupKey} {escape : Bool} {pieces : List Piece} {out : List Part}
      (absent : r.copied? (.capture group escape) = none) (later : Emits r pieces out) :
      Emits r (.capture group escape :: pieces) out
  | copy {group : GroupKey} {escape : Bool} {pieces : List Piece} {out : List Part} {start stop : Nat}
      (copied : r.copied? (.capture group escape) = some (start,stop)) (proper : start ≤ stop)
      (later : Emits r pieces out) : Emits r (.capture group escape :: pieces)
        ((Draft.windowFrom r.draft.scope .both start stop 0 r.draft.parts).map (r.captured escape) ++ out)
  | whole {pieces : List Piece} {out : List Part} (later : Emits r pieces out) :
      Emits r (.whole :: pieces) (r.draft.parts ++ out)

theorem buildAll_emits (built : r.buildAll pieces = .ok out) : Emits r pieces out := by
  induction pieces generalizing out with
  | nil => cases built; exact .nil
  | cons piece pieces ih =>
    obtain ⟨parts,here,built⟩ := Failure.bind_ok.mp built
    obtain ⟨rest,there,same⟩ := Failure.bind_ok.mp built
    cases same
    have later := ih there
    cases piece with
    | template items links identifiers replacements =>
      obtain ⟨text,_,same⟩ := Failure.bind_ok.mp here
      cases same
      exact .tag _ rfl later
    | opening tag baseClass style identifier withNuid =>
      obtain ⟨anchor,_,same⟩ := Failure.bind_ok.mp here
      cases same
      exact .tag _ rfl later
    | codeOpening =>
      cases here
      exact .tag _ rfl later
    | whole =>
      cases here
      exact .whole later
    | capture group escape =>
      obtain ⟨n,resolved,here⟩ := Failure.bind_ok.mp here
      cases captured : r.found.groupSpan? n with
      | none =>
        rw [captured] at here
        cases here
        exact .absent (by simp [copied?,Match.copied?,resolved,captured]) later
      | some span =>
        obtain ⟨start,stop⟩ := span
        rw [captured] at here
        obtain ⟨sliced,slice,same⟩ := Failure.bind_ok.mp here
        cases same
        obtain ⟨proper,rfl⟩ := Draft.slice_window slice
        exact .copy (by simp [copied?,Match.copied?,resolved,captured]) proper later

theorem copied?_tag (plain : piece.isTag = true) : r.copied? piece = none := by
  cases piece with
  | capture group escape => cases plain
  | _ => rfl

theorem Emits.proper (emits : Emits r pieces out) : ∀ span ∈ r.copied pieces, span.1 ≤ span.2 := by
  induction emits with
  | nil => intro span member; cases member
  | tag content plain later ih => rwa [copied,List.filterMap_cons_none (copied?_tag plain)]
  | absent absent later ih => rwa [copied,List.filterMap_cons_none absent]
  | copy copied proper later ih =>
    rw [Rewriting.copied,List.filterMap_cons_some copied]
    exact List.forall_mem_cons.mpr ⟨proper,ih⟩
  | whole later ih => exact ih

-- The live text of a part that is copied is hidden from more constructs than before, or it is written anew and hidden
-- from all of them.
theorem captured_visible (guarded : escape = true → r.construct.excluded = .everything) (observer : String) (part : Part) :
    (visibleContentOf (some observer) [r.captured escape part]).Sublist (visibleContentOf (some observer) [part]) := by
  cases part with
  | fixed content => exact .refl _
  | live content excluded =>
    simp only [captured,visibleContentOf_cons,Part.visibleTo,Exclusion.contains_combine,visibleContentOf_nil,
      List.append_nil]
    cases escape with
    | true => simp [guarded rfl,Exclusion.contains]
    | false =>
      by_cases before : excluded.contains observer = true
      · simp [before]
      · by_cases added : r.construct.excluded.contains observer = true <;> simp [before,added,Part.content]

-- Constructs that copy unescaped text and exclude nothing hand on the parts as they are.
theorem captured_same (plain : r.construct.excluded = .nothing) (part : Part) : r.captured false part = part := by
  cases part with
  | fixed content => rfl
  | live content excluded => simp [captured,plain,Exclusion.combine_nothing]

theorem copied?_capture (r : Rewriting) {n : Nat} (given : r.construct.pattern.hasGroup n = true) (escape : Bool) :
    r.copied? (.capture (.number n) escape) = r.found.groupSpan? n := by
  simp [copied?,Match.copied?,GroupKey.resolve,given]

theorem copied_two {before between after one two : Piece} {first last : Nat × Nat} (opening : before.isTag = true)
    (middle : between.isTag = true) (closing : after.isTag = true) (here : r.copied? one = some first)
    (there : r.copied? two = some last) : r.copied [before,one,between,two,after] = [first,last] := by
  simp [copied,copied?_tag opening,copied?_tag middle,copied?_tag closing,here,there]

theorem copied_length (r : Rewriting) (pieces : List Piece) :
    (r.copied pieces).length ≤ (pieces.filter fun piece => !piece.isTag).length := by
  induction pieces with
  | nil => exact Nat.le_refl _
  | cons piece pieces ih =>
    cases plain : piece.isTag with
    | true => simpa [copied,copied?_tag plain,plain] using ih
    | false =>
      rw [List.filter_cons_of_pos (by simp [plain]),List.length_cons,copied,List.filterMap_cons]
      split
      · exact Nat.le_succ_of_le ih
      · exact Nat.succ_le_succ ih

-- Unknown letters are reported, and what is written is the same without them.
theorem greekLetters_ok (run : r.greekLetters.outcome = .ok out) :
    out = [.fixed ("<span class=\"greek\">$" ++ (GreekLetters.decompose (r.found.group 1)).1 ++ "$</span>")] := by
  unfold greekLetters at run
  dsimp only at run
  split at run
  · split at run
    · cases run
    · obtain ⟨_,_,run⟩ := Logged.outcome_bind_ok.mp run
      cases run
      rfl
  · cases run
    rfl

-- A reference is its value, and the match is left as it is where there is none.
theorem reference_ok (run : r.reference.outcome = .ok out) :
    (∃ entry ∈ r.settings.references, out = [.fixed entry.2]) ∨ out = r.draft.parts := by
  unfold reference at run
  dsimp only at run
  split at run
  · rename_i value found
    cases run
    obtain ⟨before,after,same,_⟩ := List.lookup_eq_some_iff.mp found
    exact Or.inl ⟨(r.found.group 1,value),by simp [same],rfl⟩
  · split at run
    · cases run
    · obtain ⟨_,_,run⟩ := Logged.outcome_bind_ok.mp run
      cases run
      exact Or.inr rfl

theorem citation_ok (run : r.citation.outcome = .ok out) :
    (∃ href number, out = [.fixed ("<a class=\"cite\" href=\"" ++ Html.escapeAttribute href ++ "\">" ++ Text.ofNat number ++
      "</a>")]) ∨ out = r.draft.parts := by
  unfold citation at run
  dsimp only at run
  split at run
  · rename_i number found
    cases run
    exact Or.inl ⟨_,number,rfl⟩
  · split at run
    · cases run
    · obtain ⟨_,_,run⟩ := Logged.outcome_bind_ok.mp run
      cases run
      exact Or.inr rfl

end Rewriting

namespace Construct

def copiesOnce (c : Construct) : Bool :=
  match c.rewrite with
  | .pieces pieces => decide ((pieces.filter fun piece => !piece.isTag).length ≤ 1)
  | _ => true

end Construct

namespace Inline

open Pattern

variable {way : Way} {c : Cursor} {m : Match}

theorem standard_copies {construct : Construct} (member : construct ∈ standard) :
    construct.copiesOnce = true ∨ construct = bookmarkWithId ∨ construct = bookmark := by
  have others : standard.filter (fun construct => !construct.copiesOnce) = [bookmarkWithId,bookmark] := rfl
  cases once : construct.copiesOnce with
  | true => exact Or.inl rfl
  | false =>
    have found : construct ∈ standard.filter fun construct => !construct.copiesOnce :=
      List.mem_filter.mpr ⟨member,by simp [once]⟩
    rw [others] at found
    exact Or.inr (by simpa using found)

theorem titleAt_way {number : Nat} (found : way ∈ (titleAt number).ways c) :
    ∃ start stop : Cursor, way.2 = [⟨number,start,stop⟩] ∧ stop.position < way.1.position := by
  obtain ⟨start,stop,captures,_,_,closed⟩ := enclosed_way rfl found
  exact ⟨start,stop,captures,closed ▸ Nat.lt_add_of_pos_right (by rw [Text.ofString_ofList]; decide)⟩

theorem descriptionAt_way {number : Nat} (found : way ∈ (descriptionAt number).ways c) :
    ∃ start stop : Cursor, way.2 = [⟨number,start,stop⟩] ∧ c.position < start.position := by
  obtain ⟨start,stop,captures,opened,_,_⟩ := enclosed_way rfl found
  exact ⟨start,stop,captures,opened ▸ Nat.lt_add_of_pos_right (by rw [Text.ofString_ofList]; decide)⟩

theorem identifierAt_way {number : Nat} (found : way ∈ (identifierAt number).ways c) :
    ∃ start stop : Cursor, way.2 = [⟨number,start,stop⟩] ∧ c.position ≤ way.1.position := by
  obtain ⟨t,read⟩ := ways_reads found
  obtain ⟨mid,hash,next,captured,rfl⟩ := mem_seq.mp found
  obtain ⟨_,none⟩ := literal_reads hash
  obtain ⟨inner,_,rfl⟩ := mem_captured rfl captured
  exact ⟨mid.1,inner.1,by simp [none],by simp [read.position]⟩

-- A title ends before the description behind it begins.
theorem bookmark_captures (way : m.IsWay bookmark.pattern) : ∃ title description : Nat × Nat,
    m.groupSpan? 1 = some title ∧ m.groupSpan? 2 = some description ∧ title.2 < description.1 := by
  obtain ⟨mid,one,next,two,same⟩ := mem_seq.mp way
  obtain ⟨start,stop,title,closed⟩ := titleAt_way one
  obtain ⟨start',stop',description,opened⟩ := descriptionAt_way two
  have captures : m.captures = [⟨2,start',stop'⟩,⟨1,start,stop⟩] := by
    simpa [title,description] using congrArg Prod.snd same
  refine ⟨(start.position,stop.position),(start'.position,stop'.position),
    by simp [Match.groupSpan?,Match.capture?,captures],by simp [Match.groupSpan?,Match.capture?,captures],?_⟩
  exact Nat.lt_trans closed opened

theorem bookmarkWithId_captures (way : m.IsWay bookmarkWithId.pattern) : ∃ title description : Nat × Nat,
    m.groupSpan? 1 = some title ∧ m.groupSpan? 3 = some description ∧ title.2 < description.1 := by
  obtain ⟨mid,front,next,three,same⟩ := mem_seq.mp way
  obtain ⟨first,one,second,two,rfl⟩ := mem_seq.mp front
  obtain ⟨start,stop,title,closed⟩ := titleAt_way one
  obtain ⟨hash,last,identifier,later⟩ := identifierAt_way two
  obtain ⟨start',stop',description,opened⟩ := descriptionAt_way three
  have captures : m.captures = [⟨3,start',stop'⟩,⟨2,hash,last⟩,⟨1,start,stop⟩] := by
    simpa [title,identifier,description] using congrArg Prod.snd same
  refine ⟨(start.position,stop.position),(start'.position,stop'.position),
    by simp [Match.groupSpan?,Match.capture?,captures],by simp [Match.groupSpan?,Match.capture?,captures],?_⟩
  exact Nat.lt_trans (Nat.lt_of_lt_of_le closed later) opened

end Inline

namespace Rewriting

open Draft

-- What a standard construct copies from one match is apart.
theorem copied_apart {r : Rewriting} {pieces : List Piece} {out : List Part} (member : r.construct ∈ Inline.standard)
    (way : r.found.IsWay r.construct.pattern) (rewrites : r.construct.rewrite = .pieces pieces)
    (emits : Emits r pieces out) : Apart (r.copied pieces) := by
  refine ⟨emits.proper,?_⟩
  rcases Inline.standard_copies member with once | same | same
  · have short := copied_length r pieces
    simp only [Construct.copiesOnce,rewrites,decide_eq_true_eq] at once
    cases spans : r.copied pieces with
    | nil => exact .nil
    | cons span others =>
      have none : others = [] := by
        rw [spans,List.length_cons] at short
        exact List.eq_nil_of_length_eq_zero (by omega)
      simp [none]
  · rw [same] at way rewrites
    obtain ⟨title,description,one,three,behind⟩ := Inline.bookmarkWithId_captures way
    have first : r.copied? (Inline.capture 1) = some title :=
      (r.copied?_capture (by rw [same]; decide_cbv) false).trans one
    have last : r.copied? (Inline.capture 3) = some description :=
      (r.copied?_capture (by rw [same]; decide_cbv) false).trans three
    cases rewrites
    rw [copied_two rfl rfl rfl first last]
    simpa using behind
  · rw [same] at way rewrites
    obtain ⟨title,description,one,two,behind⟩ := Inline.bookmark_captures way
    have first : r.copied? (Inline.capture 1) = some title :=
      (r.copied?_capture (by rw [same]; decide_cbv) false).trans one
    have last : r.copied? (Inline.capture 2) = some description :=
      (r.copied?_capture (by rw [same]; decide_cbv) false).trans two
    cases rewrites
    rw [copied_two rfl rfl rfl first last]
    simpa using behind

end Rewriting

namespace Construct

theorem rewriteMatch_emits {c : Construct} {settings : CompileSettings} {context : Context} {d : Draft}
    {pieces : List Piece} {out : List Part} (rewrites : c.rewrite = .pieces pieces)
    (run : (c.rewriteMatch settings context d).outcome = .ok out) :
    ∃ found, c.pattern.search? d.visibleContent = some found ∧
      Rewriting.Emits ⟨c,settings,context,d,found⟩ pieces out := by
  unfold rewriteMatch at run
  split at run
  · cases run
  · rename_i found searched
    rw [rewrites] at run
    exact ⟨found,searched,Rewriting.buildAll_emits run⟩

end Construct
end LightMarkup
