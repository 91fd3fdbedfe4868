import LightMarkup.Proofs.Construct.Rematching
import LightMarkup.Proofs.Draft.Atoms

/-!
What can stop the standard constructs. Every group that they name is one of their pattern, and what they copy lies in
their match; so under settings that only warn a text compiles, unless something in it needs the name of a document and
there is none.
-/

namespace LightMarkup
namespace Pattern

variable {p : Pattern} {way : Way}

-- What a way captures begins in the text that it reads.
def CapturesAlong (way : Way) (c : Cursor) : Prop :=
  (∃ t, c.Reads t way.1) ∧ ∀ k ∈ way.2, ∃ t, c.Reads t k.start

theorem capturesAlong_closed : Closed CapturesAlong where
  none c := ⟨⟨[],.refl c⟩,List.forall_mem_nil _⟩
  after := by
    rintro first next c ⟨⟨t,one⟩,ones⟩ ⟨⟨u,two⟩,twos⟩
    refine ⟨⟨t ++ u,one.append two⟩,List.forall_mem_append.mpr ⟨fun k member => ?_,ones⟩⟩
    obtain ⟨v,read⟩ := twos k member
    exact ⟨t ++ v,one.append read⟩

theorem ways_along : ∀ c, ∀ way ∈ p.ways c, CapturesAlong way c := by
  refine capturesAlong_closed.ways (fun read => ?_) (fun _ _ inner => ?_) fun first => ?_
  · exact ⟨⟨_,Cursor.next_reads read⟩,List.forall_mem_nil _⟩
  · exact ⟨inner.1,List.forall_mem_cons.mpr ⟨⟨[],.refl _⟩,inner.2⟩⟩
  · exact ⟨⟨[],.refl _⟩,first.2⟩

end Pattern

-- So its groups lie in the text.
theorem Match.IsWay.groupSpan_within {p : Pattern} {m : Match} (way : m.IsWay p) {k start stop : Nat}
    (captured : m.groupSpan? k = some (start,stop)) : start ≤ stop ∧ stop ≤ m.start.text.length := by
  obtain ⟨held,found,same⟩ := Option.map_eq_some_iff.mp captured
  cases same
  obtain ⟨t,read,_⟩ := way.reads_group found
  have begins : ∃ u, m.start.Reads u held.start := by
    rw [capture?] at found
    split at found
    · cases found
      exact ⟨[],.refl _⟩
    · exact (Pattern.ways_along _ _ way).2 held (List.mem_of_find?_eq_some found)
  obtain ⟨u,earlier⟩ := begins
  have whole := earlier.append read
  have ends := whole.position
  have length := whole.length
  have inner := read.position
  have text : m.start.text.length = m.start.position + m.start.after.length := by simp [Cursor.text,Cursor.position]
  omega

-- Whatever stops this, it is that no document is at hand in which an identifier would stand.
def Nameless {α : Type} (document : Option Text) (x : Except Failure α) : Prop :=
  ∀ failure, x = .error failure → document = none ∧ ∃ identifier, failure = .missingDocumentName identifier

namespace Nameless

variable {α β : Type} {document : Option Text} {x y : Except Failure α} {f : α → Except Failure β}

theorem ok (a : α) : Nameless document (.ok a : Except Failure α) := by
  intro failure stopped
  cases stopped

theorem missing (identifier : Text) : Nameless none (.error (.missingDocumentName identifier) : Except Failure α) := by
  intro failure stopped
  cases stopped
  exact ⟨rfl,identifier,rfl⟩

theorem bind (first : Nameless document x) (later : ∀ a, x = .ok a → Nameless document (f a)) :
    Nameless document (x >>= f) := by
  cases x with
  | ok a => exact later a rfl
  | error failure =>
    intro other stopped
    cases stopped
    exact first _ rfl

theorem map {f : α → β} (first : Nameless document x) : Nameless document (x.map f) := by
  cases x with
  | ok a => exact .ok (f a)
  | error failure =>
    intro other stopped
    cases stopped
    exact first _ rfl

theorem ite {holds : Prop} [Decidable holds] (one : Nameless document x) (two : Nameless document y) :
    Nameless document (if holds then x else y) := by
  split
  · exact one
  · exact two

end Nameless

theorem Anchor.inDocument_nameless (identifier : Text) (document : Option Text) :
    Nameless document (inDocument identifier document) := by
  cases document with
  | none => exact .missing identifier
  | some name => exact .ok _

theorem Anchor.inDocument?_nameless (document identifier : Option Text) :
    Nameless document (inDocument? document identifier) := by
  cases identifier with
  | none => exact .ok none
  | some identifier => exact (inDocument_nameless identifier document).map

theorem Link.ofText_nameless (raw : Text) (document : Option Text) : Nameless document (ofText raw document) := by
  have anchored : ∀ identifier, Nameless document (toAnchor identifier document) := by
    intro identifier
    cases document with
    | none => exact .missing identifier
    | some name => exact .ok _
  unfold ofText
  dsimp only
  refine .ite (.ok _) ?_
  split
  · exact anchored _
  · split
    · exact .ok _
    · exact .ite (.ok _) (.ok _)

-- The group that a key of a template stands for is one of the pattern.
def Template.resolves (p : Pattern) (items : Template) : Bool :=
  items.all fun item =>
    match item with
    | .text _ => true
    | .group key =>
      match GroupKey.ofText key with
      | .ok group => (group.resolve p).isOk
      | .error _ => false

def Piece.resolves (p : Pattern) : Piece → Bool
  | .template items _ _ _ => Template.resolves p items
  | .capture group _ => (group.resolve p).isOk
  | _ => true

def Construct.resolves (c : Construct) : Bool :=
  match c.rewrite with
  | .pieces pieces => pieces.all (Piece.resolves c.pattern)
  | _ => true

theorem Inline.standard_resolves {c : Construct} (member : c ∈ standard) : c.resolves = true := by
  have all : standard.all Construct.resolves = true := by
    unfold standard codeSpan mathSpan escape comment greekLetter todo bookmarkWithId bookmark abridgedBookmarkWithId
      abridgedBookmark styledWithId styled abridgedStyledWithId abridgedStyled identifier highlight boldByStars
      boldByUnderscores italicByStars italicByUnderscores strikethrough underlined superscript subscript link checkbox
      checkedCheckbox emoji reference citation wrapped withAnchor
    repeat rw [Text.ofString_ofList]
    decide +kernel
  exact List.all_eq_true.mp all c member

theorem GroupKey.resolve_ok {p : Pattern} {group : GroupKey} (resolves : (group.resolve p).isOk = true) :
    ∃ n, group.resolve p = .ok n := by
  cases found : group.resolve p with
  | ok n => exact ⟨n,rfl⟩
  | error failure => rw [found] at resolves; cases resolves

namespace Rewriting

variable {r : Rewriting} {links identifiers : List GroupKey}

theorem expandGroup_nameless {key : Text} {group : GroupKey} (read : GroupKey.ofText key = .ok group)
    (resolves : (group.resolve r.construct.pattern).isOk = true) :
    Nameless r.context.document (r.expandGroup links identifiers key) := by
  obtain ⟨n,found⟩ := GroupKey.resolve_ok resolves
  have text : r.groupText group = .ok (r.found.group n) := by
    rw [groupText,found]
    rfl
  refine .ite (.ok _) ?_
  rw [read]
  refine .bind (.ok _) fun key same => ?_
  cases same
  rw [text]
  refine .bind (.ok _) fun _ _ => .ite (.bind (Link.ofText_nameless _ _) fun link _ => .ok _) ?_
  exact .ite (.bind (Anchor.inDocument_nameless _ _) fun anchor _ => .ok _) (.ok _)

theorem expand_nameless {items : Template} (resolves : Template.resolves r.construct.pattern items = true) :
    Nameless r.context.document (r.expand links identifiers items) := by
  induction items with
  | nil => exact .ok []
  | cons item items ih =>
    obtain ⟨here,others⟩ := List.forall_mem_cons.mp (List.all_eq_true.mp resolves)
    have later := ih (List.all_eq_true.mpr others)
    cases item with
    | text t => exact .bind later fun rest _ => .ok _
    | group key =>
      dsimp only at here
      split at here
      · rename_i group read
        exact .bind (expandGroup_nameless read here) fun text _ => .bind later fun rest _ => .ok _
      · cases here

variable (inside : ∀ k start stop, r.found.groupSpan? k = some (start,stop) →
  start ≤ stop ∧ stop ≤ r.draft.visibleContent.length)
include inside

theorem build_nameless {piece : Piece} (resolves : piece.resolves r.construct.pattern = true) :
    Nameless r.context.document (r.build piece) := by
  cases piece with
  | template items links identifiers replacements => exact .bind (expand_nameless resolves) fun text _ => .ok _
  | capture group escape =>
    obtain ⟨n,found⟩ := GroupKey.resolve_ok resolves
    simp only [build,found]
    refine .bind (.ok n) fun k same => ?_
    cases same
    split
    · exact .ok _
    · rename_i start stop captured
      obtain ⟨ordered,within⟩ := inside _ _ _ captured
      rw [Draft.slice_both ordered within]
      exact .bind (.ok _) fun parts _ => .ok _
  | opening tag baseClass style identifier withNuid =>
    exact .bind (Anchor.inDocument?_nameless _ _) fun anchor _ => .ok _
  | codeOpening => exact .ok _
  | whole => exact .ok _

theorem buildAll_nameless {pieces : List Piece} (resolves : pieces.all (Piece.resolves r.construct.pattern) = true) :
    Nameless r.context.document (r.buildAll pieces) := by
  induction pieces with
  | nil => exact .ok []
  | cons piece pieces ih =>
    rw [List.all_cons,Bool.and_eq_true] at resolves
    exact .bind (build_nameless inside resolves.1) fun parts _ => .bind (ih resolves.2) fun rest _ => .ok _

end Rewriting

-- Settings under which a key that is not known is left as it is.
structure CompileSettings.Lenient (settings : CompileSettings) : Prop where
  greekLetters : settings.strictGreekLetters = false
  references : settings.strictReferences = false
  citations : settings.strictCitations = false

section

variable {settings : CompileSettings} (lenient : settings.Lenient)
include lenient

theorem Rewriting.greekLetters_nameless (r : Rewriting) (same : r.settings = settings) (document : Option Text) :
    Nameless document r.greekLetters.outcome := by
  unfold greekLetters
  dsimp only
  rw [same,lenient.greekLetters]
  split
  · rw [if_neg (by decide),Logged.outcome_bind]
    exact .bind (.ok ()) fun _ _ => .ok _
  · exact .ok _

theorem Rewriting.reference_nameless (r : Rewriting) (same : r.settings = settings) (document : Option Text) :
    Nameless document r.reference.outcome := by
  unfold reference
  dsimp only
  split
  · exact .ok _
  · rw [same,lenient.references,if_neg (by decide),Logged.outcome_bind]
    exact .bind (.ok ()) fun _ _ => .ok _

theorem Rewriting.citation_nameless (r : Rewriting) (same : r.settings = settings) (document : Option Text) :
    Nameless document r.citation.outcome := by
  unfold citation
  dsimp only
  split
  · exact .ok _
  · rw [same,lenient.citations,if_neg (by decide),Logged.outcome_bind]
    exact .bind (.ok ()) fun _ _ => .ok _

namespace Construct

open Draft

variable {context : Context}

theorem rewriteMatch_nameless {c : Construct} (member : c ∈ Inline.standard) {d : Draft} {m : Match}
    (found : m ∈ c.pattern.occurrences (visibleContentOf (some c.name) d.parts)) :
    Nameless context.document (c.rewriteMatch settings context (c.handed d m.span)).outcome := by
  obtain ⟨n,_,searched⟩ := standard_rematches member found
  rw [rewriteMatch,searched]
  dsimp only
  obtain ⟨text,way⟩ := Pattern.search_way searched
  cases rewrites : c.rewrite with
  | pieces pieces =>
    have resolves := Inline.standard_resolves member
    rw [Construct.resolves,rewrites] at resolves
    exact Rewriting.buildAll_nameless (fun k start stop captured => text ▸ way.groupSpan_within captured) resolves
  | greekLetters => exact Rewriting.greekLetters_nameless lenient _ rfl _
  | reference => exact Rewriting.reference_nameless lenient _ rfl _
  | citation => exact Rewriting.citation_nameless lenient _ rfl _

theorem apply_nameless {c : Construct} (member : c ∈ Inline.standard) (d : Draft) :
    Nameless context.document (c.apply settings context d).outcome := by
  rw [apply,applyAt_eq (spansOf_inOrder c.name c.pattern d)]
  split
  · exact .ok d
  · rw [Logged.outcome_bind]
    refine .bind (.ok ()) fun _ _ => ?_
    rw [Logged.outcome_bind]
    refine .bind (fun failure stopped => ?_) fun outs _ => .ok _
    obtain ⟨span,isSpan,stopped⟩ := Logged.mapM_error stopped
    obtain ⟨m,found,rfl⟩ := List.mem_map.mp isSpan
    exact rewriteMatch_nameless lenient member found failure stopped

theorem applyEach_nameless {constructs : List Construct} (members : constructs ⊆ Inline.standard) (d : Draft) :
    Nameless context.document (applyEach settings context constructs d).outcome := by
  induction constructs generalizing d with
  | nil => exact .ok d
  | cons c rest ih =>
    obtain ⟨isStandard,others⟩ := List.cons_subset.mp members
    rw [applyEach]
    split
    · exact ih others d
    · rw [Logged.outcome_bind]
      exact .bind (apply_nameless lenient isStandard d) fun next _ => ih others next

end Construct

-- A whole run of standard constructs, on any text.
theorem Draft.compile_nameless {constructs : List Construct} (members : constructs ⊆ Inline.standard) {context : Context}
    (d : Draft) : Nameless context.document (d.compile constructs settings context).outcome := by
  rw [compile]
  split
  · exact .ok d
  · exact Construct.applyEach_nameless lenient members d

end
end LightMarkup
