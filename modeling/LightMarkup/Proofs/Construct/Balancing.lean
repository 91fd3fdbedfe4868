import LightMarkup.Proofs.Construct.Enclosure
import LightMarkup.Proofs.Construct.Protection
import LightMarkup.Proofs.Construct.Rematching
import LightMarkup.Proofs.Html.Tags

/-!
Tags that match like brackets. Every construct writes elements that it closes itself, around what it copies; so the output is
well nested as long as no match, and no text copied from one, holds a part of an element only. A match is found in what is
visible, whatever elements it crosses.
-/

namespace LightMarkup

open Html (Balanced SameOpen)

namespace Draft

variable {scope : Option String} {parts one two pieces : List Part} {spans : List (Nat × Nat)} {first last : Nat}

def tagsOf (parts : List Part) : List Html.Tag :=
  Html.tags (contentOf parts)

theorem tagsOf_cons {part : Part} (enclosed : part.Enclosed) (parts : List Part) :
    tagsOf (part :: parts) = Html.tags part.content ++ tagsOf parts :=
  Html.tags_append (part.closed_of_enclosed enclosed) _

theorem tagsOf_append (enclosed : ∀ part ∈ one, part.Enclosed) (two : List Part) :
    tagsOf (one ++ two) = tagsOf one ++ tagsOf two := by
  induction one with
  | nil => rfl
  | cons part one ih =>
    obtain ⟨here,later⟩ := List.forall_mem_cons.mp enclosed
    rw [List.cons_append,tagsOf_cons here,tagsOf_cons here,ih later,List.append_assoc]

-- Cutting moves nothing.
theorem Cuts.contentOf (cuts : Cuts scope parts pieces) : contentOf pieces = contentOf parts := by
  induction cuts with
  | nil => rfl
  | hidden hidden later ih => exact congrArg (_ ++ ·) ih
  | @visible part parts pieces contents visible some whole later ih =>
    have same : LightMarkup.contentOf (contents.map fun t => part.withContent t) = contents.flatten := by
      simp [LightMarkup.contentOf,List.flatMap_map,List.flatMap_id']
    rw [LightMarkup.contentOf,List.flatMap_append]
    exact congrArg₂ (· ++ ·) (same.trans whole) ih

-- If every output leaves open what its match does, the whole does.
theorem spliced_same {outs : List (List Part)} (enclosed : ∀ part ∈ parts, part.Enclosed)
    (each : List.Forall₂ (fun span out => (∀ part ∈ out, part.Enclosed) ∧
      SameOpen (tagsOf out) (tagsOf (matchedAt scope parts span))) spans outs) :
    SameOpen (tagsOf (spliced scope parts last first spans outs))
      (tagsOf (spliced scope parts last first spans (spans.map (matchedAt scope parts)))) := by
  induction each generalizing first with
  | nil => exact .refl _
  | @cons span out spans outs here later ih =>
    have outside : ∀ part ∈ stretch scope parts first span.1, part.Enclosed := window_enclosed enclosed
    have inside : ∀ part ∈ matchedAt scope parts span, part.Enclosed := window_enclosed enclosed
    simp only [spliced,List.map_cons]
    rw [tagsOf_append outside,tagsOf_append outside,tagsOf_append here.1,tagsOf_append inside]
    exact (SameOpen.refl _).append (here.2.append ih)

end Draft

open Draft

-- The text of a template without its groups.
def Template.bare : Template → Text
  | [] => []
  | .text t :: items => t ++ bare items
  | .group _ :: items => bare items

namespace Piece

-- The tags that a piece writes, whatever the groups hold.
def outline : Piece → List Html.Tag
  | .template items _ _ _ => Html.tags (Template.bare items)
  | .opening tag _ _ _ _ => Html.tags ("<" ++ Text.ofString tag ++ ['>'])
  | _ => []

def isOutlined : Piece → Bool
  | .template items _ _ _ => items.all fun item => item != .group "nuid"
  | .codeOpening => false
  | .whole => false
  | _ => true

end Piece

-- A construct that closes the elements that it opens.
def Construct.isPaired (c : Construct) : Bool :=
  match c.rewrite with
  | .pieces pieces => pieces.all Piece.isOutlined && decide (Balanced (pieces.flatMap Piece.outline))
  | _ => false

theorem Inline.standard_paired {c : Construct} (member : c ∈ standard) (encloses : c.encloses = true) : c.isPaired = true := by
  have all : standard.all (fun c => !c.encloses || c.isPaired) = true := by
    unfold standard codeSpan mathSpan escape comment greekLetter todo bookmarkWithId bookmark abridgedBookmarkWithId
      abridgedBookmark styledWithId styled abridgedStyledWithId abridgedStyled identifier highlight boldByStars
      boldByUnderscores italicByStars italicByUnderscores strikethrough underlined superscript subscript link checkbox
      checkedCheckbox emoji reference citation wrapped withAnchor
    repeat rw [Text.ofString_ofList]
    decide +kernel
  have here := List.all_eq_true.mp all c member
  rw [encloses] at here
  simpa using here

namespace Rewriting

variable {r : Rewriting} {piece : Piece} {pieces : List Piece} {out : List Part} {t name : Text}
  {links identifiers : List GroupKey} {items : Template} {place stop : Html.Place}

theorem expand_tags (leaves : Template.leaves links identifiers place items = some stop)
    (numberless : ∀ item ∈ items, item ≠ .group "nuid") (expanded : r.expand links identifiers items = .ok t) :
    Html.tagsFrom place name t = Html.tagsFrom place name (Template.bare items) := by
  induction items generalizing place name t with
  | nil =>
    cases expanded
    rfl
  | cons item items ih =>
    obtain ⟨other,others⟩ := List.forall_mem_cons.mp numberless
    cases item with
    | text u =>
      obtain ⟨rest,later,same⟩ := Failure.bind_ok.mp expanded
      cases same
      obtain ⟨mid,here,leaves⟩ := Option.bind_eq_some_iff.mp leaves
      rw [Template.bare,Html.tagsFrom_append here,Html.tagsFrom_append here,ih leaves others later]
    | group key =>
      obtain ⟨text,here,expanded⟩ := Failure.bind_ok.mp expanded
      obtain ⟨rest,later,same⟩ := Failure.bind_ok.mp expanded
      cases same
      have unnumbered : key ≠ "nuid" := fun same => other (congrArg _ same)
      simp only [Template.leaves,if_neg unnumbered] at leaves
      split at leaves
      · rename_i inValue
        rw [Bool.and_eq_true,decide_eq_true_eq] at inValue
        obtain ⟨rfl,escaped⟩ := inValue
        rw [Template.bare,Html.tagsFrom_value (expandGroup_quiet unnumbered escaped here),ih leaves others later]
      · cases leaves

theorem openingTag_tags {tag : String} (opens : Html.scan .text ("<" ++ Text.ofString tag) = some .tag)
    (baseClass : Text) (style identifier nuid : Option Text) : Html.tags (openingTag tag baseClass style identifier nuid) =
      Html.tags ("<" ++ Text.ofString tag ++ ['>']) := by
  have attributes := ((Html.styleAttributes_attributes (if identifier.isSome then "identifier " ++ baseClass else baseClass)
    style).append (Html.idAttribute_attributes identifier)).append (Html.nuidAttribute_attributes nuid)
  rw [← Html.tags_attributes opens attributes,openingTag]
  rw [show (">" : Text) = ['>'] by rw [Text.ofString_eq]; rfl]
  simp only [List.append_assoc]

-- What is copied has the tags that stand there, escaped or not.
theorem captured_tags (escape : Bool) {parts : List Part} (enclosed : ∀ part ∈ parts, part.Enclosed) :
    tagsOf (parts.map (r.captured escape)) = tagsOf parts := by
  induction parts with
  | nil => rfl
  | cons part parts ih =>
    obtain ⟨here,later⟩ := List.forall_mem_cons.mp enclosed
    have same : Html.tags (r.captured escape part).content = Html.tags part.content := by
      cases part with
      | fixed content => rfl
      | live content excluded =>
        have live : (r.captured escape (.live content excluded)).Enclosed := captured_enclosed escape here
        exact (Html.tags_inert live).trans (Html.tags_inert here).symm
    rw [List.map_cons,tagsOf_cons (captured_enclosed escape here),tagsOf_cons here,ih later,same]

theorem tagsOf_fixed (content : Text) : tagsOf [.fixed content] = Html.tags content :=
  congrArg Html.tags (List.append_nil content)

-- A piece writes its own tags, around a copy that leaves nothing open.
theorem build_same (encloses : piece.encloses = true) (outlined : piece.isOutlined = true)
    (enclosed : ∀ part ∈ r.draft.parts, part.Enclosed)
    (copies : ∀ span ∈ r.copied? piece, Balanced (tagsOf (windowFrom r.draft.scope .both span.1 span.2 0 r.draft.parts)))
    (built : r.build piece = .ok out) : SameOpen (tagsOf out) piece.outline := by
  cases piece with
  | template items links identifiers replacements =>
    obtain ⟨text,expanded,same⟩ := Failure.bind_ok.mp built
    cases same
    simp only [Piece.encloses,Bool.and_eq_true,List.isEmpty_iff,beq_iff_eq] at encloses
    obtain ⟨rfl,leaves⟩ := encloses
    have numberless : ∀ item ∈ items, item ≠ .group "nuid" := by simpa [Piece.isOutlined] using outlined
    rw [List.foldl_nil,tagsOf_fixed,Html.tags,expand_tags leaves numberless expanded]
    exact .refl _
  | capture group escape =>
    obtain ⟨n,resolved,built⟩ := Failure.bind_ok.mp built
    split at built
    · cases built
      exact .refl _
    · rename_i start stop captured
      obtain ⟨parts,sliced,same⟩ := Failure.bind_ok.mp built
      cases same
      obtain ⟨_,rfl⟩ := slice_window sliced
      have copied : r.copied? (.capture group escape) = some (start,stop) := by
        simp [copied?,Match.copied?,resolved,captured]
      rw [captured_tags escape (window_enclosed enclosed)]
      exact Html.balanced_iff.mp (copies (start,stop) copied)
  | opening tag baseClass style identifier withNuid =>
    obtain ⟨anchor,_,same⟩ := Failure.bind_ok.mp built
    cases same
    simp only [Piece.encloses,beq_iff_eq] at encloses
    rw [tagsOf_fixed,openingTag_tags encloses]
    exact .refl _
  | codeOpening => cases outlined
  | whole => cases outlined

theorem buildAll_same (noGroup : (r.construct.pattern.groupNumber? "nuid").isNone = true)
    (encloses : ∀ piece ∈ pieces, piece.encloses = true) (outlined : ∀ piece ∈ pieces, piece.isOutlined = true)
    (enclosed : ∀ part ∈ r.draft.parts, part.Enclosed)
    (copies : ∀ span ∈ r.copied pieces, Balanced (tagsOf (windowFrom r.draft.scope .both span.1 span.2 0 r.draft.parts)))
    (built : r.buildAll pieces = .ok out) : SameOpen (tagsOf out) (pieces.flatMap Piece.outline) := by
  induction pieces generalizing out with
  | nil =>
    cases built
    exact .refl _
  | cons piece pieces ih =>
    obtain ⟨parts,here,built⟩ := Failure.bind_ok.mp built
    obtain ⟨rest,there,same⟩ := Failure.bind_ok.mp built
    cases same
    obtain ⟨first,others⟩ := List.forall_mem_cons.mp encloses
    obtain ⟨plain,later⟩ := List.forall_mem_cons.mp outlined
    have taken : r.TakesEnclosed piece := by
      cases piece with
      | capture group escape =>
        exact fun start stop part isPart => captured_enclosed escape (window_enclosed enclosed part isPart)
      | whole => cases plain
      | template | opening | codeOpening => trivial
    rw [tagsOf_append (build_enclosed noGroup first taken here),List.flatMap_cons]
    refine (build_same first plain enclosed (fun span copied => copies span ?_) here).append
      (ih others later (fun span copied => copies span ?_) there)
    · exact List.mem_filterMap.mpr ⟨piece,List.mem_cons_self ..,copied⟩
    · exact (List.Sublist.filterMap _ (List.sublist_cons_self ..)).subset copied

end Rewriting

-- The texts that a construct copies from a text that it is handed.
def Construct.copied (c : Construct) (h : Draft) : List (List Part) :=
  match c.pattern.search? h.visibleContent with
  | some found => (c.copies found).map fun span => windowFrom h.scope .both span.1 span.2 0 h.parts
  | none => []

namespace Rewriting

variable {r : Rewriting} {out : List Part} {t : Text}

theorem comment_tags (open_ : ∀ c ∈ t, c ≠ '>') : Html.tags ("<!-- " ++ t ++ " -->") = [] := by
  have opening : Html.scan .text ("<!-- " : Text) = some (.comment 0) := by rw [Text.ofString_ofList]; exact rfl
  have begins : Html.tags ("<!-- " : Text) = [] := by rw [Text.ofString_eq]; rfl
  have closing : ∀ n name, Html.tagsFrom (.comment n) name (" -->" : Text) = [] := by
    intro n name
    rw [Text.ofString_eq]
    rfl
  obtain ⟨n,inside⟩ := Html.scan_comment open_ 0
  rw [Html.tags] at begins
  rw [Html.tags,List.append_assoc,Html.tagsFrom_append opening,Html.tagsFrom_append inside,begins,
    Html.tagsFrom_comment open_,closing]
  rfl

theorem emoji_balanced (word : ∀ c ∈ t, Text.isWord c = true) :
    Balanced (Html.tags ("<i class=\"em-svg em-" ++ t ++ "\" aria-role=\"presentation\"></i>")) := by
  have opening : Html.scan .text ("<i class=\"em-svg em-" : Text) = some .value := by rw [Text.ofString_ofList]; exact rfl
  rw [Html.tags,List.append_assoc,Html.tagsFrom_append opening,Html.tagsFrom_value (word_quiet word)]
  repeat rw [Text.ofString_ofList]
  decide

theorem greekLetters_balanced (inert : Html.Inert (r.found.group 1)) (run : r.greekLetters.outcome = .ok out) :
    Balanced (tagsOf out) := by
  have opening : Html.Closed ("<span class=\"greek\">$" : Text) := by rw [Text.ofString_ofList]; exact rfl
  have letters : Html.Inert (GreekLetters.decompose (r.found.group 1)).1 := segments_inert 0 inert
  rw [greekLetters_ok run,tagsOf_fixed,List.append_assoc,Html.tags_append opening,Html.tags_append letters.closed,
    Html.tags_inert letters]
  repeat rw [Text.ofString_ofList]
  decide

theorem reference_balanced (values : ∀ entry ∈ r.settings.references, Html.Inert entry.2)
    (whole : Balanced (tagsOf r.draft.parts)) (run : r.reference.outcome = .ok out) : Balanced (tagsOf out) := by
  rcases reference_ok run with ⟨entry,known,rfl⟩ | rfl
  · rw [tagsOf_fixed,Html.tags_inert (values entry known)]
    rfl
  · exact whole

theorem citation_balanced (whole : Balanced (tagsOf r.draft.parts)) (run : r.citation.outcome = .ok out) :
    Balanced (tagsOf out) := by
  have opening : Html.scan .text ("<a class=\"cite\" href=\"" : Text) = some .value := by rw [Text.ofString_ofList]; exact rfl
  have between : Html.scan .value ("\">" : Text) = some .text := by rw [Text.ofString_ofList]; exact rfl
  rcases citation_ok run with ⟨href,number,rfl⟩ | rfl
  · rw [tagsOf_fixed,Html.tags]
    simp only [List.append_assoc]
    rw [Html.tagsFrom_append opening,Html.tagsFrom_value (Html.escapeAttribute_quiet _),Html.tagsFrom_append between,
      Html.tagsFrom_text _ (_ ++ _),Html.tags_append (digits_inert number).closed,Html.tags_inert (digits_inert number)]
    repeat rw [Text.ofString_ofList]
    decide
  · exact whole

end Rewriting

namespace Construct

variable {c : Construct} {constructs : List Construct} {settings : CompileSettings} {context : Context} {d e : Draft}
  {out : List Part}

-- No match of a construct, and no text that is copied from one, holds a part of an element only.
def Nests (c : Construct) (d : Draft) : Prop :=
  ∀ span ∈ Draft.spansOf c.name c.pattern d,
    Balanced (tagsOf (c.handed d span).parts) ∧ ∀ copy ∈ c.copied (c.handed d span), Balanced (tagsOf copy)

instance (c : Construct) (d : Draft) : Decidable (c.Nests d) :=
  inferInstanceAs (Decidable (∀ span ∈ Draft.spansOf c.name c.pattern d,
    Balanced (tagsOf (c.handed d span).parts) ∧ ∀ copy ∈ c.copied (c.handed d span), Balanced (tagsOf copy)))

-- The same for all constructs that are applied, each to what the ones before it leave.
def NestsEach (settings : CompileSettings) (context : Context) : List Construct → Draft → Prop
  | [], _ => True
  | c :: constructs, d =>
    if settings.excluded.contains c.name then NestsEach settings context constructs d
    else c.Nests d ∧
      match (c.apply settings context d).outcome with
      | .ok e => NestsEach settings context constructs e
      | .error _ => True

instance nestsEachDecidable (settings : CompileSettings) (context : Context) :
    ∀ (constructs : List Construct) (d : Draft), Decidable (NestsEach settings context constructs d)
  | [], _ => inferInstanceAs (Decidable True)
  | c :: constructs, d =>
    match applied : (c.apply settings context d).outcome with
    | .ok e =>
      let later := nestsEachDecidable settings context constructs e
      let skipped := nestsEachDecidable settings context constructs d
      decidable_of_iff (if settings.excluded.contains c.name then NestsEach settings context constructs d
        else c.Nests d ∧ NestsEach settings context constructs e) (by rw [NestsEach,applied])
    | .error _ =>
      let skipped := nestsEachDecidable settings context constructs d
      decidable_of_iff (if settings.excluded.contains c.name then NestsEach settings context constructs d
        else c.Nests d ∧ True) (by rw [NestsEach,applied])

theorem rewriteMatch_balanced (member : c ∈ Inline.standard) (values : ∀ entry ∈ settings.references, Html.Inert entry.2)
    (enclosed : ∀ part ∈ d.parts, part.Enclosed) (whole : Balanced (tagsOf d.parts))
    (copies : ∀ copy ∈ c.copied d, Balanced (tagsOf copy))
    (run : (c.rewriteMatch settings context d).outcome = .ok out) : Balanced (tagsOf out) := by
  unfold rewriteMatch at run
  split at run
  · cases run
  · rename_i found searched
    have inert := searched_inert enclosed searched
    rcases Inline.standard_encloses member with encloses | special
    · have paired := Inline.standard_paired member encloses
      unfold Construct.encloses at encloses
      unfold isPaired at paired
      split at encloses
      · rename_i pieces rewrites
        rw [rewrites] at run paired
        simp only [Bool.and_eq_true,List.all_eq_true,decide_eq_true_eq] at encloses paired
        have copied : ∀ span ∈ c.copies found, Balanced (tagsOf (windowFrom d.scope .both span.1 span.2 0 d.parts)) := by
          intro span isCopied
          refine copies _ ?_
          rw [Construct.copied,searched]
          exact List.mem_map_of_mem isCopied
        simp only [Construct.copies,rewrites] at copied
        exact (Rewriting.buildAll_same (r := ⟨c,settings,context,d,found⟩) encloses.2 encloses.1 paired.1 enclosed copied
          run).balanced.mpr paired.2
      · cases encloses
    · simp only [List.mem_cons,List.not_mem_nil,or_false] at special
      rcases special with rfl | rfl | rfl | rfl | rfl
      · rw [Rewriting.buildAll_raw Inline.comment_hasGroup run,Rewriting.tagsOf_fixed,
          Rewriting.comment_tags fun x isIn => (inert 1 x isIn).2]
        rfl
      · exact Rewriting.greekLetters_balanced (inert 1) run
      · rw [Rewriting.buildAll_raw Inline.emoji_hasGroup run,Rewriting.tagsOf_fixed]
        exact Rewriting.emoji_balanced (Rewriting.emoji_group (Pattern.search_way searched).2)
      · exact Rewriting.reference_balanced values whole run
      · exact Rewriting.citation_balanced whole run

-- One pass: every output and every match are balanced, so what is open stays the same.
theorem apply_balanced (member : c ∈ Inline.standard) (values : ∀ entry ∈ settings.references, Html.Inert entry.2)
    (enclosed : ∀ part ∈ d.parts, part.Enclosed) (balanced : Balanced (tagsOf d.parts)) (nests : c.Nests d)
    (run : (c.apply settings context d).outcome = .ok e) : Balanced (tagsOf e.parts) := by
  have ordered := spansOf_inOrder c.name c.pattern d
  rcases applyAt_ok ordered run with ⟨_,rfl⟩ | ⟨outs,ran,rfl⟩
  · exact balanced
  · have each : List.Forall₂ (fun span out => (∀ part ∈ out, part.Enclosed) ∧
        SameOpen (tagsOf out) (tagsOf (matchedAt (some c.name) d.parts span))) (spansOf c.name c.pattern d) outs := by
      refine ((List.forall₂_and_left _ _).mpr ⟨fun span isSpan => isSpan,ran⟩).imp fun span out ⟨isSpan,here⟩ => ?_
      obtain ⟨whole,copies⟩ := nests span isSpan
      have handed : ∀ part ∈ (c.handed d span).parts, part.Enclosed := window_enclosed enclosed
      exact ⟨rewriteMatch_enclosed member values handed here,
        (rewriteMatch_balanced member values handed whole copies here).same whole⟩
    have cut := ((applyAt_splices c.name d).2 _ ordered).cuts.contentOf
    exact (spliced_same enclosed each).balanced.mpr (by rwa [tagsOf,cut])

theorem applyEach_balanced (members : constructs ⊆ Inline.standard)
    (values : ∀ entry ∈ settings.references, Html.Inert entry.2) (enclosed : ∀ part ∈ d.parts, part.Enclosed)
    (balanced : Balanced (tagsOf d.parts)) (nests : NestsEach settings context constructs d)
    (run : (applyEach settings context constructs d).outcome = .ok e) : Balanced (tagsOf e.parts) := by
  induction constructs generalizing d with
  | nil =>
    cases run
    exact balanced
  | cons c constructs ih =>
    obtain ⟨isStandard,others⟩ := List.cons_subset.mp members
    unfold applyEach at run
    unfold NestsEach at nests
    split at run
    · rename_i excluded
      rw [if_pos excluded] at nests
      exact ih others enclosed balanced nests run
    · rename_i applied
      obtain ⟨next,first,later⟩ := Logged.outcome_bind_ok.mp run
      rw [if_neg applied,first] at nests
      exact ih others (apply_enclosed isStandard values enclosed first)
        (apply_balanced isStandard values enclosed balanced nests.1 first) nests.2 later

-- So the tags of a compiled text match like brackets, unless a construct crosses an element on the way.
theorem compile_balanced (members : constructs ⊆ Inline.standard)
    (values : ∀ entry ∈ settings.references, Html.Inert entry.2) {s : Text} {nuid : Option Text}
    (nests : NestsEach settings context constructs (.ofLive (Html.escape s) .nothing nuid))
    (run : ((Draft.ofLive (Html.escape s) .nothing nuid).compile constructs settings context).outcome = .ok e) :
    Balanced (Html.tags e.content) := by
  have none : tagsOf [.live (Html.escape s) .nothing] = [] := by
    rw [tagsOf,contentOf,List.flatMap_singleton]
    exact Html.tags_inert (Html.escape_inert s)
  have balanced : Balanced (tagsOf [.live (Html.escape s) .nothing]) := by
    rw [none]
    rfl
  unfold Draft.compile at run
  split at run
  · cases run
    exact balanced
  · have enclosed : ∀ part ∈ (Draft.ofLive (Html.escape s) .nothing nuid).parts, part.Enclosed :=
      List.forall_mem_singleton.mpr (Html.escape_inert s)
    exact applyEach_balanced members values enclosed balanced nests run

-- Every construct stands in another one as a whole, and a link holds one.
def nested : Text :=
  "**a ==b== c** [*d*](e)"

def nestedOutput : Text :=
  "<strong class=\"bold\">a <mark class=\"highlight\">b</mark> c</strong> "
    ++ "<a href=\"e\" class=\"link\"><em class=\"italic\">d</em></a>"

def nestedDraft : Draft :=
  ⟨[.fixed "<strong class=\"bold\">",.live "a " .nothing,.fixed "<mark class=\"highlight\">",.live "b" .nothing,
    .fixed "</mark>",.live " c" .nothing,.fixed "</strong>",.live " " .nothing,.fixed "<a href=\"e\" class=\"link\">",
    .fixed "<em class=\"italic\">",.live "d" .nothing,.fixed "</em>",.fixed "</a>"],none,none⟩

theorem compile_balanced_nested : NestsEach {} ⟨none,none⟩ Inline.standard (.ofLive (Html.escape nested) .nothing none) ∧
    ((Draft.ofLive (Html.escape nested) .nothing none).compile Inline.standard {} ⟨none,none⟩).outcome = .ok nestedDraft ∧
      nestedDraft.content = nestedOutput ∧ Balanced (Html.tags nestedOutput) := by
  have nests : NestsEach {} ⟨none,none⟩ Inline.standard (.ofLive (Html.escape nested) .nothing none) := by
    decide +kernel
  have run : ((Draft.ofLive (Html.escape nested) .nothing none).compile Inline.standard {} ⟨none,none⟩).outcome =
      .ok nestedDraft := by decide +kernel
  have content : nestedDraft.content = nestedOutput := by decide +kernel
  exact ⟨nests,run,content,content ▸ compile_balanced (List.Subset.refl _) (List.forall_mem_nil _) nests run⟩

-- Two constructs that cross: each is found in what is visible to it, and that is all of the other one but its tags.
def crossing : Text :=
  "**a ==b** c=="

def crossingDraft : Draft :=
  ⟨[.fixed "<strong class=\"bold\">",.live "a " .nothing,.fixed "<mark class=\"highlight\">",.live "b" .nothing,
    .fixed "</strong>",.live " c" .nothing,.fixed "</mark>"],none,none⟩

theorem compile_crosses : ¬ ∀ (settings : CompileSettings) (context : Context) (s : Text) (nuid : Option Text) (e : Draft),
    (∀ entry ∈ settings.references, Html.Inert entry.2) →
      ((Draft.ofLive (Html.escape s) .nothing nuid).compile Inline.standard settings context).outcome = .ok e →
        Balanced (Html.tags e.content) := by
  intro balanced
  have run : ((Draft.ofLive (Html.escape crossing) .nothing none).compile Inline.standard {} ⟨none,none⟩).outcome =
      .ok crossingDraft := by decide +kernel
  exact absurd (balanced {} ⟨none,none⟩ crossing none crossingDraft (List.forall_mem_nil _) run) (by decide +kernel)

end Construct
end LightMarkup
