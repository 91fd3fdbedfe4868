import Mathlib
import LightMarkup.Proofs.Construct.Applying
import LightMarkup.Proofs.Construct.Emitting
import LightMarkup.Proofs.Draft.Splicing
import LightMarkup.Proofs.GreekLetters
import LightMarkup.Proofs.Html.Scanning

/-!
Text stays text: what constructs write is whole HTML piece by piece, and the text that they leave live has no angle
bracket. So nothing that a text holds opens, closes or leaves a tag, an attribute or a comment.
-/

namespace LightMarkup

-- Fixed text is HTML that stands on its own; live text has no angle bracket.
def Part.Enclosed : Part → Prop
  | .fixed content => Html.Closed content
  | .live content _ => Html.Inert content

theorem Part.closed_of_enclosed (part : Part) (enclosed : part.Enclosed) : Html.Closed part.content := by
  cases part with
  | fixed content => exact enclosed
  | live content excluded => exact Html.Inert.closed enclosed

namespace Template

-- A group that is written as the target of a link or as an anchor.
def escapes (links identifiers : List GroupKey) (key : Text) : Bool :=
  match GroupKey.ofText key with
  | .ok key => links.contains key || identifiers.contains key
  | .error _ => false

-- Where the scan of a template ends if its groups stand in attribute values and are escaped. The NUID is an attribute.
def leaves (links identifiers : List GroupKey) : Html.Place → Template → Option Html.Place
  | place, [] => some place
  | place, .text t :: items => (Html.scan place t).bind fun place => leaves links identifiers place items
  | place, .group key :: items =>
    if key = "nuid" then if place = .tag then leaves links identifiers .tag items else none
    else if place = .value && escapes links identifiers key then leaves links identifiers .value items
    else none

end Template

namespace Piece

-- Pieces that write whole HTML, whatever the groups hold.
def encloses : Piece → Bool
  | .template items links identifiers replacements =>
    replacements.isEmpty && Template.leaves links identifiers .text items == some .text
  | .opening tag _ _ _ _ => Html.scan .text ("<" ++ Text.ofString tag) == some .tag
  | _ => true

end Piece

namespace Construct

def encloses (c : Construct) : Bool :=
  match c.rewrite with
  | .pieces pieces => pieces.all Piece.encloses && (c.pattern.groupNumber? "nuid").isNone
  | _ => false

end Construct

namespace Rewriting

open Draft

variable {r : Rewriting} {piece : Piece} {pieces : List Piece} {out : List Part} {t : Text}
  {links identifiers : List GroupKey} {items : Template} {place stop : Html.Place}

theorem expandGroup_quiet {key : Text} (other : key ≠ "nuid") (escaped : Template.escapes links identifiers key = true)
    (expanded : r.expandGroup links identifiers key = .ok t) : Html.Quiet t := by
  rw [expandGroup,if_neg (by simp [other])] at expanded
  obtain ⟨key,read,expanded⟩ := Failure.bind_ok.mp expanded
  obtain ⟨text,_,expanded⟩ := Failure.bind_ok.mp expanded
  simp only [Template.escapes,read] at escaped
  split at expanded
  · obtain ⟨link,_,same⟩ := Failure.bind_ok.mp expanded
    cases same
    exact Html.escapeAttribute_quiet _
  · rename_i noLink
    rw [if_pos ((Bool.or_eq_true_iff.mp escaped).resolve_left noLink)] at expanded
    obtain ⟨anchor,_,same⟩ := Failure.bind_ok.mp expanded
    cases same
    exact Html.escapeAttribute_quiet _

theorem expand_scan (noGroup : (r.construct.pattern.groupNumber? "nuid").isNone = true)
    (leaves : Template.leaves links identifiers place items = some stop)
    (expanded : r.expand links identifiers items = .ok t) : Html.scan place t = some stop := by
  induction items generalizing place t with
  | nil =>
    cases leaves
    cases expanded
    rfl
  | cons item items ih =>
    cases item with
    | text u =>
      obtain ⟨rest,later,same⟩ := Failure.bind_ok.mp expanded
      cases same
      obtain ⟨mid,here,leaves⟩ := Option.bind_eq_some_iff.mp leaves
      exact Html.scan_then here (ih leaves later)
    | group key =>
      obtain ⟨text,here,expanded⟩ := Failure.bind_ok.mp expanded
      obtain ⟨rest,later,same⟩ := Failure.bind_ok.mp expanded
      cases same
      simp only [Template.leaves] at leaves
      split at leaves
      · rename_i nuid
        split at leaves
        · rename_i inTag
          rw [expandGroup,if_pos (by simp [nuid,noGroup])] at here
          cases here
          exact inTag ▸ Html.scan_then (Html.scan_nuidAttribute _) (ih leaves later)
        · cases leaves
      · rename_i other
        split at leaves
        · rename_i inValue
          rw [Bool.and_eq_true,decide_eq_true_eq] at inValue
          exact inValue.1 ▸ Html.scan_then (expandGroup_quiet other inValue.2 here).in_value (ih leaves later)
        · cases leaves

theorem openingTag_closed {tag : String} (opens : Html.scan .text ("<" ++ Text.ofString tag) = some .tag)
    (baseClass : Text) (style identifier nuid : Option Text) :
    Html.Closed (openingTag tag baseClass style identifier nuid) := by
  have closing : Html.scan .tag (">" : Text) = some .text := by rw [Text.ofString_ofList]; exact rfl
  unfold openingTag
  exact Html.scan_then (Html.scan_then (Html.scan_then (Html.scan_then opens (Html.scan_styleAttributes _ _))
    (Html.scan_idAttribute _)) (Html.scan_nuidAttribute _)) closing

theorem codeOpening_closed (nuid : Option Text) (language : Text) :
    Html.Closed ("<pre" ++ Html.nuidAttribute nuid ++ "><code class=\"language-" ++ Html.escapeAttribute language
      ++ " code-block\">") := by
  have opening : Html.scan .text ("<pre" : Text) = some .tag := by rw [Text.ofString_ofList]; exact rfl
  have between : Html.scan .tag ("><code class=\"language-" : Text) = some .value := by rw [Text.ofString_ofList]; exact rfl
  have closing : Html.scan .value (" code-block\">" : Text) = some .text := by rw [Text.ofString_ofList]; exact rfl
  exact Html.scan_then (Html.scan_then (Html.scan_then (Html.scan_then opening (Html.scan_nuidAttribute _)) between)
    (Html.escapeAttribute_quiet _).in_value) closing

-- What a piece takes over from the draft is enclosed once it is copied.
def TakesEnclosed (r : Rewriting) : Piece → Prop
  | .capture _ escape => ∀ start stop, ∀ part ∈ windowFrom r.draft.scope .both start stop 0 r.draft.parts,
    (r.captured escape part).Enclosed
  | .whole => ∀ part ∈ r.draft.parts, part.Enclosed
  | _ => True

theorem build_enclosed (noGroup : (r.construct.pattern.groupNumber? "nuid").isNone = true)
    (encloses : piece.encloses = true) (takes : r.TakesEnclosed piece) (built : r.build piece = .ok out) :
    ∀ part ∈ out, part.Enclosed := by
  cases piece with
  | template items links identifiers replacements =>
    obtain ⟨text,expanded,same⟩ := Failure.bind_ok.mp built
    cases same
    simp only [Piece.encloses,Bool.and_eq_true,List.isEmpty_iff,beq_iff_eq] at encloses
    obtain ⟨rfl,leaves⟩ := encloses
    exact List.forall_mem_singleton.mpr (expand_scan noGroup leaves expanded)
  | capture group escape =>
    obtain ⟨n,_,built⟩ := Failure.bind_ok.mp built
    split at built
    · cases built
      exact List.forall_mem_nil _
    · obtain ⟨parts,sliced,same⟩ := Failure.bind_ok.mp built
      cases same
      obtain ⟨_,rfl⟩ := slice_window sliced
      exact List.forall_mem_map.mpr (takes _ _)
  | opening tag baseClass style identifier withNuid =>
    obtain ⟨anchor,_,same⟩ := Failure.bind_ok.mp built
    cases same
    simp only [Piece.encloses,beq_iff_eq] at encloses
    exact List.forall_mem_singleton.mpr (openingTag_closed encloses _ _ _ _)
  | codeOpening =>
    cases built
    exact List.forall_mem_singleton.mpr (codeOpening_closed _ _)
  | whole =>
    cases built
    exact takes

theorem buildAll_enclosed (noGroup : (r.construct.pattern.groupNumber? "nuid").isNone = true)
    (encloses : ∀ piece ∈ pieces, piece.encloses = true) (takes : ∀ piece ∈ pieces, r.TakesEnclosed piece)
    (built : r.buildAll pieces = .ok out) : ∀ part ∈ out, part.Enclosed := by
  induction pieces generalizing out with
  | nil =>
    cases built
    exact List.forall_mem_nil _
  | cons piece pieces ih =>
    obtain ⟨parts,here,built⟩ := Failure.bind_ok.mp built
    obtain ⟨rest,there,same⟩ := Failure.bind_ok.mp built
    cases same
    obtain ⟨first,others⟩ := List.forall_mem_cons.mp encloses
    obtain ⟨taken,later⟩ := List.forall_mem_cons.mp takes
    exact List.forall_mem_append.mpr ⟨build_enclosed noGroup first taken here,ih others later there⟩

-- Escaping or not, text without angle brackets stays so.
theorem captured_enclosed (escape : Bool) {part : Part} (enclosed : part.Enclosed) :
    (r.captured escape part).Enclosed := by
  cases part with
  | fixed content => exact enclosed
  | live content excluded =>
    simp only [captured,Part.Enclosed]
    split
    · exact Html.escape_inert content
    · exact enclosed

end Rewriting

namespace Draft

variable {scope : Option String} {ends : Boundary} {start stop position : Nat} {parts : List Part}

theorem window_enclosed (enclosed : ∀ part ∈ parts, part.Enclosed) :
    ∀ part ∈ windowFrom scope ends start stop position parts, part.Enclosed := by
  intro piece member
  obtain ⟨part,isPart,rfl | ⟨visible,t,sub,rfl⟩⟩ := mem_windowFrom member
  · exact enclosed piece isPart
  · cases part with
    | fixed content => simp [Part.visibleTo] at visible
    | live content excluded => exact Html.Inert.mono (enclosed _ isPart) sub

theorem visible_inert (enclosed : ∀ part ∈ parts, part.Enclosed) : Html.Inert (visibleContentOf scope parts) := by
  intro c member
  obtain ⟨part,isPart,inside⟩ := List.mem_flatMap.mp member
  obtain ⟨isPart,visible⟩ := List.mem_filter.mp isPart
  cases part with
  | fixed content => simp [Part.visibleTo] at visible
  | live content excluded => exact enclosed _ isPart c inside

end Draft

namespace Rewriting

open Draft Pattern

variable {r : Rewriting} {pieces : List Piece} {out : List Part}

-- A comment around what is left of its line.
theorem comment_closed {t : Text} (open_ : ∀ c ∈ t, c ≠ '>') : Html.Closed ("<!-- " ++ t ++ " -->") := by
  have opening : Html.scan .text ("<!-- " : Text) = some (.comment 0) := by rw [Text.ofString_ofList]; exact rfl
  have closing : ∀ n, Html.scan (.comment n) (" -->" : Text) = some .text := by
    intro n
    rw [Text.ofString_eq]
    rfl
  obtain ⟨n,inside⟩ := Html.scan_comment open_ 0
  exact Html.scan_then (Html.scan_then opening inside) (closing n)

-- A group that is written as it is, between two texts.
theorem buildAll_raw {before after : Text} (given : r.construct.pattern.hasGroup 1 = true)
    (built : r.buildAll [.template [.text before,.group "1",.text after] [] [] []] = .ok out) :
    out = [.fixed (before ++ r.found.group 1 ++ after)] := by
  have other : ("1" : Text) ≠ "nuid" := by
    repeat rw [Text.ofString_ofList]
    decide
  have read : GroupKey.ofText "1" = .ok (.number 1) := by rw [Text.ofString_eq]; rfl
  have group : r.expandGroup [] [] "1" = .ok (r.found.group 1) := by
    simp [expandGroup,other,read,groupText,GroupKey.resolve,given,bind,Except.bind,pure,Except.pure]
  have expanded : r.expand [] [] [.text before,.group "1",.text after] =
      .ok (before ++ (r.found.group 1 ++ (after ++ []))) := by
    simp [expand,group,bind,Except.bind,pure,Except.pure]
  simp only [buildAll,build,expanded,bind,Except.bind,pure,Except.pure,Except.ok.injEq] at built
  simp [← built]

theorem emoji_group (way : r.found.IsWay Inline.emoji.pattern) : ∀ c ∈ r.found.group 1, Text.isWord c = true := by
  obtain ⟨mid,front,last,colon,same⟩ := mem_seq.mp way
  obtain ⟨first,opening,body,captured,rfl⟩ := mem_seq.mp front
  obtain ⟨inner,isInner,rfl⟩ := mem_captured rfl captured
  obtain ⟨t,read,words⟩ := ways_only (show (plus (.char .word)).Only fun c => Text.isWord c = true from
    fun c word => word) _ _ isInner
  have captures : r.found.captures = [⟨1,first.1,inner.1⟩] := by
    simpa [(literal_reads opening).2,(literal_reads colon).2] using congrArg Prod.snd same
  simpa [Match.group,Match.group?,Match.capture?,captures,read.textTo] using words

theorem word_quiet {t : Text} (word : ∀ c ∈ t, Text.isWord c = true) : Html.Quiet t := by
  intro c member
  refine ⟨?_,?_,?_⟩ <;>
  · rintro rfl
    exact absurd (word _ member) (by decide)

-- An emoji is named in an attribute, by word characters only.
theorem emoji_closed {t : Text} (word : ∀ c ∈ t, Text.isWord c = true) :
    Html.Closed ("<i class=\"em-svg em-" ++ t ++ "\" aria-role=\"presentation\"></i>") := by
  have opening : Html.scan .text ("<i class=\"em-svg em-" : Text) = some .value := by rw [Text.ofString_ofList]; exact rfl
  have closing : Html.scan .value ("\" aria-role=\"presentation\"></i>" : Text) = some .text := by rw [Text.ofString_ofList]; exact rfl
  exact Html.scan_then (Html.scan_then opening (word_quiet word).in_value) closing

theorem segments_inert (skip : Nat) {t : Text} (inert : Html.Inert t) :
    Html.Inert ((GreekLetters.segmentsFrom skip t).flatMap GreekLetters.Segment.latex) := by
  have plain : GreekLetters.commands.all (fun entry => ('\\' :: entry.2).all fun c => c != '<' && c != '>') = true := by
    decide_cbv
  have commands : ∀ entry ∈ GreekLetters.commands, Html.Inert ('\\' :: entry.2) := by
    intro entry member c inside
    simpa using List.all_eq_true.mp (List.all_eq_true.mp plain entry member) c inside
  induction t generalizing skip with
  | nil => cases skip <;> exact List.forall_mem_nil _
  | cons c t ih =>
    obtain ⟨here,later⟩ := List.forall_mem_cons.mp inert
    cases skip with
    | succ skip => exact ih skip later
    | zero =>
      simp only [GreekLetters.segmentsFrom]
      split
      · rename_i key command found
        have known := (GreekLetters.longestKey?_some.mp found).known
        exact Html.Inert.append (commands _ known) (ih _ later)
      · exact Html.Inert.append (List.forall_mem_singleton.mpr here) (ih 0 later)

theorem greekLetters_enclosed (inert : Html.Inert (r.found.group 1)) (run : r.greekLetters.outcome = .ok out) :
    ∀ part ∈ out, part.Enclosed := by
  have opening : Html.Closed ("<span class=\"greek\">$" : Text) := by rw [Text.ofString_ofList]; exact rfl
  have closing : Html.Closed ("$</span>" : Text) := by rw [Text.ofString_ofList]; exact rfl
  rw [greekLetters_ok run]
  exact List.forall_mem_singleton.mpr ((opening.append (segments_inert 0 inert).closed).append closing)

theorem reference_enclosed (values : ∀ entry ∈ r.settings.references, Html.Inert entry.2)
    (enclosed : ∀ part ∈ r.draft.parts, part.Enclosed) (run : r.reference.outcome = .ok out) :
    ∀ part ∈ out, part.Enclosed := by
  rcases reference_ok run with ⟨entry,known,rfl⟩ | rfl
  · exact List.forall_mem_singleton.mpr (Html.Inert.closed (values entry known))
  · exact enclosed

theorem digits_inert (n : Nat) : Html.Inert (Text.ofNat n) := by
  intro c member
  have digit := Nat.isDigit_of_mem_toDigits (by decide) (by decide) member
  constructor <;>
  · rintro rfl
    exact absurd digit (by decide)

theorem citation_enclosed (enclosed : ∀ part ∈ r.draft.parts, part.Enclosed) (run : r.citation.outcome = .ok out) :
    ∀ part ∈ out, part.Enclosed := by
  have opening : Html.scan .text ("<a class=\"cite\" href=\"" : Text) = some .value := by rw [Text.ofString_ofList]; exact rfl
  have between : Html.scan .value ("\">" : Text) = some .text := by rw [Text.ofString_ofList]; exact rfl
  have closing : Html.Closed ("</a>" : Text) := by rw [Text.ofString_ofList]; exact rfl
  rcases citation_ok run with ⟨href,number,rfl⟩ | rfl
  · exact List.forall_mem_singleton.mpr (Html.scan_then (Html.scan_then (Html.scan_then (Html.scan_then opening
      (Html.escapeAttribute_quiet _).in_value) between) (digits_inert number).closed) closing)
  · exact enclosed

end Rewriting

namespace Inline

-- The constructs with a text of their own making, or with a group that they write as it is.
theorem standard_encloses {c : Construct} (member : c ∈ standard) :
    c.encloses = true ∨ c ∈ [comment,greekLetter,emoji,reference,citation] := by
  have others : standard.filter (fun c => !c.encloses) = [comment,greekLetter,emoji,reference,citation] := by
    unfold standard codeSpan mathSpan escape comment greekLetter todo bookmarkWithId bookmark abridgedBookmarkWithId
      abridgedBookmark styledWithId styled abridgedStyledWithId abridgedStyled identifier highlight boldByStars
      boldByUnderscores italicByStars italicByUnderscores strikethrough underlined superscript subscript link checkbox
      checkedCheckbox emoji reference citation wrapped withAnchor
    repeat rw [Text.ofString_ofList]
    decide +kernel
  cases whole : c.encloses with
  | true => exact Or.inl rfl
  | false =>
    rw [← others]
    exact Or.inr (List.mem_filter.mpr ⟨member,by simp [whole]⟩)

theorem comment_hasGroup : comment.pattern.hasGroup 1 = true := by
  rw [comment,Text.ofString_ofList]
  rfl

theorem emoji_hasGroup : emoji.pattern.hasGroup 1 = true := by
  rw [emoji,Text.ofString_ofList]
  rfl

end Inline

namespace Construct

open Draft

variable {c : Construct} {settings : CompileSettings} {context : Context} {d e : Draft} {out : List Part}

theorem searched_inert {found : Match} (enclosed : ∀ part ∈ d.parts, part.Enclosed)
    (searched : c.pattern.search? d.visibleContent = some found) (n : Nat) : Html.Inert (found.group n) := by
  obtain ⟨text,way⟩ := Pattern.search_way searched
  have inert : Html.Inert (visibleContentOf d.scope d.parts) := visible_inert enclosed
  refine inert.mono (List.Subset.trans (way.group_subset n) ?_)
  rw [← visibleContent,← text]
  exact List.subset_append_right _ _

theorem rewriteMatch_enclosed (member : c ∈ Inline.standard) (values : ∀ entry ∈ settings.references, Html.Inert entry.2)
    (enclosed : ∀ part ∈ d.parts, part.Enclosed) (run : (c.rewriteMatch settings context d).outcome = .ok out) :
    ∀ part ∈ out, part.Enclosed := by
  unfold rewriteMatch at run
  split at run
  · cases run
  · rename_i found searched
    have inert := searched_inert enclosed searched
    rcases Inline.standard_encloses member with whole | special
    · unfold Construct.encloses at whole
      split at whole
      · rename_i pieces rewrites
        rw [rewrites] at run
        rw [Bool.and_eq_true,List.all_eq_true] at whole
        refine Rewriting.buildAll_enclosed whole.2 whole.1 (fun piece _ => ?_) run
        cases piece with
        | capture group escape =>
          exact fun start stop part isPart => Rewriting.captured_enclosed escape (window_enclosed enclosed part isPart)
        | whole => exact enclosed
        | template | opening | codeOpening => trivial
      · cases whole
    · simp only [List.mem_cons,List.not_mem_nil,or_false] at special
      rcases special with rfl | rfl | rfl | rfl | rfl
      · rw [Rewriting.buildAll_raw Inline.comment_hasGroup run]
        exact List.forall_mem_singleton.mpr (Rewriting.comment_closed fun x isIn => (inert 1 x isIn).2)
      · exact Rewriting.greekLetters_enclosed (inert 1) run
      · rw [Rewriting.buildAll_raw Inline.emoji_hasGroup run]
        exact List.forall_mem_singleton.mpr
          (Rewriting.emoji_closed (Rewriting.emoji_group (Pattern.search_way searched).2))
      · exact Rewriting.reference_enclosed values enclosed run
      · exact Rewriting.citation_enclosed enclosed run

-- One step: the matches are rewritten to enclosed parts, and between them parts are cut but not changed.
theorem apply_enclosed (member : c ∈ Inline.standard) (values : ∀ entry ∈ settings.references, Html.Inert entry.2)
    (enclosed : ∀ part ∈ d.parts, part.Enclosed) (run : (c.apply settings context d).outcome = .ok e) :
    ∀ part ∈ e.parts, part.Enclosed := by
  rcases applyAt_ok (spansOf_inOrder c.name c.pattern d) run with ⟨_,rfl⟩ | ⟨outs,ran,rfl⟩
  · exact enclosed
  · have rewritten := (List.forall₂_and_left _ _).mp (ran.flip.imp fun out span here =>
      ⟨rewriteMatch_enclosed member values (window_enclosed enclosed) here,here⟩)
    intro part isPart
    rcases mem_spliced isPart with ⟨start,stop,outside⟩ | ⟨out,isOut,inside⟩
    · exact window_enclosed enclosed part outside
    · exact rewritten.1 out isOut part inside

-- A whole run, over any constructs in any order.
theorem compile_enclosed {constructs : List Construct} (members : constructs ⊆ Inline.standard)
    (values : ∀ entry ∈ settings.references, Html.Inert entry.2) (enclosed : ∀ part ∈ d.parts, part.Enclosed)
    (run : (d.compile constructs settings context).outcome = .ok e) : ∀ part ∈ e.parts, part.Enclosed :=
  compile_induct (I := fun d => ∀ part ∈ d.parts, part.Enclosed)
    (fun _ member _ _ enclosed run => apply_enclosed (members member) values enclosed run) enclosed run

theorem content_closed (enclosed : ∀ part ∈ d.parts, part.Enclosed) : Html.Closed d.content := by
  have all : ∀ parts : List Part, (∀ part ∈ parts, part.Enclosed) → Html.Closed (contentOf parts) := by
    intro parts
    induction parts with
    | nil => exact fun _ => rfl
    | cons part parts ih =>
      intro enclosed
      obtain ⟨here,later⟩ := List.forall_mem_cons.mp enclosed
      exact Html.Closed.append (part.closed_of_enclosed here) (ih later)
  exact all d.parts enclosed

-- A compiled text is HTML in which only the constructs' own tags and comments have angle brackets.
theorem compile_encloses {constructs : List Construct} (members : constructs ⊆ Inline.standard)
    (values : ∀ entry ∈ settings.references, Html.Inert entry.2) {s : Text} {nuid : Option Text}
    (run : ((Draft.ofLive (Html.escape s) .nothing nuid).compile constructs settings context).outcome = .ok e) :
    (∀ part ∈ e.parts, part.Enclosed) ∧ Html.Closed e.content := by
  have enclosed := compile_enclosed members values (d := .ofLive (Html.escape s) .nothing nuid)
    (List.forall_mem_singleton.mpr (Html.escape_inert s)) run
  exact ⟨enclosed,content_closed enclosed⟩

-- The end of a comment in a comment, a name in brackets, and a quotation mark in the target of a link.
def bracketed : Text :=
  "//--><i>\n<b> [x](y\"z) &key&"

def enclosedMarks : Draft :=
  ⟨[.fixed "<!-- --&gt;&lt;i&gt; -->",.live "\n&lt;b&gt; " .nothing,
    .fixed "<a href=\"y&quot;z\" class=\"link\">",.live "x" .nothing,.fixed "</a>",.live " " .nothing,
    .fixed "value"],none,none⟩

theorem compile_encloses_marks :
    ((Draft.ofLive (Html.escape bracketed) .nothing none).compile [Inline.comment,Inline.link,Inline.reference]
        { references := [("key","value")] } ⟨some "d",none⟩).outcome = .ok enclosedMarks ∧
      Html.Closed enclosedMarks.content := by
  have members : [Inline.comment,Inline.link,Inline.reference] ⊆ Inline.standard := by simp [Inline.standard]
  have values : ∀ entry ∈ [(("key" : Text),("value" : Text))], Html.Inert entry.2 := by
    refine List.forall_mem_singleton.mpr (?_ : Html.Inert "value")
    rw [Text.ofString_ofList]
    simp [Html.Inert]
  have run : ((Draft.ofLive (Html.escape bracketed) .nothing none).compile
      [Inline.comment,Inline.link,Inline.reference] { references := [("key","value")] } ⟨some "d",none⟩).outcome =
        .ok enclosedMarks := by cbv
  exact ⟨run,(compile_encloses members values run).2⟩

end Construct
end LightMarkup
