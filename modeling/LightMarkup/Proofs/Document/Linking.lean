import LightMarkup.Contents
import LightMarkup.Proofs.Construct.Citing
import LightMarkup.Proofs.Construct.Wrapping
import LightMarkup.Proofs.Paragraph.Quoting

/-!
Links to headings. A heading has the anchor of its title for an identifier, and the table of contents leads there. A link is
found in escaped text and leads to the anchor of the escaped title: to the heading if the title is without angle brackets,
and past it if not, for then the escaped title has the longer anchor.
-/

namespace LightMarkup

variable {t title document target anchor : Text} {documentName : Option Text}

-- Lower case has as many characters as the characters have for themselves: a final sigma is one character too.
theorem Text.lowerAfter_length (before t : Text) : (lowerAfter before t).length = (t.flatMap lowerChar).length := by
  induction t generalizing before with
  | nil => rfl
  | cons c t ih =>
    rw [lowerAfter,List.length_append,ih,List.flatMap_cons,List.length_append]
    split
    · rename_i final
      have sigma : c.toNat = 0x3a3 := by simp_all
      simp [lowerChar,sigma]
    · rfl

def Html.angles (t : Text) : Nat :=
  t.count '<' + t.count '>'

theorem Anchor.normalise_length (t : Text) : (normalise t).length = (t.flatMap Text.lowerChar).length := by
  rw [normalise,List.length_map,Text.lower,Text.lowerAfter_length]

-- An escaped bracket is three characters longer.
theorem Anchor.escaped_length (t : Text) :
    (normalise (Html.escape t)).length = (normalise t).length + 3 * Html.angles t := by
  simp only [normalise_length]
  induction t with
  | nil => rfl
  | cons c t ih =>
    have whole : Html.escape (c :: t) = Html.escapeChar c ++ Html.escape t := rfl
    rw [whole,List.flatMap_append,List.length_append,ih,List.flatMap_cons,List.length_append]
    simp only [Html.escapeChar,Html.angles,List.count_cons]
    by_cases less : c = '<'
    · subst less
      rw [if_pos rfl,Text.ofString_ofList]
      simp [Text.lowerChar]
      omega
    · by_cases greater : c = '>'
      · subst greater
        rw [if_neg (by decide),if_pos rfl,Text.ofString_ofList]
        simp [Text.lowerChar]
        omega
      · simp [less,greater]
        omega

theorem Anchor.build_escaped :
    build document (Html.escape title) = build document title ↔ '<' ∉ title ∧ '>' ∉ title := by
  rw [build_same]
  constructor
  · intro same
    have length := escaped_length title
    rw [same,Html.angles] at length
    constructor <;> rw [← List.count_eq_zero] <;> omega
  · rintro ⟨less,greater⟩
    rw [Html.escape_plain]
    intro c member
    simp only [Html.brackets,List.mem_cons,List.not_mem_nil,or_false]
    rintro (rfl | rfl)
    · exact less member
    · exact greater member

namespace Inline

open Pattern

-- A link with a text of one letter.
def leading (target : Text) : Text :=
  '[' :: 'x' :: ']' :: '(' :: (target ++ [')'])

theorem link_pattern : link.pattern = literal ['['] ++ captured 1 (plus (.char (CharSet.noneOf [']']))) ++ literal [']','(']
    ++ captured 2 (plus (.char (CharSet.noneOf [')']))) ++ literal [')'] := by
  rw [link]
  repeat rw [Text.ofString_ofList]

theorem noneOf_apart {x : Char} (all : ∀ y ∈ t, (CharSet.noneOf [x]).contains y = true) : x ∉ t := by
  intro member
  have other := all x member
  simp [CharSet.noneOf,CharSet.anyOf,CharSet.contains] at other

theorem escape_leading (t : Text) : Html.escape (leading t) = leading (Html.escape t) := by
  simp [Html.escape,leading,Html.escapeChar]

theorem leading_trimmed (t : Text) : Text.trim (leading t) = leading t :=
  have solid : Text.isBlank ')' = false := by decide
  Text.trim_solid (v := '[' :: 'x' :: ']' :: '(' :: t) rfl (by decide) (by simp [leading]) solid

theorem escape_shut (shut : ')' ∉ t) : ')' ∉ Html.escape t :=
  Html.escape_free shut (by decide) (by decide)

-- A title has no blanks around it when it is escaped either.
theorem hash_trimmed (trimmed : Text.trim t = t) : Text.trim ('#' :: Html.escape t) = '#' :: Html.escape t := by
  by_cases none : t = []
  · subst none
    rfl
  obtain ⟨v,y,whole,solid⟩ := Text.trimEnd_ends (t := Text.trimStart t) (by rwa [← Text.trim,trimmed])
  obtain ⟨w,z,last,firm⟩ : ∃ w z, Html.escapeChar y = w ++ [z] ∧ Text.isBlank z = false := by
    by_cases angled : y ∈ Html.brackets
    · obtain ⟨word,entity,_⟩ := Html.escapeChar_bracket angled
      exact ⟨'&' :: word,';',entity,by decide⟩
    · exact ⟨[],y,Html.escapeChar_other angled,solid⟩
  have split : t = v ++ [y] := by rw [← whole,← Text.trim,trimmed]
  have ends : '#' :: Html.escape t = ('#' :: (Html.escape v ++ w)) ++ [z] := by
    rw [split]
    simp [Html.escape,last]
  exact Text.trim_solid rfl (by decide) ends firm

theorem link_way {c : Cursor} {way : Way} (shut : ')' ∉ target) (begins : c.after = leading target)
    (found : way ∈ link.pattern.ways c) :
    way = (c.past (leading target).length,[⟨2,c.past 4,c.past (4 + target.length)⟩,⟨1,c.past 1,c.past 2⟩]) := by
  rw [link_pattern] at found
  obtain ⟨_,unclosed,last,closed,rfl⟩ := mem_seq.mp found
  obtain ⟨_,front,second,isSecond,rfl⟩ := mem_seq.mp unclosed
  obtain ⟨_,labelled,middle,parted,rfl⟩ := mem_seq.mp front
  obtain ⟨start,opened,first,isFirst,rfl⟩ := mem_seq.mp labelled
  obtain ⟨opening,noneOpening⟩ := literal_reads opened
  obtain ⟨label,readLabel,_,square,captured⟩ := run_parts isFirst
  obtain ⟨between,noneBetween⟩ := literal_reads parted
  obtain ⟨u,readTarget,_,round,capturedTarget⟩ := run_parts isSecond
  obtain ⟨closing,noneClosing⟩ := literal_reads closed
  have text : '[' :: (['x'] ++ ']' :: '(' :: (target ++ [')'])) = '[' :: (label ++ ']' :: '(' :: (u ++ ')' :: last.1.after)) := by
    have all := begins.symm.trans ((((opening.append readLabel).append between).append readTarget).append closing).1
    simpa [leading] using all
  obtain ⟨rfl,behind⟩ := Text.ends_once (by decide) (noneOf_apart square) (List.cons.inj text).2
  obtain ⟨rfl,_⟩ := Text.ends_once shut (noneOf_apart round) (List.cons.inj behind).2
  have atLabel : start.1 = c.past 1 := opening.eq_past
  have atBracket : first.1 = c.past 2 := by rw [readLabel.eq_past,atLabel,Cursor.past_past]; rfl
  have atTarget : middle.1 = c.past 4 := by rw [between.eq_past,atBracket,Cursor.past_past]; rfl
  have atEnd : second.1 = c.past (4 + target.length) := by rw [readTarget.eq_past,atTarget,Cursor.past_past]
  have ended : last.1 = c.past (leading target).length := by
    rw [closing.eq_past,atEnd,Cursor.past_past]
    exact congrArg c.past (by simp [leading]; omega)
  simp only [noneClosing,capturedTarget,noneBetween,captured,noneOpening,ended,atEnd,atTarget,atBracket,atLabel]
  rfl

theorem link_takes {c : Cursor} (some : target ≠ []) (shut : ')' ∉ target) (begins : c.after = leading target) :
    link.pattern.Takes c (leading target) := by
  obtain ⟨x,more,rfl⟩ := List.exists_cons_of_ne_nil some
  have behind : ∀ n, (c.past n).after = (leading (x :: more)).drop n := fun n => by rw [Cursor.past_after,begins]
  have round : ∀ y ∈ x :: more, (CharSet.noneOf [')']).contains y = true := by
    intro y member
    have other : y ≠ ')' := by rintro rfl; exact shut member
    simp [CharSet.noneOf,CharSet.anyOf,CharSet.contains,other]
  have opened : (literal ['[']).Takes c ['['] := takes_literal begins
  have label : (plus (.char (CharSet.noneOf [']']))).Takes (c.past 1) ['x'] :=
    takes_plus (u := []) (takes_char (behind 1) rfl) (takes_none _ _)
  have parted : (literal [']','(']).Takes (c.past 2) [']','('] := takes_literal (behind 2)
  have body : (plus (.char (CharSet.noneOf [')']))).Takes (c.past 4) (x :: more) := by
    have others : ((c.past 4).past 1).after = more ++ [')'] := by rw [Cursor.past_past]; exact behind 5
    exact takes_plus (takes_char (behind 4) (round x (List.mem_cons_self ..)))
      (takes_run others fun y member => round y (List.mem_cons_of_mem _ member))
  have ended : (c.past (['['] ++ ['x'] ++ [']','('] ++ x :: more).length).after = [')'] ++ [] := by
    rw [behind]
    simp [leading]
  rw [link_pattern]
  exact (((opened.seq (.group label)).seq parted).seq (.group body)).seq (takes_literal ended)

theorem link_head {c : Cursor} (some : target ≠ []) (shut : ')' ∉ target) (begins : c.after = leading target) :
    (link.pattern.ways c).head? =
      Option.some (c.past (leading target).length,[⟨2,c.past 4,c.past (4 + target.length)⟩,⟨1,c.past 1,c.past 2⟩]) :=
  (link_takes some shut begins).head fun _ found => link_way shut begins found

end Inline

namespace Link

def opening (target : Text) : Part :=
  .fixed ("<a href=\"" ++ target ++ "\" class=\"link\">")

-- A hash leads to an anchor of the document at hand, with what stands behind it.
theorem ofText_hash (trimmed : Text.trim ('#' :: t) = '#' :: t) (here : documentName = some document) :
    ofText ('#' :: t) documentName = .ok (.anchor document t) := by
  have dead : addressPattern.outset '#' = .dead := by
    rw [addressPattern]
    repeat rw [Text.ofString_ofList]
    decide
  have noAddress : (addressPattern.matchStart? ('#' :: t)).isSome = false := by
    rw [Pattern.matchStart?,Pattern.matchAt_head,Pattern.outset_dead dead rfl]
    rfl
  rw [ofText,trimmed]
  simp [noAddress,here,toAnchor]

end Link

namespace Construct

open Draft Inline Pattern

variable {settings : CompileSettings} {context : Context} {nuid : Option Text} {d : Draft} {leads : Link}

theorem link_group (r : Rewriting) (isLink : r.construct = link) (given : r.found.group 2 = target)
    (known : Link.ofText target r.context.document = .ok leads) :
    r.build (.template [.text "<a href=\"",.group "2",.text "\" class=\"link\">"] [.number 2] [] []) =
      .ok [Link.opening (Html.escapeAttribute leads.build)] := by
  have isGroup : r.construct.pattern.hasGroup 2 = true := by
    rw [isLink,link_pattern]
    rfl
  have number : GroupKey.ofText (Text.ofString "2") = .ok (.number 2) := by
    rw [Text.ofString_ofList]
    rfl
  have other : Text.ofString "2" ≠ Text.ofString "nuid" := by
    repeat rw [Text.ofString_ofList]
    decide
  have text : r.groupText (.number 2) = .ok target := by
    simp [Rewriting.groupText,GroupKey.resolve,isGroup,given,bind,Except.bind,pure,Except.pure]
  simp [Rewriting.build,Rewriting.expand,Rewriting.expandGroup,number,other,text,known,Link.opening,bind,Except.bind,pure,
    Except.pure]

theorem link_rewrites (some : target ≠ []) (shut : ')' ∉ target) (alone : d.parts = [.live (leading target) .nothing])
    (visible : d.visibleContent = leading target) (known : Link.ofText target context.document = .ok leads) :
    link.rewriteMatch settings context d =
      pure [Link.opening (Html.escapeAttribute leads.build),.live ['x'] .nothing,.fixed "</a>"] := by
  obtain ⟨m,matched,label,captured⟩ : ∃ m, link.pattern.matchAt? (.start d.visibleContent) = Option.some m ∧
      m.groupSpan? 1 = Option.some (1,2) ∧ m.group 2 = target := by
    rw [visible]
    refine ⟨_,by rw [matchAt_head,link_head some shut rfl]; rfl,rfl,?_⟩
    show ((Cursor.start (leading target)).past 4).textTo ((Cursor.start (leading target)).past (4 + target.length)) = target
    rw [← Cursor.past_past]
    have begins : ((Cursor.start (leading target)).past 4).after = target ++ [')'] := rfl
    exact (Cursor.Reads.of_after begins).textTo
  have group : link.pattern.hasGroup 1 = true := by
    rw [link_pattern]
    rfl
  have sliced : d.slice 1 2 .both = .ok [.live ['x'] .nothing] := by
    have shown : ∀ t, Part.visibleTo d.scope (.live t .nothing) = true := by
      intro t
      cases scope : d.scope <;> simp [Part.visibleTo,Exclusion.contains]
    simp [slice,visible,alone,Boundary.both,sliceFrom,shown,Part.content,Part.withContent,leading]
  have copied : (⟨link,settings,context,d,m⟩ : Rewriting).build (capture 1) = .ok [.live ['x'] .nothing] :=
    Rewriting.build_capture (r := ⟨link,settings,context,d,m⟩) group label sliced
  rw [rewriteMatch,search_start matched]
  show Logged.ofExcept (Rewriting.buildAll ⟨link,settings,context,d,m⟩ _) = _
  simp only [Rewriting.buildAll,link_group ⟨link,settings,context,d,m⟩ rfl captured known,copied,Rewriting.build_text]
  rfl

theorem link_spans (some : target ≠ []) (shut : ')' ∉ target)
    (visible : visibleContentOf (Option.some link.name) d.parts = leading target) :
    spansOf link.name link.pattern d = [(0,(leading target).length)] :=
  spansOf_alone (List.cons_ne_nil _ _) visible fun _ begins => ⟨_,link_head some shut begins⟩

-- A link between two tags.
theorem apply_link {opening closing : Text} (some : target ≠ []) (shut : ')' ∉ target)
    (known : Link.ofText target context.document = .ok leads) :
    (link.apply settings context ⟨[.fixed opening,.live (leading target) .nothing,.fixed closing],nuid,none⟩).outcome =
      .ok ⟨[.fixed opening,Link.opening (Html.escapeAttribute leads.build),.live ['x'] .nothing,.fixed "</a>",
        .fixed closing],nuid,none⟩ := by
  have visible : visibleContentOf (Option.some link.name) [.fixed opening,.live (leading target) .nothing,.fixed closing] =
      leading target := by
    simp [visibleContentOf,Part.visibleTo,Exclusion.contains,Part.content]
  have rewrites : link.rewriteMatch settings context ⟨[.live (leading target) .nothing],nuid,Option.some link.name⟩ =
      pure [Link.opening (Html.escapeAttribute leads.build),.live ['x'] .nothing,.fixed "</a>"] :=
    link_rewrites some shut rfl (visible_live _ _) known
  have hidden : ∀ content, ∀ part ∈ [Part.fixed content], part.visibleTo (Option.some link.name) = false := fun content =>
    List.forall_mem_singleton.mpr rfl
  rw [apply,link_spans some shut visible]
  exact applyAt_alone (List.cons_ne_nil _ _) (hidden opening) (hidden closing) rewrites

end Construct

namespace Compiler

open Construct Draft Inline Paragraph

/-- Links are all that the compiler knows, and it compiles a document. -/
structure LinksIn (compiler : Compiler) (document : Text) : Prop where
  constructs : compiler.constructs = (Catalogue.standard.retain ["link"]).inline
  here : compiler.context.document = some document
  included : compiler.settings.excluded.contains "link" = false

variable {compiler : Compiler} {nuid : Option Text}

theorem inline_links (links : compiler.LinksIn document) (d : Draft) :
    compiler.inline d = link.apply compiler.settings compiler.context d := by
  rw [inline,show compiler.constructs = [link] from links.constructs]
  exact compile_alone links.included _ _

-- Without a closing parenthesis there is no link.
theorem inlineText_linkless (links : compiler.LinksIn document) (shut : ')' ∉ t) :
    compiler.inlineText t = pure ⟨[.live (Html.escape t) .nothing],none,none⟩ := by
  have needed : link.pattern.needs (· == .one ')') = true := by
    rw [link_pattern]
    decide
  have none : link.pattern.occurrences (Html.escape t) = [] :=
    Pattern.needs_occurrences needed (escape_shut shut)
  rw [inlineText,inline_links links,apply_passed]
  · rfl
  · rw [Draft.ofLive,visible_live]
    exact none

/-- What a link to a title, a heading with the title, and its entry in the table of contents are compiled to. -/
structure Leads (compiler : Compiler) (document title target anchor : Text) : Prop where
  linked : ∀ construct nuid, ((Paragraph.leaf (leading ('#' :: title)) construct nuid .common).compile compiler).outcome =
    .ok ⟨[.fixed ("<p class=\"paragraph\"" ++ Html.nuidAttribute nuid ++ ">"),Link.opening target,.live ['x'] .nothing,
      .fixed "</a>",.fixed "</p>"],nuid,none⟩
  headed : ∀ level nuid, (compiler.heading ⟨level,title,none,nuid⟩).outcome =
    .ok ⟨[.fixed (headingOpening level (some anchor) nuid),.live (Html.escape title) .nothing,
      .fixed ("</h" ++ Text.ofInt level ++ ">")],nuid,none⟩
  listed : ∀ (toc : TableOfContents) level nuid, ∃ before,
    (toc.entryParts compiler ⟨⟨level,title,none,nuid⟩,document⟩).outcome =
      .ok (before ++ [Link.opening ('#' :: anchor),.live (Html.escape title) .nothing,.fixed "</a></span></li>"])

theorem Leads.unique {other otherAnchor : Text} (one : Leads compiler document title target anchor)
    (two : Leads compiler document title other otherAnchor) : target = other ∧ anchor = otherAnchor := by
  have linked := (one.linked "" none).symm.trans (two.linked "" none)
  have headed := (one.headed 1 none).symm.trans (two.headed 1 none)
  exact ⟨by simpa [Link.opening] using linked,by simpa [headingOpening,Html.attr] using headed⟩

theorem title_leads (links : compiler.LinksIn document) (shut : ')' ∉ title) (trimmed : Text.trim title = title) :
    Leads compiler document title ('#' :: Anchor.build document (Html.escape title)) (Anchor.build document title) where
  linked construct nuid := by
    have known := Link.ofText_hash (hash_trimmed trimmed) links.here
    have open_ : ')' ∉ '#' :: Html.escape title := List.not_mem_cons_of_ne_of_not_mem (by decide) (escape_shut shut)
    have written : commonParts (leading ('#' :: title)) nuid =
        [.fixed ("<p class=\"paragraph\"" ++ Html.nuidAttribute nuid ++ ">"),
        .live (leading ('#' :: Html.escape title)) .nothing,.fixed "</p>"] := by
      rw [commonParts,live,leading_trimmed,escape_leading]
      rfl
    show (compiler.inline ⟨commonParts (leading ('#' :: title)) nuid,nuid,none⟩ >>= fun d => pure (foldDraft d)).outcome = _
    rw [written,inline_links links]
    refine Logged.outcome_bind_ok.mpr ⟨_,apply_link (List.cons_ne_nil _ _) open_ known,?_⟩
    rw [Link.escaped_anchor]
    rfl
  headed level nuid := by
    have anchored : Heading.anchor? ⟨level,title,none,nuid⟩ compiler.context.document = some (Anchor.build document title) := by
      rw [links.here]
      rfl
    rw [heading,inlineText_linkless links shut,pure_bind,anchored]
    rfl
  listed toc level nuid := by
    have inside : (compiler.inDocument document).LinksIn document := ⟨links.constructs,rfl,links.included⟩
    have target : Part.fixed ("<a" ++ Html.attr "href" ('#' :: Html.escapeAttribute (Anchor.build document title)) ++
        " class=\"link\">") = Link.opening ('#' :: Anchor.build document title) := by
      rw [Html.escapeAttribute_plain fun c member => Anchor.identifier_unescaped (Anchor.build_chars _ _ c member),Html.attr,
        Link.opening]
      repeat rw [Text.ofString_ofList]
      simp
    rw [TableOfContents.entryParts,inlineText_linkless inside shut,pure_bind]
    simp only [Heading.anchor?,Option.map_some,Option.getD_some,Option.getD_none,target]
    refine ⟨[.fixed "<li class=\"toc-item\">"] ++ (if toc.settings.plain then [] else
      [.fixed (Text.repeated (level - toc.shallowest).toNat TableOfContents.indentation)]) ++
      [.fixed "<span class=\"toc-item-bullet\"></span><span class=\"toc-item-content\">"],congrArg Except.ok ?_⟩
    simp

theorem heading_linked (links : compiler.LinksIn document) (shut : ')' ∉ title) (trimmed : Text.trim title = title) :
    ∃ target anchor, Leads compiler document title target anchor ∧ (target = '#' :: anchor ↔ '<' ∉ title ∧ '>' ∉ title) := by
  refine ⟨_,_,title_leads links shut trimmed,?_⟩
  rw [List.cons.injEq,Anchor.build_escaped]
  exact and_iff_right rfl

def linking (document : Text) : Compiler :=
  ⟨(Catalogue.standard.retain ["link"]).inline,{},⟨some document,none⟩,⟨⟨[],[]⟩,[]⟩⟩

theorem linking_links (document : Text) : (linking document).LinksIn document :=
  ⟨rfl,rfl,rfl⟩

theorem heading_linked_word : (linking "doc").LinksIn "doc" ∧ ')' ∉ ['A',' ','(','b'] ∧
    Text.trim ['A',' ','(','b'] = ['A',' ','(','b'] ∧ ∃ target anchor,
      Leads (linking "doc") "doc" ['A',' ','(','b'] target anchor ∧ target = '#' :: anchor := by
  have shut : ')' ∉ ['A',' ','(','b'] := by decide
  have trimmed : Text.trim ['A',' ','(','b'] = ['A',' ','(','b'] := by decide
  obtain ⟨target,anchor,leads,same⟩ := heading_linked (linking_links "doc") shut trimmed
  exact ⟨linking_links "doc",shut,trimmed,target,anchor,leads,same.mpr (by decide)⟩

-- The link to `a<b` leads to the anchor of `a&lt;b`.
theorem bracket_misleads : ¬ ∀ (compiler : Compiler) (document title : Text), compiler.LinksIn document → title ≠ [] →
    '\n' ∉ title → ')' ∉ title → Text.trim title = title → ∃ anchor, Leads compiler document title ('#' :: anchor) anchor := by
  intro all
  obtain ⟨anchor,leads⟩ := all (linking "doc") "doc" ['a','<','b'] (linking_links "doc") (by decide) (by decide) (by decide)
    (by decide)
  obtain ⟨target,rfl⟩ := leads.unique (title_leads (linking_links "doc") (by decide) (by decide))
  have same := Anchor.build_escaped.mp (List.cons.inj target).2.symm
  exact absurd same (by decide)

end Compiler
end LightMarkup
