import LightMarkup.Proofs.Document.Lockstep

/-!
What a strict run fails for and any other warns of, and the steps of loading and compiling in which that happens. Two runs
go in step there as soon as they do in every such complaint.
-/

namespace LightMarkup

def leftAsItIsText (what key whole : Text) : Text :=
  what ++ " " ++ inTicks key ++ " not found: " ++ inTicks whole ++ " is left as it is"

-- Failures of strict runs, each with the warning that other runs write in its place.
inductive Failure.Reports : Failure → Entry → Prop where
  | loadingRule (construct : String) : Reports (.missingLoadingRule construct)
      ⟨.warning,.loading,missingLoadingRuleText construct ++ ": construct skipped"⟩
  | quoteLine (line : Text) : Reports (.quoteLineWithoutMark line)
      ⟨.warning,.paragraphs,quoteLineText line ++ ": skipped"⟩
  | listItem (line : Text) : Reports (.invalidListItem line)
      ⟨.warning,.paragraphs,invalidListItemText line ++ ": appended to the previous item"⟩
  | greekLetters (unknown : List Text) (whole : Text) : Reports (.unknownGreekLetters unknown whole)
      ⟨.warning,.rewriting,unknownGreekLettersText unknown whole⟩
  | reference (key whole : Text) : Reports (.unresolvedReference key)
      ⟨.warning,.rewriting,leftAsItIsText "reference" key whole⟩
  | citation (key whole : Text) : Reports (.unresolvedCitation key)
      ⟨.warning,.rewriting,leftAsItIsText "bibliography record" key whole⟩
  | imageSource (cause : ImageSourceError) : Reports (.imageSource cause)
      ⟨.warning,.resources,cause.message ++ ": source is kept as it is"⟩

theorem Failure.Reports.isComplaint {failure : Failure} {entry : Entry} (reports : failure.Reports entry) :
    entry.isComplaint = true := by
  cases reports with
  | loadingRule construct =>
    show skippedRule.isPrefixOf (missingLoadingRuleText construct ++ ": construct skipped") = true
    rw [List.isPrefixOf_iff_prefix,missingLoadingRuleText,List.append_assoc]
    exact List.prefix_append ..
  | _ => rfl

-- What becomes of a problem that a strict run fails for.
def Logged.complain (strict : Bool) (failure : Failure) (entry : Entry) : Logged Unit :=
  if strict then .fail failure else .write entry.level entry.origin entry.message

section

variable (R : {α : Type} → Logged α → Logged α → Prop)

def Complains (one two : Bool) : Prop :=
  ∀ {failure entry}, Failure.Reports failure entry → R (.complain one failure entry) (.complain two failure entry)

-- The complaint about a line of a quote alone.
def QuotesComplain (one two : Bool) : Prop :=
  ∀ line, R (.complain one (.quoteLineWithoutMark line) ⟨.warning,.paragraphs,quoteLineText line ++ ": skipped"⟩)
    (.complain two (.quoteLineWithoutMark line) ⟨.warning,.paragraphs,quoteLineText line ++ ": skipped"⟩)

end

theorem Complains.quotes {R : {α : Type} → Logged α → Logged α → Prop} {one two : Bool} (complains : Complains R one two) :
    QuotesComplain R one two :=
  fun line => complains (.quoteLine line)

section

variable {R : {α : Type} → Logged α → Logged α → Prop} (lockstep : Lockstep R)

namespace Quote

theorem bodyLines_mark {strict : Bool} {line : Text} {rest : List Text} (unmarked : content? line = none)
    (written : Text.isAllBlank line = false) : bodyLines strict (line :: rest) = (do
      .complain strict (.quoteLineWithoutMark (Text.trim line))
        ⟨.warning,.paragraphs,quoteLineText (Text.trim line) ++ ": skipped"⟩
      bodyLines strict rest) := by
  rw [bodyLines,unmarked]
  simp only [written,Bool.false_eq_true,if_false]
  cases strict <;> rfl

include lockstep

theorem bodyLines_step {one two : Bool} (complains : QuotesComplain R one two) (lines : List Text) :
    R (bodyLines one lines) (bodyLines two lines) := by
  induction lines with
  | nil => exact lockstep.pure []
  | cons line rest ih =>
    cases marked : content? line with
    | some content =>
      simp only [bodyLines,marked]
      exact lockstep.bind ih fun body _ => lockstep.pure _
    | none =>
      cases blank : Text.isAllBlank line with
      | true =>
        simp only [bodyLines,marked,blank,if_true]
        exact lockstep.bind ih fun body _ => lockstep.pure _
      | false =>
        rw [bodyLines_mark marked blank,bodyLines_mark marked blank]
        exact lockstep.bind (complains _) fun _ _ => ih

theorem ofText_step {one two : Bool} (complains : QuotesComplain R one two) (raw : Text) :
    R (ofText one raw) (ofText two raw) := by
  have lines := bodyLines_step lockstep complains
  simp only [ofText]
  split
  · exact lockstep.bind (lines _) fun body _ => lockstep.pure _
  · exact lockstep.bind (lines _) fun body _ => lockstep.pure _

end Quote

namespace ListItem

theorem ofLinesAfter_mark {strict : Bool} {items : List ListItem} {line : Text} {rest : List Text}
    (written : Text.isAllBlank line = false) (unmarked : ofLine? line = none) :
    ofLinesAfter strict items (line :: rest) = (do
      .complain strict (.invalidListItem (Text.trim line))
        ⟨.warning,.paragraphs,invalidListItemText (Text.trim line) ++ ": appended to the previous item"⟩
      ofLinesAfter strict (continueLast (Text.trim line) items) rest) := by
  rw [ofLinesAfter,unmarked]
  simp only [written,Bool.false_eq_true,if_false]
  cases strict <;> rfl

include lockstep

theorem ofLinesAfter_step {one two : Bool} (complains : Complains R one two) (lines : List Text) :
    ∀ items, R (ofLinesAfter one items lines) (ofLinesAfter two items lines) := by
  induction lines with
  | nil => exact fun items => lockstep.pure items
  | cons line rest ih =>
    intro items
    cases blank : Text.isAllBlank line with
    | true =>
      simp only [ofLinesAfter,blank,if_true]
      exact ih items
    | false =>
      cases marked : ofLine? line with
      | some item =>
        simp only [ofLinesAfter,blank,marked,Bool.false_eq_true,if_false]
        exact ih _
      | none =>
        rw [ofLinesAfter_mark blank marked,ofLinesAfter_mark blank marked]
        exact lockstep.bind (complains (.listItem _)) fun _ _ => ih _

end ListItem

-- Settings that differ in no more than how strict they are and what they exclude, and complain in step.
structure CompileSettings.InStep (R : {α : Type} → Logged α → Logged α → Prop) (one two : CompileSettings) : Prop where
  bullets : one.bullets = two.bullets
  references : one.references = two.references
  bibliography : one.bibliography = two.bibliography
  embedLocal : one.embedLocalImages = two.embedLocalImages
  embedRemote : one.embedRemoteImages = two.embedRemoteImages
  location : one.inputLocation = two.inputLocation
  lists : Complains R one.strictLists two.strictLists
  greekLetters : Complains R one.strictGreekLetters two.strictGreekLetters
  reference : Complains R one.strictReferences two.strictReferences
  citation : Complains R one.strictCitations two.strictCitations
  sources : Complains R one.strictImageSources two.strictImageSources

theorem CompileSettings.InStep.same (complains : ∀ strict, Complains R strict strict) (settings : CompileSettings) :
    settings.InStep R settings where
  bullets := rfl
  references := rfl
  bibliography := rfl
  embedLocal := rfl
  embedRemote := rfl
  location := rfl
  lists := complains _
  greekLetters := complains _
  reference := complains _
  citation := complains _
  sources := complains _

variable {one two : CompileSettings} (steps : one.InStep R two)

namespace ImageSource

theorem unreadable_mark (settings : CompileSettings) (source : Text) (cause : ImageSourceError) :
    unreadable settings source cause = (do
      .complain settings.strictImageSources (.imageSource cause)
        ⟨.warning,.resources,cause.message ++ ": source is kept as it is"⟩
      pure source) := by
  unfold unreadable
  cases settings.strictImageSources <;> rfl

include lockstep steps

theorem unreadable_step (source : Text) (cause : ImageSourceError) :
    R (unreadable one source cause) (unreadable two source cause) := by
  rw [unreadable_mark,unreadable_mark]
  exact lockstep.bind (steps.sources (.imageSource cause)) fun _ _ => lockstep.pure _

theorem resolve_step (resources : Resources) (source : Text) :
    R (resolve one resources source) (resolve two resources source) := by
  have unreadable := unreadable_step lockstep steps
  have remote : ∀ url, R (resolveRemote one resources url) (resolveRemote two resources url) := by
    intro url
    unfold resolveRemote
    rw [steps.embedRemote]
    split
    · exact lockstep.pure _
    · split
      · exact unreadable _ _
      · split
        · exact lockstep.pure _
        · exact unreadable _ _
  have file : ∀ source, R (resolveLocal one resources source) (resolveLocal two resources source) := by
    intro source
    unfold resolveLocal
    rw [steps.embedLocal,steps.location]
    dsimp only
    split
    · exact lockstep.pure _
    · exact unreadable _ _
    · exact lockstep.fail rfl
  unfold resolve
  dsimp only
  split
  · exact lockstep.pure _
  · split
    · exact remote _
    · exact file _

end ImageSource

namespace Rewriting

variable {construct : Construct} {context : Context} {d : Draft} {found : Match}

theorem greekLetters_mark (r : Rewriting) : r.greekLetters = (do
    let letters := GreekLetters.decompose (r.found.group 1)
    let entry : Entry := ⟨.warning,.rewriting,unknownGreekLettersText letters.2 r.found.text⟩
    if letters.2.isEmpty then pure ()
    else .complain r.settings.strictGreekLetters (.unknownGreekLetters letters.2 r.found.text) entry
    pure [.fixed ("<span class=\"greek\">$" ++ letters.1 ++ "$</span>")]) := by
  unfold greekLetters
  dsimp only
  cases (GreekLetters.decompose (r.found.group 1)).2.isEmpty with
  | true => rfl
  | false => cases r.settings.strictGreekLetters <;> rfl

theorem reference_mark {r : Rewriting} (missing : r.settings.reference? (r.found.group 1) = none) :
    r.reference = (do
      .complain r.settings.strictReferences (.unresolvedReference (r.found.group 1))
        ⟨.warning,.rewriting,leftAsItIsText "reference" (r.found.group 1) r.found.text⟩
      pure r.draft.parts) := by
  unfold reference
  dsimp only
  rw [missing]
  cases r.settings.strictReferences <;> rfl

theorem citation_mark {r : Rewriting} (missing : r.settings.bibliography.bind (·.numberOf? (r.found.group 1)) = none) :
    r.citation = (do
      .complain r.settings.strictCitations (.unresolvedCitation (r.found.group 1))
        ⟨.warning,.rewriting,leftAsItIsText "bibliography record" (r.found.group 1) r.found.text⟩
      pure r.draft.parts) := by
  unfold citation
  dsimp only
  rw [missing]
  cases r.settings.strictCitations <;> rfl

-- What is built of pieces has nothing to do with the settings.
theorem expand_settings (one two : CompileSettings) (links identifiers : List GroupKey) (items : Template) :
    Rewriting.expand ⟨construct,one,context,d,found⟩ links identifiers items =
      Rewriting.expand ⟨construct,two,context,d,found⟩ links identifiers items := by
  induction items with
  | nil => rfl
  | cons item items ih =>
    cases item with
    | text t => rw [expand,expand,ih]
    | group key =>
      rw [expand,expand,ih]
      rfl

theorem buildAll_settings (one two : CompileSettings) (pieces : List Piece) :
    Rewriting.buildAll ⟨construct,one,context,d,found⟩ pieces =
      Rewriting.buildAll ⟨construct,two,context,d,found⟩ pieces := by
  induction pieces with
  | nil => rfl
  | cons piece pieces ih =>
    rw [buildAll,buildAll,ih]
    cases piece with
    | template items links identifiers replacements =>
      rw [build,build,expand_settings one two]
    | _ => rfl

include lockstep steps

theorem parts_step (rewrite : Rewrite) :
    R (Rewriting.parts ⟨construct,one,context,d,found⟩ rewrite) (Rewriting.parts ⟨construct,two,context,d,found⟩ rewrite) := by
  cases rewrite with
  | pieces pieces =>
    simp only [parts]
    rw [buildAll_settings one two]
    exact lockstep.except (buildAll_ordinary _ pieces)
  | greekLetters =>
    simp only [parts,greekLetters_mark]
    split
    · exact lockstep.pure _
    · exact lockstep.bind (steps.greekLetters (.greekLetters _ _)) fun _ _ => lockstep.pure _
  | reference =>
    simp only [parts]
    cases known : one.reference? (found.group 1) with
    | some value =>
      have other : two.reference? (found.group 1) = some value := by
        rwa [CompileSettings.reference?,← steps.references]
      simp only [reference,known,other]
      exact lockstep.pure _
    | none =>
      have other : two.reference? (found.group 1) = none := by
        rwa [CompileSettings.reference?,← steps.references]
      rw [reference_mark known,reference_mark other]
      exact lockstep.bind (steps.reference (.reference _ _)) fun _ _ => lockstep.pure _
  | citation =>
    simp only [parts]
    cases known : one.bibliography.bind (·.numberOf? (found.group 1)) with
    | some number =>
      have other := steps.bibliography ▸ known
      simp only [citation,known,other]
      exact lockstep.pure _
    | none =>
      rw [citation_mark known,citation_mark (steps.bibliography ▸ known)]
      exact lockstep.bind (steps.citation (.citation _ _)) fun _ _ => lockstep.pure _

end Rewriting

-- What a construct makes of a match goes in step, if it does where the match is not found again.
theorem Construct.rewriteMatch_step {one two : CompileSettings} (lockstep : Lockstep R) (steps : one.InStep R two)
    (c : Construct) (context : Context) (d : Draft) (unmatched : c.pattern.search? d.visibleContent = none →
      R (.fail (.unmatchedRule c.name d.visibleContent) : Logged (List Part)) (.fail (.unmatchedRule c.name d.visibleContent))) :
    R (c.rewriteMatch one context d) (c.rewriteMatch two context d) := by
  unfold rewriteMatch
  cases found : c.pattern.search? d.visibleContent with
  | none => exact unmatched found
  | some m => exact Rewriting.parts_step lockstep steps c.rewrite

namespace Compiler

-- Compilers go in step if their settings do and if they do on drafts.
theorem UnitStep.of_drafts {one two : Compiler} (lockstep : Lockstep R) (steps : one.settings.InStep R two.settings)
    (context : one.context = two.context) (resources : one.resources = two.resources)
    (draft : ∀ context (d : Draft),
      R (d.compile one.constructs one.settings context) (d.compile two.constructs two.settings context)) :
    one.UnitStep R two where
  context := context
  bullets := steps.bullets
  draft := draft
  items raw := ListItem.ofLinesAfter_step lockstep steps.lists _ _
  source source := by
    rw [resources]
    exact ImageSource.resolve_step lockstep steps _ _

-- They do if they have the same constructs and what is not matched again stops both.
theorem UnitStep.of_settings {one two : Compiler} (lockstep : Lockstep R) (steps : one.settings.InStep R two.settings)
    (excluded : one.settings.excluded = two.settings.excluded) (constructs : one.constructs = two.constructs)
    (context : one.context = two.context) (resources : one.resources = two.resources)
    (unmatched : ∀ c ∈ one.constructs, ∀ d, ∀ m ∈ c.pattern.occurrences (visibleContentOf (some c.name) d.parts),
      let content := (c.handed d m.span).visibleContent
      c.pattern.search? content = none →
        R (.fail (.unmatchedRule c.name content) : Logged (List Part)) (.fail (.unmatchedRule c.name content))) :
    one.UnitStep R two := by
  refine .of_drafts lockstep steps context resources ?_
  rw [← constructs]
  exact Draft.compile_step lockstep excluded fun c known context d m member =>
    c.rewriteMatch_step lockstep steps context _ (unmatched c known d m member)

end Compiler

-- So does what a construct makes of a whole text.
theorem Paragraph.Aligned.of_settings {one two : Compiler} (lockstep : Lockstep R)
    (steps : one.settings.InStep R two.settings) (unmatched : ∀ name content,
      R (.fail (.unmatchedRule name content) : Logged (List Part)) (.fail (.unmatchedRule name content)))
    (raw : Text) (c : Construct) : Aligned R one two raw c :=
  fun context _ => c.rewriteMatch_step lockstep steps context _ fun _ => unmatched _ _

namespace Image

theorem ofText_ordinary (raw : Text) (alignSelf : Option Text) : Ordinary (ofText raw alignSelf) := by
  unfold ofText
  dsimp only
  split
  · exact .ok _
  · split
    · exact .ok _
    · exact .error rfl

theorem ofLines_ordinary (lines : List Text) : Ordinary (ofLines lines) := by
  have ofLine : ∀ line, Ordinary (ofLine line) := by
    intro line
    unfold ofLine
    split
    · exact ofText_ordinary _ _
    · exact ofText_ordinary _ _
  induction lines with
  | nil => exact .ok []
  | cons line rest ih =>
    unfold ofLines
    split
    · exact ih
    · exact .bind (ofLine line) fun image _ => .bind ih fun images _ => .ok _

theorem rowOfText_ordinary {raw : Text} {m : Match} (found : Block.imageRow.pattern.fullMatch? (Text.trim raw) = some m) :
    Ordinary (rowOfText raw) := by
  simp only [rowOfText,found]
  exact .bind (ofLines_ordinary _) fun images _ => .ok _

end Image

-- What a construct makes of its block, if both runs go in step where it does not find the block in its own text.
theorem Loading.load_step {one two : LoadSettings} {nested other : Nested} {construct : BlockConstruct} {raw : Text}
    {loading : Loading} (lockstep : Lockstep R) (quotes : QuotesComplain R one.strictQuotes two.strictQuotes)
    (row : loading = .imageRow → Block.imageRow.pattern.fullMatch? (Text.trim raw) = none →
      R (.fail (.resource (.multiImage raw)) : Logged (List Image × Text)) (.fail (.resource (.multiImage raw))))
    (focus : loading = .focus → Block.focus.pattern.matchStart? raw = none →
      R (.fail (.resource (.focusBlock raw)) : Logged (List Paragraph)) (.fail (.resource (.focusBlock raw))))
    (inside : ∀ t, R (nested t) (other t)) :
    R (loading.load one nested construct raw) (loading.load two other construct raw) := by
  cases loading with
  | common => exact lockstep.pure _
  | replacement pieces => exact lockstep.pure _
  | list => exact lockstep.pure _
  | table => exact lockstep.pure _
  | image => exact lockstep.bind (lockstep.except (Image.ofText_ordinary _ _)) fun image _ => lockstep.pure _
  | imageRow =>
    refine lockstep.bind ?_ fun held _ => lockstep.pure _
    cases found : Block.imageRow.pattern.fullMatch? (Text.trim raw) with
    | none =>
      rw [Image.rowOfText,found]
      exact row rfl found
    | some m => exact lockstep.except (Image.rowOfText_ordinary found)
  | quote =>
    exact lockstep.bind (Quote.ofText_step lockstep quotes raw) fun body _ =>
      lockstep.bind (inside _) fun paragraphs _ => lockstep.pure _
  | focus =>
    simp only [load]
    cases found : Block.focus.pattern.matchStart? raw with
    | none => exact focus rfl found
    | some m => exact lockstep.bind (inside _) fun paragraphs _ => lockstep.pure _

end
end LightMarkup
