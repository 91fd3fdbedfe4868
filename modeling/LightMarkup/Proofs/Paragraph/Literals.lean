import LightMarkup.Proofs.Construct.Coding
import LightMarkup.Proofs.Loading.Roundtrip
import LightMarkup.Proofs.Loading.Skipping
import LightMarkup.Proofs.Paragraph.Replacement

/-!
Literal text. What stands between two backticks, and what stands between the fences of a code block, is escaped and written
as it is. The text in backticks is escaped twice, with its paragraph and with its span, and the second time changes nothing.
-/

namespace LightMarkup

namespace Paragraph

open Construct Draft Inline

variable {compiler : Compiler} {nuid : Option Text} {name : String} {u w : Line} {b t : Text} {d : Draft}

-- In a text of one line there is nothing to fold.
theorem foldNewlines_single (single : '\n' ∉ t) : foldNewlines t = t := by
  have none : newlines.occurrences t = [] := Pattern.needs_occurrences (x := '\n') rfl single
  rw [foldNewlines,Pattern.replace,Pattern.split,none]
  exact List.append_nil t

-- Where all live text stays on one line nothing is folded.
theorem foldDraft_single (single : '\n' ∉ visibleContentOf none d.parts) : foldDraft d = ⟨d.parts,d.nuid,none⟩ := by
  have same : d.parts.map foldPart = d.parts := by
    refine (List.map_congr_left fun part member => ?_).trans (List.map_id _)
    cases part with
    | fixed content => rfl
    | live content excluded =>
      have inside : '\n' ∉ content := fun newline =>
        single (List.mem_flatMap.mpr ⟨_,List.mem_filter.mpr ⟨member,rfl⟩,newline⟩)
      exact congrArg (Part.live · excluded) (foldNewlines_single inside)
  rw [foldDraft,same]

/-- Words, code between backticks, and words. -/
def withSpan (u w : Line) (b : Text) : Text :=
  u.text ++ " `" ++ b ++ "` " ++ w.text

theorem withSpan_eq (u w : Line) (b : Text) : withSpan u w b = (u.text ++ [' ']) ++ (ticked b ++ ' ' :: w.text) := by
  rw [withSpan,Text.ofString_ofList,Text.ofString_ofList]
  simp [ticked]

theorem withSpan_trimmed (u w : Line) (b : Text) : Text.trim (withSpan u w b) = withSpan u w b := by
  obtain ⟨x,rest,begins,first⟩ := u.first
  obtain ⟨v,y,ends,last⟩ := w.last
  have front : withSpan u w b = x :: (rest ++ [' '] ++ (ticked b ++ ' ' :: w.text)) := by
    rw [withSpan_eq,begins]
    rfl
  have back : withSpan u w b = (u.text ++ [' ']) ++ (ticked b ++ ' ' :: v) ++ [y] := by
    rw [withSpan_eq,ends]
    simp
  exact Text.trim_solid front (alpha_solid first) back (alpha_solid last)

theorem escape_withSpan (u w : Line) (b : Text) :
    Html.escape (withSpan u w b) = (u.text ++ [' ']) ++ (ticked (Html.escape b) ++ ' ' :: w.text) := by
  have words : ∀ line : Line, line.text.flatMap Html.escapeChar = line.text := fun line =>
    Html.escape_plain (line.apart (by decide))
  rw [withSpan_eq]
  simp [Html.escape,ticked,words,Html.escapeChar]

def commonOpening (nuid : Option Text) : Text :=
  "<p class=\"paragraph\"" ++ Html.nuidAttribute nuid ++ ">"

-- What becomes of them.
def spanParts (u w : Line) (b : Text) (nuid : Option Text) : List Part :=
  [.fixed (commonOpening nuid),.live (u.text ++ [' ']) .nothing] ++ codeParts b ++
    [.live (' ' :: w.text) .nothing,.fixed "</p>"]

theorem spanParts_visible (u w : Line) (b : Text) (nuid : Option Text) :
    visibleContentOf none (spanParts u w b nuid) = (u.text ++ [' ']) ++ Html.escape b ++ ' ' :: w.text := by
  rw [spanParts,visibleContentOf_append,visibleContentOf_append,codeParts,sealedIn_visible]
  simp [visibleContentOf_cons,Part.visibleTo,Part.content]

theorem spanParts_content (u w : Line) (b : Text) (nuid : Option Text) : contentOf (spanParts u w b nuid) =
    commonOpening nuid ++ u.text ++ " " ++ ("<code class=\"language-markup inline-code\">" ++ Html.escape b ++ "</code>") ++
      " " ++ w.text ++ "</p>" := by
  have space : (" " : Text) = [' '] := by rw [Text.ofString_ofList]
  rw [spanParts,contentOf_append,contentOf_append,codeParts,sealedIn_content]
  simp [contentOf_cons,contentOf_nil,Part.content,space]

theorem compile_span (standard : compiler.constructs = standard)
    (included : compiler.settings.excluded.contains codeSpan.name = false) (free : '\x60' ∉ b) (single : '\n' ∉ b) :
    (compile compiler (.leaf (withSpan u w b) name nuid .common)).outcome = .ok ⟨spanParts u w b nuid,nuid,none⟩ := by
  have space : ' ' ∉ marks := by decide
  have before : ∀ x ∈ u.text ++ [' '], x ∉ marks :=
    List.forall_mem_append.mpr ⟨u.apart (by decide),List.forall_mem_singleton.mpr space⟩
  have behind : ∀ x ∈ ' ' :: w.text, x ∉ marks := List.forall_mem_cons.mpr ⟨space,w.apart (by decide)⟩
  have escapedFree : '\x60' ∉ Html.escape b := Html.escape_free free (by decide) (by decide +kernel)
  have escapedSingle : '\n' ∉ Html.escape b := Html.escape_free single (by decide) (by decide +kernel)
  have again : codeParts (Html.escape b) = codeParts b := sealedIn_escape
  have live : '\n' ∉ visibleContentOf none (spanParts u w b nuid) := by
    have words : ∀ line : Line, '\n' ∉ line.text := fun line member => (line.single _ member).1 rfl
    simp [spanParts_visible,words,escapedSingle]
  refine Logged.outcome_bind_ok.mpr ⟨⟨spanParts u w b nuid,nuid,none⟩,?_,by rw [foldDraft_single live]; rfl⟩
  rw [commonParts,Paragraph.live,withSpan_trimmed,escape_withSpan,Compiler.inline,standard,spanParts,← again]
  exact compile_codeSpan included (by simp) (List.cons_ne_nil _ _) before behind escapedFree escapedSingle

end Paragraph

namespace Block

open Pattern

variable {language body : Text}

/-- A code block in a language, which may be left out. -/
def fenced (language body : Text) : Text :=
  "```" ++ language ++ "\n" ++ body ++ "\n```"

theorem fenced_eq (language body : Text) :
    fenced language body = "```" ++ (language ++ '\n' :: (body ++ '\n' :: (("```" : Text) ++ []))) := by
  simp [fenced,Text.ofString_eq]

theorem fenced_length (language body : Text) : (fenced language body).length = language.length + body.length + 8 := by
  rw [fenced_eq,fence]
  simp
  omega

section

variable (isLanguage : IsLanguage language) (fenceless : ¬ ("```" : Text) <:+: body) (returnless : '\r' ∉ body)
include isLanguage fenceless returnless

-- A code block is taken whole, with its language and its body.
theorem fenced_taken : ∃ m, code.pattern.matchAt? (.start (fenced language body)) = some m ∧ m.stop.after = [] ∧
    m.group 1 = language ∧ m.groupSpan? 2 = some (language.length + 4,language.length + 4 + body.length) := by
  have begins := fenced_eq language body
  have length := fenced_length language body
  generalize fenced language body = t at begins length
  have matched : code.pattern.matchAt? (.start t) = _ := code_taken isLanguage fenceless returnless (.inl rfl) begins
  have position : ∀ n ≤ t.length, ((Cursor.start t).past n).position = n := by
    intro n bound
    rw [Cursor.past_position (show n ≤ (Cursor.start t).after.length from bound)]
    exact Nat.zero_add n
  refine ⟨_,matched,?_,?_,?_⟩
  · show ((Cursor.start t).past _).after = []
    rw [Cursor.past_after,← length]
    exact List.drop_length
  · show ((Cursor.start t).past 3).textTo ((Cursor.start t).past (language.length + 3)) = language
    have inside : ((Cursor.start t).past 3).after = language ++ '\n' :: (body ++ '\n' :: (("```" : Text) ++ [])) := by
      rw [Cursor.past_after]
      show t.drop 3 = _
      rw [begins,fence]
      rfl
    rw [Nat.add_comm,← Cursor.past_past]
    exact (Cursor.Reads.of_after inside).textTo
  · show some (((Cursor.start t).past _).position,((Cursor.start t).past _).position) = _
    rw [position _ (by omega),position _ (by omega)]

-- The block is all that is loaded.
theorem load_fenced (settings : LoadSettings) (deep : 0 ≤ settings.maxDepth) :
    (Loader.load Catalogue.standard settings (fenced language body)).outcome =
      .ok [⟨0,(fenced language body).length,
        .paragraph (.leaf (fenced language body) code.name none (.replacement Paragraph.codeRewriting))⟩] := by
  obtain ⟨levels,outside⟩ : ∃ levels, settings.levelsFrom 0 = levels + 1 :=
    ⟨settings.maxDepth.toNat,by rw [LoadSettings.levelsFrom]; omega⟩
  obtain ⟨m,matched,ended,_,_⟩ := fenced_taken isLanguage fenceless returnless
  have first : code ∈ standard := List.mem_cons_self ..
  have once := matches_whole first matched ended
  have gaps : Gaps m.stop.after := ended ▸ List.forall_mem_nil _
  obtain ⟨split,start,_⟩ := matchAt_front matched
  rw [ended,List.append_nil] at split
  rw [Loader.load_blocks outside]
  show (Loader.partition _ (code :: standard.tail) 0 (fenced language body) none >>= _).outcome = _
  rw [Loader.partition_once rfl (List.tail_subset _) rfl matched once gaps]
  simp only [Loader.matchBlocks,Loading.load,← split,start,PlacedBlock.place_single,bind_assoc,pure_bind,Loader.sortBlocks,
    List.mergeSort_singleton,Nat.zero_add]
  rfl

end

end Block

namespace Paragraph

open Construct Draft Block

variable {compiler : Compiler} {nuid : Option Text} {name : String} {language body : Text}

def fencedOpening (language : Text) (nuid : Option Text) : Text :=
  "<pre" ++ Html.nuidAttribute nuid ++ "><code class=\"language-" ++
    Html.escapeAttribute (if language.isEmpty then "plaintext" else language) ++ " code-block\">"

-- What becomes of a code block.
def fencedParts (language body : Text) (nuid : Option Text) : List Part :=
  sealedIn (fencedOpening language nuid) "</code></pre>" body

theorem fenced_rewrites {settings : CompileSettings} {context : Context} (isLanguage : IsLanguage language)
    (fenceless : ¬ ("```" : Text) <:+: body) (returnless : '\r' ∉ body) :
    codeRewriting.rewriteMatch settings context ⟨[.live (fenced language body) .nothing],nuid,some codeRewriting.name⟩ =
      pure (fencedParts language body nuid) := by
  obtain ⟨m,matched,_,named,captured⟩ := fenced_taken isLanguage fenceless returnless
  have visible : Draft.visibleContent ⟨[.live (fenced language body) .nothing],nuid,some codeRewriting.name⟩ =
      fenced language body := visible_live _ _
  have given : code.pattern.hasGroup 2 = true := by
    rw [code]
    repeat rw [Text.ofString_ofList]
    rfl
  have within : language.length + 4 + body.length ≤ (fenced language body).length := by
    rw [fenced_length]
    omega
  have inner : ((fenced language body).take (language.length + 4 + body.length)).drop (language.length + 4) = body := by
    have split : fenced language body = ("```" ++ (language ++ ['\n'])) ++ (body ++ '\n' :: "```") := by
      simp [fenced_eq]
    have front : (("```" : Text) ++ (language ++ ['\n'])).length = language.length + 4 := by
      simp [fence]
    rw [List.drop_take,split,← front,List.drop_left,Nat.add_sub_cancel_left,List.take_left]
  have opened : Rewriting.build ⟨codeRewriting,settings,context,
      ⟨[.live (fenced language body) .nothing],nuid,some codeRewriting.name⟩,m⟩ .codeOpening =
        .ok [.fixed (fencedOpening language nuid)] := by
    simp only [Rewriting.build,named]
    rfl
  have copied : (⟨codeRewriting,settings,context,⟨[.live (fenced language body) .nothing],nuid,some codeRewriting.name⟩,m⟩ :
      Rewriting).build (Inline.captureEscaped 2) = _ :=
    Rewriting.build_sealed rfl rfl given captured (Nat.le_add_right _ _) within
  have searched : codeRewriting.pattern.search? (fenced language body) = some m := Pattern.search_start matched
  rw [rewriteMatch,visible,searched]
  show Logged.ofExcept (Rewriting.buildAll ⟨codeRewriting,settings,context,_,m⟩ _) = _
  simp only [Rewriting.buildAll,opened,copied,Rewriting.build_text,inner]
  rfl

theorem compile_fenced (isLanguage : IsLanguage language) (fenceless : ¬ ("```" : Text) <:+: body) (returnless : '\r' ∉ body) :
    (compile compiler (.leaf (fenced language body) name nuid (.replacement codeRewriting))).outcome =
      .ok ⟨fencedParts language body nuid,nuid,none⟩ := by
  show (codeRewriting.rewriteMatch _ _ _ >>= _).outcome = _
  rw [fenced_rewrites isLanguage fenceless returnless,pure_bind,Compiler.inline,
    compile_unseen _ _ _ fun _ => sealedIn_unseen _]
  rfl

-- Code between backticks, with words around it, and code between fences is written as it stands, escaped, whatever markup
-- it looks like. A code block is the only block of its text.
theorem literals_stay (compiler : Compiler) :
    (compiler.constructs = Inline.standard → compiler.settings.excluded.contains Inline.codeSpan.name = false →
      ∀ (u w : Line) (b : Text), '\x60' ∉ b → '\n' ∉ b → ∀ name nuid, ∃ d,
        (compile compiler (.leaf (withSpan u w b) name nuid .common)).outcome = .ok d ∧
          d.content = commonOpening nuid ++ u.text ++ " " ++
            ("<code class=\"language-markup inline-code\">" ++ Html.escape b ++ "</code>") ++ " " ++ w.text ++ "</p>") ∧
    ∀ (settings : LoadSettings) (language body : Text), 0 ≤ settings.maxDepth → IsLanguage language →
      ¬ ("```" : Text) <:+: body → '\r' ∉ body →
        (Loader.load Catalogue.standard settings (fenced language body)).outcome =
          .ok [⟨0,(fenced language body).length,
            .paragraph (.leaf (fenced language body) code.name none (.replacement codeRewriting))⟩] ∧
        ∀ nuid, ∃ d,
          (compile compiler (.leaf (fenced language body) code.name nuid (.replacement codeRewriting))).outcome = .ok d ∧
            d.content = fencedOpening language nuid ++ Html.escape body ++ "</code></pre>" := by
  constructor
  · intro constructs included u w b free single name nuid
    exact ⟨_,compile_span constructs included free single,spanParts_content u w b nuid⟩
  · intro settings language body deep isLanguage fenceless returnless
    refine ⟨load_fenced isLanguage fenceless returnless settings deep,fun nuid => ?_⟩
    exact ⟨_,compile_fenced isLanguage fenceless returnless,sealedIn_content⟩

def standardCompiler : Compiler :=
  ⟨Inline.standard,{},⟨none,none⟩,⟨⟨[],[]⟩,[]⟩⟩

-- A span and a block that look like bold text, a formula, tags, a heading and a list.
theorem literals_stay_markup :
    (∃ d, (compile standardCompiler (.leaf "a `**<b>** $x$ \\*` c" "common-paragraph" none .common)).outcome = .ok d ∧
      d.content = "<p class=\"paragraph\">a <code class=\"language-markup inline-code\">**&lt;b&gt;** $x$ \\*</code> c</p>") ∧
    (Loader.load Catalogue.standard {} "```c++\n# <a>\n\n- ``\n```").outcome = .ok [⟨0,22,
      .paragraph (.leaf "```c++\n# <a>\n\n- ``\n```" "code-block" none (.replacement codeRewriting))⟩] ∧
    ∃ d, (compile standardCompiler
        (.leaf "```c++\n# <a>\n\n- ``\n```" "code-block" none (.replacement codeRewriting))).outcome = .ok d ∧
      d.content = "<pre><code class=\"language-c++ code-block\"># &lt;a&gt;\n\n- ``</code></pre>" := by
  obtain ⟨spans,blocks⟩ := literals_stay standardCompiler
  have isLanguage : IsLanguage ['c','+','+'] := List.all_eq_true.mp (by decide +kernel)
  have fenceless : ¬ ("```" : Text) <:+: ['#',' ','<','a','>','\n','\n','-',' ','\x60','\x60'] := by
    rw [fence]
    decide
  have span := spans rfl rfl ⟨['a'],rfl,rfl,rfl⟩ ⟨['c'],rfl,rfl,rfl⟩ ['*','*','<','b','>','*','*',' ','$','x','$',' ','\\','*']
    (by decide) (by decide) "common-paragraph" none
  have block := blocks {} ['c','+','+'] ['#',' ','<','a','>','\n','\n','-',' ','\x60','\x60'] (by decide) isLanguage fenceless
    (by decide)
  have text : withSpan ⟨['a'],rfl,rfl,rfl⟩ ⟨['c'],rfl,rfl,rfl⟩ ['*','*','<','b','>','*','*',' ','$','x','$',' ','\\','*'] =
      "a `**<b>** $x$ \\*` c" := by
    rw [withSpan_eq,Text.ofString_ofList]
    rfl
  have raw : fenced ['c','+','+'] ['#',' ','<','a','>','\n','\n','-',' ','\x60','\x60'] = "```c++\n# <a>\n\n- ``\n```" := by
    rw [fenced_eq,fence,Text.ofString_ofList]
    rfl
  have length : ("```c++\n# <a>\n\n- ``\n```" : Text).length = 22 := by
    rw [Text.ofString_ofList]
    rfl
  rw [text] at span
  rw [raw,length] at block
  obtain ⟨d,compiled,content⟩ := span
  obtain ⟨e,coded,written⟩ := block.2 none
  refine ⟨⟨d,compiled,content.trans ?_⟩,block.1,e,coded,written.trans ?_⟩
  · repeat rw [Text.ofString_ofList]
    decide +kernel
  · repeat rw [Text.ofString_ofList]
    decide +kernel

end Paragraph

end LightMarkup
