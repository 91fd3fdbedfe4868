import LightMarkup.Paragraph.Compile
import LightMarkup.Proofs.Construct.Applying
import LightMarkup.Proofs.Construct.Enclosure
import LightMarkup.Proofs.Loading.Endings
import LightMarkup.Proofs.Loading.Origin

/-!
Blocks that their construct rewrites as a whole. They are matched in text that is not escaped, so every piece that they
take over has to be; the text of a comment is the one that is not, and it ends where its first end of a comment stands.
-/

namespace LightMarkup
namespace Block

-- What a block is rewritten by if its construct rewrites it as a whole.
def rewriting? (construct : BlockConstruct) : Option Construct :=
  match construct.loading with
  | some (.replacement pieces) => some ⟨construct.name,construct.pattern,construct.excluded,.pieces pieces⟩
  | _ => none

end Block

namespace Paragraph

-- The text is one that the construct matches where a block may start, and it is rewritten as the construct says.
def Rewrites (raw : Text) (c : Construct) : Prop :=
  ∃ construct ∈ Block.standard, Block.rewriting? construct = some c ∧
    ∃ place m, construct.blockAt? place = some m ∧ m.text = raw

def Standard (p : Paragraph) : Prop :=
  ∀ {raw name nuid c}, Inside (.leaf raw name nuid (.replacement c)) p → Rewrites raw c

-- A replacement is made of the text of its own block.
theorem makes_standard (settings : LoadSettings) : Catalogue.standard.Makes settings Standard := by
  have same : Standard = Throughout fun p => ∀ raw name nuid c, p = .leaf raw name nuid (.replacement c) → Rewrites raw c :=
    funext fun p => propext ⟨fun each q inside raw name nuid c isLeaf => each (isLeaf ▸ inside),
      fun each raw name nuid c inside => each _ inside raw name nuid c rfl⟩
  rw [same]
  refine Catalogue.makes_throughout ?_ ?_
  · intro construct member loading isLoading c m found p gives raw name nuid rewriting isLeaf
    cases gives <;> cases isLeaf
    exact ⟨construct,member,by rw [Block.rewriting?,Option.mem_def.mp isLoading],c,m,found,rfl⟩
  · intro construct member loading isLoading raw p gives text name nuid rewriting isLeaf
    cases member
    cases isLoading
    cases gives
    cases isLeaf

end Paragraph

namespace Block

open Pattern

variable {c : Cursor} {m : Match}

-- Behind the opening of a comment: the rest of it, and what a block may end before.
def commentRest : Pattern :=
  literal "-->" ++ blockEnd

theorem mem_commentRest {way : Way} :
    way ∈ commentRest.ways c ↔ c.Reads "-->" way.1 ∧ Ends way.1.after ∧ way.2 = [] := by
  constructor
  · intro found
    obtain ⟨mid,closing,last,ending,rfl⟩ := mem_seq.mp found
    obtain ⟨read,none⟩ := literal_reads closing
    obtain ⟨ends,rfl⟩ := mem_blockEnd.mp ending
    exact ⟨read,ends,by simp [none]⟩
  · rintro ⟨read,ends,none⟩
    have closing := ways_literal_at read.1
    rw [← read.eq_past] at closing
    exact mem_seq.mpr ⟨(way.1,[]),by simp [closing],(way.1,[]),mem_blockEnd.mpr ⟨ends,rfl⟩,Prod.ext rfl none⟩

theorem comment_ways (c : Cursor) : comment.pattern.ways c =
    (literal "<!--" ++ (captured 1 (lazyMany Inline.anything) ++ commentRest)).ways c := by
  show (literal "<!--" ++ captured 1 (lazyMany Inline.anything) ++ literal "-->" ++ blockEnd).ways c = _
  rw [seq_assoc,seq_assoc,commentRest]

theorem comment_takes {g rest : Text} (begins : c.after = "<!--" ++ (g ++ ("-->" ++ rest))) (ends : Ends rest)
    (least : ∀ n < g.length, commentRest.ways ((c.past ("<!--" : Text).length).past n) = []) :
    ∃ m, comment.pattern.matchAt? c = some m ∧ m.group 1 = g := by
  have opened : (c.past ("<!--" : Text).length).after = g ++ ("-->" ++ rest) := by
    rw [Cursor.past_after,begins,List.drop_left]
  have read := Cursor.Reads.of_after opened
  have closing : ((c.past ("<!--" : Text).length).past g.length).after = "-->" ++ rest := by
    rw [Cursor.past_after,opened,List.drop_left]
  obtain ⟨next,alive,none⟩ : ∃ next, (commentRest.ways ((c.past ("<!--" : Text).length).past g.length)).head? = some next ∧
      next.2 = [] := by
    have way : (((c.past ("<!--" : Text).length).past g.length).past ("-->" : Text).length,[]) ∈
        commentRest.ways ((c.past ("<!--" : Text).length).past g.length) :=
      mem_commentRest.mpr ⟨.of_after closing,by rwa [Cursor.past_after,closing,List.drop_left],rfl⟩
    obtain ⟨next,others,split⟩ := List.exists_cons_of_ne_nil (List.ne_nil_of_mem way)
    exact ⟨next,by rw [split]; rfl,(mem_commentRest.mp (split ▸ List.mem_cons_self ..)).2.2⟩
  have any : ∀ x ∈ g, CharSet.all.contains x = true := fun _ _ => rfl
  have head : ((captured 1 (lazyMany Inline.anything) ++ commentRest).ways _).head? = _ := lazy_takes read any least alive
  refine ⟨⟨c,next.1,next.2 ++ [⟨1,c.past ("<!--" : Text).length,(c.past ("<!--" : Text).length).past g.length⟩]⟩,?_,?_⟩
  · rw [matchAt_head,comment_ways,head_literal begins,head]
    rfl
  · simp [Match.group,Match.group?,Match.capture?,none,read.textTo]

-- Whether a comment may end before the last place depends on its own text only.
theorem commentRest_own {own : Cursor} {g rest : Text} {n : Nat} (inside : n < g.length)
    (here : c.after = g ++ ("-->" ++ rest)) (alone : own.after = g ++ "-->") (dead : commentRest.ways (c.past n) = []) :
    commentRest.ways (own.past n) = [] := by
  rw [List.eq_nil_iff_forall_not_mem] at dead ⊢
  intro way found
  obtain ⟨read,ends,_⟩ := mem_commentRest.mp found
  have whole : g.drop n ++ "-->" = "-->" ++ way.1.after := by
    rw [← read.1,Cursor.past_after,alone,List.drop_append_of_le_length (Nat.le_of_lt inside)]
  have left : way.1.after ≠ [] := by
    intro ended
    have length := congrArg List.length whole
    simp only [ended,List.length_append,List.length_drop,List.length_nil] at length
    omega
  obtain ⟨t,last,split⟩ := (List.eq_nil_or_concat way.1.after).resolve_left left
  rw [List.concat_eq_append] at split
  have bracket : last = '>' := by
    have ending : ("-->" : Text) = "--" ++ ['>'] := by simp only [Text.ofString_eq]; rfl
    rw [split,ending,← List.append_assoc,← List.append_assoc] at whole
    exact (List.singleton_inj.mp (List.append_inj' whole rfl).2).symm
  rw [split] at whole ends
  have begins : (c.past n).after = "-->" ++ (t ++ [last] ++ rest) := by
    rw [← List.append_assoc,← whole,Cursor.past_after,here,List.drop_append_of_le_length (Nat.le_of_lt inside),
      List.append_assoc]
  refine dead ((c.past n).past ("-->" : Text).length,[]) (mem_commentRest.mpr ⟨.of_after begins,?_,rfl⟩)
  rw [Cursor.past_after,begins,List.drop_left]
  exact ends.append (by rw [bracket]; decide) rest

-- A comment takes the least text before an end of a comment where a block may end, and so it does in its own text.
theorem comment_text (found : comment.pattern.matchAt? c = some m) : ∃ g, m.text = "<!--" ++ g ++ "-->" ∧
    ∃ n, comment.pattern.search? m.text = some n ∧ n.group 1 = g := by
  rw [matchAt_head,comment_ways] at found
  obtain ⟨way,head,rfl⟩ := Option.map_eq_some_iff.mp found
  obtain ⟨skipped,first,others,rest,split,begun,rfl,_⟩ := head_seq_inv head
  obtain ⟨opening,none⟩ := literal_reads (show first ∈ (literal "<!--").ways c by simp [split])
  obtain ⟨g,mid,next,read,_,alive,rfl,least⟩ := lazy_least begun
  obtain ⟨closing,ends,_⟩ := mem_commentRest.mp (List.mem_of_mem_head? alive)
  have text : c.textTo next.1 = "<!--" ++ g ++ "-->" := ((opening.append read).append closing).textTo
  refine ⟨g,text,?_⟩
  show ∃ n, comment.pattern.search? (c.textTo next.1) = some n ∧ n.group 1 = g
  have begins : (Cursor.start (c.textTo next.1)).after = ("<!--" : Text) ++ (g ++ ("-->" ++ ([] : Text))) := by
    rw [text,List.append_nil,← List.append_assoc]
    rfl
  have opened : ((Cursor.start (c.textTo next.1)).past ("<!--" : Text).length).after = g ++ "-->" := by
    rw [Cursor.past_after,begins,List.drop_left,List.append_nil]
  obtain ⟨n,matched,group⟩ := comment_takes begins .nil fun n inside =>
    commentRest_own inside (by rw [read.1,closing.1]) opened (least n inside)
  exact ⟨n,search_start matched,group⟩

-- What the pieces take over from the text of the block is escaped.
def escapes : Piece → Bool
  | .capture _ escape => escape
  | .whole => false
  | _ => true

def guards (c : Construct) : Bool :=
  c.encloses && match c.rewrite with
    | .pieces pieces => pieces.all escapes
    | _ => false

theorem standard_guards {construct : BlockConstruct} {c : Construct} (member : construct ∈ standard)
    (rewrites : rewriting? construct = some c) : construct = comment ∨ guards c = true := by
  have others : standard.all fun construct => construct == comment || (rewriting? construct).all guards := by
    unfold standard code math styledWithId identified table quote focus list abridgedTodo multilineTodo todo pageBreak
      lineBreakByDashes lineBreakByStars lineBreakByPluses imageRow abridgedImage image comment todoOpening nuidTemplate
    repeat rw [Text.ofString_ofList]
    decide +kernel
  have here := List.all_eq_true.mp others construct member
  rw [rewrites] at here
  simpa using here

end Block

namespace Rewriting

open Draft

variable {r : Rewriting} {raw : Text} {scope : Option String}

-- All that a rewriting takes over from a single live part is escaped.
theorem captured_escaped (alone : r.draft.parts = [.live raw .nothing]) (ends : Boundary) (start stop : Nat) :
    ∀ part ∈ windowFrom r.draft.scope ends start stop 0 r.draft.parts, (r.captured true part).Enclosed := by
  intro part member
  have visible : ∀ t, r.draft.isVisible (.live t .nothing) = true := by
    intro t
    cases scope : r.draft.scope <;> simp [isVisible,Part.visibleTo,Exclusion.contains,scope]
  rw [alone] at member
  obtain ⟨whole,isWhole,same⟩ := mem_windowFrom member
  cases List.mem_singleton.mp isWhole
  obtain ⟨t,rfl⟩ : ∃ t, part = .live t .nothing := by
    rcases same with rfl | ⟨_,t,_,rfl⟩
    · exact ⟨raw,rfl⟩
    · exact ⟨t,rfl⟩
  simpa [captured,visible,Part.Enclosed] using Html.escape_inert t

end Rewriting

namespace Paragraph

open Draft Block

variable {compiler : Compiler} {c : Construct} {raw : Text} {nuid : Option Text} {parts : List Part} {d : Draft}

theorem guarded_enclosed (guarded : guards c = true)
    (run : (c.rewriteMatch compiler.settings compiler.context ⟨[.live raw .nothing],nuid,some c.name⟩).outcome = .ok parts) :
    ∀ part ∈ parts, part.Enclosed := by
  unfold Construct.rewriteMatch at run
  split at run
  · cases run
  · simp only [guards,Construct.encloses,Bool.and_eq_true] at guarded
    split at guarded
    · rename_i pieces rewrites
      rw [rewrites] at run
      simp only [rewrites,Bool.and_eq_true,List.all_eq_true] at guarded
      obtain ⟨⟨enclose,noGroup⟩,escape⟩ := guarded
      refine Rewriting.buildAll_enclosed noGroup enclose (fun piece member => ?_) run
      have escaped := escape piece member
      cases piece with
      | capture group escape =>
        obtain rfl : escape = true := escaped
        exact fun start stop => Rewriting.captured_escaped rfl .both start stop
      | whole => cases escaped
      | template | opening | codeOpening => trivial
    · exact absurd guarded.1 (by simp)

-- Nothing is visible in what is fixed, so no construct changes it.
theorem inline_fixed {t : Text} {e : Draft} (run : (compiler.inline ⟨[.fixed t],nuid,none⟩).outcome = .ok e) :
    e = ⟨[.fixed t],nuid,none⟩ := by
  rw [Compiler.inline,Construct.compile_unseen _ _ _ fun _ => rfl] at run
  cases run
  rfl

theorem compile_guarded (guarded : guards c = true) (members : compiler.constructs ⊆ Inline.standard)
    (values : ∀ entry ∈ compiler.settings.references, Html.Inert entry.2)
    (run : (compileLeaf compiler raw nuid (.replacement c)).outcome = .ok d) : ∀ part ∈ d.parts, part.Enclosed := by
  obtain ⟨parts,rewritten,compiled⟩ := Logged.outcome_bind_ok.mp run
  exact Construct.compile_enclosed members values (d := ⟨parts,nuid,none⟩) (guarded_enclosed guarded rewritten) compiled

theorem compile_comment {place : Cursor} {m : Match} (found : comment.pattern.matchAt? place = some m)
    (rewrites : rewriting? comment = some c)
    (run : (compileLeaf compiler m.text nuid (.replacement c)).outcome = .ok d) :
    d.content = m.text ∧ (Html.OneComment m.text ↔ ¬ ("-->" : Text) <:+: m.text.dropLast) := by
  obtain ⟨g,text,n,searched,group⟩ := comment_text found
  cases rewrites
  obtain ⟨parts,rewritten,compiled⟩ := Logged.outcome_bind_ok.mp run
  have visible : Draft.visibleContent ⟨[.live m.text .nothing],nuid,some comment.name⟩ = m.text :=
    List.append_nil _
  have given : comment.pattern.hasGroup 1 = true := by
    rw [comment]
    repeat rw [Text.ofString_ofList]
    rfl
  simp only [Construct.rewriteMatch,visible,searched] at rewritten
  obtain rfl : parts = [.fixed ("<!--" ++ n.group 1 ++ "-->")] := Rewriting.buildAll_raw given rewritten
  rw [inline_fixed compiled,group,text]
  exact ⟨List.append_nil _,Html.oneComment_iff_first g⟩

-- Every paragraph of a text that a construct rewrites as a whole is compiled to HTML in which only tags and comments
-- have angle brackets, unless it is a comment. A comment is written as it is, and the HTML is that comment and nothing
-- else if and only if its first end of a comment is its own.
theorem replacement_encloses (settings : LoadSettings) (t : Text) {blocks : List PlacedBlock}
    (loaded : (Loader.load Catalogue.standard settings t).outcome = .ok blocks) :
    ∀ block ∈ blocks, ∀ paragraph, block.content = .paragraph paragraph →
      ∀ raw name given c, Inside (.leaf raw name given (.replacement c)) paragraph →
        ∀ (compiler : Compiler) (nuid : Option Text) (d : Draft), compiler.constructs ⊆ Inline.standard →
          (∀ entry ∈ compiler.settings.references, Html.Inert entry.2) →
          (compile compiler (.leaf raw name nuid (.replacement c))).outcome = .ok d →
            (c.name ≠ "comment-block" → (∀ part ∈ d.parts, part.Enclosed) ∧ Html.Closed d.content) ∧
            (c.name = "comment-block" → d.content = raw ∧
              (Html.OneComment d.content ↔ ¬ ("-->" : Text) <:+: raw.dropLast)) := by
  intro block member paragraph isParagraph raw name given c inside compiler nuid d members values run
  obtain ⟨construct,isStandard,rewrites,place,m,found,rfl⟩ :=
    Loader.load_every (makes_standard settings) loaded block member paragraph isParagraph inside
  have named : c.name = construct.name := by
    unfold rewriting? at rewrites
    split at rewrites <;> cases rewrites
    rfl
  have only : ∀ other ∈ Block.standard, other.name = "comment-block" → other = comment := by decide +kernel
  constructor
  · intro other
    have guarded := (standard_guards isStandard rewrites).resolve_left fun same => other (by rw [named,same]; rfl)
    have enclosed := compile_guarded guarded members values run
    exact ⟨enclosed,Construct.content_closed enclosed⟩
  · intro isComment
    obtain rfl := only construct isStandard (named ▸ isComment)
    obtain ⟨content,once⟩ := compile_comment (Option.filter_eq_some_iff.mp found).1 rewrites run
    rw [content]
    exact ⟨rfl,once⟩

def codeRewriting : Construct :=
  ⟨Block.code.name,Block.code.pattern,.everything,
    .pieces [.codeOpening,Inline.captureEscaped 2,.text "</code></pre>"]⟩

def commentRewriting : Construct :=
  ⟨comment.name,comment.pattern,.everything,
    .pieces [.template [.text "<!--",.group "1",.text "-->"] [] [] []]⟩

def plainCompiler : Compiler :=
  ⟨[Inline.codeSpan,Inline.boldByStars],{},⟨none,none⟩,⟨⟨[],[]⟩,[]⟩⟩

-- Code with a tag in it, and a comment.
def fencedTag : List PlacedBlock :=
  [⟨0,11,.paragraph (.leaf "```\n<b>\n```" "code-block" none (.replacement codeRewriting))⟩,
    ⟨13,23,.paragraph (.leaf "<!-- a -->" "comment-block" none (.replacement commentRewriting))⟩]

def fencedTagCode : Draft :=
  ⟨[.fixed "<pre><code class=\"language-plaintext code-block\">",.live "&lt;b&gt;" .everything,.fixed "</code></pre>"],
    none,none⟩

def brokenComment : List PlacedBlock :=
  [⟨0,17,.paragraph (.leaf "<!-- a --><b> -->" "comment-block" none (.replacement commentRewriting))⟩]

-- Loading does not look at the inline constructs.
theorem load_comments (inline : List Construct) :
    (Loader.load ⟨inline,Block.standard,some Block.fallback,HeadingConstruct.standard⟩ {}
        "```\n<b>\n```\n\n<!-- a -->").outcome = .ok fencedTag ∧
      (Loader.load ⟨inline,Block.standard,some Block.fallback,HeadingConstruct.standard⟩ {}
        "<!-- a --><b> -->").outcome = .ok brokenComment := by
  unfold fencedTag brokenComment codeRewriting commentRewriting Block.standard code math styledWithId identified table
    quote focus list abridgedTodo multilineTodo todo pageBreak lineBreakByDashes lineBreakByStars lineBreakByPluses
    imageRow abridgedImage image comment todoOpening nuidTemplate
  repeat rw [Text.ofString_ofList]
  constructor <;> cbv

theorem replacement_encloses_fenced :
    (Loader.load Catalogue.standard {} "```\n<b>\n```\n\n<!-- a -->").outcome = .ok fencedTag ∧
      (compile plainCompiler (.leaf "```\n<b>\n```" "code-block" none (.replacement codeRewriting))).outcome =
        .ok fencedTagCode ∧ Html.Closed fencedTagCode.content ∧
      (compile plainCompiler (.leaf "<!-- a -->" "comment-block" none (.replacement commentRewriting))).outcome =
        .ok ⟨[.fixed "<!-- a -->"],none,none⟩ ∧ Html.OneComment "<!-- a -->" := by
  have loaded : (Loader.load Catalogue.standard {} "```\n<b>\n```\n\n<!-- a -->").outcome = .ok fencedTag :=
    (load_comments Inline.standard).1
  have code : (compile plainCompiler (.leaf "```\n<b>\n```" "code-block" none (.replacement codeRewriting))).outcome =
      .ok fencedTagCode := by
    unfold fencedTagCode
    repeat rw [Text.ofString_ofList]
    cbv
  have commented :
      (compile plainCompiler (.leaf "<!-- a -->" "comment-block" none (.replacement commentRewriting))).outcome =
        .ok ⟨[.fixed "<!-- a -->"],none,none⟩ := by cbv
  have members : [Inline.codeSpan,Inline.boldByStars] ⊆ Inline.standard := by simp [Inline.standard]
  have values : ∀ entry ∈ plainCompiler.settings.references, Html.Inert entry.2 := List.forall_mem_nil _
  obtain ⟨encloses,_⟩ := replacement_encloses {} _ loaded _ (List.mem_cons_self ..) _ rfl _ _ _ _ .self
    plainCompiler none _ members values code
  obtain ⟨_,comments⟩ := replacement_encloses {} _ loaded _ (List.mem_cons_of_mem _ (List.mem_cons_self ..)) _ rfl _ _ _ _
    .self plainCompiler none _ members values commented
  obtain ⟨content,once⟩ := comments rfl
  exact ⟨loaded,code,(encloses (by decide)).2,commented,content ▸ once.mpr (by decide +kernel)⟩

-- The block ends at the last end of a comment in it, and the comment at the first.
theorem comment_breaks_out : ¬ ∀ (settings : LoadSettings) (t : Text) (blocks : List PlacedBlock),
    (Loader.load Catalogue.standard settings t).outcome = .ok blocks →
      ∀ block ∈ blocks, ∀ paragraph, block.content = .paragraph paragraph →
        ∀ (raw : Text) (name : String) (given : Option Text) (c : Construct),
          Inside (.leaf raw name given (.replacement c)) paragraph →
          ∀ (compiler : Compiler) (nuid : Option Text) (d : Draft), compiler.constructs ⊆ Inline.standard →
            (∀ entry ∈ compiler.settings.references, Html.Inert entry.2) →
            (compile compiler (.leaf raw name nuid (.replacement c))).outcome = .ok d →
              c.name = "comment-block" → Html.OneComment d.content := by
  intro all
  have loaded : (Loader.load Catalogue.standard {} "<!-- a --><b> -->").outcome = .ok brokenComment :=
    (load_comments Inline.standard).2
  have run : (compile plainCompiler (.leaf "<!-- a --><b> -->" "comment-block" none
      (.replacement commentRewriting))).outcome = .ok ⟨[.fixed "<!-- a --><b> -->"],none,none⟩ := by cbv
  have members : [Inline.codeSpan,Inline.boldByStars] ⊆ Inline.standard := by simp [Inline.standard]
  have once := all {} _ _ loaded _ (List.mem_cons_self ..) _ rfl _ _ _ _ .self plainCompiler none _
    members (List.forall_mem_nil _) run (by decide)
  have early : Html.scan .text "<!-- a -->" = some .text := by decide +kernel
  exact once.2.2 "<!-- a -->" "<b> -->" (by decide +kernel) (by decide +kernel) (by decide +kernel) early

end Paragraph
end LightMarkup
