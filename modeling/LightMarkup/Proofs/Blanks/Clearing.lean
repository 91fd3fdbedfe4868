import Mathlib.Logic.Relation
import LightMarkup.Proofs.Blanks.Loading

/-!
Blank lines and empty ones. A text whose blank lines have only gaps on them is loaded with the same headings, tags and
constructs as the text with these lines empty: the gaps go one by one, the last one of a line first. A paragraph with a style
needs an empty line where it has one before the style.
-/

namespace LightMarkup

open Block (Gaps)
open Cursor (Aligned)

namespace Text

variable {a b e t line : Text} {lines others : List Text}

def clearedLine (line : Text) : Text :=
  if isAllBlank line then [] else line

-- The text with its blank lines empty.
def cleared (t : Text) : Text :=
  join ['\n'] ((splitAtChar '\n' t).map clearedLine)

def closesLabel (line : Text) : Bool :=
  [']',']'].isSuffixOf line || [']',']','\r'].isSuffixOf line

def opensStyle (line : Text) : Bool :=
  ['\x7b','\x7b'].isPrefixOf line

-- No blank line between a label and a style, but an empty one.
def keepsLabels : List Text → Bool
  | a :: b :: c :: rest =>
    !(closesLabel a && !b.isEmpty && isAllBlank b && opensStyle c) && keepsLabels (b :: c :: rest)
  | _ => true

structure Clearable (t : Text) : Prop where
  gaps : ∀ line ∈ splitAtChar '\n' t, isAllBlank line = true → Gaps line
  labels : keepsLabels (splitAtChar '\n' t) = true

theorem Clearable.of_all
    (gaps : (splitAtChar '\n' t).all (fun line => !isAllBlank line || line.all CharSet.gap.contains) = true)
    (labels : keepsLabels (splitAtChar '\n' t) = true) : Clearable t := by
  refine ⟨fun line member blank => ?_,labels⟩
  have here := List.all_eq_true.mp gaps line member
  rw [blank,Bool.not_true,Bool.false_or] at here
  exact List.all_eq_true.mp here

-- One gap after the other is left out.
abbrev Clears : Text → Text → Prop :=
  Relation.ReflTransGen fun t t' => Aligned (.start t) (.start t')

theorem clears_gaps (gaps : Gaps line) (starts : Breaks b.reverse) (breaks : Breaks t)
    (apart : line ≠ [] → ∀ e, b.reverse = '\n' :: e → Labelled e → ¬ Styled t) : Clears (b ++ (line ++ t)) (b ++ t) := by
  induction line using List.reverseRecOn with
  | nil => exact .refl
  | append_singleton line x ih =>
    obtain ⟨inner,last⟩ : Gaps line ∧ Gaps [x] := List.forall_mem_append.mp gaps
    have apart := apart (by simp)
    refine .head ?_ (ih inner fun _ => apart)
    have site : Site ((b ++ line).reverse ++ []) x t := by
      refine ⟨last x (List.mem_singleton_self x),?_,breaks,fun e newline => ?_⟩
      · have free : '\n' ∉ line.reverse := fun member => inner.single (List.mem_reverse.mp member)
        rw [List.append_nil,List.reverse_append,onLine_append free,starts.onLine,List.append_nil]
        exact fun y member => inner y (List.mem_reverse.mp member)
      · rw [List.append_nil,List.reverse_append] at newline
        cases back : line.reverse with
        | nil =>
          rw [back] at newline
          exact apart e newline
        | cons y back' =>
          rw [back] at newline
          obtain rfl : y = '\n' := (List.cons.inj newline).1
          exact absurd (List.mem_reverse.mp (back ▸ List.mem_cons_self ..)) inner.single
    have aligned := Aligned.ahead (b := []) site
    rw [List.append_assoc,List.append_assoc] at aligned
    rw [List.append_assoc]
    exact aligned

theorem clears_line (gaps : isAllBlank line = true → Gaps line) (starts : Breaks b.reverse) (breaks : Breaks t)
    (apart : isAllBlank line = true → line ≠ [] → ∀ e, b.reverse = '\n' :: e → Labelled e → ¬ Styled t) :
    Clears (b ++ (line ++ t)) (b ++ (clearedLine line ++ t)) := by
  unfold clearedLine
  split
  · rename_i blank
    exact clears_gaps (gaps blank) starts breaks (apart blank)
  · exact .refl

-- What begins a line begins the text from there on, and only then.
theorem prefix_line (free : '\n' ∉ a) (breaks : Breaks t) (same : a ++ e = line ++ t) : a <+: line := by
  rcases List.append_eq_append_iff.mp same with ⟨m,rfl,_⟩ | ⟨m,rfl,rest⟩
  · exact List.prefix_append a m
  · cases m with
    | nil => exact ⟨[],by simp⟩
    | cons y m =>
      obtain rfl := breaks y (by rw [rest]; rfl)
      exact absurd (by simp) free

theorem closesLabel_of (breaks : Breaks e) (label : Labelled (line.reverse ++ e)) : closesLabel line = true := by
  have suffix : ∀ {s f : Text}, '\n' ∉ s → s ++ f = line.reverse ++ e → s.reverse.isSuffixOf line = true := fun free same =>
    List.isSuffixOf_iff_suffix.mpr (List.reverse_prefix.mp (by rw [List.reverse_reverse]; exact prefix_line free breaks same))
  obtain ⟨f,same | same⟩ := label
  · exact Bool.or_eq_true_iff.mpr (Or.inl (suffix (s := [']',']']) (by decide) same.symm))
  · exact Bool.or_eq_true_iff.mpr (Or.inr (suffix (s := ['\r',']',']']) (by decide) same.symm))

theorem opensStyle_of (breaks : Breaks t) (styled : Styled ('\n' :: (line ++ t))) : opensStyle line = true := by
  obtain ⟨e,same⟩ := styled
  exact List.isPrefixOf_iff_prefix.mpr (prefix_line (a := ['\x7b','\x7b']) (by decide) breaks (List.cons.inj same).2.symm)

-- What is behind a line.
theorem join_line (others : List Text) : ∃ t, Breaks t ∧ ∀ line, join ['\n'] (line :: others) = line ++ t := by
  cases others with
  | nil => exact ⟨[],fun _ none => (nomatch none),fun line => by simp [join]⟩
  | cons next others =>
    refine ⟨'\n' :: join ['\n'] (next :: others),?_,fun line => join_more ['\n'] line next others⟩
    rintro y first
    exact (Option.some.inj first).symm

theorem join_split (t : Text) : join ['\n'] (splitAtChar '\n' t) = t := by
  induction t with
  | nil => rfl
  | cons x t ih =>
    rw [splitAtChar]
    cases split : splitAtChar '\n' t with
    | nil =>
      rw [split] at ih
      obtain rfl : [] = t := ih
      cases split
    | cons line others =>
      rw [split] at ih
      obtain ⟨behind,_,known⟩ := join_line others
      split
      · rename_i newline
        rw [join_more,ih,newline]
        rfl
      · rw [known,List.cons_append,← known,ih]

-- Lines to be cleared behind others that are.
structure Behind (b : Text) (lines : List Text) : Prop where
  starts : Breaks b.reverse
  gaps : ∀ line ∈ lines, isAllBlank line = true → Gaps line
  apart : ∀ line next others, lines = line :: next :: others → isAllBlank line = true → line ≠ [] →
    ∀ e, b.reverse = '\n' :: e → Labelled e → opensStyle next = false
  labels : keepsLabels lines = true

theorem Behind.later (behind : Behind b (line :: others)) : Behind (b ++ (clearedLine line ++ ['\n'])) others where
  starts y first := by
    rw [← List.append_assoc,List.reverse_append] at first
    exact (Option.some.inj first).symm
  gaps := (List.forall_mem_cons.mp behind.gaps).2
  apart next third rest same blank some e newline label := by
    subst same
    have whole : e = (clearedLine line).reverse ++ b.reverse := by simpa using newline.symm
    have closes : closesLabel line = true := by
      rw [whole,clearedLine] at label
      split at label
      · obtain ⟨f,first | first⟩ := label
        · exact absurd (behind.starts ']' (by rw [show b.reverse = _ from first]; rfl)) (by decide)
        · exact absurd (behind.starts '\r' (by rw [show b.reverse = _ from first]; rfl)) (by decide)
      · exact closesLabel_of behind.starts label
    have kept := (Bool.and_eq_true_iff.mp behind.labels).1
    simpa [closes,blank,some] using kept
  labels := by
    cases others with
    | nil => rfl
    | cons next others =>
      cases others with
      | nil => rfl
      | cons third rest => exact (Bool.and_eq_true_iff.mp behind.labels).2

theorem clears_lines (behind : Behind b lines) : Clears (b ++ join ['\n'] lines) (b ++ join ['\n'] (lines.map clearedLine)) := by
  induction lines generalizing b with
  | nil => exact .refl
  | cons line others ih =>
    have later := ih behind.later
    have gaps := (List.forall_mem_cons.mp behind.gaps).1
    cases others with
    | nil =>
      have here : Clears (b ++ (line ++ [])) (b ++ (clearedLine line ++ [])) :=
        clears_line gaps behind.starts (fun _ none => (nomatch none)) fun _ _ _ _ _ styled => by
          obtain ⟨_,none⟩ := styled
          cases none
      simpa [join] using here
    | cons next others =>
      have here : Clears (b ++ (line ++ '\n' :: join ['\n'] (next :: others)))
          (b ++ (clearedLine line ++ '\n' :: join ['\n'] (next :: others))) := by
        refine clears_line gaps behind.starts (fun y first => (Option.some.inj first).symm) fun blank some e newline label styled => ?_
        have other := behind.apart line next others rfl blank some e newline label
        obtain ⟨t,breaks,known⟩ := join_line others
        rw [known] at styled
        rw [opensStyle_of breaks styled] at other
        cases other
      rw [join_more]
      refine here.trans ?_
      rw [List.map_cons,List.map_cons,join_more]
      simpa using later

theorem clears_cleared (clearable : Clearable t) : Clears t t.cleared := by
  have behind : Behind [] (splitAtChar '\n' t) :=
    ⟨fun _ none => (nomatch none),clearable.gaps,fun _ _ _ _ _ _ _ newline => (nomatch newline),clearable.labels⟩
  have all := clears_lines behind
  rwa [List.nil_append,List.nil_append,join_split] at all

end Text

namespace Loader

open PlacedBlock (gists)

section

variable {catalogue : Catalogue} (derived : catalogue.Derived) (loaded : catalogue.Loaded) (settings : LoadSettings) {t : Text}
include derived loaded

-- A text and the text with its blank lines empty both fail, or they have the same headings, the same tags and paragraphs of the
-- same constructs, inside each other too, if there are only gaps on these lines and none of them parts a label from its style.
theorem blanks_unseen (clearable : t.Clearable) :
    (load catalogue settings t.cleared).outcome.toOption.map gists = (load catalogue settings t).outcome.toOption.map gists := by
  have each : ∀ {t t' : Text}, Aligned (.start t) (.start t') →
      (load catalogue settings t').outcome.toOption.map gists = (load catalogue settings t).outcome.toOption.map gists :=
    fun aligned => Failure.Alike.map_eq ((Catalogue.likens_aligned derived loaded).load_alike derived settings aligned)
  have all : ∀ {t'}, Text.Clears t t' → (load catalogue settings t').outcome.toOption.map gists =
      (load catalogue settings t).outcome.toOption.map gists := by
    intro t' clears
    induction clears with
    | refl => rfl
    | tail _ aligned ih => exact (each aligned).trans ih
  exact all (Text.clears_cleared clearable)

end

def spacedGists : List Gist := [
  .heading ⟨1,"a",none,none⟩,.tag ⟨.date,some "b"⟩,
  .paragraph (.made "focus-block" [.made "extended-block-quote" [.made "common-paragraph" []],.made "line-break-star" []]),
  .paragraph (.made "common-paragraph" [])]

def ruledGists (rule : String) : List Gist :=
  [.paragraph (.made rule []),.paragraph (.made "line-break-star" [])]

set_option maxRecDepth 4000 in
theorem load_spaced (inline : List Construct) :
    let loaded := fun t : Text => (load ⟨inline,Block.standard,some Block.fallback,HeadingConstruct.standard⟩ {} t).outcome
    (loaded "# a\n@date b\n \t\n:::c\n> d\n\t\n***\n:::\n \ne").toOption.map gists = some spacedGists ∧
      (loaded "---\n\x0c\n***").toOption.map gists = some (ruledGists "common-paragraph") ∧
      (loaded "---\n\n***").toOption.map gists = some (ruledGists "line-break-dash") ∧
      (loaded "[[a]]\n \n\x7b\x7bb\x7d\x7d").toOption.map gists =
        some [.paragraph (.made "common-paragraph" []),.paragraph (.made "common-paragraph" [])] ∧
      (loaded "[[a]]\n\n\x7b\x7bb\x7d\x7d").toOption.map gists =
        some [.paragraph (.made "embedded-paragraph-style-with-id" [])] := by
  unfold spacedGists ruledGists Block.standard Block.code Block.math Block.styledWithId Block.identified
    Block.table Block.quote Block.focus Block.list Block.abridgedTodo Block.multilineTodo Block.todo Block.pageBreak
    Block.lineBreakByDashes Block.lineBreakByStars Block.lineBreakByPluses Block.imageRow Block.abridgedImage Block.image
    Block.comment Block.todoOpening Block.nuidTemplate
  repeat rw [Text.ofString_ofList]
  refine ⟨?_,?_,?_,?_,?_⟩ <;> cbv

theorem standard_loaded : Catalogue.standard.Loaded := by
  have all : Block.standard.all (fun construct => construct.loading != none) = true := by decide
  intro construct member
  simpa using List.all_eq_true.mp all construct member

theorem blanks_unseen_spaced : Catalogue.standard.Derived ∧ Catalogue.standard.Loaded ∧
    Text.Clearable "# a\n@date b\n \t\n:::c\n> d\n\t\n***\n:::\n \ne" ∧
    (load .standard {} (Text.cleared "# a\n@date b\n \t\n:::c\n> d\n\t\n***\n:::\n \ne")).outcome.toOption.map gists =
      some spacedGists := by
  have clearable : Text.Clearable "# a\n@date b\n \t\n:::c\n> d\n\t\n***\n:::\n \ne" :=
    .of_all (by decide +kernel) (by decide +kernel)
  exact ⟨.standard,standard_loaded,clearable,
    (blanks_unseen .standard standard_loaded {} clearable).trans (load_spaced Inline.standard).1⟩

-- A form feed is blank where a block begins, but not where one ends; between a label and a style only an empty line may stand.
theorem blanks_seen :
    Text.cleared "---\n\x0c\n***" = "---\n\n***" ∧
    (load .standard {} "---\n\x0c\n***").outcome.toOption.map gists = some (ruledGists "common-paragraph") ∧
    (load .standard {} "---\n\n***").outcome.toOption.map gists = some (ruledGists "line-break-dash") ∧
    ruledGists "common-paragraph" ≠ ruledGists "line-break-dash" ∧
    Text.cleared "[[a]]\n \n\x7b\x7bb\x7d\x7d" = "[[a]]\n\n\x7b\x7bb\x7d\x7d" ∧
    ((load .standard {} "[[a]]\n \n\x7b\x7bb\x7d\x7d").outcome.toOption.map gists).map List.length = some 2 ∧
    ((load .standard {} "[[a]]\n\n\x7b\x7bb\x7d\x7d").outcome.toOption.map gists).map List.length = some 1 := by
  obtain ⟨_,fed,ruled,parted,styled⟩ := load_spaced Inline.standard
  refine ⟨by decide +kernel,fed,ruled,fun same => ?_,by decide +kernel,?_,?_⟩
  · have names := Shape.made.inj (Gist.paragraph.inj (List.cons.inj same).1)
    exact absurd names.1 (by decide)
  · exact congrArg (Option.map List.length) parted
  · exact congrArg (Option.map List.length) styled

end Loader
end LightMarkup
