import Mathlib.Data.List.DropRight
import LightMarkup.Paragraph.Quote
import LightMarkup.Proofs.Logged
import LightMarkup.Proofs.Loading.Endings
import LightMarkup.Proofs.Loading.Pieces
import LightMarkup.Proofs.Loading.Written

/-!
Quoting lines and taking the marks off again. A line behind a mark comes back without the blanks at its end, and lines
that are joined and split at their breaks are the same lines.
-/

namespace LightMarkup

namespace Text

variable {t u rest : Text} {ts : List Text}

abbrev Unbroken (t : Text) : Prop :=
  ∀ x ∈ t, isLineBreak x = false

theorem lines_cons {x : Char} (unbroken : isLineBreak x = false) (rest : Text) :
    lines (x :: rest) = match lines rest with
      | [] => [[x]]
      | line :: others => (x :: line) :: others := by
  rw [lines]
  · exact if_neg (Bool.eq_false_iff.mp unbroken)
  · rintro rest' rfl
    exact absurd unbroken (by decide)

theorem lines_break (unbroken : Unbroken t) (rest : Text) : lines (t ++ '\n' :: rest) = t :: lines rest := by
  induction t with
  | nil => rfl
  | cons x t ih =>
    obtain ⟨here,others⟩ := List.forall_mem_cons.mp unbroken
    rw [List.cons_append,lines_cons here,ih others]

theorem lines_last (unbroken : Unbroken t) (some : t ≠ []) : lines t = [t] := by
  induction t with
  | nil => exact absurd rfl some
  | cons x t ih =>
    obtain ⟨here,others⟩ := List.forall_mem_cons.mp unbroken
    rw [lines_cons here]
    cases t with
    | nil => rfl
    | cons y t => rw [ih others (List.cons_ne_nil _ _)]

theorem join_more (separator t u : Text) (ts : List Text) :
    join separator (t :: u :: ts) = t ++ (separator ++ join separator (u :: ts)) := by
  simp [join_cons]

theorem lines_join (unbroken : ∀ t ∈ ts, Unbroken t) (some : ∀ t ∈ ts, t ≠ []) : lines (join ['\n'] ts) = ts := by
  induction ts with
  | nil => rfl
  | cons t ts ih =>
    obtain ⟨here,others⟩ := List.forall_mem_cons.mp unbroken
    obtain ⟨isSome,areSome⟩ := List.forall_mem_cons.mp some
    cases ts with
    | nil => rw [join_cons,List.flatMap_nil,List.append_nil,lines_last here isSome]
    | cons u ts =>
      rw [join_more]
      show lines (t ++ '\n' :: join ['\n'] (u :: ts)) = _
      rw [lines_break here,ih others areSome]

theorem trimEnd_append (some : trimEnd u ≠ []) : trimEnd (t ++ u) = t ++ trimEnd u := by
  have left : u.reverse.dropWhile isBlank ≠ [] := fun none => some (by rw [trimEnd,none]; rfl)
  rw [trimEnd,List.reverse_append,List.dropWhile_append,if_neg (by simpa using left),List.reverse_append,
    List.reverse_reverse]
  rfl

theorem trimEnd_cons {x : Char} (solid : isBlank x = false) (t : Text) : trimEnd (x :: t) = x :: trimEnd t := by
  by_cases none : trimEnd t = []
  · have blank : t.reverse.dropWhile isBlank = [] := by simpa [trimEnd] using none
    rw [none,trimEnd,List.reverse_cons,List.dropWhile_append,blank]
    simp [solid]
  · exact trimEnd_append (t := [x]) none

theorem trimEnd_trimEnd (t : Text) : trimEnd (trimEnd t) = trimEnd t := by
  simp only [trimEnd,List.reverse_reverse]
  rw [List.dropWhile_idempotent]

theorem trimmed_ends (trimmed : trimEnd (t ++ u) = t ++ u) (blank : Blank u) : u = [] := by
  rcases List.eq_nil_or_concat u with rfl | ⟨front,last,ends⟩
  · rfl
  · rw [List.concat_eq_append] at ends
    subst ends
    have solid := List.rdropWhile_eq_self_iff.mp trimmed (by simp)
    rw [List.getLast_append_of_ne_nil _ (by simp),List.getLast_concat] at solid
    exact absurd (blank last (by simp)) solid

theorem trimEnd_ends (some : trimEnd t ≠ []) : ∃ v y, trimEnd t = v ++ [y] ∧ isBlank y = false :=
  ⟨_,_,(List.dropLast_append_getLast some).symm,Bool.eq_false_iff.mpr (List.rdropWhile_last_not isBlank t some)⟩

theorem trim_marked {x : Char} (solid : isBlank x = false) (t : Text) : trim (x :: t) = trimEnd (x :: t) := by
  rw [trim,trimStart,List.dropWhile_cons_of_neg (by simp [solid])]

theorem trim_lead {g : Text} (blank : Blank g) (t : Text) : trim (g ++ t) = trim t := by
  rw [trim,trimStart,List.dropWhile_append_of_pos blank,trim,trimStart]

end Text

namespace Quote

open Text

-- A line in a quote.
def quoted (line : Text) : Text :=
  '>' :: ' ' :: line

-- No break, and nothing but gaps behind what is not blank.
structure Plain (line : Text) : Prop where
  unbroken : Unbroken line
  ends : ∃ g, line = trimEnd line ++ g ∧ Block.Gaps g

-- A line of a quote, and what is left of it without its mark.
structure Marked (line content : Text) : Prop where
  begins : line.head? = some '>'
  plain : Plain line
  content : content? line = some content

variable {line content : Text} {lines bodies : List Text}

theorem Plain.trimmed (unbroken : Unbroken line) (trimmed : trimEnd line = line) : Plain line :=
  ⟨unbroken,[],by rw [trimmed,List.append_nil],List.forall_mem_nil _⟩

theorem Plain.trimEnd (plain : Plain line) : Plain (trimEnd line) := by
  refine .trimmed (fun x member => plain.unbroken x ?_) (trimEnd_trimEnd line)
  obtain ⟨g,split,_⟩ := plain.ends
  rw [split]
  exact List.mem_append_left _ member

theorem trimEnd_quoted (line : Text) : Text.trimEnd (quoted line) = if Text.trimEnd line = [] then ['>'] else quoted (Text.trimEnd line) := by
  rw [quoted,trimEnd_cons rfl]
  split
  · rename_i none
    have blank : line.reverse.dropWhile isBlank = [] := by simpa [Text.trimEnd] using none
    rw [Text.trimEnd,List.reverse_cons,List.dropWhile_append,blank]
    rfl
  · rename_i some
    exact congrArg (List.cons '>') (trimEnd_append (t := [' ']) some)

theorem Plain.quoted (plain : Plain line) : Plain (quoted line) where
  unbroken := List.forall_mem_cons.mpr ⟨rfl,List.forall_mem_cons.mpr ⟨rfl,plain.unbroken⟩⟩
  ends := by
    obtain ⟨g,split,gaps⟩ := plain.ends
    rw [trimEnd_quoted]
    split
    · rename_i none
      rw [none] at split
      exact ⟨' ' :: line,rfl,List.forall_mem_cons.mpr ⟨by decide,split ▸ gaps⟩⟩
    · exact ⟨g,by rw [Quote.quoted,Quote.quoted,List.cons_append,List.cons_append,← split],gaps⟩

theorem Plain.marked (plain : Plain line) : Marked (Quote.quoted line) (Text.trimEnd line) where
  begins := rfl
  plain := plain.quoted
  content := by
    have trimmed : trim (Quote.quoted line) = _ := (trim_marked rfl _).trans (trimEnd_quoted line)
    rw [content?,trimmed]
    by_cases none : Text.trimEnd line = []
    · rw [if_pos none,none]
      rfl
    · rw [if_neg none]
      rfl

-- The blanks at the end of a line of a quote do not matter.
theorem Marked.trimEnd (marked : Marked line content) : Marked (Text.trimEnd line) content := by
  obtain ⟨rest,rfl⟩ := List.head?_eq_some_iff.mp marked.begins
  have kept : Text.trimEnd ('>' :: rest) = '>' :: Text.trimEnd rest := trimEnd_cons rfl rest
  refine ⟨by rw [kept]; rfl,marked.plain.trimEnd,?_⟩
  have same : trim ('>' :: Text.trimEnd rest) = trim ('>' :: rest) := by
    rw [trim_marked rfl,trim_marked rfl,← kept,trimEnd_trimEnd]
  rw [← marked.content,content?,content?,kept,same]

theorem bodyLines_marked (strict : Bool) (each : List.Forall₂ Marked lines bodies) :
    bodyLines strict lines = pure bodies := by
  induction each with
  | nil => rfl
  | cons here _ ih =>
    simp only [bodyLines,here.content,ih]
    exact Logged.pure_bind _ _

theorem Marked.some (marked : Marked line content) : line ≠ [] := by
  rintro rfl
  cases marked.begins

theorem marked_lines (each : List.Forall₂ Marked lines bodies) : Text.lines (join ['\n'] lines) = lines := by
  have both : List.Forall₂ (fun line content => (Unbroken line ∧ line ≠ []) ∧ Marked line content) lines bodies :=
    each.imp fun line content marked => ⟨⟨marked.plain.unbroken,marked.some⟩,marked⟩
  have firm := ((List.forall₂_and_left _ _).mp both).1
  exact lines_join (fun line member => (firm line member).1) fun line member => (firm line member).2

-- The first line names no type, so every line is a line of the body.
theorem ofText_marked (strict : Bool) (each : List.Forall₂ Marked lines bodies)
    (untyped : ∀ body ∈ bodies.head?, typeOf? body = none) :
    ofText strict (join ['\n'] lines) = pure (none,join ['\n'] bodies) := by
  have untyped : firstType? lines = none := by
    cases each with
    | nil => rfl
    | cons here _ =>
      rw [firstType?,here.content]
      exact untyped _ rfl
  simp only [ofText,marked_lines each,untyped,bodyLines_marked strict each,Text.newline]
  exact Logged.pure_bind _ _

theorem join_some (some : lines ≠ []) (each : List.Forall₂ Marked lines bodies) : join ['\n'] lines ≠ [] := by
  cases each with
  | nil => exact absurd rfl some
  | cons here _ =>
    rw [join_cons]
    exact fun none => here.some (List.append_eq_nil_iff.mp none).1

theorem marked_some {kept : List Text} (some : lines ≠ []) (each : List.Forall₂ Marked lines bodies)
    (marked : List.Forall₂ Marked kept bodies) : kept ≠ [] := by
  rintro rfl
  cases marked
  cases each
  exact some rfl

-- Behind the last line there may be gaps. Without them it is still a line of the quote.
theorem marked_trimmed (some : lines ≠ []) (each : List.Forall₂ Marked lines bodies) : ∃ kept g,
    List.Forall₂ Marked kept bodies ∧ join ['\n'] lines = join ['\n'] kept ++ g ∧ Block.Gaps g ∧
      Text.trimEnd (join ['\n'] lines) = join ['\n'] kept := by
  induction each with
  | nil => exact absurd rfl some
  | @cons line content lines bodies here later ih =>
    have single : ∀ line : Text, join ['\n'] [line] = line := fun line => by
      rw [join_cons,List.flatMap_nil,List.append_nil]
    cases later with
    | nil =>
      obtain ⟨g,split,gaps⟩ := here.plain.ends
      exact ⟨[Text.trimEnd line],g,.cons here.trimEnd .nil,by rw [single,single,← split],gaps,by rw [single,single]⟩
    | @cons next _ lines bodies there later =>
      obtain ⟨kept,g,marked,split,gaps,trimmed⟩ := ih (List.cons_ne_nil _ _)
      obtain ⟨first,others,rfl⟩ : ∃ first others, kept = first :: others := by
        cases marked
        exact ⟨_,_,rfl⟩
      have solid : Text.trimEnd (join ['\n'] (next :: lines)) ≠ [] := trimmed ▸ join_some (List.cons_ne_nil _ _) marked
      refine ⟨line :: first :: others,g,.cons here marked,?_,gaps,?_⟩
      · rw [join_more,join_more,split,List.append_assoc,List.append_assoc]
      · rw [join_more,join_more,← List.append_assoc,trimEnd_append solid,trimmed,List.append_assoc]

-- A text without blanks at its end names a type only if it is nothing but that.
theorem typeOf_none (trimmed : Text.trimEnd content = content)
    (untyped : ∀ word ≠ [], (∀ x ∈ word, CharSet.wordOrHyphen.contains x = true) →
      content ≠ '[' :: '!' :: (word ++ [']'])) : typeOf? content = none := by
  rw [typeOf?,Option.map_eq_none_iff]
  cases found : typePattern.fullMatch? content with
  | none => rfl
  | some m =>
    obtain ⟨start,way,ended⟩ := Pattern.fullMatch_way found
    obtain ⟨closed,_,_,front,gaps,_⟩ := Pattern.seq_parts way
    obtain ⟨named,_,_,opened,closing,_⟩ := Pattern.seq_parts front
    obtain ⟨first,_,_,opening,type,_⟩ := Pattern.seq_parts opened
    obtain ⟨inner,isInner,same⟩ := Pattern.mem_captured rfl type
    cases same
    obtain ⟨word,readWord,some⟩ := Pattern.plus_reads isInner
    have only : (Pattern.plus (.char CharSet.wordOrHyphen)).Only fun x => CharSet.wordOrHyphen.contains x = true :=
      fun x inSet => inSet
    obtain ⟨_,readSame,inSet⟩ := Pattern.ways_only only _ _ isInner
    rw [Cursor.Reads.unique readSame readWord] at inSet
    obtain ⟨g,readGaps,isGaps,_⟩ := Block.mem_gaps.mp gaps
    have read := (((Pattern.literal_reads opening).1.append readWord).append (Pattern.literal_reads closing).1).append readGaps
    have whole : content = "[!" ++ word ++ "]" ++ g := by
      have ahead := read.1
      rwa [ended,start,List.append_nil] at ahead
    have none : g = [] := trimmed_ends (whole ▸ trimmed) isGaps.blank
    refine absurd ?_ (untyped word some inSet)
    rw [none,List.append_nil] at whole
    simpa [Text.ofString_eq] using whole

end Quote
end LightMarkup
