import LightMarkup.Contents
import LightMarkup.Proofs.Construct.Beginning
import LightMarkup.Proofs.Construct.Rematching
import LightMarkup.Proofs.Draft.Sites
import LightMarkup.Proofs.Html.Escaping
import LightMarkup.Proofs.Pattern.Taking

/-!
Citations and the items of the bibliography that they lead to. A citation of a key that no earlier construct takes apart
is a link with the number of the key's record, and the item with that number has the link's target as its identifier. It
is the first one that has it unless an earlier key is normalised to the same identifier.
-/

namespace LightMarkup

variable {c : Char} {t k target : Text}

theorem Anchor.normalise_chars (t : Text) : ∀ c ∈ normalise t, isIdentifierChar c = true := by
  intro c member
  obtain ⟨x,_,rfl⟩ := List.mem_map.mp member
  split
  · assumption
  · rfl

theorem Anchor.build_chars (documentName identifier : Text) : ∀ c ∈ build documentName identifier, isIdentifierChar c = true := by
  intro c member
  rw [build,Text.ofString_ofList,List.mem_append,List.mem_append] at member
  rcases member with (member | member) | member
  · exact normalise_chars _ c member
  · rw [List.mem_singleton.mp member]
    rfl
  · exact normalise_chars _ c member

theorem Anchor.build_same {documentName one two : Text} :
    build documentName one = build documentName two ↔ normalise one = normalise two := by
  rw [build,build,List.append_cancel_left_eq]

theorem Anchor.identifier_unescaped (identifier : isIdentifierChar c = true) : c ∉ '&' :: '"' :: Html.brackets := by
  intro member
  simp only [Html.brackets,List.mem_cons,List.not_mem_nil,or_false] at member
  rcases member with rfl | rfl | rfl | rfl <;> exact absurd identifier (by decide)

-- An anchor needs no escape in a link.
theorem Link.escaped_anchor (documentName identifier : Text) :
    Html.escapeAttribute (Link.anchor documentName identifier).build = '#' :: Anchor.build documentName identifier :=
  Html.escapeAttribute_plain <| List.forall_mem_cons.mpr
    ⟨by decide,fun c member => Anchor.identifier_unescaped (Anchor.build_chars _ _ c member)⟩

namespace Bibliography

variable {b : Bibliography} {records : List (Text × BibliographyRecord)} {record : BibliographyRecord} {items : List Part}
  {item : Text} {n : Nat}

-- The anchor of a record.
def anchorOf (key : Text) : Text :=
  Anchor.build documentName key

def itemOpening : Text :=
  "<li class=\"bibliography-item\" id=\""

/-- The identifier of an item, read off its text. -/
def itemId? : Part → Option Text
  | .fixed content =>
    if itemOpening.isPrefixOf content then some ((content.drop itemOpening.length).takeWhile (· != '"')) else none
  | .live _ _ => none

theorem itemId_anchor (key rest : Text) :
    itemId? (.fixed (itemOpening ++ (anchorOf key ++ '"' :: rest))) = some (anchorOf key) := by
  have quoteless : ∀ c ∈ anchorOf key, (c != '"') = true := by
    intro c member
    have other := Anchor.identifier_unescaped (Anchor.build_chars _ _ c member)
    rw [bne_iff_ne]
    rintro rfl
    exact other (by decide)
  have opens : itemOpening.isPrefixOf (itemOpening ++ (anchorOf key ++ '"' :: rest)) = true :=
    List.isPrefixOf_iff_prefix.mpr (List.prefix_append _ _)
  rw [itemId?,if_pos opens,List.drop_left,List.takeWhile_append_of_pos quoteless]
  simp

theorem itemText_opens (made : itemText k record = .ok item) : ∃ rest, item = itemOpening ++ (anchorOf k ++ '"' :: rest) := by
  obtain ⟨year,_,made⟩ := Failure.bind_ok.mp made
  obtain ⟨url,_,made⟩ := Failure.bind_ok.mp made
  obtain ⟨description,_,same⟩ := Failure.bind_ok.mp made
  cases same
  have plain : Html.escapeAttribute (linkTo k).withoutSharp = anchorOf k :=
    Html.escapeAttribute_plain fun c member => Anchor.identifier_unescaped (Anchor.build_chars _ _ c member)
  rw [plain,itemOpening,Html.attr]
  repeat rw [Text.ofString_ofList]
  exact ⟨_,by simp only [List.append_assoc,List.cons_append,List.nil_append]; rfl⟩

theorem itemText_id (made : itemText k record = .ok item) : itemId? (.fixed item) = some (anchorOf k) := by
  obtain ⟨rest,rfl⟩ := itemText_opens made
  exact itemId_anchor k rest

theorem itemParts_made (emitted : itemParts records = .ok items) :
    List.Forall₂ (fun entry part => ∃ item, itemText entry.1 entry.2 = .ok item ∧ part = .fixed item) records items := by
  induction records generalizing items with
  | nil =>
    cases emitted
    exact .nil
  | cons entry records ih =>
    obtain ⟨item,made,emitted⟩ := Failure.bind_ok.mp emitted
    obtain ⟨others,later,same⟩ := Failure.bind_ok.mp emitted
    cases same
    exact .cons ⟨item,made,rfl⟩ (ih later)

theorem itemParts_ids (emitted : itemParts records = .ok items) :
    items.map itemId? = records.map fun entry => some (anchorOf entry.1) := by
  have each := itemParts_made emitted
  clear emitted
  induction each with
  | nil => rfl
  | cons here later ih =>
    obtain ⟨item,made,rfl⟩ := here
    rw [List.map_cons,List.map_cons,ih,itemText_id made]

-- The number of a key is the place of its record.
theorem record_place (found : (records.map Prod.fst).findIdx? (· == k) = some n) :
    ∃ record, records[n]? = some (k,record) ∧ records.lookup k = some record := by
  induction records generalizing n with
  | nil => cases found
  | cons entry records ih =>
    obtain ⟨key,record⟩ := entry
    rw [List.map_cons,List.findIdx?_cons] at found
    rw [List.lookup_cons]
    by_cases same : key = k
    · subst same
      rw [if_pos (beq_self_eq_true _)] at found
      cases found
      exact ⟨record,rfl,by rw [beq_self_eq_true]⟩
    · rw [if_neg (by simpa using same)] at found
      obtain ⟨i,later,rfl⟩ := Option.map_eq_some_iff.mp found
      obtain ⟨own,place,looked⟩ := ih later
      exact ⟨own,place,by rw [beq_false_of_ne (Ne.symm same)]; exact looked⟩

-- The first item with the identifier of a record is its own, unless an earlier key has the same identifier.
theorem first_item (emitted : itemParts b.records = .ok items) (place : b.keys.findIdx? (· == k) = some n) :
    items.findIdx? (fun part => itemId? part == some (anchorOf k)) = some n ↔
      ∀ other ∈ b.keys.take n, Anchor.normalise other ≠ Anchor.normalise k := by
  have ids : items.findIdx? (fun part => itemId? part == some (anchorOf k)) =
      b.keys.findIdx? fun other => decide (Anchor.normalise other = Anchor.normalise k) := by
    have same : ((· == some (anchorOf k)) ∘ fun entry : Text × BibliographyRecord => some (anchorOf entry.1)) =
        (fun other => decide (Anchor.normalise other = Anchor.normalise k)) ∘ Prod.fst := by
      funext entry
      rw [Bool.eq_iff_iff]
      simp [anchorOf,Anchor.build_same]
    rw [← Function.comp_def (· == some (anchorOf k)) itemId?,← List.findIdx?_map,itemParts_ids emitted,List.findIdx?_map,
      same,← List.findIdx?_map]
    rfl
  obtain ⟨inside,here,_⟩ := List.findIdx?_eq_some_iff_getElem.mp place
  rw [ids,List.findIdx?_eq_some_iff_getElem]
  constructor
  · rintro ⟨_,_,earlier⟩ other member
    obtain ⟨i,before,rfl⟩ := List.mem_take_iff_getElem.mp member
    simpa using earlier i (by omega)
  · intro apart
    refine ⟨inside,by simp [eq_of_beq here],fun i before => ?_⟩
    have other := apart b.keys[i] (List.mem_take_iff_getElem.mpr ⟨i,by omega,rfl⟩)
    simpa using other

end Bibliography

namespace Inline

open Pattern

-- A key that a citation can hold.
def Citable (k : Text) : Prop :=
  k ≠ [] ∧ ∀ c ∈ k, CharSet.wordOrHyphen.contains c = true

theorem Citable.of_all (some : k ≠ []) (every : k.all CharSet.wordOrHyphen.contains = true) : Citable k :=
  ⟨some,List.all_eq_true.mp every⟩

-- A key that the earlier constructs leave alone: it is not the mark of a checkbox, and no underscore that begins a word
-- of it comes before one that ends a word.
structure Unmarked (k : Text) : Prop where
  unchecked : k ∉ [['x'],['X']]
  even : ∀ front middle back, k = front ++ '_' :: (middle ++ '_' :: back) →
    (front = [] ∨ front.getLast? = some '-') → ¬ (back = [] ∨ back.head? = some '-')

def cited (k : Text) : Text :=
  '^' :: '[' :: (k ++ [']'])

-- Characters that the other constructs need.
def elsewhere : List Char :=
  ['\x60','$','\\','/','%','@','#','\x7b','=','*','~','+','(',':','&']

theorem standard_needs : ∀ c ∈ standard,
    c ∈ [boldByUnderscores,italicByUnderscores,superscript,checkbox,checkedCheckbox,citation] ∨
      ∃ x ∈ elsewhere, c.pattern.needs (· == .one x) = true := by
  have all : standard.all (fun c =>
      [boldByUnderscores,italicByUnderscores,superscript,checkbox,checkedCheckbox,citation].contains c ||
        elsewhere.any fun x => c.pattern.needs (· == .one x)) = true := by decide +kernel
  intro c member
  simpa using List.all_eq_true.mp all c member

theorem elsewhere_absent (citable : Citable k) : ∀ x ∈ elsewhere, x ∉ cited k := by
  have none : elsewhere.all (fun x => !CharSet.wordOrHyphen.contains x) = true := by decide
  intro x other member
  simp only [cited,List.mem_cons,List.mem_append,List.not_mem_nil,or_false] at member
  rcases member with rfl | rfl | inside | rfl
  · exact absurd other (by decide)
  · exact absurd other (by decide)
  · have apart := List.all_eq_true.mp none x other
    rw [citable.2 x inside] at apart
    cases apart
  · exact absurd other (by decide)

theorem citable_apart (citable : Citable k) {x : Char} (member : x ∈ k) : x ∉ ['^','[',']',' ','<','>'] := by
  have none : ['^','[',']',' ','<','>'].all (fun x => !CharSet.wordOrHyphen.contains x) = true := by decide
  intro other
  have apart := List.all_eq_true.mp none x other
  rw [citable.2 x member] at apart
  cases apart

variable {m : Match} {p : Pattern}

theorem cited_split (found : m ∈ p.occurrences (cited k)) {t : Text} (read : m.start.Reads t m.stop) :
    cited k = m.start.before.reverse ++ (t ++ m.stop.after) := by
  rw [← occurrences_text found,Cursor.text,read.1]

-- There is one opening bracket, and the key stands behind it.
theorem cited_bracket (citable : Citable k) {before rest : Text} (split : cited k = before ++ '[' :: rest) :
    rest = k ++ [']'] := by
  match before,split with
  | [],split => exact absurd (List.cons.inj split).1 (by decide)
  | [_],split => exact (List.cons.inj (List.cons.inj split).2).2.symm
  | _ :: _ :: before,split =>
    have inside : '[' ∈ k ++ [']'] := by
      rw [(List.cons.inj (List.cons.inj split).2).2]
      simp
    rcases List.mem_append.mp inside with member | member
    · exact absurd (citable_apart citable member) (by decide)
    · exact absurd member (by decide)

-- So what stands between brackets is the key.
theorem cited_bracketed (citable : Citable k) (found : m ∈ p.occurrences (cited k))
    (read : m.start.Reads ('[' :: (t ++ [']'])) m.stop) : t = k := by
  have behind := cited_bracket citable (cited_split found read)
  have closed : ']' ∉ k := fun member => citable_apart citable member (by decide)
  have same : k ++ ']' :: [] = t ++ ']' :: m.stop.after := by simpa using behind.symm
  exact ((List.append_cons_inj_of_notMem closed List.not_mem_nil).mp same).1.symm

theorem checkbox_passes (citable : Citable k) : checkbox.pattern.occurrences (cited k) = [] := by
  rw [List.eq_nil_iff_forall_not_mem]
  intro m found
  obtain ⟨way,isWay,same⟩ := mem_group.mp (occurrences_way found)
  have stop : m.stop = way.1 := congrArg Prod.fst same
  rcases List.mem_append.mp isWay with empty | blank
  · have read := (literal_reads empty).1
    rw [Text.ofString_ofList,← stop] at read
    exact citable.1 (cited_bracketed (t := []) citable found read).symm
  · have read := (literal_reads blank).1
    rw [Text.ofString_ofList,← stop] at read
    obtain rfl := cited_bracketed (t := [' ']) citable found read
    exact citable_apart citable (List.mem_singleton.mpr rfl) (by decide)

theorem checkedCheckbox_passes (citable : Citable k) (unchecked : k ∉ [['x'],['X']]) :
    checkedCheckbox.pattern.occurrences (cited k) = [] := by
  rw [List.eq_nil_iff_forall_not_mem]
  intro m found
  obtain ⟨way,isWay,same⟩ := mem_group.mp (occurrences_way found)
  have stop : m.stop = way.1 := congrArg Prod.fst same
  rcases List.mem_append.mp isWay with small | capital
  · have read := (literal_reads small).1
    rw [Text.ofString_ofList,← stop] at read
    obtain rfl := cited_bracketed (t := ['x']) citable found read
    exact unchecked (by simp)
  · have read := (literal_reads capital).1
    rw [Text.ofString_ofList,← stop] at read
    obtain rfl := cited_bracketed (t := ['X']) citable found read
    exact unchecked (by simp)

-- There is one caret.
theorem superscript_passes (citable : Citable k) : superscript.pattern.occurrences (cited k) = [] := by
  rw [List.eq_nil_iff_forall_not_mem]
  intro m found
  obtain ⟨mid,_,_,front,closed,_⟩ := seq_parts (occurrences_way found)
  obtain ⟨start,_,_,opened,body,_⟩ := seq_parts front
  obtain ⟨inner,read⟩ := ways_reads body
  have whole := cited_split found (((literal_reads opened).1.append read).append (literal_reads closed).1)
  have once : (cited k).count '^' = 1 := by
    have absent : k.count '^' = 0 := List.count_eq_zero.mpr fun member => citable_apart citable member (by decide)
    simp [cited,absent]
  rw [whole,show ("^" : Text) = ['^'] by rw [Text.ofString_eq]; rfl] at once
  simp only [List.count_append,List.count_singleton_self] at once
  omega

-- What begins with another character than the mark of the citation begins in the key or behind it.
theorem cited_inner {before rest : Text} {x : Char} (other : x ∉ ['^','[']) (split : cited k = before ++ x :: rest) :
    ∃ front, before = '^' :: '[' :: front ∧ k ++ [']'] = front ++ x :: rest := by
  match before,split with
  | [],split => exact absurd (List.cons.inj split).1.symm fun same => other (by simp [same])
  | [_],split =>
    exact absurd (List.cons.inj (List.cons.inj split).2).1.symm fun same => other (by simp [same])
  | _ :: _ :: front,split =>
    obtain ⟨caret,split⟩ := List.cons.inj split
    obtain ⟨bracket,split⟩ := List.cons.inj split
    exact ⟨front,by rw [← caret,← bracket],split⟩

-- Between underscores that are not next to a word stands what lies between the beginning of a word and the end of one.
theorem apart_passes (citable : Citable k) (unmarked : Unmarked k) {mark : Text} (more less : Text)
    (opens : mark = '_' :: more) (closes : mark = less ++ ['_']) : (betweenApart mark).occurrences (cited k) = [] := by
  rw [List.eq_nil_iff_forall_not_mem]
  intro m found
  obtain ⟨apartBefore,⟨inner,read⟩,apartBehind⟩ := apart_way (occurrences_way found)
  have text : mark ++ inner ++ mark = '_' :: ((more ++ inner ++ less) ++ ['_']) := by
    nth_rewrite 2 [closes]
    rw [opens]
    simp
  rw [text] at read
  have hyphen : ∀ x ∈ k, CharSet.word.contains x = false → x = '-' := by
    intro x member apart
    have allowed := citable.2 x member
    have other : Text.isWord x = false := apart
    simpa [CharSet.wordOrHyphen,Union.union,CharSet.contains,other] using allowed
  obtain ⟨front,before,split⟩ := cited_inner (by decide) (cited_split found read)
  rw [List.append_assoc] at split
  rcases List.eq_nil_or_concat m.stop.after with none | ⟨back,last,behind⟩
  · rw [none] at split
    have ends : k ++ [']'] = (front ++ '_' :: (more ++ inner ++ less)) ++ ['_'] := by simpa using split
    exact absurd (List.append_inj' ends rfl).2 (by decide)
  · rw [behind] at split apartBehind
    have ends : k ++ [']'] = (front ++ '_' :: ((more ++ inner ++ less) ++ '_' :: back)) ++ [last] := by simpa using split
    obtain ⟨whole,_⟩ := List.append_inj' ends rfl
    refine unmarked.even front _ back whole ?_ ?_
    · rcases List.eq_nil_or_concat front with none | ⟨others,x,rfl⟩
      · exact Or.inl none
      · have head : x ∈ m.start.before.head? := by
          rw [← List.reverse_reverse m.start.before,before]
          simp
        refine Or.inr ?_
        rw [hyphen x (by simp [whole]) (apartBefore x head)]
        simp
    · cases back with
      | nil => exact Or.inl rfl
      | cons x others =>
        refine Or.inr ?_
        rw [hyphen x (by simp [whole]) (apartBehind x rfl)]
        rfl

theorem standard_passes (citable : Citable k) (unmarked : Unmarked k) :
    ∀ c ∈ standard, c ≠ citation → c.pattern.occurrences (cited k) = [] := by
  intro c member other
  rcases standard_needs c member with few | ⟨x,isElsewhere,needed⟩
  · simp only [List.mem_cons,List.not_mem_nil,or_false] at few
    rcases few with rfl | rfl | rfl | rfl | rfl | rfl
    · exact apart_passes citable unmarked ['_'] ['_'] (Text.ofString_ofList ..) (Text.ofString_ofList ..)
    · exact apart_passes citable unmarked [] [] (Text.ofString_ofList ..) (Text.ofString_ofList ..)
    · exact superscript_passes citable
    · exact checkbox_passes citable
    · exact checkedCheckbox_passes citable unmarked.unchecked
    · exact absurd rfl other
  · exact needs_occurrences needed (elsewhere_absent citable x isElsewhere)

theorem citation_pattern : citation.pattern =
    literal ['^','['] ++ captured 1 (plus (.char CharSet.wordOrHyphen)) ++ literal [']'] := by
  rw [citation]
  repeat rw [Text.ofString_ofList]

-- A citation takes all that was written.
theorem citation_way {cur : Cursor} (citable : Citable k) (begins : cur.after = cited k) {way : Way}
    (found : way ∈ citation.pattern.ways cur) :
    way = (cur.past (cited k).length,[⟨1,cur.past 2,cur.past (2 + k.length)⟩]) := by
  rw [citation_pattern] at found
  obtain ⟨mid,front,last,closed,rfl⟩ := mem_seq.mp found
  obtain ⟨first,opened,body,isBody,rfl⟩ := mem_seq.mp front
  obtain ⟨opening,noneOpening⟩ := literal_reads opened
  obtain ⟨closing,noneClosing⟩ := literal_reads closed
  have isBody : (body.1,body.2) ∈ (captured 1 (plus (.char CharSet.wordOrHyphen))).ways first.1 := isBody
  obtain ⟨⟨t,read⟩,captures⟩ := group_parts rfl isBody
  have text : '^' :: '[' :: (k ++ ']' :: []) = '^' :: '[' :: (t ++ ']' :: last.1.after) := by
    have all := begins.symm.trans ((opening.append read).append closing).1
    simpa [cited] using all
  have shut : ']' ∉ k := fun member => citable_apart citable member (by decide)
  obtain ⟨rfl,_⟩ := (List.append_cons_inj_of_notMem shut List.not_mem_nil).mp
    (List.cons.inj (List.cons.inj text).2).2
  have start : first.1 = cur.past 2 := opening.eq_past
  have stop : body.1 = cur.past (2 + k.length) := by rw [read.eq_past,start,Cursor.past_past]
  have ended : last.1 = cur.past (cited k).length := by
    rw [closing.eq_past,stop,Cursor.past_past]
    exact congrArg cur.past (by simp [cited]; omega)
  rw [ended,noneClosing,noneOpening,captures,start,stop]
  rfl

theorem citation_takes {cur : Cursor} (citable : Citable k) (begins : cur.after = cited k) :
    citation.pattern.Takes cur (cited k) := by
  obtain ⟨x,more,rfl⟩ := List.exists_cons_of_ne_nil citable.1
  have open_ : cur.after = ['^','['] ++ (x :: more ++ [']']) := begins
  have key : (cur.past 2).after = x :: (more ++ [']']) := by rw [Cursor.past_after,open_]; rfl
  have behind : ((cur.past 2).past 1).after = more ++ [']'] := by rw [Cursor.past_after,key]; rfl
  have closed : (cur.past (['^','['] ++ (x :: more)).length).after = [']'] ++ [] := by
    rw [Cursor.past_after,open_,← List.append_assoc,List.drop_left,List.append_nil]
  have body : (plus (.char CharSet.wordOrHyphen)).Takes (cur.past 2) (x :: more) :=
    takes_plus (takes_char key (citable.2 x (List.mem_cons_self ..)))
      (takes_run behind fun y member => citable.2 y (List.mem_cons_of_mem _ member))
  rw [citation_pattern]
  exact ((takes_literal open_).seq (.group body)).seq (takes_literal closed)

theorem citation_head {cur : Cursor} (citable : Citable k) (begins : cur.after = cited k) :
    (citation.pattern.ways cur).head? = some (cur.past (cited k).length,[⟨1,cur.past 2,cur.past (2 + k.length)⟩]) :=
  (citation_takes citable begins).head fun _ found => citation_way citable begins found

end Inline

namespace Construct

open Draft Inline

variable {b : Bibliography} {settings : CompileSettings} {context : Context} {nuid : Option Text} {n : Nat} {d : Draft}

theorem citation_spans (citable : Citable k) : spansOf citation.name citation.pattern (.ofLive (cited k) .nothing nuid) =
    [(0,(cited k).length)] :=
  spansOf_alone (List.cons_ne_nil _ _) (visible_live _ _) fun _ begins => ⟨_,citation_head citable begins⟩

-- What a citation becomes.
def citationLink (key : Text) (number : Nat) : Part :=
  .fixed ("<a class=\"cite\" href=\"" ++ ('#' :: Bibliography.anchorOf key) ++ "\">" ++ Text.ofNat number ++ "</a>")

theorem citation_rewrites (citable : Citable k) (cites : settings.bibliography = some b) (known : b.numberOf? k = some n)
    (visible : d.visibleContent = cited k) : citation.rewriteMatch settings context d = pure [citationLink k n] := by
  obtain ⟨m,matched,captured⟩ : ∃ m, citation.pattern.matchAt? (.start d.visibleContent) = some m ∧ m.group 1 = k := by
    rw [visible]
    refine ⟨_,by rw [Pattern.matchAt_head,citation_head citable rfl]; rfl,?_⟩
    show ((Cursor.start (cited k)).past 2).textTo ((Cursor.start (cited k)).past (2 + k.length)) = k
    have begins : ((Cursor.start (cited k)).past 2).after = k ++ [']'] := rfl
    rw [← Cursor.past_past]
    exact (Cursor.Reads.of_after begins).textTo
  have number : (settings.bibliography.bind (·.numberOf? k)) = some n := by rw [cites]; exact known
  have href : Html.escapeAttribute (Bibliography.linkTo k).build = '#' :: Bibliography.anchorOf k := Link.escaped_anchor _ _
  rw [rewriteMatch,Pattern.search_start matched]
  show Rewriting.citation ⟨citation,settings,context,d,m⟩ = _
  rw [Rewriting.citation]
  simp only [captured,number,href]
  rfl

theorem apply_passed {c : Construct} (none : c.pattern.occurrences (visibleContentOf (some c.name) d.parts) = []) :
    c.apply settings context d = pure d := by
  rw [apply,applyAt,spansOf,none]
  rfl

theorem apply_cited (citable : Citable k) (cites : settings.bibliography = some b) (known : b.numberOf? k = some n) :
    (citation.apply settings context (.ofLive (cited k) .nothing nuid)).outcome = .ok ⟨[citationLink k n],nuid,none⟩ := by
  have rewrites : citation.rewriteMatch settings context ⟨[.live (cited k) .nothing],nuid,some citation.name⟩ =
      pure [citationLink k n] := citation_rewrites citable cites known (visible_live _ _)
  rw [apply,citation_spans citable]
  exact applyAt_alone (List.cons_ne_nil _ _) (List.forall_mem_nil _) (List.forall_mem_nil _) rewrites

theorem applyEach_cited {constructs : List Construct} (citable : Citable k) (unmarked : Unmarked k)
    (others : ∀ c ∈ constructs, c ∈ standard ∧ c ≠ citation) (later : List Construct) :
    applyEach settings context (constructs ++ later) (.ofLive (cited k) .nothing nuid) =
      applyEach settings context later (.ofLive (cited k) .nothing nuid) := by
  induction constructs with
  | nil => rfl
  | cons c constructs ih =>
    obtain ⟨⟨member,other⟩,others⟩ := List.forall_mem_cons.mp others
    rw [List.cons_append]
    by_cases excluded : settings.excluded.contains c.name = true
    · rw [applyEach_skipped excluded,ih others]
    · have passes : c.pattern.occurrences (visibleContentOf (some c.name) (Draft.ofLive (cited k) .nothing nuid).parts) = [] := by
        rw [ofLive,visible_live]
        exact standard_passes citable unmarked c member other
      rw [applyEach_applied excluded,apply_passed passes,pure_bind,ih others]

theorem compile_cited (citable : Citable k) (unmarked : Unmarked k) (cites : settings.bibliography = some b)
    (included : settings.excluded.contains citation.name = false) (known : b.numberOf? k = some n) :
    ((Draft.ofLive (cited k) .nothing nuid).compile standard settings context).outcome =
      .ok ⟨[citationLink k n],nuid,none⟩ := by
  have some : settings.excluded ≠ .everything := by
    intro all
    rw [all] at included
    cases included
  have last : standard = standard.dropLast ++ [citation] := rfl
  have others : ∀ c ∈ standard.dropLast, c ∈ standard ∧ c ≠ citation := by
    have apart : standard.dropLast.all (· != citation) = true := by decide
    intro c member
    exact ⟨(List.dropLast_sublist _).subset member,by simpa using List.all_eq_true.mp apart c member⟩
  rw [Draft.compile,if_neg some,last,applyEach_cited citable unmarked others,applyEach_applied (by simp [included])]
  exact Logged.outcome_bind_ok.mpr ⟨_,apply_cited citable cites known,rfl⟩

end Construct

namespace Bibliography

open Construct Inline

variable {b : Bibliography} {compiler : Compiler}

/-- What compiling the bibliography emits around the items. -/
structure Emits (b : Bibliography) (draft : Draft) (items : List Part) : Prop where
  made : itemParts b.records = .ok items
  layout : ∃ title, draft.parts = .fixed "<section class=\"bibliography\"><div class=\"bibliography-title\">" :: title ++
    [.fixed "</div><ul class=\"bibliography-body\">"] ++ items ++ [.fixed "</ul></section>"]

theorem compile_emits {draft : Draft} (run : (b.compile compiler).outcome = .ok draft) : ∃ items, b.Emits draft items := by
  obtain ⟨title,_,run⟩ := Logged.outcome_bind_ok.mp run
  obtain ⟨items,made,run⟩ := Logged.outcome_bind_ok.mp run
  obtain ⟨_,_,same⟩ := Logged.outcome_bind_ok.mp run
  cases same
  exact ⟨items,made,title.parts,rfl⟩

/-- A citation of the key with index `place` is a link with its number. The item with that number is that of the key's
record and has the link's target, and it is the first one to have it unless an earlier key is normalised alike. -/
structure Leads (compiler : Compiler) (b : Bibliography) (k : Text) (place : Nat) : Prop where
  numbered : b.numberOf? k = some (place + 1)
  linked : (compiler.inlineText (cited k)).outcome = .ok ⟨[citationLink k (place + 1)],none,none⟩
  emitted : ∀ draft, (b.compile compiler).outcome = .ok draft → ∃ items record item, b.Emits draft items ∧
    items.length = b.records.length ∧ b.record? k = some record ∧ itemText k record = .ok item ∧
    items[place]? = some (.fixed item) ∧ itemId? (.fixed item) = some (anchorOf k) ∧
    (items.findIdx? (fun part => itemId? part == some (anchorOf k)) = some place ↔
      ∀ other ∈ b.keys.take place, Anchor.normalise other ≠ Anchor.normalise k)

theorem escape_cited (citable : Citable k) : Html.escape (cited k) = cited k := by
  refine Html.escape_plain fun x member => ?_
  simp only [cited,List.mem_cons,List.mem_append,List.not_mem_nil,or_false] at member
  rcases member with rfl | rfl | inside | rfl
  · decide
  · decide
  · exact fun angle => citable_apart citable inside (by simp_all [Html.brackets])
  · decide

theorem citation_leads (standard : compiler.constructs = standard) (cites : compiler.settings.bibliography = some b)
    (included : compiler.settings.excluded.contains citation.name = false) (member : k ∈ b.keys) (citable : Citable k)
    (unmarked : Unmarked k) : ∃ place, Leads compiler b k place := by
  obtain ⟨place,found⟩ : ∃ place, b.keys.findIdx? (· == k) = some place := by
    rw [← Option.isSome_iff_exists,List.findIdx?_isSome,List.any_eq_true]
    exact ⟨k,member,beq_self_eq_true k⟩
  have known : b.numberOf? k = some (place + 1) := by rw [numberOf?,found]; rfl
  obtain ⟨record,here,looked⟩ := record_place found
  refine ⟨place,known,?_,?_⟩
  · rw [Compiler.inlineText,Compiler.inline,escape_cited citable,standard]
    exact compile_cited citable unmarked cites included known
  · intro draft run
    obtain ⟨items,emits⟩ := compile_emits run
    obtain ⟨length,each⟩ := List.forall₂_iff_get.mp (itemParts_made emits.made)
    obtain ⟨inside,same⟩ := List.getElem?_eq_some_iff.mp here
    obtain ⟨item,made,place⟩ := each place inside (length ▸ inside)
    rw [List.get_eq_getElem,same] at made
    refine ⟨items,record,item,emits,length.symm,looked,made,?_,itemText_id made,first_item emits.made found⟩
    exact List.getElem?_eq_some_iff.mpr ⟨length ▸ inside,place⟩

def untold (title : Text) : BibliographyRecord :=
  ⟨title,none,.null,.null,.null⟩

def twoEditions : Bibliography :=
  ofList "Bibliography" [(['A','b'],untold "First"),(['a','b'],untold "Second"),(['b','_','1','-','c'],untold "Third")]

def citing (b : Bibliography) : Compiler :=
  ⟨Inline.standard,{ bibliography := some b },⟨none,none⟩,⟨⟨[],[]⟩,[]⟩⟩

theorem citation_leads_third : ['b','_','1','-','c'] ∈ twoEditions.keys ∧ Citable ['b','_','1','-','c'] ∧
    Unmarked ['b','_','1','-','c'] ∧ Leads (citing twoEditions) twoEditions ['b','_','1','-','c'] 2 := by
  have member : ['b','_','1','-','c'] ∈ twoEditions.keys := by decide +kernel
  have citable : Citable ['b','_','1','-','c'] := .of_all (by decide) (by decide +kernel)
  have unmarked : Unmarked ['b','_','1','-','c'] := by
    refine ⟨by decide,fun front middle back whole => ?_⟩
    have once := congrArg (List.count '_') whole
    simp at once
    omega
  obtain ⟨place,leads⟩ := citation_leads (show (citing twoEditions).constructs = standard from rfl) rfl rfl member citable
    unmarked
  have third : twoEditions.numberOf? ['b','_','1','-','c'] = some 3 := by decide +kernel
  obtain rfl : place = 2 := by simpa [third] using leads.numbered.symm
  exact ⟨member,citable,unmarked,leads⟩

-- Keys that differ in case: the second one's citation leads to the first record.
theorem citation_misleads : ¬ ∀ (compiler : Compiler) (b : Bibliography) (k : Text) (items : List Part),
    compiler.constructs = standard → compiler.settings.bibliography = some b → k ∈ b.keys → Citable k →
    itemParts b.records = .ok items → ∃ place, b.numberOf? k = some (place + 1) ∧
      (compiler.inlineText (cited k)).outcome = .ok ⟨[citationLink k (place + 1)],none,none⟩ ∧
      items.findIdx? (fun part => itemId? part == some (anchorOf k)) = some place := by
  intro all
  have member : ['a','b'] ∈ twoEditions.keys := by decide +kernel
  have emitted : ∃ items, itemParts twoEditions.records = .ok items ∧
      items.findIdx? (fun part => itemId? part == some (anchorOf ['a','b'])) = some 0 := ⟨_,rfl,by decide +kernel⟩
  have second : twoEditions.numberOf? ['a','b'] = some 2 := by decide +kernel
  obtain ⟨items,made,first⟩ := emitted
  obtain ⟨place,known,_,found⟩ := all (citing twoEditions) twoEditions ['a','b'] items rfl rfl member
    (.of_all (by decide) (by decide +kernel)) made
  rw [second] at known
  rw [first] at found
  cases found
  cases known

end Bibliography
end LightMarkup
