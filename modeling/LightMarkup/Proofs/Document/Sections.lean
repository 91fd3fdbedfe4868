import LightMarkup.Document.Compile
import LightMarkup.Proofs.Construct.Completing
import LightMarkup.Proofs.Html.Entities
import LightMarkup.Proofs.Paragraph.Lines

/-!
The section that a chapter opens. Its tags become one embedded style, which is taken apart again at semicolons and colons:
declarations are read as they were, and a class as a class unless it holds a colon.
-/

namespace LightMarkup

namespace Text

theorem wordsWith_solid (t : Text) : (∀ c ∈ (wordsWith t).1, isBlank c = false ∧ c ∈ t) ∧
    ∀ word ∈ (wordsWith t).2, word ≠ [] ∧ ∀ c ∈ word, isBlank c = false ∧ c ∈ t := by
  induction t with
  | nil => exact ⟨List.forall_mem_nil _,List.forall_mem_nil _⟩
  | cons c t ih =>
    obtain ⟨first,others⟩ := ih
    have first : ∀ x ∈ (wordsWith t).1, isBlank x = false ∧ x ∈ c :: t :=
      fun x member => ⟨(first x member).1,List.mem_cons_of_mem _ (first x member).2⟩
    have others : ∀ word ∈ (wordsWith t).2, word ≠ [] ∧ ∀ x ∈ word, isBlank x = false ∧ x ∈ c :: t :=
      fun word member => ⟨(others word member).1,fun x inside =>
        ⟨((others word member).2 x inside).1,List.mem_cons_of_mem _ ((others word member).2 x inside).2⟩⟩
    unfold wordsWith
    dsimp only
    cases blank : isBlank c with
    | true =>
      refine ⟨List.forall_mem_nil _,?_⟩
      cases word : (wordsWith t).1 with
      | nil => exact others
      | cons x rest =>
        rw [word] at first
        exact List.forall_mem_cons.mpr ⟨⟨List.cons_ne_nil _ _,first⟩,others⟩
    | false => exact ⟨List.forall_mem_cons.mpr ⟨⟨blank,List.mem_cons_self ..⟩,first⟩,others⟩

theorem words_solid {t word : Text} (member : word ∈ words t) :
    word ≠ [] ∧ ∀ c ∈ word, isBlank c = false ∧ c ∈ t := by
  obtain ⟨first,others⟩ := wordsWith_solid t
  unfold words at member
  dsimp only at member
  split at member
  · exact others word member
  · rename_i some
    rcases List.mem_cons.mp member with rfl | member
    · exact ⟨by simpa using some,first⟩
    · exact others word member

theorem words_single {word : Text} (some : word ≠ []) (solid : ∀ c ∈ word, isBlank c = false) : words word = [word] := by
  have whole : ∀ {u : Text}, (∀ c ∈ u, isBlank c = false) → wordsWith u = (u,[]) := by
    intro u solid
    induction u with
    | nil => rfl
    | cons c u ih =>
      obtain ⟨here,later⟩ := List.forall_mem_cons.mp solid
      simp [wordsWith,ih later,here]
  rw [words,whole solid]
  simp [some]

theorem mem_trim {c : Char} (solid : isBlank c = false) {t : Text} (member : c ∈ t) : c ∈ trim t := by
  obtain ⟨lead,blankLead,split⟩ := trimStart_split t
  obtain ⟨trail,blankTrail,rest⟩ := trimEnd_split (trimStart t)
  rw [split,rest,List.mem_append,List.mem_append] at member
  rcases member with inLead | inside | inTrail
  · rw [blankLead c inLead] at solid
    cases solid
  · exact inside
  · rw [blankTrail c inTrail] at solid
    cases solid

-- Between the pieces of a joined text nothing is left but the blank behind each separator.
theorem splitAtChar_join {c x : Char} (blank : isBlank x = true) {pieces : List Text} (free : ∀ piece ∈ pieces, c ∉ piece)
    (other : x ≠ c) :
    ((splitAtChar c (join [c,x] pieces)).map trim).filter (!·.isEmpty) = (pieces.map trim).filter (!·.isEmpty) := by
  have spaced : ∀ piece : Text, trim (x :: piece) = trim piece := fun piece =>
    trim_lead (List.forall_mem_singleton.mpr blank) piece
  have behind : ∀ {rest : List Text} (piece : Text), c ∉ piece → (∀ piece ∈ rest, c ∉ piece) →
      splitAtChar c (piece ++ rest.flatMap ([c,x] ++ ·)) = piece :: rest.map (x :: ·) := by
    intro rest
    induction rest with
    | nil =>
      intro piece free _
      rw [List.flatMap_nil,List.append_nil,splitAtChar_free free]
      rfl
    | cons next rest ih =>
      intro piece free others
      obtain ⟨isFree,others⟩ := List.forall_mem_cons.mp others
      have spacedFree : c ∉ x :: next := by simp [Ne.symm other,isFree]
      rw [List.flatMap_cons,List.append_assoc]
      exact (splitAtChar_append free _).trans (congrArg (piece :: ·) (ih (x :: next) spacedFree others))
  cases pieces with
  | nil => rfl
  | cons piece rest =>
    obtain ⟨isFree,others⟩ := List.forall_mem_cons.mp free
    rw [join_cons,behind piece isFree others,List.map_cons,List.map_map,List.map_cons]
    exact congrArg (fun trimmed => (trim piece :: trimmed).filter (!·.isEmpty)) (List.map_congr_left fun piece _ => spaced piece)

end Text

namespace Html

theorem styleItems_join {pieces : List Text} (free : ∀ piece ∈ pieces, ';' ∉ piece) :
    styleItems (Text.join "; " pieces) = ((pieces.map Text.trim).filter (!·.isEmpty)).map StyleItem.ofText := by
  rw [styleItems,Text.ofString_ofList,Text.splitAtChar_join rfl free (by decide)]

-- A class is written behind a dot, and more dots before it are dropped.
def className (word : Text) : Text :=
  word.dropWhile (· == '.')

def classNames (words : List Text) : List Text :=
  (words.map className).filter (!·.isEmpty)

def hasColon (t : Text) : Bool :=
  t.contains ':'

theorem ofText_declaration {item : Text} (colon : hasColon item = true) : StyleItem.ofText item = .declaration item :=
  if_pos colon

-- Without a colon it is read back as the class that it was written for.
theorem ofText_class {word : Text} (solid : ∀ c ∈ word, Text.isBlank c = false)
    (colon : hasColon word = false) : StyleItem.ofText ('.' :: word) = .classes [className word] := by
  have dotted : ('.' :: word).contains ':' = false := by simpa [hasColon] using colon
  have single : Text.words ('.' :: word) = ['.' :: word] :=
    Text.words_single (List.cons_ne_nil _ _) (List.forall_mem_cons.mpr ⟨rfl,solid⟩)
  rw [StyleItem.ofText,if_neg (by rw [dotted]; exact Bool.false_ne_true),single]
  rfl

theorem declarationsOf_append (items others : List StyleItem) :
    declarationsOf (items ++ others) = declarationsOf items ++ declarationsOf others :=
  List.filterMap_append

theorem classesOf_append (items others : List StyleItem) : classesOf (items ++ others) = classesOf items ++ classesOf others :=
  List.flatMap_append

theorem declarations_items {declarations : List Text} (colons : ∀ item ∈ declarations, hasColon item = true) :
    declarationsOf (declarations.map StyleItem.ofText) = declarations ∧ classesOf (declarations.map StyleItem.ofText) = [] := by
  induction declarations with
  | nil => exact ⟨rfl,rfl⟩
  | cons item rest ih =>
    obtain ⟨here,later⟩ := List.forall_mem_cons.mp colons
    obtain ⟨declarations,classes⟩ := ih later
    rw [List.map_cons,ofText_declaration here]
    exact ⟨congrArg (item :: ·) declarations,classes⟩

-- A word with a colon is taken for a declaration.
theorem words_items {words : List Text} (solid : ∀ word ∈ words, ∀ c ∈ word, Text.isBlank c = false) :
    declarationsOf ((words.map ('.' :: ·)).map StyleItem.ofText) = (words.filter hasColon).map ('.' :: ·) ∧
      classesOf ((words.map ('.' :: ·)).map StyleItem.ofText) = (words.filter (!hasColon ·)).map className := by
  induction words with
  | nil => exact ⟨rfl,rfl⟩
  | cons word rest ih =>
    obtain ⟨isSolid,later⟩ := List.forall_mem_cons.mp solid
    obtain ⟨declarations,classes⟩ := ih later
    rw [List.map_cons,List.map_cons]
    cases colon : hasColon word with
    | true =>
      have dotted : hasColon ('.' :: word) = true := by simpa [hasColon] using colon
      rw [ofText_declaration dotted,List.filter_cons_of_pos colon,List.filter_cons_of_neg (by simp [colon])]
      exact ⟨congrArg (('.' :: word) :: ·) declarations,classes⟩
    | false =>
      rw [ofText_class isSolid colon,List.filter_cons_of_neg (by simp [colon]),List.filter_cons_of_pos (by simp [colon])]
      exact ⟨declarations,congrArg (className word :: ·) classes⟩

theorem styleAttributes_read {base style : Text} {classes declarations : List Text} (proper : base ≠ [])
    (isClasses : classesOf (styleItems style) = classes) (isDeclarations : declarationsOf (styleItems style) = declarations) :
    styleAttributes base (some style) =
      attr "class" (escapeAttribute (Text.join " " (base :: classes.filter (!·.isEmpty))))
        ++ if declarations.isEmpty then [] else attr "style" (escapeAttribute (Text.join "; " declarations) ++ ";") := by
  subst isClasses isDeclarations
  simp [styleAttributes,proper]

-- An opening tag of a section, with a style attribute if there are declarations.
def sectionOpening (classes declarations : List Text) : Text :=
  "<section" ++ (attr "class" (escapeAttribute (Text.join " " ("chapter" :: classes)))
    ++ (if declarations.isEmpty then [] else attr "style" (escapeAttribute (Text.join "; " declarations) ++ ";"))) ++ ">"

-- Escaping writes no space.
theorem escapeAttribute_spaces (t : Text) : (escapeAttribute t).count ' ' = t.count ' ' := by
  have spaceless : ∀ held ∈ entities, held.2 ≠ ' ' ∧ ∀ u : Text, ('&' :: (held.1 ++ ';' :: u)).count ' ' = u.count ' ' := by
    simp [entities]
  induction t with
  | nil => rfl
  | cons c t ih =>
    rcases escapeAttribute_cons c t with ⟨_,same⟩ | ⟨rfl,_,same⟩ | ⟨word,known,_,same⟩
    · rw [same,List.count_cons,List.count_cons,ih]
    · rw [same,List.count_cons,List.count_cons,ih]
    · obtain ⟨other,none⟩ := spaceless _ known
      rw [same,none,List.count_cons_of_ne other,ih]

theorem join_spaces {word : Text} {words : List Text} (free : ∀ t ∈ word :: words, ' ' ∉ t) :
    (Text.join " " (word :: words)).count ' ' = words.length := by
  obtain ⟨here,others⟩ := List.forall_mem_cons.mp free
  rw [Text.join_cons,Text.ofString_ofList,List.count_append,List.count_eq_zero.mpr here,Nat.zero_add]
  induction words with
  | nil => rfl
  | cons next words ih =>
    obtain ⟨isFree,others⟩ := List.forall_mem_cons.mp others
    rw [List.flatMap_cons,List.count_append,ih (List.forall_mem_cons.mpr ⟨here,others⟩) others,List.count_append,
      List.count_eq_zero.mpr isFree,List.length_cons]
    simp [Nat.add_comm]

-- How many classes there are is seen in the tag.
theorem sectionOpening_classes {classes others declarations otherwise : List Text} (free : ∀ t ∈ classes, ' ' ∉ t)
    (free' : ∀ t ∈ others, ' ' ∉ t) (same : sectionOpening classes declarations = sectionOpening others otherwise) :
    classes.length = others.length := by
  have base : ' ' ∉ Text.ofString "chapter" := by rw [Text.ofString_ofList]; decide
  have quote : Text.ofString "\"" = ['"'] := by rw [Text.ofString_ofList]
  have quoteless : ∀ t : Text, '"' ∉ escapeAttribute t := fun t member => (escapeAttribute_quiet t _ member).2.2 rfl
  simp only [sectionOpening,attr,List.append_assoc,List.append_cancel_left_eq,quote,List.cons_append,List.nil_append] at same
  have values := (Text.ends_once (quoteless _) (quoteless _) same).1
  calc
    classes.length = (Text.join " " ("chapter" :: classes)).count ' ' :=
      (join_spaces (List.forall_mem_cons.mpr ⟨base,free⟩)).symm
    _ = (escapeAttribute (Text.join " " ("chapter" :: classes))).count ' ' := (escapeAttribute_spaces _).symm
    _ = (escapeAttribute (Text.join " " ("chapter" :: others))).count ' ' := congrArg (List.count ' ') values
    _ = (Text.join " " ("chapter" :: others)).count ' ' := escapeAttribute_spaces _
    _ = others.length := join_spaces (List.forall_mem_cons.mpr ⟨base,free'⟩)

-- A word with a colon does not consist of dots, so it has a name.
theorem classNames_length (words : List Text) :
    (classNames words).length = (classNames (words.filter (!hasColon ·))).length + (words.filter hasColon).length := by
  induction words with
  | nil => rfl
  | cons word words ih =>
    cases colon : hasColon word with
    | true =>
      have named : (className word).isEmpty = false := by
        cases none : className word with
        | cons c rest => rfl
        | nil =>
          have dots := List.dropWhile_eq_nil_iff.mp none ':' (by simpa [hasColon] using colon)
          exact absurd dots (by decide)
      rw [List.filter_cons_of_pos colon,List.filter_cons_of_neg (by simp [colon]),List.length_cons,← Nat.add_assoc,← ih]
      simp [classNames,named]
    | false =>
      have plain : (word :: words).filter hasColon = words.filter hasColon := List.filter_cons_of_neg (by simp [colon])
      rw [plain,List.filter_cons_of_pos (by simp [colon])]
      simp only [classNames] at ih ⊢
      rw [List.map_cons,List.map_cons,List.filter_cons,List.filter_cons]
      split
      · rw [List.length_cons,List.length_cons,ih]
        omega
      · exact ih

theorem classNames_free {words : List Text} (solid : ∀ word ∈ words, ∀ c ∈ word, Text.isBlank c = false) :
    ∀ t ∈ classNames words, ' ' ∉ t := by
  intro t member inside
  obtain ⟨word,isWord,rfl⟩ := List.mem_map.mp (List.mem_filter.mp member).1
  have blank := solid word isWord ' ' ((List.dropWhile_sublist _).subset inside)
  exact absurd blank (by decide)

end Html

namespace Chapter

open Html

-- The words of the class tags, and what the style tags declare.
def classWords (chapter : Chapter) : List Text :=
  (chapter.valuesOf .styleClass).flatMap Text.words

def declarations (chapter : Chapter) : List Text :=
  (chapter.valuesOf .style).map Text.trim

-- Style tags are declarations, and no tag holds a separator of items.
structure Styled (chapter : Chapter) : Prop where
  declared : ∀ value ∈ chapter.valuesOf .style, ':' ∈ value ∧ ';' ∉ value
  classed : ∀ value ∈ chapter.valuesOf .styleClass, ';' ∉ value

variable {chapter : Chapter}

theorem classWords_solid (styled : chapter.Styled) :
    ∀ word ∈ chapter.classWords, word ≠ [] ∧ (∀ c ∈ word, Text.isBlank c = false) ∧ ';' ∉ word := by
  intro word member
  obtain ⟨value,isValue,member⟩ := List.mem_flatMap.mp member
  obtain ⟨some,solid⟩ := Text.words_solid member
  exact ⟨some,fun c inside => (solid c inside).1,fun inside => styled.classed value isValue (solid _ inside).2⟩

theorem declarations_colon (styled : chapter.Styled) : ∀ item ∈ chapter.declarations, hasColon item = true := by
  intro item member
  obtain ⟨value,isValue,rfl⟩ := List.mem_map.mp member
  have inside := Text.mem_trim (show Text.isBlank ':' = false by decide) (styled.declared value isValue).1
  simpa [hasColon] using inside

theorem style_items (styled : chapter.Styled) : styleItems (Compiler.chapterStyle chapter) =
    chapter.declarations.map StyleItem.ofText ++ (chapter.classWords.map ('.' :: ·)).map StyleItem.ofText := by
  have dotted : (chapter.valuesOf .styleClass).flatMap (fun value => (Text.words value).map fun word => '.' :: word) =
      chapter.classWords.map ('.' :: ·) := by
    rw [classWords,List.map_flatMap]
  have free : ∀ piece ∈ chapter.valuesOf .style ++ chapter.classWords.map ('.' :: ·), ';' ∉ piece := by
    refine List.forall_mem_append.mpr ⟨fun value member => (styled.declared value member).2,?_⟩
    intro piece member
    obtain ⟨word,isWord,rfl⟩ := List.mem_map.mp member
    simpa using (classWords_solid styled word isWord).2.2
  have trimmed : (chapter.classWords.map ('.' :: ·)).map Text.trim = chapter.classWords.map ('.' :: ·) := by
    rw [List.map_map]
    refine List.map_congr_left fun word member => ?_
    obtain ⟨some,solid,_⟩ := classWords_solid styled word member
    obtain ⟨v,last,ends⟩ := (List.eq_nil_or_concat word).resolve_left some
    rw [List.concat_eq_append] at ends
    have dotted : '.' :: word = ('.' :: v) ++ [last] := by rw [ends,List.cons_append]
    exact Text.trim_solid (t := '.' :: word) rfl rfl dotted (solid last (by rw [ends]; simp))
  have kept : ∀ piece ∈ chapter.declarations ++ chapter.classWords.map ('.' :: ·), (!piece.isEmpty) = true := by
    refine List.forall_mem_append.mpr ⟨fun item member => ?_,fun piece member => ?_⟩
    · have colon := declarations_colon styled item member
      cases item with
      | nil => cases colon
      | cons c rest => rfl
    · obtain ⟨word,_,rfl⟩ := List.mem_map.mp member
      rfl
  rw [Compiler.chapterStyle,dotted,styleItems_join free,List.map_append,trimmed,← declarations,List.filter_eq_self.mpr kept,
    List.map_append]

theorem style_attributes (styled : chapter.Styled) :
    "<section" ++ styleAttributes "chapter" (some (Compiler.chapterStyle chapter)) ++ ">" =
      sectionOpening (classNames (chapter.classWords.filter (!hasColon ·)))
        (chapter.declarations ++ (chapter.classWords.filter hasColon).map ('.' :: ·)) := by
  have solid : ∀ word ∈ chapter.classWords, ∀ c ∈ word, Text.isBlank c = false :=
    fun word member => (classWords_solid styled word member).2.1
  obtain ⟨declared,unclassed⟩ := declarations_items (declarations_colon styled)
  obtain ⟨colons,classes⟩ := words_items solid
  have proper : Text.ofString "chapter" ≠ [] := by rw [Text.ofString_ofList]; exact List.cons_ne_nil _ _
  rw [sectionOpening,styleAttributes_read proper (by rw [style_items styled,classesOf_append,unclassed,classes,List.nil_append])
    (by rw [style_items styled,declarationsOf_append,declared,colons])]
  rfl

end Chapter

namespace Compiler

open Html

variable {compiler : Compiler} {c : Chapter} {draft : Draft}

theorem chapter_opening (run : (compiler.chapter c).outcome = .ok draft) : draft.parts.head? =
    some (.fixed ("<section" ++ styleAttributes "chapter" (some (chapterStyle c)) ++ ">")) := by
  obtain ⟨heading,_,run⟩ := Logged.outcome_bind_ok.mp run
  obtain ⟨body,_,same⟩ := Logged.outcome_bind_ok.mp run
  cases same
  rfl

-- The classes are the words without a colon and the declarations those of the style tags, but every word with a colon
-- is one more declaration, behind the dot of a class. So the section is the one that was asked for if and only if there is
-- no such word.
theorem section_opened (styled : c.Styled) (run : (compiler.chapter c).outcome = .ok draft) :
    draft.parts.head? = some (.fixed (sectionOpening (classNames (c.classWords.filter (!hasColon ·)))
        (c.declarations ++ (c.classWords.filter hasColon).map ('.' :: ·)))) ∧
      (draft.parts.head? = some (.fixed (sectionOpening (classNames c.classWords) c.declarations)) ↔
        ∀ word ∈ c.classWords, ':' ∉ word) := by
  have opened := chapter_opening run
  rw [Chapter.style_attributes styled] at opened
  refine ⟨opened,?_⟩
  rw [opened]
  constructor
  case mp =>
    intro same word member colon
    have solid : ∀ word ∈ c.classWords, ∀ x ∈ word, Text.isBlank x = false :=
      fun word member => (Chapter.classWords_solid styled word member).2.1
    have count := sectionOpening_classes
      (classNames_free fun word member => solid word (List.mem_filter.mp member).1) (classNames_free solid)
      (Part.fixed.inj (Option.some.inj same))
    rw [classNames_length c.classWords] at count
    have none : (c.classWords.filter hasColon).length = 0 := by omega
    have here : word ∈ c.classWords.filter hasColon := List.mem_filter.mpr ⟨member,by simpa [hasColon] using colon⟩
    rw [List.length_eq_zero_iff.mp none] at here
    cases here
  case mpr =>
    intro colonless
    have all : ∀ word ∈ c.classWords, (!hasColon word) = true := by
      intro word member
      simpa [hasColon] using colonless word member
    have none : c.classWords.filter hasColon = [] :=
      List.filter_eq_nil_iff.mpr fun word member => by simpa using all word member
    rw [List.filter_eq_self.mpr all,none,List.map_nil,List.append_nil]

-- The standard constructs in a document with a name.
def inDoc : Compiler :=
  ⟨Inline.standard,{},⟨some "doc",none⟩,⟨⟨[],[]⟩,[]⟩⟩

theorem inDoc_compiles (bare : c.paragraphs = []) : ∃ draft, (inDoc.chapter c).outcome = .ok draft := by
  have lenient : inDoc.settings.Lenient := ⟨rfl,rfl,rfl⟩
  have named : Nameless (some "doc") (inDoc.inlineText c.heading.title).outcome :=
    Draft.compile_nameless lenient (List.Subset.refl _) _
  cases ran : (inDoc.inlineText c.heading.title).outcome with
  | error failure => cases (named failure ran).1
  | ok title =>
    exact ⟨_,Logged.outcome_bind_ok.mpr ⟨_,Logged.outcome_bind_ok.mpr ⟨title,ran,rfl⟩,
      Logged.outcome_bind_ok.mpr ⟨[],by rw [bare]; rfl,rfl⟩⟩⟩

def tagged (tags : List ChapterTag) : Chapter where
  heading := { level := 1, title := "T" }
  tags := tags
  paragraphs := []

def coloured : Chapter :=
  tagged [⟨.styleClass,some "wide ..note ."⟩,⟨.style,some " color: red "⟩,⟨.author,some "a:b"⟩,⟨.style,some "top:0"⟩]

theorem section_opened_coloured : coloured.Styled ∧ ∃ draft, (inDoc.chapter coloured).outcome = .ok draft ∧
    draft.parts.head? = some (.fixed "<section class=\"chapter wide note\" style=\"color: red; top:0;\">") := by
  have styled : coloured.Styled := by
    constructor <;> decide_cbv
  obtain ⟨draft,run⟩ := inDoc_compiles (c := coloured) rfl
  obtain ⟨opened,_⟩ := section_opened styled run
  refine ⟨styled,draft,run,opened.trans ?_⟩
  cbv

def hovering : Chapter :=
  tagged [⟨.styleClass,some "hover:red"⟩]

-- The class `hover:red` is in the style.
theorem colon_declares : ¬ ∀ (compiler : Compiler) (c : Chapter) (draft : Draft), c.Styled →
    (compiler.chapter c).outcome = .ok draft →
      draft.parts.head? = some (.fixed (sectionOpening (classNames c.classWords) c.declarations)) := by
  intro all
  have styled : hovering.Styled := by
    constructor <;> decide_cbv
  obtain ⟨draft,run⟩ := inDoc_compiles (c := hovering) rfl
  have same := (chapter_opening run).symm.trans (all inDoc hovering draft styled run)
  revert same
  decide_cbv

end Compiler

end LightMarkup
