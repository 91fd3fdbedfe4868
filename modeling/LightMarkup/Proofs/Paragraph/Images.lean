import LightMarkup.Paragraph.Image
import LightMarkup.Proofs.Paragraph.Items

/-!
Images as they are written and as they are read. An image is an abridged one or has a caption, and no text is both: behind the
first round bracket that closes stands a square one in the first kind of text and none in the second, unless that round
bracket is in the caption. What is read is therefore what was written.
-/

namespace LightMarkup

open Pattern

-- An image that can be written; one without a caption is abridged.
structure WrittenImage where
  caption : Option Text
  source : Text
  identifier : Option Text
  style : Option Text
  captionFree : ∀ t ∈ caption, ∀ x ∈ t, x ≠ ']' ∧ x ≠ '\n'
  sourceSome : source ≠ []
  sourceFree : ∀ x ∈ source, x ≠ ')' ∧ x ≠ '\n'
  identifierSome : ∀ t ∈ identifier, t ≠ []
  identifierWord : ∀ t ∈ identifier, ∀ x ∈ t, CharSet.wordOrHyphen.contains x = true
  styleFree : ∀ t ∈ style, ∀ x ∈ t, x ≠ '\x7b' ∧ x ≠ '\x7d'

namespace Image

variable {s caption caption' source source' : Text} {identifier identifier' style style' : Option Text} {c : Cursor} {n : Nat}

def identifierText : Option Text → Text
  | none => []
  | some word => '#' :: word

def styleText : Option Text → Text
  | none => []
  | some style => '\x7b' :: '\x7b' :: (style ++ ['\x7d','\x7d'])

def abridgedText (source : Text) (identifier style : Option Text) : Text :=
  ['!','[','('] ++ source ++ [')',']'] ++ identifierText identifier ++ styleText style

def captionedText (caption source : Text) (identifier style : Option Text) : Text :=
  ['!','['] ++ caption ++ [']'] ++ identifierText identifier ++ ['('] ++ source ++ [')'] ++ styleText style

abbrev Words (identifier : Option Text) : Prop :=
  ∀ t ∈ identifier, ∀ x ∈ t, CharSet.wordOrHyphen.contains x = true

theorem identifierText_other {x : Char} (words : Words identifier) (hash : x ≠ '#')
    (other : CharSet.wordOrHyphen.contains x = false) : x ∉ identifierText identifier := by
  cases identifier with
  | none => exact List.not_mem_nil
  | some word =>
    intro member
    rcases List.mem_cons.mp member with same | inner
    · exact hash same
    · rw [words word rfl x inner] at other
      cases other

theorem identifierText_injective (same : identifierText identifier = identifierText identifier') : identifier = identifier' := by
  cases identifier <;> cases identifier' <;> simp_all [identifierText]

theorem styleText_injective (same : styleText style = styleText style') : style = style' := by
  cases style <;> cases style' <;> simp_all [styleText]

theorem styleText_head (style : Option Text) : styleText style = [] ∨ ∃ rest, styleText style = '\x7b' :: rest := by
  cases style with
  | none => exact Or.inl rfl
  | some style => exact Or.inr ⟨_,rfl⟩

theorem identifierText_braceless (words : Words identifier) : ∀ x ∈ identifierText identifier, (x != '\x7b') = true := by
  intro x member
  refine bne_iff_ne.mpr fun same => ?_
  exact identifierText_other words (by decide) (by decide +kernel) (same ▸ member)

-- There is a last character, and it is not blank.
def Firm (t : Text) : Prop :=
  ∃ v y, t = v ++ [y] ∧ Text.isBlank y = false

theorem Firm.append {t u : Text} (firm : Firm t) (more : u = [] ∨ Firm u) : Firm (t ++ u) := by
  rcases more with rfl | ⟨v,y,rfl,solid⟩
  · rwa [List.append_nil]
  · exact ⟨t ++ v,y,(List.append_assoc ..).symm,solid⟩

theorem styleText_firm : styleText style = [] ∨ Firm (styleText style) := by
  cases style with
  | none => exact Or.inl rfl
  | some style => exact Or.inr ⟨'\x7b' :: '\x7b' :: (style ++ ['\x7d']),'\x7d',by simp [styleText],by decide⟩

theorem identifierText_firm (words : Words identifier) : identifierText identifier = [] ∨ Firm (identifierText identifier) := by
  cases identifier with
  | none => exact Or.inl rfl
  | some word =>
    refine Or.inr ?_
    rcases List.eq_nil_or_concat word with rfl | ⟨v,y,rfl⟩
    · exact ⟨[],'#',rfl,by decide⟩
    · rw [List.concat_eq_append] at words ⊢
      have inSet := words _ rfl y (by simp)
      exact ⟨'#' :: v,y,rfl,CharSet.solid_contains rfl inSet⟩

-- The style begins at the first brace.
theorem front_takeWhile (words : Words identifier) :
    (identifierText identifier ++ styleText style).takeWhile (· != '\x7b') = identifierText identifier := by
  rw [List.takeWhile_append_of_pos (identifierText_braceless words)]
  rcases styleText_head style with none | ⟨rest,some⟩
  · rw [none,List.takeWhile_nil,List.append_nil]
  · rw [some,List.takeWhile_cons_of_neg (by simp),List.append_nil]

theorem tail_unique (words : Words identifier) (words' : Words identifier')
    (same : identifierText identifier ++ styleText style = identifierText identifier' ++ styleText style') :
    identifier = identifier' ∧ style = style' := by
  have front := congrArg (List.takeWhile (· != '\x7b')) same
  rw [front_takeWhile words,front_takeWhile words'] at front
  obtain rfl := identifierText_injective front
  exact ⟨rfl,styleText_injective (List.append_cancel_left same)⟩

theorem abridged_unique (free : ')' ∉ source) (free' : ')' ∉ source') (words : Words identifier) (words' : Words identifier')
    (same : abridgedText source identifier style = abridgedText source' identifier' style') :
    source = source' ∧ identifier = identifier' ∧ style = style' := by
  have inner : source ++ ')' :: ']' :: (identifierText identifier ++ styleText style) =
      source' ++ ')' :: ']' :: (identifierText identifier' ++ styleText style') := by
    simpa [abridgedText] using same
  obtain ⟨sources,behind⟩ := Text.ends_once free free' inner
  exact ⟨sources,tail_unique words words' (List.cons.inj behind).2⟩

theorem captioned_unique (open_ : ']' ∉ caption) (open' : ']' ∉ caption') (free : ')' ∉ source) (free' : ')' ∉ source')
    (words : Words identifier) (words' : Words identifier')
    (same : captionedText caption source identifier style = captionedText caption' source' identifier' style') :
    caption = caption' ∧ source = source' ∧ identifier = identifier' ∧ style = style' := by
  have inner : caption ++ ']' :: (identifierText identifier ++ '(' :: (source ++ ')' :: styleText style)) =
      caption' ++ ']' :: (identifierText identifier' ++ '(' :: (source' ++ ')' :: styleText style')) := by
    simpa [captionedText] using same
  obtain ⟨captions,inner⟩ := Text.ends_once open_ open' inner
  have round : ∀ {identifier : Option Text}, Words identifier → '(' ∉ identifierText identifier := fun words =>
    identifierText_other words (by decide) (by decide +kernel)
  obtain ⟨identifiers,inner⟩ := Text.ends_once (round words) (round words') inner
  obtain ⟨sources,styles⟩ := Text.ends_once free free' inner
  exact ⟨captions,sources,identifierText_injective identifiers,styleText_injective styles⟩

-- No text is one of an abridged image and of one with a caption.
theorem texts_apart (open_ : ']' ∉ caption) (free : ')' ∉ source) (free' : ')' ∉ source') (words : Words identifier)
    (words' : Words identifier') :
    captionedText caption source identifier style ≠ abridgedText source' identifier' style' := by
  intro same
  have inner : caption ++ ']' :: (identifierText identifier ++ '(' :: (source ++ ')' :: styleText style)) =
      ('(' :: source') ++ ')' :: ']' :: (identifierText identifier' ++ styleText style') := by
    simpa [captionedText,abridgedText] using same
  have shut : ')' ∉ '(' :: source' := by simpa using free'
  by_cases round : ')' ∈ caption
  · -- The caption ends with the bracket, and what is behind it would have to begin with a round one.
    obtain ⟨u,v,rfl,first⟩ := List.eq_append_cons_of_mem round
    rw [List.append_assoc,List.cons_append] at inner
    obtain ⟨_,behind⟩ := Text.ends_once first shut inner
    cases v with
    | cons x v =>
      obtain ⟨rfl,_⟩ := List.cons.inj behind
      simp at open_
    | nil =>
      have tails : identifierText identifier ++ '(' :: (source ++ ')' :: styleText style) =
          identifierText identifier' ++ styleText style' := (List.cons.inj behind).2
      have apart := identifierText_braceless words
      have front := congrArg (List.takeWhile (· != '\x7b')) tails
      rw [front_takeWhile words',List.takeWhile_append_of_pos apart,List.takeWhile_cons_of_pos (by decide)] at front
      exact identifierText_other words' (by decide) (by decide +kernel) (front ▸ List.mem_append_right _ (List.mem_cons_self ..))
  · -- The first round bracket that closes is the one behind the source.
    have shut' : ')' ∉ caption ++ ']' :: (identifierText identifier ++ '(' :: source) := by
      have other := identifierText_other (x := ')') words (by decide) (by decide +kernel)
      simp [round,other,free]
    have whole : (caption ++ ']' :: (identifierText identifier ++ '(' :: source)) ++ ')' :: styleText style =
        ('(' :: source') ++ ')' :: ']' :: (identifierText identifier' ++ styleText style') := by
      simpa using inner
    obtain ⟨_,behind⟩ := Text.ends_once shut' shut whole
    rcases styleText_head style with none | ⟨rest,some⟩
    · rw [none] at behind
      cases behind
    · rw [some] at behind
      cases behind

theorem identifierAt_eq (n : Nat) :
    Inline.identifierAt n = literal ['#'] ++ captured n (plus (.char CharSet.wordOrHyphen)) := by
  rw [Inline.identifierAt,Text.ofString_ofList]

theorem styleAt_eq (n : Nat) : Inline.styleAt n = literal ['\x7b','\x7b'] ++
    captured n (many (.char (CharSet.noneOf ['\x7b','\x7d']))) ++ literal ['\x7d','\x7d'] := by
  rw [Inline.styleAt]
  repeat rw [Text.ofString_ofList]

theorem abridged_pattern : Block.abridgedImage.pattern = Block.block (literal ['!','[','('] ++
    captured 1 (many (.char (CharSet.noneOf [')','\n']))) ++ literal [')',']'] ++ maybe (Inline.identifierAt 2) ++
    maybe (Inline.styleAt 3)) := by
  rw [Block.abridgedImage]
  repeat rw [Text.ofString_ofList]

theorem captioned_pattern : Block.image.pattern = Block.block (literal ['!','['] ++
    captured 1 (many (.char (CharSet.noneOf [']','\n']))) ++ literal [']'] ++ maybe (Inline.identifierAt 2) ++ literal ['('] ++
    captured 3 (plus (.char (CharSet.noneOf [')','\n']))) ++ literal [')'] ++ maybe (Inline.styleAt 4)) := by
  rw [Block.image]
  repeat rw [Text.ofString_ofList]

theorem noneOf_two {x y z : Char} : (CharSet.noneOf [x,y]).contains z = true ↔ z ≠ x ∧ z ≠ y := by
  simp [CharSet.noneOf,CharSet.anyOf,CharSet.contains]

-- What a group of the captures holds.
def held (g : Captures) (n : Nat) : Option Text :=
  (g.find? fun capture => capture.group == n).map fun capture => capture.start.textTo capture.stop

theorem group_held (m : Match) (k : Nat) : m.group? (k + 1) = held m.captures (k + 1) := rfl

theorem held_append (g h : Captures) (n : Nat) : held (g ++ h) n = (held g n).or (held h n) := by
  rw [held,List.find?_append,Option.map_or]
  rfl

-- The captures hold one group at most.
structure Holds (g : Captures) (n : Nat) (t : Option Text) : Prop where
  here : held g n = t
  other : ∀ k ≠ n, held g k = none

theorem holds_none (n : Nat) : Holds [] n none :=
  ⟨rfl,fun _ _ => rfl⟩

theorem holds_one {stop : Cursor} (read : c.Reads s stop) : Holds [⟨n,c,stop⟩] n (some s) := by
  refine ⟨?_,fun k other => ?_⟩
  · simp [held,read.textTo]
  · simp [held,Ne.symm other]

theorem group_reads {p : Pattern} {name : Option String} {stop : Cursor} {g : Captures} (groupless : p.groups = [])
    (found : (stop,g) ∈ (Pattern.group n name p).ways c) : ∃ t, c.Reads t stop ∧ Holds g n (some t) := by
  obtain ⟨⟨t,read⟩,rfl⟩ := group_parts groupless found
  exact ⟨t,read,holds_one read⟩

theorem many_reads {set : CharSet} {name : Option String} {stop : Cursor} {g : Captures}
    (found : (stop,g) ∈ (Pattern.group n name (many (.char set))).ways c) :
    ∃ t, c.Reads t stop ∧ (∀ x ∈ t, set.contains x = true) ∧ Holds g n (some t) := by
  obtain ⟨inner,isInner,same⟩ := mem_captured rfl found
  cases same
  obtain ⟨t,read,all,_⟩ := mem_many.mp isInner
  exact ⟨t,read,all,holds_one read⟩

theorem run_reads {set : CharSet} {stop : Cursor} {g : Captures} (found : (stop,g) ∈ (captured n (plus (.char set))).ways c) :
    ∃ t, c.Reads t stop ∧ (∀ x ∈ t, set.contains x = true) ∧ Holds g n (some t) := by
  obtain ⟨t,read,_,all,same⟩ := run_parts found
  rw [show g = [⟨n,c,stop⟩] from same]
  exact ⟨t,read,all,holds_one read⟩

theorem identifier_reads {stop : Cursor} {g : Captures} (found : (stop,g) ∈ (maybe (Inline.identifierAt n)).ways c) :
    ∃ identifier, Words identifier ∧ c.Reads (identifierText identifier) stop ∧ Holds g n identifier := by
  rw [identifierAt_eq] at found
  rcases mem_maybe found with some | none
  · obtain ⟨_,_,_,hash,word,rfl⟩ := seq_parts some
    obtain ⟨readHash,rfl⟩ := literal_reads hash
    obtain ⟨t,readWord,all,holds⟩ := run_reads word
    refine ⟨Option.some t,?_,readHash.append readWord,by simpa using holds⟩
    rintro _ ⟨⟩
    exact all
  · cases none
    exact ⟨Option.none,nofun,.refl c,holds_none n⟩

theorem style_reads {stop : Cursor} {g : Captures} (found : (stop,g) ∈ (maybe (Inline.styleAt n)).ways c) :
    ∃ style, c.Reads (styleText style) stop ∧ Holds g n style := by
  rw [styleAt_eq] at found
  rcases mem_maybe found with some | none
  · obtain ⟨_,_,_,front,closing,rfl⟩ := seq_parts some
    obtain ⟨_,_,_,opening,inner,rfl⟩ := seq_parts front
    obtain ⟨readOpening,rfl⟩ := literal_reads opening
    obtain ⟨t,readInner,_,holds⟩ := many_reads inner
    obtain ⟨readClosing,rfl⟩ := literal_reads closing
    refine ⟨Option.some t,?_,by simpa using holds⟩
    simpa [styleText] using (readOpening.append readInner).append readClosing
  · cases none
    exact ⟨Option.none,.refl c,holds_none n⟩

theorem full_body {body : Pattern} {t : Text} {m : Match} (found : (Block.block body).fullMatch? t = some m) :
    (m.stop,m.captures) ∈ body.ways (.start t) ∧ m.stop.after = [] := by
  obtain ⟨start,way,ended⟩ := fullMatch_way found
  obtain ⟨_,_,_,isBody,last,captures⟩ := seq_parts way
  obtain ⟨_,same⟩ := Block.mem_blockEnd.mp last
  cases same
  rw [captures,← start]
  exact ⟨isBody,ended⟩

theorem abridged_reads {t : Text} {m : Match} (found : Block.abridgedImage.pattern.fullMatch? t = some m) :
    ∃ source identifier style, t = abridgedText source identifier style ∧ ')' ∉ source ∧ Words identifier ∧
      m.group 1 = source ∧ m.group? 2 = identifier ∧ m.group? 3 = style := by
  rw [abridged_pattern] at found
  obtain ⟨way,ended⟩ := full_body found
  obtain ⟨_,_,_,toIdentifier,isStyle,captures⟩ := seq_parts way
  obtain ⟨_,_,_,toBracket,isIdentifier,rfl⟩ := seq_parts toIdentifier
  obtain ⟨_,_,_,toSource,bracket,rfl⟩ := seq_parts toBracket
  obtain ⟨_,_,_,opening,isSource,rfl⟩ := seq_parts toSource
  obtain ⟨readOpening,rfl⟩ := literal_reads opening
  obtain ⟨source,readSource,free,holdsSource⟩ := many_reads isSource
  obtain ⟨readBracket,rfl⟩ := literal_reads bracket
  obtain ⟨identifier,words,readIdentifier,holdsIdentifier⟩ := identifier_reads isIdentifier
  obtain ⟨style,readStyle,holdsStyle⟩ := style_reads isStyle
  have read := (((readOpening.append readSource).append readBracket).append readIdentifier).append readStyle
  refine ⟨source,identifier,style,?_,fun member => (noneOf_two.mp (free _ member)).1 rfl,words,?_,?_,?_⟩
  · have whole := read.1
    rwa [ended,List.append_nil] at whole
  · simp [Match.group,group_held,captures,held_append,holdsSource.here,holdsIdentifier.other,holdsStyle.other]
  · simp [group_held,captures,held_append,holdsSource.other,holdsIdentifier.here,holdsStyle.other]
  · simp [group_held,captures,held_append,holdsSource.other,holdsIdentifier.other,holdsStyle.here]

theorem captioned_reads {t : Text} {m : Match} (found : Block.image.pattern.fullMatch? t = some m) :
    ∃ caption source identifier style, t = captionedText caption source identifier style ∧ ']' ∉ caption ∧ ')' ∉ source ∧
      Words identifier ∧ m.group 1 = caption ∧ m.group 3 = source ∧ m.group? 2 = identifier ∧ m.group? 4 = style := by
  rw [captioned_pattern] at found
  obtain ⟨way,ended⟩ := full_body found
  obtain ⟨_,_,_,toRound,isStyle,captures⟩ := seq_parts way
  obtain ⟨_,_,_,toSource,round,rfl⟩ := seq_parts toRound
  obtain ⟨_,_,_,toBracket,isSource,rfl⟩ := seq_parts toSource
  obtain ⟨_,_,_,toIdentifier,bracket,rfl⟩ := seq_parts toBracket
  obtain ⟨_,_,_,toSquare,isIdentifier,rfl⟩ := seq_parts toIdentifier
  obtain ⟨_,_,_,toCaption,square,rfl⟩ := seq_parts toSquare
  obtain ⟨_,_,_,opening,isCaption,rfl⟩ := seq_parts toCaption
  obtain ⟨readOpening,rfl⟩ := literal_reads opening
  obtain ⟨caption,readCaption,squareFree,holdsCaption⟩ := many_reads isCaption
  obtain ⟨readSquare,rfl⟩ := literal_reads square
  obtain ⟨identifier,words,readIdentifier,holdsIdentifier⟩ := identifier_reads isIdentifier
  obtain ⟨readBracket,rfl⟩ := literal_reads bracket
  obtain ⟨source,readSource,roundFree,holdsSource⟩ := run_reads isSource
  obtain ⟨readRound,rfl⟩ := literal_reads round
  obtain ⟨style,readStyle,holdsStyle⟩ := style_reads isStyle
  have read := (((((((readOpening.append readCaption).append readSquare).append readIdentifier).append readBracket).append
    readSource).append readRound).append readStyle)
  refine ⟨caption,source,identifier,style,?_,fun member => (noneOf_two.mp (squareFree _ member)).1 rfl,
    fun member => (noneOf_two.mp (roundFree _ member)).1 rfl,words,?_,?_,?_,?_⟩
  · have whole := read.1
    rwa [ended,List.append_nil] at whole
  · simp [Match.group,group_held,captures,held_append,holdsCaption.here,holdsIdentifier.other,holdsSource.other,holdsStyle.other]
  · simp [Match.group,group_held,captures,held_append,holdsSource.here,holdsStyle.other]
  · simp [group_held,captures,held_append,holdsCaption.other,holdsIdentifier.here,holdsSource.other,holdsStyle.other]
  · simp [group_held,captures,held_append,holdsCaption.other,holdsIdentifier.other,holdsSource.other,holdsStyle.here]

theorem block_accepts {body : Pattern} {t : Text} (accepts : body.Accepts t) : ∃ m, (Block.block body).fullMatch? t = some m := by
  have ended : Block.blockEnd.Takes ((Cursor.start t).past t.length) [] := by
    refine takes_nothing (Block.mem_blockEnd.mpr ⟨?_,rfl⟩)
    rw [Cursor.past_after,Cursor.start,List.drop_length]
    exact .nil
  exact Takes.full ((accepts (List.append_nil t).symm).looking ended)

end Image

namespace WrittenImage

open Image

variable (image : WrittenImage)

def text : Text :=
  match image.caption with
  | none => abridgedText image.source image.identifier image.style
  | some caption => captionedText caption image.source image.identifier image.style

-- What it is read as.
def read (alignSelf : Option Text) : Image :=
  ⟨image.source,image.caption,image.identifier,image.style,image.caption.isNone,alignSelf⟩

theorem identifier_accepts (n : Nat) : (maybe (Inline.identifierAt n)).Accepts (identifierText image.identifier) := by
  cases known : image.identifier with
  | none => exact maybe_accepts_none _
  | some word =>
    rw [identifierAt_eq]
    have run := plus_accepts (image.identifierSome word known) (image.identifierWord word known)
    exact ((literal_accepts ['#']).seq run.group).maybe

theorem style_accepts (n : Nat) : (maybe (Inline.styleAt n)).Accepts (styleText image.style) := by
  cases known : image.style with
  | none => exact maybe_accepts_none _
  | some style =>
    rw [styleAt_eq]
    have run : (many (.char (CharSet.noneOf ['\x7b','\x7d']))).Accepts style :=
      run_accepts fun x member => noneOf_two.mpr (image.styleFree style known x member)
    exact (((literal_accepts ['\x7b','\x7b']).seq run.group).seq (literal_accepts ['\x7d','\x7d'])).maybe

theorem abridged_found : ∃ m, Block.abridgedImage.pattern.fullMatch?
    (abridgedText image.source image.identifier image.style) = some m := by
  rw [abridged_pattern]
  have source : (many (.char (CharSet.noneOf [')','\n']))).Accepts image.source :=
    run_accepts fun x member => noneOf_two.mpr (image.sourceFree x member)
  exact block_accepts (((((literal_accepts _).seq source.group).seq (literal_accepts _)).seq (image.identifier_accepts 2)).seq
    (image.style_accepts 3))

theorem captioned_found {caption : Text} (known : image.caption = some caption) : ∃ m, Block.image.pattern.fullMatch?
    (captionedText caption image.source image.identifier image.style) = some m := by
  rw [captioned_pattern]
  have source : (plus (.char (CharSet.noneOf [')','\n']))).Accepts image.source :=
    plus_accepts image.sourceSome fun x member => noneOf_two.mpr (image.sourceFree x member)
  have label : (many (.char (CharSet.noneOf [']','\n']))).Accepts caption :=
    run_accepts fun x member => noneOf_two.mpr (image.captionFree caption known x member)
  exact block_accepts ((((((((literal_accepts _).seq label.group).seq (literal_accepts _)).seq (image.identifier_accepts 2)).seq
    (literal_accepts _)).seq source.group).seq (literal_accepts _)).seq (image.style_accepts 4))

theorem text_firm : Firm image.text := by
  unfold text
  cases image.caption with
  | none =>
    have bracket : Firm (['!','[','('] ++ image.source ++ [')',']']) :=
      ⟨['!','[','('] ++ image.source ++ [')'],']',by simp,by decide⟩
    exact (bracket.append (identifierText_firm image.identifierWord)).append styleText_firm
  | some caption =>
    have bracket : Firm (['!','['] ++ caption ++ [']'] ++ identifierText image.identifier ++ ['('] ++ image.source ++ [')']) :=
      ⟨_,')',rfl,by decide⟩
    exact bracket.append styleText_firm

theorem text_begins : ∃ rest, image.text = '!' :: rest := by
  unfold text
  cases image.caption <;> exact ⟨_,rfl⟩

theorem text_trimmed : Text.trim image.text = image.text := by
  obtain ⟨v,y,ends,solid⟩ := image.text_firm
  obtain ⟨rest,begins⟩ := image.text_begins
  exact Text.trim_solid begins (by decide) ends solid

theorem ofText_written (alignSelf : Option Text) : Image.ofText image.text alignSelf = .ok (image.read alignSelf) := by
  have free : ')' ∉ image.source := fun member => (image.sourceFree _ member).1 rfl
  rw [Image.ofText,image.text_trimmed,text,read]
  cases known : image.caption with
  | none =>
    obtain ⟨m,found⟩ := image.abridged_found
    obtain ⟨_,_,_,whole,free',words,isSource,isIdentifier,isStyle⟩ := abridged_reads found
    obtain ⟨sources,identifiers,styles⟩ := abridged_unique free' free words image.identifierWord whole.symm
    simp only [found,isSource,isIdentifier,isStyle,sources,identifiers,styles]
    rfl
  | some caption =>
    have square : ']' ∉ caption := fun member => (image.captionFree caption known _ member).1 rfl
    have none : Block.abridgedImage.pattern.fullMatch? (captionedText caption image.source image.identifier image.style) = none := by
      cases found : Block.abridgedImage.pattern.fullMatch? (captionedText caption image.source image.identifier image.style) with
      | none => rfl
      | some m =>
        obtain ⟨_,_,_,whole,free',words,_⟩ := abridged_reads found
        exact absurd whole (texts_apart square free free' image.identifierWord words)
    obtain ⟨m,found⟩ := image.captioned_found known
    obtain ⟨_,_,_,_,whole,square',free',words,isCaption,isSource,isIdentifier,isStyle⟩ := captioned_reads found
    obtain ⟨captions,sources,identifiers,styles⟩ :=
      captioned_unique square' square free' free words image.identifierWord whole.symm
    simp only [none,found,isCaption,isSource,isIdentifier,isStyle,captions,sources,identifiers,styles]
    rfl

end WrittenImage

-- A word between colons, or nothing.
def Image.colonText : Option Text → Text
  | none => []
  | some word => ':' :: (word ++ [':'])

theorem Image.colonText_unbroken {word : Option Text} (words : Words word) : Text.Unbroken (colonText word) := by
  cases word with
  | none => exact List.forall_mem_nil _
  | some word =>
    have inner : Text.Unbroken word := Text.set_unbroken (by decide +kernel) (words word rfl)
    exact List.forall_mem_cons.mpr ⟨by decide,List.forall_mem_append.mpr ⟨inner,List.forall_mem_singleton.mpr (by decide)⟩⟩

-- An image on a line of its own, where no break stands in it.
structure WrittenLine where
  indentation : Text
  alignSelf : Option Text
  space : Text
  image : WrittenImage
  indentationGaps : Block.Gaps indentation
  alignSelfWord : Image.Words alignSelf
  spaceGaps : Block.Gaps space
  unbroken : Text.Unbroken image.text

namespace WrittenLine

open Image

variable (line : WrittenLine)

def text : Text :=
  line.indentation ++ colonText line.alignSelf ++ line.space ++ line.image.text

def read : Image :=
  line.image.read line.alignSelf

end WrittenLine

namespace Image

theorem alignSelf_pattern : alignSelfPattern = gaps ++ literal [':'] ++
    named 1 "align_self" (many (.char CharSet.wordOrHyphen)) ++ literal [':'] ++ gaps := by
  rw [alignSelfPattern]
  repeat rw [Text.ofString_ofList]

theorem alignSelf_reads {t : Text} {m : Match} (found : alignSelfPattern.matchStart? t = some m) :
    ∃ g word h, t = g ++ ':' :: (word ++ ':' :: (h ++ m.stop.after)) ∧ Block.Gaps g ∧ Words (some word) ∧ Block.Gaps h ∧
      m.group? 1 = some word := by
  obtain ⟨start,way⟩ := matchAt_way found
  rw [alignSelf_pattern] at way
  obtain ⟨_,_,_,toClosing,last,captures⟩ := seq_parts way
  obtain ⟨_,_,_,toWord,closing,rfl⟩ := seq_parts toClosing
  obtain ⟨_,_,_,toOpening,isWord,rfl⟩ := seq_parts toWord
  obtain ⟨_,_,_,first,opening,rfl⟩ := seq_parts toOpening
  obtain ⟨g,readFirst,gaps,none⟩ := Block.mem_gaps.mp first
  cases none
  obtain ⟨readOpening,rfl⟩ := literal_reads opening
  obtain ⟨word,readWord,words,holds⟩ := many_reads isWord
  obtain ⟨readClosing,rfl⟩ := literal_reads closing
  obtain ⟨h,readLast,others,none⟩ := Block.mem_gaps.mp last
  cases none
  have read := (((readFirst.append readOpening).append readWord).append readClosing).append readLast
  refine ⟨g,word,h,?_,gaps,?_,others,?_⟩
  · have whole := read.1
    rw [start] at whole
    simpa [Cursor.start] using whole
  · rintro _ ⟨⟩
    exact words
  · simp [group_held,captures,holds.here]

theorem ofText_trim {t u : Text} (same : Text.trim t = Text.trim u) (alignSelf : Option Text) :
    ofText t alignSelf = ofText u alignSelf := by
  rw [ofText,ofText,same]

end Image

namespace WrittenLine

open Image

variable (line : WrittenLine)

theorem alignSelf_found {word : Text} (known : line.alignSelf = some word) : ∃ m, alignSelfPattern.matchStart? line.text = some m := by
  have isWord : (named 1 "align_self" (many (.char CharSet.wordOrHyphen))).Accepts word :=
    (run_accepts (line.alignSelfWord word known)).group
  have accepts := ((((run_accepts line.indentationGaps).seq (literal_accepts [':'])).seq isWord).seq
    (literal_accepts [':'])).seq (run_accepts line.spaceGaps)
  have begins : (Cursor.start line.text).after =
      line.indentation ++ [':'] ++ word ++ [':'] ++ line.space ++ line.image.text := by
    simp [Cursor.start,text,known,colonText]
  rw [alignSelf_pattern]
  exact Option.isSome_iff_exists.mp (accepts begins).found

-- A word between colons is the word to align by.
theorem ofLine_written : Image.ofLine line.text = .ok line.read := by
  obtain ⟨rest,begins⟩ := line.image.text_begins
  rw [Image.ofLine]
  cases found : alignSelfPattern.matchStart? line.text with
  | none =>
    cases known : line.alignSelf with
    | some word =>
      obtain ⟨m,some⟩ := line.alignSelf_found known
      rw [found] at some
      cases some
    | none =>
      have trimmed : Text.trim line.text = Text.trim line.image.text := by
        rw [text,known,colonText,List.append_nil,List.append_assoc,Text.trim_lead line.indentationGaps.blank,
          Text.trim_lead line.spaceGaps.blank]
      rw [read,known]
      exact (ofText_trim trimmed none).trans (line.image.ofText_written none)
  | some m =>
    obtain ⟨g,word,h,whole,gaps,words,others,group⟩ := alignSelf_reads found
    have colon : ¬ CharSet.gap.contains ':' = true := by decide
    cases known : line.alignSelf with
    | none =>
      -- Before the image stand gaps only.
      have split : (line.indentation ++ line.space) ++ '!' :: rest = g ++ ':' :: (word ++ ':' :: (h ++ m.stop.after)) := by
        rw [← whole,text,known,begins,colonText,List.append_nil]
      have lead : Block.Gaps (line.indentation ++ line.space) :=
        List.forall_mem_append.mpr ⟨line.indentationGaps,line.spaceGaps⟩
      obtain ⟨_,other,_⟩ := Text.run_once lead gaps (by decide) colon split
      exact absurd other (by decide)
    | some given =>
      have split : line.indentation ++ ':' :: (given ++ ':' :: (line.space ++ line.image.text)) =
          g ++ ':' :: (word ++ ':' :: (h ++ m.stop.after)) := by
        rw [← whole,text,known,colonText]
        simp
      obtain ⟨_,_,behind⟩ := Text.run_once line.indentationGaps gaps colon colon split
      have free : ∀ {word : Text}, Words (some word) → ':' ∉ word := fun words member =>
        absurd (words _ rfl _ member) (by decide +kernel)
      obtain ⟨same,behind⟩ := Text.ends_once (free (known ▸ line.alignSelfWord)) (free words) behind
      have trimmed : Text.trim m.stop.after = Text.trim line.image.text := by
        rw [← Text.trim_lead others.blank,← behind,Text.trim_lead line.spaceGaps.blank]
      rw [read,known,same]
      simp only [group]
      exact (ofText_trim trimmed _).trans (line.image.ofText_written _)

theorem text_unbroken : Text.Unbroken line.text := by
  have gaps : ∀ {g : Text}, Block.Gaps g → Text.Unbroken g := Text.set_unbroken (by decide +kernel)
  have lead := List.forall_mem_append.mpr ⟨gaps line.indentationGaps,colonText_unbroken line.alignSelfWord⟩
  exact List.forall_mem_append.mpr ⟨List.forall_mem_append.mpr ⟨lead,gaps line.spaceGaps⟩,line.unbroken⟩

theorem text_filled : Text.isAllBlank line.text = false := by
  obtain ⟨rest,begins⟩ := line.image.text_begins
  rw [Text.isAllBlank,List.all_eq_false]
  exact ⟨'!',by simp [text,begins],by decide⟩

end WrittenLine

-- Images one a line, with a word that aligns the row.
structure WrittenRow where
  alignment : Option Text
  lines : List WrittenLine
  alignmentSome : ∀ t ∈ alignment, t ≠ []
  alignmentWord : Image.Words alignment

namespace WrittenRow

open Image

variable (row : WrittenRow)

def body : Text :=
  '\n' :: row.lines.flatMap fun line => line.text ++ ['\n']

def text : Text :=
  ['!','!'] ++ colonText row.alignment ++ ['[','['] ++ row.body ++ [']',']']

def images : List Image :=
  row.lines.map WrittenLine.read

theorem ofLines_written (lines : List WrittenLine) : Image.ofLines (lines.map WrittenLine.text) = .ok (lines.map WrittenLine.read) := by
  induction lines with
  | nil => rfl
  | cons line lines ih =>
    rw [List.map_cons,Image.ofLines,line.text_filled,line.ofLine_written,ih]
    rfl

theorem body_lines : Text.lines row.body = [] :: row.lines.map WrittenLine.text := by
  have each : ∀ lines : List WrittenLine, Text.lines (lines.flatMap fun line => line.text ++ ['\n']) =
      lines.map WrittenLine.text := by
    intro lines
    induction lines with
    | nil => rfl
    | cons line lines ih =>
      rw [List.flatMap_cons,List.append_assoc,List.singleton_append,Text.lines_break line.text_unbroken,ih,List.map_cons]
  rw [body,← List.nil_append ('\n' :: _),Text.lines_break (List.forall_mem_nil _),each]

theorem row_pattern : Block.imageRow.pattern = Block.block (literal ['!','!'] ++
    maybe (literal [':'] ++ captured 1 (plus (.char CharSet.wordOrHyphen)) ++ literal [':']) ++ literal ['[','['] ++
    captured 2 (lazyMany Inline.anything) ++ literal [']',']']) := by
  rw [Block.imageRow]
  repeat rw [Text.ofString_ofList]

theorem alignment_reads {c stop : Cursor} {g : Captures}
    (found : (stop,g) ∈ (maybe (literal [':'] ++ captured 1 (plus (.char CharSet.wordOrHyphen)) ++ literal [':'])).ways c) :
    ∃ alignment, Words alignment ∧ c.Reads (colonText alignment) stop ∧ Holds g 1 alignment := by
  rcases mem_maybe found with some | none
  · obtain ⟨_,_,_,front,closing,rfl⟩ := seq_parts some
    obtain ⟨_,_,_,opening,word,rfl⟩ := seq_parts front
    obtain ⟨readOpening,rfl⟩ := literal_reads opening
    obtain ⟨t,readWord,all,holds⟩ := run_reads word
    obtain ⟨readClosing,rfl⟩ := literal_reads closing
    refine ⟨Option.some t,?_,?_,by simpa using holds⟩
    · rintro _ ⟨⟩
      exact all
    · simpa [colonText] using (readOpening.append readWord).append readClosing
  · cases none
    refine ⟨Option.none,?_,.refl c,holds_none 1⟩
    intro _ given
    cases given

-- The alignment and the body can be told apart.
theorem row_unique {alignment alignment' : Option Text} {body body' : Text} (words : Words alignment) (words' : Words alignment')
    (same : ['!','!'] ++ colonText alignment ++ ['[','['] ++ body ++ [']',']'] =
      ['!','!'] ++ colonText alignment' ++ ['[','['] ++ body' ++ [']',']']) : alignment = alignment' ∧ body = body' := by
  have inner := List.append_cancel_right same
  have free : ∀ {word : Text}, Words (some word) → ':' ∉ word := fun words member =>
    absurd (words _ rfl _ member) (by decide +kernel)
  cases alignment with
  | none =>
    cases alignment' with
    | none => exact ⟨rfl,by simpa [colonText] using inner⟩
    | some word' => simp [colonText] at inner
  | some word =>
    cases alignment' with
    | none => simp [colonText] at inner
    | some word' =>
      have split : word ++ ':' :: ('[' :: '[' :: body) = word' ++ ':' :: ('[' :: '[' :: body') := by
        simpa [colonText] using inner
      obtain ⟨rfl,behind⟩ := Text.ends_once (free words) (free words') split
      exact ⟨rfl,by simpa using behind⟩

theorem row_reads {t : Text} {m : Match} (found : Block.imageRow.pattern.fullMatch? t = some m) :
    ∃ alignment body, t = ['!','!'] ++ colonText alignment ++ ['[','['] ++ body ++ [']',']'] ∧ Words alignment ∧
      m.group? 1 = alignment ∧ m.group 2 = body := by
  rw [row_pattern] at found
  obtain ⟨way,ended⟩ := full_body found
  obtain ⟨_,_,_,toBody,closing,captures⟩ := seq_parts way
  obtain ⟨_,_,_,toOpening,isBody,rfl⟩ := seq_parts toBody
  obtain ⟨_,_,_,toAlignment,opening,rfl⟩ := seq_parts toOpening
  obtain ⟨_,_,_,marks,isAlignment,rfl⟩ := seq_parts toAlignment
  obtain ⟨readMarks,rfl⟩ := literal_reads marks
  obtain ⟨alignment,words,readAlignment,holdsAlignment⟩ := alignment_reads isAlignment
  obtain ⟨readOpening,rfl⟩ := literal_reads opening
  obtain ⟨body,readBody,holdsBody⟩ := group_reads rfl isBody
  obtain ⟨readClosing,rfl⟩ := literal_reads closing
  have read := (((readMarks.append readAlignment).append readOpening).append readBody).append readClosing
  refine ⟨alignment,body,?_,words,?_,?_⟩
  · have whole := read.1
    rwa [ended,List.append_nil] at whole
  · simp [group_held,captures,held_append,holdsAlignment.here,holdsBody.other]
  · simp [Match.group,group_held,captures,held_append,holdsBody.here]

theorem text_accepted : (literal ['!','!'] ++
    maybe (literal [':'] ++ captured 1 (plus (.char CharSet.wordOrHyphen)) ++ literal [':']) ++ literal ['[','['] ++
    captured 2 (lazyMany Inline.anything) ++ literal [']',']']).Accepts row.text := by
  have aligned : (maybe (literal [':'] ++ captured 1 (plus (.char CharSet.wordOrHyphen)) ++ literal [':'])).Accepts
      (colonText row.alignment) := by
    cases known : row.alignment with
    | none => exact maybe_accepts_none _
    | some word =>
      have run := plus_accepts (row.alignmentSome word known) (row.alignmentWord word known)
      exact (((literal_accepts [':']).seq run.group).seq (literal_accepts [':'])).maybe
  have everything : ∀ x ∈ row.body, CharSet.all.contains x = true := fun _ _ => rfl
  have body : (captured 2 (lazyMany Inline.anything)).Accepts row.body := (lazily_accepts everything).group
  exact ((((literal_accepts _).seq aligned).seq (literal_accepts _)).seq body).seq (literal_accepts _)

theorem text_trimmed : Text.trim row.text = row.text :=
  Text.trim_solid (v := ['!','!'] ++ colonText row.alignment ++ ['[','['] ++ row.body ++ [']']) (y := ']') rfl (by decide)
    (by simp [text]) (by decide)

theorem rowOfText_written : Image.rowOfText row.text = .ok (row.images,row.alignment.getD Image.standardAlignment) := by
  obtain ⟨m,found⟩ := block_accepts row.text_accepted
  rw [← row_pattern] at found
  obtain ⟨_,_,whole,words,isAlignment,isBody⟩ := row_reads found
  obtain ⟨alignments,bodies⟩ := row_unique words row.alignmentWord whole.symm
  rw [Image.rowOfText,row.text_trimmed,found]
  simp only [isAlignment,isBody,alignments,bodies,body_lines,Image.ofLines]
  rw [ofLines_written]
  rfl

end WrittenRow
end LightMarkup
