import LightMarkup.Proofs.Document.Rematching
import LightMarkup.Proofs.Paragraph.Lines

/-!
The lines of the blocks that are loaded. What a construct matches does not end with a newline, so the lines that a quote,
a list or a table is read from are those its pattern knows if and only if no other line break stands within them.
-/

namespace LightMarkup
namespace Block

open Pattern

variable {c : Cursor} {m : Match} {t : Text}

-- If a block may end at a place it may end before a newline there.
theorem Ends.newline (ends : Ends t) : Ends ('\n' :: t) := by
  obtain ⟨g,u,rfl,gaps,closes⟩ := ends
  refine ⟨[],'\n' :: (g ++ u),rfl,List.forall_mem_nil _,Or.inr ⟨['\n'],g ++ u,rfl,Or.inl rfl,Or.inr ⟨g,u,rfl,gaps,?_⟩⟩⟩
  rcases closes with none | ⟨b,v,whole,isBreak,_⟩
  · exact Or.inl none
  · exact Or.inr ⟨b,v,whole,isBreak⟩

def unlined (set : CharSet) : Bool :=
  !set.contains '\n'

theorem ended_append (t : Text) {u : Text} (ended : Text.Ended u) : Text.Ended (t ++ u) := by
  obtain ⟨front,last,rfl,other⟩ := ended
  exact ⟨t ++ front,last,by rw [List.append_assoc],other⟩

theorem ended_of_last {way : Way} (endsIn : EndsIn unlined way c) (moved : way.1 ≠ c) : ∃ t, c.Reads t way.1 ∧ Text.Ended t := by
  obtain ⟨t,read,ends⟩ := endsIn
  rcases List.eq_nil_or_concat t with rfl | ⟨u,last,rfl⟩
  · exact absurd (read.eq_past.trans c.past_zero) moved
  · rw [List.concat_eq_append] at read ends
    obtain ⟨set,other,inSet⟩ := ends last (by simp)
    refine ⟨u ++ [last],read,u,last,rfl,?_⟩
    rintro rfl
    simp [unlined,inSet] at other

theorem ended_of_lasts {p : Pattern} {way : Way} (lasts : p.lasts unlined = true) (needed : p.needs (fun _ => true) = true)
    (found : way ∈ p.ways c) : ∃ t, c.Reads t way.1 ∧ Text.Ended t := by
  refine ended_of_last (lasts_endsIn lasts _ _ found) fun same => ?_
  have less := needs_eats needed _ _ found
  rw [same] at less
  exact Nat.lt_irrefl _ less

theorem list_ended (found : list.pattern.matchAt? c = some m) : Text.Ended m.text := by
  obtain ⟨t,read,ended⟩ := ended_of_lasts (by decide_cbv) (by decide_cbv) (block_way found).1
  rwa [show m.text = t from read.textTo]

-- The metadata of a table do not end before they have begun.
theorem metadata_ended {way : Way} (found : way ∈ tableMetadata.ways c) : ∃ t, c.Reads t way.1 ∧ Text.Ended t := by
  obtain ⟨style,_,_,found,rest,_⟩ := seq_parts found
  obtain ⟨identifier,_,_,found,isStyle,_⟩ := seq_parts found
  obtain ⟨caption,_,_,found,isIdentifier,_⟩ := seq_parts found
  obtain ⟨start,_,_,found,isCaption,_⟩ := seq_parts found
  obtain ⟨indented,_,_,front,looked,_⟩ := seq_parts found
  obtain ⟨t,read⟩ := ways_reads front
  obtain ⟨first,isFirst,same⟩ := mem_waysAhead looked
  obtain rfl : start = indented := congrArg Prod.fst same
  obtain ⟨x,next,ahead,mark,_⟩ := mem_char.mp isFirst
  have endsCaption : EndsIn unlined _ start := lasts_endsIn (by decide_cbv) _ _ isCaption
  have endsIdentifier : EndsIn unlined _ caption := lasts_endsIn (by decide) _ _ isIdentifier
  have endsStyle : EndsIn unlined _ identifier := lasts_endsIn (by decide_cbv) _ _ isStyle
  have endsRest : EndsIn unlined _ style := lasts_endsIn (by decide) _ _ rest
  have closed := endsIn_closed unlined
  have endsIn := closed.after (closed.after (closed.after endsCaption endsIdentifier) endsStyle) endsRest
  obtain ⟨u,more,ended⟩ := ended_of_last endsIn fun same => by
    have line := endsLine_way (show endsLine restOfLine = true from rfl) rest
    rw [show way.1 = start from same,isLineEnd,(Cursor.next_reads ahead).1] at line
    obtain rfl : x = '\n' := by simpa using line
    exact absurd mark (by decide_cbv)
  exact ⟨t ++ u,read.append more,ended_append t ended⟩

theorem table_ended (found : table.pattern.matchAt? c = some m) : Text.Ended m.text := by
  obtain ⟨isBody,_⟩ := block_way found
  obtain ⟨mid,_,_,front,metadata,_⟩ := seq_parts isBody
  obtain ⟨t,read,ended⟩ := ended_of_lasts (by decide_cbv) (by decide_cbv) front
  rcases mem_maybe metadata with more | none
  · obtain ⟨u,behind,last⟩ := metadata_ended more
    rw [show m.text = t ++ u from (read.append behind).textTo]
    exact ended_append t last
  · obtain rfl : m.stop = mid := congrArg Prod.fst none
    rwa [show m.text = t from read.textTo]

theorem quote_ways (starts : isLineStart c = true) {rest : Text} (begins : c.after = '>' :: rest) :
    (.lineStart ++ literal ">" ++ lazyMany Inline.anything : Pattern).ways c =
      (List.range (runOf .all rest + 1)).map fun n => ((c.past 1).past n,[]) := by
  have mark : (">" : Text) = ['>'] := by rw [Text.ofString_eq]; rfl
  have behind : (c.past 1).after = rest := by rw [Cursor.past_after,begins]; rfl
  rw [mark,ways_line_literal starts begins]
  show (lazyMany (.char .all)).ways (c.past 1) = _
  rw [ways_lazyMany,behind]

theorem quote_begins {way : Way} (found : way ∈ (.lineStart ++ literal ">" ++ lazyMany Inline.anything : Pattern).ways c) :
    isLineStart c = true ∧ ∃ rest, c.after = '>' :: rest := by
  obtain ⟨mid,_,_,front,_,_⟩ := seq_parts found
  obtain ⟨start,_,_,first,mark,_⟩ := seq_parts front
  obtain ⟨starts,same⟩ := mem_waysIf.mp first
  obtain rfl : start = c := congrArg Prod.fst same
  have read := (literal_reads mark).1
  rw [show (">" : Text) = ['>'] from by rw [Text.ofString_eq]; rfl] at read
  exact ⟨starts,_,read.1⟩

-- A quote takes the first end behind its mark.
theorem quote_first (found : quote.pattern.matchAt? c = some m) :
    ∃ rest n, c.after = '>' :: rest ∧ c.Reads ('>' :: rest.take n) m.stop ∧ Ends (rest.drop n) ∧ ∀ k < n, ¬ Ends (rest.drop k) := by
  obtain ⟨start,_⟩ := matchAt_way found
  have begun := (block_way found).1
  rw [start] at begun
  obtain ⟨starts,rest,begins⟩ := quote_begins begun
  rw [matchAt_head] at found
  obtain ⟨way,head,rfl⟩ := Option.map_eq_some_iff.mp found
  change (thenWays ((.lineStart ++ literal ">" ++ lazyMany Inline.anything : Pattern).ways c) blockEnd.ways).head? = _ at head
  simp only [head_then,quote_ways starts begins,List.findSome?_map,Function.comp_def] at head
  obtain ⟨n,_,here,earlier⟩ := findSome_range head
  obtain ⟨next,alive,rfl⟩ := Option.map_eq_some_iff.mp here
  obtain ⟨ends,rfl⟩ := mem_blockEnd.mp (List.mem_of_head? alive)
  have behind : (c.past 1).after = rest := by rw [Cursor.past_after,begins]; rfl
  have mark : c.Reads ['>'] (c.past 1) := Cursor.Reads.of_after begins
  rw [Cursor.past_after,behind] at ends
  refine ⟨rest,n,begins,mark.append (behind ▸ (c.past 1).past_reads n),ends,fun k less before => ?_⟩
  have dead := earlier k less
  rw [ways_blockEnd (by rwa [Cursor.past_after,behind])] at dead
  cases dead

-- Where a quote may end behind a newline it may end before it, and of the two ends it takes the first.
theorem quote_ended (found : quote.pattern.matchAt? c = some m) : Text.Ended m.text := by
  obtain ⟨rest,n,begins,read,ends,earlier⟩ := quote_first found
  rw [Match.text,(matchAt_way found).1,read.textTo]
  rcases List.eq_nil_or_concat (rest.take n) with none | ⟨front,last,isFront⟩
  · exact ⟨[],'>',by rw [none]; rfl,by decide⟩
  · rw [List.concat_eq_append] at isFront
    refine ⟨'>' :: front,last,by rw [isFront]; rfl,?_⟩
    rintro rfl
    have whole : rest = front ++ '\n' :: rest.drop n := by
      rw [← List.singleton_append,← List.append_assoc,← isFront,List.take_append_drop]
    have less : front.length < n := by
      have length := congrArg List.length isFront
      rw [List.length_take,List.length_append,List.length_singleton] at length
      omega
    refine earlier front.length less ?_
    rw [whole,List.drop_left]
    exact ends.newline

end Block

namespace Loading

open Text

-- The lines a text is read from are those between its newlines where no other line break stands within these, and then
-- no line of a quote, row of a table, item of a list or image of a row is refused or lost.
def SeesLines (raw : Text) : Loading → Prop
  | .quote => (lines raw = newlineLines raw ↔ Straight raw) ∧
      (Straight raw → Quote.AllMarked (newlineLines raw) → ∀ settings nested construct,
        load settings nested construct raw .quote = (do
          let paragraphs ← nested (join "\n" (Quote.bodyOf (newlineLines raw)))
          pure [.container raw construct.name none .quote
            ((Quote.firstType? (newlineLines raw)).getD standardQuoteType) paragraphs]))
  | .list => (lines raw = newlineLines raw ↔ Straight raw) ∧
      (Straight raw → ∀ items, (newlineLines raw).map ListItem.ofLine? = items.map some →
        ∀ strict, ListItem.ofText strict raw = pure items)
  | .table => (lines raw = newlineLines raw ↔ Straight raw) ∧
      (Straight raw → Table.AllPiped (newlineLines raw) → ∃ table rows, Table.ofText raw = table ∧
        rows = (newlineLines raw).map Table.cellsOf ∧ table = Table.ofRows rows none ∧
        table.shown.Sublist rows ∧
        (table.shown.filter fun row => !Table.isAlignment row) = (rows.filter fun row => !Table.isAlignment row) ∧
        ∀ line ∈ newlineLines raw, ∃ pieces, Table.cellsOf line = pieces.map Table.unescapePipes ∧
          join ['|'] pieces = Table.dropClosingPipe (Table.dropOpeningPipe (trim line)))
  | .imageRow => ∃ m, Block.imageRow.pattern.fullMatch? raw = some m ∧
      (Straight (m.group 2) → Image.rowOfText raw = (do
        let images ← Image.ofLines (newlineLines (m.group 2))
        pure (images,(m.group? 1).getD Image.standardAlignment)))
  | _ => True

variable {loading : Loading} {construct : BlockConstruct} {place : Cursor} {m : Match}

theorem table_sees {raw : Text} (ended : Ended raw) : SeesLines raw .table := by
  refine ⟨lines_newlines ended,fun straight piped => ?_⟩
  obtain ⟨sublist,same⟩ := Table.ofRows_shown ((newlineLines raw).map Table.cellsOf) none
  exact ⟨_,_,rfl,rfl,Table.ofText_straight straight piped,Table.ofText_straight straight piped ▸ sublist,
    Table.ofText_straight straight piped ▸ same,fun line _ => Table.cells_whole line⟩

theorem quote_sees {raw : Text} (ended : Ended raw) : SeesLines raw .quote := by
  refine ⟨lines_newlines ended,fun straight marked settings nested construct => ?_⟩
  rw [load,Quote.ofText_straight straight ended marked,Logged.pure_bind]

theorem imageRow_sees {raw : Text} (found : Block.imageRow.pattern.fullMatch? raw = some m) (trimmed : trim raw = raw) :
    SeesLines raw .imageRow := by
  refine ⟨m,found,fun straight => ?_⟩
  rw [Image.rowOfText,trimmed,found]
  simp only [Image.ofLines_straight straight]

-- The text of every block that is matched.
theorem matched_sees (member : construct ∈ Block.standard) (isLoading : loading ∈ construct.loading)
    (found : construct.blockAt? place = some m) : loading.SeesLines m.text := by
  have matched := (Option.filter_eq_some_iff.mp found).1
  cases loading with
  | quote =>
    obtain rfl : construct = Block.quote := Block.loads_only rfl member isLoading
    exact quote_sees (Block.quote_ended matched)
  | list =>
    obtain rfl : construct = Block.list := Block.loads_only rfl member isLoading
    have ended := Block.list_ended matched
    exact ⟨lines_newlines ended,fun straight items each strict => ListItem.ofText_straight straight ended each strict⟩
  | table =>
    obtain rfl : construct = Block.table := Block.loads_only rfl member isLoading
    exact table_sees (Block.table_ended matched)
  | imageRow =>
    obtain ⟨_,_,_,_,full⟩ := Block.blockAt_again member isLoading (by decide) found
    obtain rfl : construct = Block.imageRow := Block.loads_only rfl member isLoading
    exact imageRow_sees full (Block.image_trimmed (List.mem_cons_self ..) matched)
  | _ => trivial

end Loading

namespace Paragraph

-- How the text of a paragraph is read, if it is read by lines.
def byLines? : Paragraph → Option Loading
  | .leaf _ _ _ .list => some .list
  | .leaf _ _ _ .table => some .table
  | .leaf _ _ _ (.imageRow _ _) => some .imageRow
  | .container _ _ _ .quote _ _ => some .quote
  | _ => none

def SeesLines (p : Paragraph) : Prop :=
  ∀ loading ∈ p.byLines?, loading.SeesLines p.raw

end Paragraph

theorem Catalogue.makes_seesLines {catalogue : Catalogue} (derived : catalogue.Derived) (settings : LoadSettings) :
    catalogue.Makes settings (Paragraph.Throughout Paragraph.SeesLines) := by
  refine makes_throughout ?_ ?_
  · intro construct member loading isLoading c m found p gives kind isKind
    have sees := Loading.matched_sees (derived.loads construct member loading isLoading) isLoading found
    cases gives <;> cases isKind <;> exact sees
  · intro construct member loading isLoading raw p gives kind isKind
    obtain rfl := derived.sound.fallback construct member loading isLoading
    cases gives
    cases isKind

namespace Loader

-- Whatever block is matched, and whatever paragraph is loaded, at any depth.
theorem parsers_see_lines {catalogue : Catalogue} (derived : catalogue.Derived) (settings : LoadSettings) :
    (∀ construct ∈ Block.standard, ∀ loading ∈ construct.loading, ∀ place m, construct.blockAt? place = some m →
      loading.SeesLines m.text) ∧
    ∀ t blocks, (load catalogue settings t).outcome = .ok blocks →
      PlacedBlock.Every (Paragraph.Throughout Paragraph.SeesLines) blocks :=
  ⟨fun _ member _ isLoading _ _ found => Loading.matched_sees member isLoading found,
    fun _ _ loaded => load_every (Catalogue.makes_seesLines derived settings) loaded⟩

def quotedLines : List PlacedBlock :=
  [⟨0,7,.paragraph (.container "> a\n> b" "extended-block-quote" none .quote Loading.standardQuoteType
    [.common "a\nb" "common-paragraph"])⟩]

theorem load_byLines (inline : List Construct) :
    (load ⟨inline,Block.standard,some Block.fallback,HeadingConstruct.standard⟩ ⟨true,false,32,false⟩ "> a\n> b").outcome =
        .ok quotedLines ∧
      (load ⟨inline,Block.standard,some Block.fallback,HeadingConstruct.standard⟩ ⟨true,false,32,false⟩ "> a\x0cb").outcome =
        .error (.quoteLineWithoutMark "b") := by
  unfold quotedLines Block.standard Block.code Block.math Block.styledWithId Block.identified Block.table Block.quote
    Block.focus Block.list Block.abridgedTodo Block.multilineTodo Block.todo Block.pageBreak Block.lineBreakByDashes
    Block.lineBreakByStars Block.lineBreakByPluses Block.imageRow Block.abridgedImage Block.image Block.comment
    Block.todoOpening Block.nuidTemplate
  repeat rw [Text.ofString_ofList]
  constructor <;> cbv

theorem parsers_see_quoted : Catalogue.standard.Derived ∧
    (∃ m, Block.quote.blockAt? (.start "> a\n> b") = some m ∧ Loading.SeesLines m.text .quote) ∧
    (load .standard ⟨true,false,32,false⟩ "> a\n> b").outcome = .ok quotedLines ∧
    PlacedBlock.Every (Paragraph.Throughout Paragraph.SeesLines) quotedLines := by
  obtain ⟨matched,loaded⟩ := parsers_see_lines .standard ⟨true,false,32,false⟩
  have some : (Block.quote.blockAt? (.start "> a\n> b")).isSome = true := by decide +kernel
  obtain ⟨m,found⟩ := Option.isSome_iff_exists.mp some
  have member : Block.quote ∈ Block.standard := by simp [Block.standard]
  have read := (load_byLines Inline.standard).1
  exact ⟨.standard,⟨m,found,matched _ member _ rfl _ _ found⟩,read,loaded _ _ read⟩

-- A form feed ends no line for the patterns, and it does for what reads the quote or the table that they match.
theorem formFeed_unseen : (Quote.AllMarked (Text.newlineLines "> a\x0cb") ∧
      (load .standard ⟨true,false,32,false⟩ "> a\x0cb").outcome = .error (.quoteLineWithoutMark "b")) ∧
    Table.AllPiped (Text.newlineLines "|a|\n|b\x0cc|") ∧ (Table.ofText "|a|\n|b\x0cc|").shown = [[['a']],[['b']]] := by
  refine ⟨⟨?_,(load_byLines Inline.standard).2⟩,?_,by decide +kernel⟩
  · unfold Quote.AllMarked
    decide +kernel
  · unfold Table.AllPiped
    decide +kernel

end Loader
end LightMarkup
