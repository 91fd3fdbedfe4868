import Mathlib
import LightMarkup.Proofs.Loading.Compact
import LightMarkup.Proofs.Loading.Room

/-!
Loading a text that is a quote as a whole. Each line of it begins with the mark, so the text is compact and the constructs
before the one for quotes do not match there. What is loaded inside the quote is what was quoted.
-/

namespace LightMarkup

open Pattern

namespace Quote

variable {line content : Text} {lines bodies : List Text}

theorem Marked.holding (marked : Marked line content) : Text.Holding line ∧ '\n' ∉ line := by
  obtain ⟨rest,rfl⟩ := List.head?_eq_some_iff.mp marked.begins
  exact ⟨⟨[],'>',rest,rfl,List.forall_mem_nil _,by decide,by decide,by decide⟩,fun newline =>
    absurd (marked.plain.unbroken _ newline) (by decide)⟩

theorem join_begins (some : lines ≠ []) (each : List.Forall₂ Marked lines bodies) :
    (Text.join ['\n'] lines).head? = Option.some '>' := by
  cases each with
  | nil => exact absurd rfl some
  | cons here _ =>
    obtain ⟨rest,rfl⟩ := List.head?_eq_some_iff.mp here.begins
    rw [Text.join_cons]
    rfl

theorem compact_join (some : lines ≠ []) (each : List.Forall₂ Marked lines bodies) : Compact (Text.join ['\n'] lines) := by
  have both : List.Forall₂ (fun line content => (Text.Holding line ∧ '\n' ∉ line) ∧ Marked line content) lines bodies :=
    each.imp fun line content marked => ⟨marked.holding,marked⟩
  obtain ⟨holding,follows⟩ := Text.holding_join some ((List.forall₂_and_left _ _).mp both).1
  obtain ⟨rest,begins⟩ := List.head?_eq_some_iff.mp (join_begins some each)
  exact ⟨⟨'>',rest,begins,by decide⟩,holding,follows⟩

end Quote

namespace Block

variable {construct : BlockConstruct} {t g r raw : Text}

-- The constructs that are tried before the one for quotes.
theorem before_quote (before : construct ∈ standard.take 5) :
    construct ∈ standard ∧ construct.pattern.outset '>' = .dead := by
  have all : (standard.take 5).all (fun construct => construct.pattern.outset '>' == .dead) = true := by decide +kernel
  exact ⟨List.take_subset _ _ before,eq_of_beq (List.all_eq_true.mp all construct before)⟩

-- What is visible at the end of a compact text is in its last block.
theorem quote_open (compact : Compact t) (split : t = '>' :: r ++ g) {v : Text} {y : Char} (ends : '>' :: r = v ++ [y])
    (solid : Text.isBlank y = false) {n : Nat} (inner : n < r.length) : ¬ Ends (t.drop (1 + n)) := by
  refine compact.not_ends (List.take_append_drop (1 + n) t).symm ?_ solid
  have behind : t.drop (1 + n) = r.drop n ++ g := by
    rw [split,Nat.add_comm,List.cons_append,List.drop_succ_cons,List.drop_append_of_le_length (Nat.le_of_lt inner)]
  obtain ⟨v,rfl⟩ : ∃ v, r = v ++ [y] := by
    cases v with
    | nil => simp at ends; simp [ends.2] at inner
    | cons x v => exact ⟨v,(List.cons.inj ends).2⟩
  have bound : n ≤ v.length := by
    rw [List.length_append] at inner
    exact Nat.le_of_lt_succ inner
  rw [behind,List.drop_append_of_le_length bound]
  simp

-- A quote is the text up to the gaps behind it.
theorem quote_matches (compact : Compact t) (begins : t.head? = some '>') (split : t = raw ++ g) (gaps : Gaps g)
    {v : Text} {y : Char} (ends : raw = v ++ [y]) (solid : Text.isBlank y = false) :
    quote.pattern.matchAt? (.start t) = some ⟨.start t,(Cursor.start t).past raw.length,[]⟩ := by
  obtain ⟨r,rfl⟩ : ∃ r, raw = '>' :: r := by
    cases raw with
    | nil => simp at ends
    | cons x r =>
      rw [split] at begins
      cases begins
      exact ⟨r,rfl⟩
  have body : (.lineStart ++ literal ">" ++ lazyMany Inline.anything : Pattern).ways (.start t) =
      (lazyMany Inline.anything).ways ((Cursor.start t).past 1) := by
    have mark : (">" : Text) = ['>'] := by rw [Text.ofString_eq]; rfl
    have front : (Cursor.start t).after = ['>'] ++ (r ++ g) := split
    rw [mark,ways_line_literal rfl front]
    rfl
  have read : ((Cursor.start t).past 1).Reads r ((Cursor.start t).past ('>' :: r).length) := by
    have begins : ((Cursor.start t).past 1).after = r ++ g := by
      rw [Cursor.past_after]
      exact congrArg (List.drop 1) split
    have read := Cursor.Reads.of_after begins
    rwa [Cursor.past_past,Nat.add_comm] at read
  have all : ∀ x ∈ r, CharSet.all.contains x = true := fun x _ => rfl
  obtain ⟨others,ways⟩ := lazyMany_split read all
  have alive : (blockEnd.ways ((Cursor.start t).past ('>' :: r).length)).head? =
      some ((Cursor.start t).past ('>' :: r).length,[]) := by
    have behind : ((Cursor.start t).past ('>' :: r).length).after = g ++ [] := by
      rw [Cursor.past_after,List.append_nil]
      show List.drop _ t = g
      rw [split,List.drop_left]
    rw [ways_blockEnd ⟨g,[],behind,gaps,Or.inl rfl⟩]
    rfl
  have dead : ∀ n < r.length, blockEnd.ways (((Cursor.start t).past 1).past n) = [] := fun n inner =>
    ways_blockEnd_none (by
      rw [Cursor.past_past,Cursor.past_after]
      exact quote_open compact split ends solid inner)
  rw [matchAt_head]
  have head := head_seq (body.trans ways) (List.forall_mem_map.mpr fun n member => dead n (List.mem_range.mp member)) alive
  show Option.map _ ((.lineStart ++ literal ">" ++ lazyMany Inline.anything ++ blockEnd : Pattern).ways _).head? = _
  rw [head]
  rfl

end Block

-- A quote of the standard type around paragraphs.
def Paragraph.quoteOf (raw : Text) (nested : List Paragraph) : Paragraph :=
  .container raw Block.quote.name none .quote Loading.standardQuoteType nested

namespace Loader

variable {loader : Loader} {lines bodies : List Text}

open Quote (Marked)

-- A quote as the only block of a text.
def quoteBlock (raw : Text) (nested : List Paragraph) : PlacedBlock :=
  ⟨0,raw.length,.paragraph (.quoteOf raw nested)⟩

-- What is noted when a quote at the begin of a text is loaded.
def quoteNotice : Text :=
  "loading " ++ inTicks (Text.ofString Block.quote.name) ++ " at " ++ Text.ofNat 0

-- A quote, loaded: nothing but what it quotes is loaded inside it.
theorem matchBlocks_quoted {tried : Nat} {raw : Text} {m : Match} (text : m.text = raw) (start : m.start.position = 0)
    (body : ∀ strict, Quote.ofText strict raw = pure (none,Text.join ['\n'] bodies)) :
    loader.matchBlocks tried Block.quote .quote 0 m = (do
      Logged.debug .loading quoteNotice
      let paragraphs ← loader.nested tried (Text.join ['\n'] bodies)
      pure [quoteBlock raw paragraphs]) := by
  simp only [matchBlocks,Loading.load,text,start,body,pure_bind,bind_assoc,PlacedBlock.place_single,Nat.zero_add]
  rfl

-- The constructs before the one for quotes pass the text, and those behind it have nothing left.
theorem partition_quoted (before after : List BlockConstruct)
    (headings : loader.catalogue.headings = HeadingConstruct.standard) (passing : before ⊆ Block.standard.take 5)
    (known : after ⊆ Block.standard) (some : lines ≠ []) (each : List.Forall₂ Marked lines bodies)
    (untyped : ∀ body ∈ bodies.head?, Quote.typeOf? body = none) :
    loader.partition (before ++ Block.quote :: after) 0 (Text.join ['\n'] lines) none = (do
      Logged.debug .loading quoteNotice
      let paragraphs ← loader.nested (loader.catalogue.blocks.length - after.length) (Text.join ['\n'] bodies)
      pure ([quoteBlock (Text.trimEnd (Text.join ['\n'] lines)) paragraphs],none)) := by
  have compact := Quote.compact_join some each
  have begins := Quote.join_begins some each
  obtain ⟨kept,g,marked,split,gaps,trimmed⟩ := Quote.marked_trimmed some each
  obtain ⟨v,y,ends,solid⟩ := Text.trimEnd_ends (trimmed ▸ Quote.join_some (Quote.marked_some some each marked) marked)
  rw [trimmed] at ends ⊢
  have body := fun strict => Quote.ofText_marked strict marked untyped
  generalize Text.join ['\n'] lines = t at compact begins split
  generalize Text.join ['\n'] kept = raw at split ends body
  have matched := Block.quote_matches compact begins split gaps ends solid
  have behind : ((Cursor.start t).past raw.length).after = g := by
    rw [Cursor.past_after]
    show List.drop _ t = g
    rw [split,List.drop_left]
  have text : (⟨.start t,(Cursor.start t).past raw.length,[]⟩ : Match).text = raw := (Cursor.Reads.of_after split).textTo
  rw [partition_alone before after headings (fun construct member => Block.before_quote (passing member))
    (List.cons_subset.mpr ⟨by simp [Block.standard],known⟩) rfl compact begins matched (by rwa [behind])]
  rw [matchBlocks_quoted text rfl body]
  simp only [bind_assoc,pure_bind]

end Loader

namespace Quote

-- Lines quoted so many times.
def quotedTimes (lines : List Text) (times : Nat) : List Text :=
  (List.map quoted)^[times] lines

-- The same without the blanks at their ends, as they stand in a quote.
def body (lines : List Text) (times : Nat) : Text :=
  Text.join ['\n'] ((quotedTimes lines times).map Text.trimEnd)

-- Paragraphs in as many quotes.
def around (lines : List Text) : Nat → List Paragraph → List Paragraph
  | 0, paragraphs => paragraphs
  | times + 1, paragraphs => [.quoteOf (body lines (times + 1)) (around lines times paragraphs)]

variable {lines : List Text} {line : Text}

-- Lines that can be quoted: the first is not one that names a type.
structure Quotable (lines : List Text) : Prop where
  some : lines ≠ []
  unbroken : ∀ line ∈ lines, Text.Unbroken line
  trimmed : ∀ line ∈ lines, Text.trimEnd line = line
  untyped : ∀ word ≠ [], (∀ x ∈ word, CharSet.wordOrHyphen.contains x = true) →
    lines.head? ≠ Option.some ('[' :: '!' :: (word ++ [']']))

theorem quotedTimes_succ (lines : List Text) (times : Nat) :
    quotedTimes lines (times + 1) = (quotedTimes lines times).map quoted :=
  Function.iterate_succ_apply' _ _ _

namespace Quotable

variable (quotable : Quotable lines) (times : Nat)
include quotable

theorem some_times : quotedTimes lines times ≠ [] := by
  induction times with
  | zero => exact quotable.some
  | succ times ih =>
    rw [quotedTimes_succ]
    exact fun none => ih (List.map_eq_nil_iff.mp none)

theorem plain_times : ∀ line ∈ quotedTimes lines times, Plain line := by
  induction times with
  | zero => exact fun line member => .trimmed (quotable.unbroken line member) (quotable.trimmed line member)
  | succ times ih =>
    rw [quotedTimes_succ]
    exact List.forall_mem_map.mpr fun line member => (ih line member).quoted

theorem marked_times : List.Forall₂ Marked (quotedTimes lines (times + 1)) ((quotedTimes lines times).map Text.trimEnd) := by
  rw [quotedTimes_succ,List.forall₂_map_left_iff,List.forall₂_map_right_iff]
  exact List.forall₂_same.mpr fun line member => (quotable.plain_times times line member).marked

theorem untyped_times : ∀ body ∈ ((quotedTimes lines times).map Text.trimEnd).head?, typeOf? body = none := by
  intro body isFirst
  rw [List.head?_map] at isFirst
  obtain ⟨first,isHead,rfl⟩ := Option.map_eq_some_iff.mp isFirst
  refine typeOf_none (Text.trimEnd_trimEnd first) fun word some inSet same => ?_
  cases times with
  | zero =>
    have trimmed := quotable.trimmed first (List.mem_of_head? isHead)
    exact quotable.untyped word some inSet (isHead.trans (congrArg _ (trimmed.symm.trans same)))
  | succ times =>
    rw [quotedTimes_succ,List.head?_map] at isHead
    obtain ⟨line,_,rfl⟩ := Option.map_eq_some_iff.mp isHead
    rw [quoted,Text.trimEnd_cons rfl] at same
    cases same

end Quotable
end Quote

namespace Nested

variable {settings : LoadSettings} {lines : List Text}

end Nested

namespace Loader

open Quote

end Loader

end LightMarkup
