import LightMarkup.Proofs.Loading.Endings
import LightMarkup.Proofs.Loading.Pieces
import LightMarkup.Proofs.Pattern.Isolating

/-!
Blocks matched again in their own text. A block that ends with something that is not blank may end where it does in the
whole text; one that fills its line can only end where the line does.
-/

namespace LightMarkup
namespace Text

def blankCodes : List Nat :=
  [0x09,0x0a,0x0b,0x0c,0x0d,0x1c,0x1d,0x1e,0x1f,0x20,0x85,0xa0,0x1680,0x2000,0x2001,0x2002,0x2003,0x2004,0x2005,0x2006,
    0x2007,0x2008,0x2009,0x200a,0x2028,0x2029,0x202f,0x205f,0x3000]

theorem blank_code {c : Char} (blank : isBlank c = true) : c.toNat ∈ blankCodes := by
  simp only [isBlank,Bool.or_eq_true,Bool.and_eq_true,decide_eq_true_eq,beq_iff_eq] at blank
  simp only [blankCodes,List.mem_cons,List.not_mem_nil,or_false]
  omega

theorem blank_not_word {c : Char} (blank : isBlank c = true) : isWord c = false := by
  have none : blankCodes.all (fun n => !isWord (Char.ofNat n)) = true := by decide +kernel
  have here := List.all_eq_true.mp none c.toNat (blank_code blank)
  simpa [Char.ofNat_toNat] using here

end Text

namespace CharSet

-- Known to have no blank.
def solid : CharSet → Bool
  | .one c => !Text.isBlank c
  | .word => true
  | .union a b => a.solid && b.solid
  | _ => false

theorem solid_contains {set : CharSet} {x : Char} (solid : set.solid = true) (inSet : set.contains x = true) :
    Text.isBlank x = false := by
  induction set with
  | one c =>
    obtain rfl : x = c := beq_iff_eq.mp inSet
    exact (Bool.not_eq_true' _).mp solid
  | word =>
    cases blank : Text.isBlank x with
    | false => rfl
    | true =>
      have notWord := Text.blank_not_word blank
      rw [show Text.isWord x = true from inSet] at notWord
      cases notWord
  | union a b one two =>
    obtain ⟨isOne,isTwo⟩ := Bool.and_eq_true_iff.mp solid
    rcases Bool.or_eq_true_iff.mp inSet with inSet | inSet
    · exact one isOne inSet
    · exact two isTwo inSet
  | all | range | blank | decimal | complement => cases solid

end CharSet

namespace Pattern

variable {p : Pattern} {kind : CharSet → Bool} {idle : Bool} {c : Cursor} {way : Way}

-- Nothing is read, or the last character is of a set of the kind.
def EndsIn (kind : CharSet → Bool) (way : Way) (c : Cursor) : Prop :=
  ∃ t, c.Reads t way.1 ∧ ∀ x ∈ t.getLast?, ∃ set, kind set = true ∧ set.contains x = true

theorem endsIn_closed (kind : CharSet → Bool) : Closed (EndsIn kind) where
  none c := ⟨[],.refl c,by simp⟩
  after := by
    rintro first next c ⟨t,one,endsOne⟩ ⟨u,two,endsTwo⟩
    refine ⟨t ++ u,one.append two,fun x member => ?_⟩
    rw [List.getLast?_append] at member
    cases last : u.getLast? with
    | none => exact endsOne x (by simpa [last] using member)
    | some y => exact endsTwo x (by simpa [last] using member)

def lasts (kind : CharSet → Bool) : Pattern → Bool
  | .char set => kind set
  | .seq first second => second.lasts kind && (second.needs (fun _ => true) || first.lasts kind)
  | .choice first second => first.lasts kind && second.lasts kind
  | .repeated _ _ _ body => body.lasts kind
  | .group _ _ body => body.lasts kind
  | _ => true

theorem lasts_endsIn (lasts : p.lasts kind = true) : ∀ c, ∀ way ∈ p.ways c, EndsIn kind way c := by
  induction p with
  | empty => intro c way found; cases List.mem_singleton.mp found; exact (endsIn_closed kind).none c
  | char set =>
    intro c way found
    obtain ⟨x,next,read,inSet,rfl⟩ := mem_char.mp found
    refine ⟨[x],Cursor.next_reads read,fun y member => ?_⟩
    cases member
    exact ⟨set,lasts,inSet⟩
  | seq first second one two =>
    obtain ⟨isSecond,either⟩ := Bool.and_eq_true_iff.mp lasts
    rcases Bool.or_eq_true_iff.mp either with needed | isFirst
    · intro c way found
      obtain ⟨mid,isMid,next,isNext,rfl⟩ := mem_thenWays.mp found
      obtain ⟨t,read⟩ := ways_reads isMid
      obtain ⟨u,more,ends⟩ := two isSecond mid.1 next isNext
      have less := needs_eats needed mid.1 next isNext
      have length := more.length
      refine ⟨t ++ u,read.append more,fun x member => ends x ?_⟩
      rwa [List.getLast?_append_of_ne_nil t (List.length_pos_iff.mp (by omega))] at member
    · exact fun c => (endsIn_closed kind).thenWays (one isFirst c) (two isSecond)
  | choice first second one two =>
    obtain ⟨isFirst,isSecond⟩ := Bool.and_eq_true_iff.mp lasts
    intro c way found
    rcases List.mem_append.mp found with found | found
    · exact one isFirst c way found
    · exact two isSecond c way found
  | repeated lazily least most body ih => exact (endsIn_closed kind).repeated (ih lasts) lazily least most
  | group number name body ih =>
    intro c way found
    obtain ⟨inner,isInner,rfl⟩ := mem_group.mp found
    exact ih lasts c inner isInner
  | ahead body =>
    intro c way found
    obtain ⟨first,_,rfl⟩ := mem_waysAhead found
    exact ⟨[],.refl c,by simp⟩
  | notAhead | notBehind | textStart | textEnd | lineStart | lineEnd | lastLineEnd => intro c; exact (endsIn_closed kind).waysIf

end Pattern

namespace Block

open Pattern

variable {c around : Cursor} {body first : Pattern} {m : Match} {t : Text}

-- Blanks before something that is not blank.
theorem blank_front {last : Char} {g t u v : Text} (solid : Text.isBlank last = false)
    (blank : ∀ x ∈ g, Text.isBlank x = true) (whole : t ++ [last] ++ u = g ++ v) :
    ∃ after, t = g ++ after ∧ v = after ++ [last] ++ u := by
  rw [List.append_assoc] at whole
  rcases List.append_eq_append_iff.mp whole with ⟨more,begins,rest⟩ | ⟨after,begins,rest⟩
  · cases more with
    | nil => exact ⟨[],by simpa using begins.symm,by simpa using rest.symm⟩
    | cons x more =>
      obtain ⟨rfl,_⟩ := List.cons.inj rest
      have isBlank := blank last (by simp [begins])
      rw [solid] at isBlank
      cases isBlank
  · exact ⟨after,begins,by simpa using rest⟩

-- Whether a block may end before something that is not blank does not depend on what comes behind that.
theorem ends_append {last : Char} (solid : Text.isBlank last = false) (t u : Text) :
    Ends (t ++ [last] ++ u) ↔ Ends (t ++ [last]) := by
  refine ⟨?_,fun ends => ends.append solid u⟩
  rintro ⟨g,v,whole,gaps,closes⟩
  obtain ⟨t,rfl,rfl⟩ := blank_front solid gaps.blank whole
  rcases closes with none | ⟨b,w,isWhole,isBreak,after⟩
  · simp at none
  · obtain ⟨t,rfl,rfl⟩ := blank_front solid isBreak.blank isWhole
    refine ⟨g,b ++ (t ++ [last]),by simp,gaps,Or.inr ⟨b,t ++ [last],rfl,isBreak,?_⟩⟩
    rcases after with hash | ⟨h,x,isWhole,others,stops⟩
    · refine Or.inl ?_
      cases t <;> simpa using hash
    · obtain ⟨t,rfl,rfl⟩ := blank_front solid others.blank isWhole
      rcases stops with none | ⟨e,y,isWhole,isBreak⟩
      · simp at none
      · obtain ⟨t,rfl,rfl⟩ := blank_front solid isBreak.blank isWhole
        exact Or.inr ⟨h,e ++ t ++ [last],by simp,others,Or.inr ⟨e,t ++ [last],by simp,isBreak⟩⟩

theorem own_blockEnd (same : Ends (c.after ++ around.after) ↔ Ends c.after) : Own around blockEnd.ways c := by
  rw [Own]
  by_cases ends : Ends c.after
  · rw [ways_blockEnd ends,ways_blockEnd (c := c.inside around) (same.mpr ends)]
    exact own_stay around c
  · rw [ways_blockEnd_none ends,ways_blockEnd_none (c := c.inside around) (mt same.mp ends)]
    rfl

-- The match of a block is a match of its body, and the block may end behind it.
theorem block_way (found : (block body).matchAt? c = some m) :
    (m.stop,m.captures) ∈ body.ways m.start ∧ Ends m.stop.after := by
  obtain ⟨_,isWay⟩ := matchAt_way found
  obtain ⟨mid,one,two,isBody,isEnd,captures⟩ := seq_parts isWay
  obtain ⟨ends,same⟩ := mem_blockEnd.mp isEnd
  cases same
  rw [captures]
  exact ⟨isBody,ends⟩

-- A block that ends with something that is not blank, whatever its body is.
theorem solid_again (looks : body.looksOnly [] = true) (needed : body.needs (fun _ => true) = true)
    (lasts : body.lasts CharSet.solid = true) (found : (block body).matchAt? c = some m) :
    (block body).Again m ∧ ∃ t last, m.text = t ++ [last] ∧ Text.isBlank last = false := by
  obtain ⟨isBody,ends⟩ := block_way found
  obtain ⟨t,read,endsIn⟩ := lasts_endsIn lasts _ _ isBody
  have less : m.stop.after.length < m.start.after.length := needs_eats needed _ _ isBody
  have length : m.start.after.length = t.length + m.stop.after.length := read.length
  obtain ⟨u,last,rfl⟩ := (List.eq_nil_or_concat t).resolve_left (List.length_pos_iff.mp (by omega))
  rw [List.concat_eq_append] at read endsIn
  obtain ⟨set,isSolid,inSet⟩ := endsIn last (by simp)
  have solid := CharSet.solid_contains isSolid inSet
  have text : m.text = u ++ [last] := read.textTo
  refine ⟨own_again found (
    .seq (looksOnly_own (List.forall_mem_nil _) looks _) fun way isWay => own_blockEnd ?_),u,last,text,solid⟩
  obtain ⟨v,readWay⟩ := ways_reads isWay
  have split : u ++ [last] = v ++ way.1.after := text ▸ readWay.1
  rcases List.eq_nil_or_concat way.1.after with none | ⟨w,x,behind⟩
  · rw [none]
    exact ⟨fun _ => .nil,fun _ => ends⟩
  · rw [List.concat_eq_append] at behind
    rw [behind,← List.append_assoc] at split
    obtain rfl : last = x := List.singleton_inj.mp (List.append_inj' split rfl).2
    rw [behind]
    exact ends_append solid w _

-- Patterns that hold at the beginning of a line only, or lead to the end of one.

def startsLine : Pattern → Bool
  | .lineStart => true
  | .seq first _ => startsLine first
  | _ => false

def endsLine : Pattern → Bool
  | .lineEnd => true
  | .seq _ second => endsLine second
  | _ => false

theorem startsLine_way {way : Way} (starts : startsLine body = true) (found : way ∈ body.ways c) : isLineStart c = true := by
  induction body generalizing way with
  | lineStart => exact (mem_waysIf.mp found).1
  | seq first second one two =>
    obtain ⟨mid,isFirst,_⟩ := mem_thenWays.mp found
    exact one starts isFirst
  | _ => cases starts

theorem endsLine_way {way : Way} (ends : endsLine body = true) (found : way ∈ body.ways c) : isLineEnd way.1 = true := by
  induction body generalizing c way with
  | lineEnd =>
    obtain ⟨last,rfl⟩ := mem_waysIf.mp found
    exact last
  | seq first second one two =>
    obtain ⟨mid,_,next,isSecond,rfl⟩ := mem_thenWays.mp found
    have later := two ends isSecond
    exact later
  | _ => cases ends

-- One line as a whole: its own text has no other end of a line than the end of the text.
theorem line_again (looks : body.looksOnly [.lineStart,.lineEnd] = true) (starts : startsLine body = true)
    (ends : endsLine body = true) (single : body.Only (· ≠ '\n')) (found : (block body).matchAt? c = some m) :
    (block body).Again m := by
  obtain ⟨isBody,closes⟩ := block_way found
  obtain ⟨t,read,noBreak⟩ := ways_only single _ _ isBody
  have text : m.text = t := read.textTo
  have first : isLineStart m.around = true := startsLine_way (c := m.start) starts isBody
  have last : isLineEnd m.around = true := endsLine_way ends isBody
  have known : ∀ q ∈ [Pattern.lineStart,.lineEnd], ∀ c, Own m.around q.ways c :=
    List.forall_mem_cons.mpr ⟨own_lineStart first,List.forall_mem_singleton.mpr (own_lineEnd last)⟩
  refine own_again found (.seq (looksOnly_own known looks _) fun way isWay => own_blockEnd ?_)
  have nothing : way.1.after = [] := by
    obtain ⟨u,readWay⟩ := ways_reads isWay
    have split : t = u ++ way.1.after := text ▸ readWay.1
    have ended := endsLine_way ends isWay
    cases behind : way.1.after with
    | nil => rfl
    | cons x others =>
      rw [isLineEnd,behind] at ended
      exact absurd (by simpa using ended) (noBreak x (by rw [split,behind]; simp))
  rw [nothing]
  exact ⟨fun _ => .nil,fun _ => closes⟩

-- No character of the pattern is the given one.
def avoids (x : Char) : Pattern → Bool
  | .char set => !set.contains x
  | .seq first second => avoids x first && avoids x second
  | .choice first second => avoids x first && avoids x second
  | .repeated _ _ _ body => avoids x body
  | .group _ _ body => avoids x body
  | _ => true

theorem avoids_only {x : Char} (avoids : avoids x body = true) : body.Only (· ≠ x) := by
  induction body with
  | char set =>
    rintro y inSet rfl
    simp [Block.avoids,inSet] at avoids
  | seq first second one two =>
    obtain ⟨isFirst,isSecond⟩ := Bool.and_eq_true_iff.mp avoids
    exact ⟨one isFirst,two isSecond⟩
  | choice first second one two =>
    obtain ⟨isFirst,isSecond⟩ := Bool.and_eq_true_iff.mp avoids
    exact ⟨one isFirst,two isSecond⟩
  | repeated lazily least most body ih => exact ih avoids
  | group number name body ih => exact ih avoids
  | _ => trivial

-- How a block is known to be matched again: by how it ends.

def isSolid (body : Pattern) : Bool :=
  body.looksOnly [] && body.needs (fun _ => true) && body.lasts CharSet.solid

def isLine (body : Pattern) : Bool :=
  body.looksOnly [.lineStart,.lineEnd] && startsLine body && endsLine body && avoids '\n' body

def body? : Pattern → Option Pattern
  | .seq body ending => if ending = blockEnd then some body else none
  | _ => none

theorem body_block {p : Pattern} (isBody : body? p = some body) : p = block body := by
  unfold body? at isBody
  split at isBody
  · split at isBody
    · rename_i ending
      cases isBody
      rw [ending]
      rfl
    · cases isBody
  · cases isBody

-- All blocks but those that are compiled line by line.
theorem standard_bodies : standard.filter (fun construct => !(body? construct.pattern).any fun body =>
    isSolid body || isLine body) = [table,quote,list] := by
  decide +kernel

theorem standard_kind {construct : BlockConstruct} (member : construct ∈ standard)
    (other : construct ∉ [table,quote,list]) :
    ∃ body, construct.pattern = block body ∧ (isSolid body = true ∨ isLine body = true) := by
  rw [← standard_bodies,List.mem_filter,not_and,Bool.not_eq_true',Bool.not_eq_false] at other
  obtain ⟨body,isBody,kind⟩ := (Option.any_eq_true _ _).mp (other member)
  exact ⟨body,body_block isBody,Bool.or_eq_true_iff.mp kind⟩

theorem standard_again {construct : BlockConstruct} (member : construct ∈ standard) (other : construct ∉ [table,quote,list])
    (found : construct.pattern.matchAt? c = some m) : construct.pattern.Again m := by
  obtain ⟨body,isBlock,solid | line⟩ := standard_kind member other
  · simp only [isSolid,Bool.and_eq_true] at solid
    rw [isBlock] at found ⊢
    exact (solid_again solid.1.1 solid.1.2 solid.2 found).1
  · simp only [isLine,Bool.and_eq_true] at line
    rw [isBlock] at found ⊢
    exact line_again line.1.1.1 line.1.1.2 line.1.2 (avoids_only line.2) found

-- An image has no blanks around it, so it is read as it is.
theorem image_trimmed {construct : BlockConstruct} (member : construct ∈ [imageRow,abridgedImage,image])
    (found : construct.pattern.matchAt? c = some m) : Text.trim m.text = m.text := by
  have bodies : [imageRow,abridgedImage,image].all (fun construct => (body? construct.pattern).any fun body =>
      isSolid body && body.begins '!') = true := by decide +kernel
  obtain ⟨body,isBody,kind⟩ := (Option.any_eq_true _ _).mp (List.all_eq_true.mp bodies construct member)
  simp only [isSolid,Bool.and_eq_true] at kind
  rw [body_block isBody] at found
  obtain ⟨_,t,last,text,solid⟩ := solid_again kind.1.1.1 kind.1.1.2 kind.1.2 found
  obtain ⟨isWay,_⟩ := block_way found
  obtain ⟨u,read⟩ := ways_reads isWay
  have opens := begins_way kind.2 isWay
  have whole : u = m.text := read.textTo.symm
  obtain ⟨rest,first⟩ : ∃ rest, m.text = '!' :: rest := by
    rw [show m.start.after = u ++ m.stop.after from read.1,whole] at opens
    rw [text] at opens ⊢
    cases t with
    | nil => exact ⟨[],by simpa using opens⟩
    | cons x t => exact ⟨t ++ [last],by simpa using opens⟩
  exact Text.trim_solid first (by decide) text solid

end Block
end LightMarkup
