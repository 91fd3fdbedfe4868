import LightMarkup.Proofs.Loading.Rematching
import LightMarkup.Proofs.Returns.Pairing

/-!
What the groups of two matches hold, and the matches of a pattern that stays on a line, which does not see whether the
line ends with the text or with a newline.
-/

namespace LightMarkup

open Cursor (Facing)
open Pattern (Accord CapturesFace Way Own)
open Text (withReturns)

namespace Pattern

variable {x : Char} {numbers : List Nat} {p : Pattern} {c : Cursor} {way : Way}

-- The groups have no such character in them.
def groupsAvoid (x : Char) (numbers : List Nat) : Pattern → Bool
  | .seq first second => first.groupsAvoid x numbers && second.groupsAvoid x numbers
  | .choice first second => first.groupsAvoid x numbers && second.groupsAvoid x numbers
  | .repeated _ _ _ body => body.groupsAvoid x numbers
  | .group number _ body => (!numbers.contains number || Block.avoids x body) && body.groupsAvoid x numbers
  | .ahead body => body.groupsAvoid x numbers
  | _ => true

def CapturesAvoid (x : Char) (numbers : List Nat) (way : Way) (_ : Cursor) : Prop :=
  ∀ k ∈ way.2, k.group ∈ numbers → ∃ t, k.start.Reads t k.stop ∧ x ∉ t

theorem capturesAvoid_closed (x : Char) (numbers : List Nat) : Closed (CapturesAvoid x numbers) where
  none _ := List.forall_mem_nil _
  after one two := List.forall_mem_append.mpr ⟨two,one⟩

theorem ways_groupsAvoid (avoids : p.groupsAvoid x numbers = true) : ∀ c, ∀ way ∈ p.ways c, CapturesAvoid x numbers way c := by
  induction p with
  | empty =>
    intro c way found
    cases List.mem_singleton.mp found
    exact (capturesAvoid_closed x numbers).none c
  | char set =>
    intro c way found
    obtain ⟨_,next,_,_,rfl⟩ := mem_char.mp found
    exact (capturesAvoid_closed x numbers).none next
  | seq first second one two =>
    obtain ⟨isFirst,isSecond⟩ := Bool.and_eq_true_iff.mp avoids
    exact fun c => (capturesAvoid_closed x numbers).thenWays (one isFirst c) (two isSecond)
  | choice first second one two =>
    obtain ⟨isFirst,isSecond⟩ := Bool.and_eq_true_iff.mp avoids
    intro c way found
    rcases List.mem_append.mp found with found | found
    · exact one isFirst c way found
    · exact two isSecond c way found
  | repeated lazily least most body ih => exact (capturesAvoid_closed x numbers).repeated (ih avoids) lazily least most
  | group number name body ih =>
    obtain ⟨here,inside⟩ := Bool.and_eq_true_iff.mp avoids
    intro c way found
    obtain ⟨inner,isInner,rfl⟩ := mem_group.mp found
    refine List.forall_mem_cons.mpr ⟨fun member => ?_,ih inside c inner isInner⟩
    have free : Block.avoids x body = true := by
      rcases Bool.or_eq_true_iff.mp here with other | free
      · rw [List.contains_iff_mem.mpr member] at other
        cases other
      · exact free
    obtain ⟨t,read,all⟩ := ways_only (Block.avoids_only free) c inner isInner
    exact ⟨t,read,fun member => all x member rfl⟩
  | ahead body ih =>
    intro c way found
    obtain ⟨first,isFirst,rfl⟩ := mem_waysAhead found
    exact ih avoids c first isFirst
  | notAhead | notBehind | textStart | textEnd | lineStart | lineEnd | lastLineEnd => exact fun c => (capturesAvoid_closed x numbers).waysIf

end Pattern

namespace Match

variable {exact : List Nat} {k : Accord} {p : Pattern} {m m' : Match} {n : Nat}

-- Of two matches whose captures are related one by one, each group is related.
theorem capture_related {R : Capture → Capture → Prop} (group : ∀ {k k'}, R k k' → k.group = k'.group)
    (related : List.Forall₂ R m.captures m'.captures) (numbered : n ≠ 0) : Option.Rel R (m.capture? n) (m'.capture? n) := by
  rw [capture?,capture?,if_neg numbered,if_neg numbered]
  generalize m.captures = g,m'.captures = g' at related
  induction related with
  | nil => exact .none
  | cons here _ ih =>
    rw [List.find?_cons,List.find?_cons,← group here]
    split
    · exact .some here
    · exact ih

-- A group that took part in both matches holds what is read at related places.
theorem groups_read {R : Capture → Capture → Prop} (way : m.IsWay p) (way' : m'.IsWay p) (numbered : n ≠ 0)
    (rel : Option.Rel R (m.capture? n) (m'.capture? n)) : m.group? n = none ∧ m'.group? n = none ∨
      ∃ held ∈ m.captures, held.group = n ∧ ∃ held' t t', R held held' ∧ held.start.Reads t held.stop ∧
        held'.start.Reads t' held'.stop ∧ m.group? n = some t ∧ m'.group? n = some t' := by
  cases found : m.capture? n with
  | none =>
    rw [found] at rel
    exact Or.inl ⟨by rw [Match.group?,found]; rfl,by rw [Match.group?,Pattern.rel_none rel rfl]; rfl⟩
  | some held =>
    rw [found] at rel
    obtain ⟨held',found',here⟩ := Pattern.rel_some rel
    obtain ⟨t,read,text⟩ := way.reads_group found
    obtain ⟨t',read',text'⟩ := way'.reads_group found'
    rw [capture?,if_neg numbered] at found
    exact Or.inr ⟨held,List.mem_of_find?_eq_some found,by simpa using List.find?_some found,held',t,t',here,read,read',
      text,text'⟩

-- The same groups took part, at the same places.
theorem Faces.capture (faces : m.Faces exact k m') (numbered : n ≠ 0) :
    Option.Rel (Pattern.CaptureFaces exact) (m.capture? n) (m'.capture? n) :=
  capture_related (fun here => here.group) faces.captures numbered

theorem Faces.group? (faces : m.Faces exact k m') (way : m.IsWay p) (way' : m'.IsWay p) (numbered : n ≠ 0) (member : n ∈ exact) :
    m'.group? n = (m.group? n).map withReturns := by
  rcases groups_read way way' numbered (faces.capture numbered) with ⟨none,none'⟩ | ⟨held,both⟩
  · rw [none,none']
    rfl
  · obtain ⟨_,number,held',t,t',faces,read,read',text,text'⟩ := both
    obtain ⟨start,stop⟩ := faces.level (number ▸ member)
    rw [text,text',(start.between stop read read').1]
    rfl

-- On a line they hold the same.
theorem Faces.group_same (faces : m.Faces exact k m') (way : m.IsWay p) (way' : m'.IsWay p) (numbered : n ≠ 0) (member : n ∈ exact)
    (avoids : p.groupsAvoid '\n' exact = true) : m'.group? n = m.group? n := by
  rw [faces.group? way way' numbered member]
  cases found : m.capture? n with
  | none => rw [Match.group?,found]; rfl
  | some held =>
    rw [capture?,if_neg numbered] at found
    have number : held.group = n := by simpa using List.find?_some found
    obtain ⟨t,read,free⟩ :=
      Pattern.ways_groupsAvoid avoids _ _ way held (List.mem_of_find?_eq_some found) (number ▸ member)
    have text : m.group? n = .some t := by rw [Match.group?,capture?,if_neg numbered,found,Option.map_some,read.textTo]
    rw [text,Option.map_some,Text.withReturns_free free]

theorem inside_text (way : m.IsWay p) (around : Cursor) : (m.inside around).text = m.text := by
  have group := inside_group way around 0
  simpa [group?,capture?,text] using group

end Match

-- Nothing before a text, and a newline behind it.
def Cursor.newline : Cursor :=
  ⟨[],['\n']⟩

namespace Pattern

variable {p : Pattern} {c : Cursor} {t : Text} {way : Way}

-- A pattern that stays on a line, whose end may be that of the text.
def staysOnLine (p : Pattern) : Bool :=
  p.looksOnly [.lineStart,.lineEnd] && Block.avoids '\n' p

theorem line_ways (stays : p.staysOnLine = true) (c : Cursor) :
    p.ways (c.inside .newline) = (p.ways c).map (Way.inside .newline) := by
  obtain ⟨looks,avoids⟩ := Bool.and_eq_true_iff.mp stays
  have known : ∀ q ∈ [Pattern.lineStart,.lineEnd], ∀ c, Own .newline q.ways c :=
    List.forall_mem_cons.mpr ⟨own_lineStart rfl,List.forall_mem_singleton.mpr (own_lineEnd rfl)⟩
  have own := looksOnly_own known looks c
  -- The newline is not read.
  have all : (p.ways (c.inside .newline)).filter (staysIn .newline) = p.ways (c.inside .newline) := by
    refine List.filter_eq_self.mpr fun way found => ?_
    obtain ⟨t,read,free⟩ := ways_only (Block.avoids_only avoids) _ way found
    have ahead : c.after ++ ['\n'] = t ++ way.1.after := read.1
    refine decide_eq_true (Nat.one_le_iff_ne_zero.mpr fun none => ?_)
    rw [List.length_eq_zero_iff.mp none,List.append_nil] at ahead
    exact free '\n' (ahead ▸ by simp) rfl
  rwa [Own,all] at own

theorem line_way (stays : p.staysOnLine = true) {m : Match} (way : m.IsWay p) : (m.inside .newline).IsWay p := by
  show (_,_) ∈ p.ways (m.start.inside .newline)
  rw [line_ways stays]
  exact List.mem_map_of_mem way

theorem line_matches (stays : p.staysOnLine = true) (c : Cursor) :
    p.matchAt? (c.inside .newline) = (p.matchAt? c).map (·.inside .newline) := by
  rw [matchAt_head,matchAt_head,line_ways stays,List.head?_map,Option.map_map,Option.map_map]
  rfl

-- A pattern that leads to the end of a line takes the whole of a text that is one line.
theorem line_full (ends : Block.endsLine p = true) (free : '\n' ∉ t) : p.fullMatch? t = p.matchStart? t := by
  have ended : ∀ way ∈ p.ways (.start t), way.1.after = [] := by
    intro way found
    obtain ⟨u,read⟩ := ways_reads found
    have whole : t = u ++ way.1.after := read.1
    have last := Block.endsLine_way ends found
    cases behind : way.1.after with
    | nil => rfl
    | cons x rest =>
      rw [isLineEnd,behind] at last
      obtain rfl : x = '\n' := by simpa using last
      exact absurd (by rw [whole,behind]; simp) free
  rw [matchStart?,matchAt_head]
  cases head : (p.ways (.start t)).head? with
  | none => rw [fullMatch?,run_eq,List.head?_eq_none_iff.mp head]; rfl
  | some way => rw [fullMatch_head head (ended way (List.mem_of_head? head))]; rfl

end Pattern
end LightMarkup
