import Mathlib.Data.List.Basic
import LightMarkup.Proofs.Pattern.Needing

/-!
A match taken out of its text. In the matched text alone the ways of a pattern are those that stay inside the match, in
the same order, as long as what the pattern looks at beyond the ends is answered as it is in the whole text. So the match
that the pattern prefers is found again, and it takes all of the text.
-/

namespace LightMarkup

-- A place in a part of a text, seen from the whole text; `around` has what stands before and behind the part.
def Cursor.inside (c around : Cursor) : Cursor :=
  ⟨c.before ++ around.before,c.after ++ around.after⟩

def Capture.inside (k : Capture) (around : Cursor) : Capture :=
  ⟨k.group,k.start.inside around,k.stop.inside around⟩

namespace Pattern

variable {p q : Pattern} {c around : Cursor} {way : Way} {first second step : Cursor → List Way} {set : CharSet}

def Way.inside (around : Cursor) (way : Way) : Way :=
  (way.1.inside around,way.2.map (·.inside around))

def staysIn (around : Cursor) (way : Way) : Bool :=
  decide (around.after.length ≤ way.1.after.length)

-- The ways that stay in the part are those of the part alone.
def Own (around : Cursor) (step : Cursor → List Way) (c : Cursor) : Prop :=
  (step (c.inside around)).filter (staysIn around) = (step c).map (Way.inside around)

-- No way leads back.
def Onward (step : Cursor → List Way) : Prop :=
  ∀ c, ∀ way ∈ step c, way.1.after.length ≤ c.after.length

theorem capturesAhead_onward (ahead : ∀ c, ∀ way ∈ step c, CapturesAhead way c) : Onward step :=
  fun c way found => (ahead c way found).1.length_le

theorem ways_onward (p : Pattern) : Onward p.ways :=
  capturesAhead_onward ways_ahead

theorem own_stay (around c : Cursor) : Own around (fun c => [(c,[])]) c := by
  simp [Own,staysIn,Way.inside,Cursor.inside]

theorem own_if (holds : Cursor → Bool) (same : holds (c.inside around) = holds c) :
    Own around (fun c => waysIf (holds c) c) c := by
  rw [Own,same]
  cases holds c with
  | true => exact own_stay around c
  | false => rfl

-- A way that has left the part does not come back into it.
theorem Own.then (one : Own around first c) (two : ∀ way ∈ first c, Own around second way.1) (onward : Onward second) :
    Own around (fun c => thenWays (first c) second) c := by
  have left : ∀ ws : List Way, (thenWays ws second).filter (staysIn around) =
      (thenWays (ws.filter (staysIn around)) second).filter (staysIn around) := by
    intro ws
    induction ws with
    | nil => rfl
    | cons way ws ih =>
      have parts : ∀ ws : List Way, thenWays (way :: ws) second =
          (second way.1).map (fun next => (next.1,next.2 ++ way.2)) ++ thenWays ws second := fun _ => rfl
      rw [parts,List.filter_append,ih]
      cases stays : staysIn around way with
      | true => rw [List.filter_cons_of_pos stays,parts,List.filter_append]
      | false =>
        rw [List.filter_cons_of_neg (by simp [stays]),List.filter_eq_nil_iff.mpr,List.nil_append]
        intro next member
        obtain ⟨after,isAfter,rfl⟩ := List.mem_map.mp member
        have further := onward _ after isAfter
        simp only [staysIn,decide_eq_false_iff_not,decide_eq_true_eq] at stays ⊢
        omega
  show (thenWays (first (c.inside around)) second).filter (staysIn around) = _
  rw [left,one]
  simp only [thenWays,List.flatMap_map,List.filter_flatMap,List.map_flatMap]
  refine List.flatMap_congr fun way member => ?_
  rw [List.filter_map,List.map_map]
  have same : (staysIn around ∘ fun next : Way => (next.1,next.2 ++ (Way.inside around way).2)) = staysIn around := rfl
  rw [same]
  have here := two way member
  rw [Own] at here
  show ((second (way.1.inside around)).filter (staysIn around)).map _ = _
  rw [here,List.map_map]
  refine List.map_congr_left fun next _ => ?_
  simp [Way.inside]

theorem Own.seq (one : Own around p.ways c) (two : ∀ way ∈ p.ways c, Own around q.ways way.1) :
    Own around (p ++ q).ways c :=
  one.then two (ways_onward q)

theorem Own.choice (one : Own around p.ways c) (two : Own around q.ways c) : Own around (Pattern.choice p q).ways c := by
  rw [Own] at one two ⊢
  simp only [ways,List.filter_append,List.map_append,one,two]

theorem Own.group {number : Nat} {name : Option String} (one : Own around p.ways c) :
    Own around (Pattern.group number name p).ways c := by
  rw [Own] at one ⊢
  simp only [ways,List.filter_map]
  have same : (staysIn around ∘ fun way : Way => (way.1,⟨number,c.inside around,way.1⟩ :: way.2)) = staysIn around := rfl
  rw [same,one,List.map_map,List.map_map]
  rfl

-- A character behind the part is none of the part's own.
theorem own_char (set : CharSet) (around c : Cursor) : Own around (Pattern.char set).ways c := by
  obtain ⟨before,after⟩ := c
  cases after with
  | cons x rest =>
    have ahead : (Cursor.inside ⟨before,x :: rest⟩ around).after = x :: (rest ++ around.after) := rfl
    rw [Own,ways_char_cons ahead,ways_char_cons rfl]
    cases set.contains x with
    | true => exact own_stay around ⟨x :: before,rest⟩
    | false => rfl
  | nil =>
    rw [Own,ways_char_nil (c := ⟨before,[]⟩) rfl,List.map_nil,List.filter_eq_nil_iff]
    intro way found
    obtain ⟨x,next,read,_,rfl⟩ := mem_char.mp found
    have length := (Cursor.next_reads read).length
    have all : (Cursor.inside ⟨before,[]⟩ around).after.length = around.after.length := rfl
    rw [all,List.length_singleton] at length
    simp only [staysIn,decide_eq_true_eq]
    omega

theorem onward_exactly (onward : ∀ c, ∀ way ∈ step c, CapturesAhead way c) (n : Nat) : Onward (waysExactly step n) :=
  capturesAhead_onward (capturesAhead_closed.exactly onward n)

theorem own_exactly (onward : ∀ c, ∀ way ∈ step c, CapturesAhead way c) (own : ∀ c, Own around step c) (n : Nat) :
    ∀ c, Own around (waysExactly step n) c := by
  induction n with
  | zero => exact own_stay around
  | succ n ih => exact fun c => (own c).then (fun way _ => ih way.1) (onward_exactly onward n)

theorem own_upTo {β : Type} (onward : ∀ c, ∀ way ∈ step c, CapturesAhead way c) (own : ∀ c, Own around step c)
    (lazily : Bool) (left : List β) : ∀ c, Own around (waysUpTo step lazily left) c := by
  induction left with
  | nil => exact own_stay around
  | cons item left ih =>
    intro c
    have more := (own c).then (fun way _ => ih way.1) (capturesAhead_onward (capturesAhead_closed.upTo onward lazily left))
    have none := own_stay around c
    rw [Own] at more none ⊢
    cases lazily with
    | true =>
      show ([(c.inside around,[])] ++ thenWays _ _).filter _ = ([(c,[])] ++ thenWays _ _).map _
      rw [List.filter_append,List.map_append,more,none]
    | false =>
      show (thenWays _ _ ++ [(c.inside around,[])]).filter _ = (thenWays _ _ ++ [(c,[])]).map _
      rw [List.filter_append,List.map_append,more,none]

-- Where every round takes something, more room than there are characters brings no more rounds.
theorem upTo_enough {β γ : Type} (eats : ∀ c, ∀ way ∈ step c, way.1.after.length < c.after.length) (lazily : Bool)
    {left : List β} {more : List γ} (enough : c.after.length ≤ left.length) (also : c.after.length ≤ more.length) :
    waysUpTo step lazily left c = waysUpTo step lazily more c := by
  have ended : ∀ {δ : Type} {c : Cursor} (left : List δ), c.after = [] → waysUpTo step lazily left c = [(c,[])] := by
    intro δ c left none
    have stuck : step c = [] := List.eq_nil_iff_forall_not_mem.mpr fun way found => by
      have less := eats c way found
      simp [none] at less
    cases left with
    | nil => rfl
    | cons item left => cases lazily <;> simp [waysUpTo,stuck,thenWays]
  induction left generalizing c more with
  | nil =>
    have none : c.after = [] := List.length_eq_zero_iff.mp (Nat.le_zero.mp enough)
    rw [ended _ none,ended _ none]
  | cons item left ih =>
    cases more with
    | nil =>
      have none : c.after = [] := List.length_eq_zero_iff.mp (Nat.le_zero.mp also)
      rw [ended _ none,ended _ none]
    | cons other more =>
      have later : thenWays (step c) (waysUpTo step lazily left) = thenWays (step c) (waysUpTo step lazily more) := by
        refine List.flatMap_congr fun way member => ?_
        have less := eats c way member
        simp only [List.length_cons] at enough also
        have same : waysUpTo step lazily left way.1 = waysUpTo step lazily more way.1 := ih (by omega) (by omega)
        rw [same]
      simp only [waysUpTo,later]

-- Apart from what is allowed, looks at nothing but what it reads; a round of which there may be any number reads
-- something.
def looksOnly (allowed : List Pattern) : Pattern → Bool
  | .empty => true
  | .char _ => true
  | .seq first second => first.looksOnly allowed && second.looksOnly allowed
  | .choice first second => first.looksOnly allowed && second.looksOnly allowed
  | .repeated _ _ most body => body.looksOnly allowed && (most.isSome || body.needs fun _ => true)
  | .group _ _ body => body.looksOnly allowed
  | p => allowed.contains p

theorem needs_eats (needed : p.needs (fun _ => true) = true) : ∀ c, ∀ way ∈ p.ways c, way.1.after.length < c.after.length := by
  intro c way found
  obtain ⟨t,x,_,read,member,_,_⟩ := needs_reads needed found
  have length := read.length
  have some := List.length_pos_of_mem member
  omega

theorem looksOnly_own {allowed : List Pattern} (known : ∀ q ∈ allowed, ∀ c, Own around q.ways c)
    (looks : p.looksOnly allowed = true) : ∀ c, Own around p.ways c := by
  induction p with
  | empty => exact own_stay around
  | char set => exact own_char set around
  | seq first second one two =>
    obtain ⟨isFirst,isSecond⟩ := Bool.and_eq_true_iff.mp looks
    exact fun c => (one isFirst c).seq fun way _ => two isSecond way.1
  | choice first second one two =>
    obtain ⟨isFirst,isSecond⟩ := Bool.and_eq_true_iff.mp looks
    exact fun c => (one isFirst c).choice (two isSecond c)
  | repeated lazily least most body ih =>
    obtain ⟨isBody,bounded⟩ := Bool.and_eq_true_iff.mp looks
    have round := ih isBody
    have onward := capturesAhead_onward (capturesAhead_closed.rounds (ways_ahead (p := body)) lazily least most)
    refine fun c => (own_exactly ways_ahead round least c).then (fun way _ => ?_) onward
    cases most with
    | some most => exact own_upTo ways_ahead round lazily _ way.1
    | none =>
      -- There is more room in the whole text than in the part.
      have eats := needs_eats (show body.needs (fun _ => true) = true by simpa using bounded)
      have same : waysRounds body.ways lazily least none way.1 =
          waysUpTo body.ways lazily (way.1.inside around).after way.1 :=
        upTo_enough eats lazily (Nat.le_refl _) (by simp [Cursor.inside])
      rw [Own,same]
      exact own_upTo ways_ahead round lazily _ way.1
  | group number name body ih => exact fun c => (ih looks c).group
  | ahead | notAhead | notBehind | textStart | textEnd | lineStart | lineEnd | lastLineEnd =>
    exact known _ (List.contains_iff_mem.mp looks)

-- What a pattern looks at beyond the ends of the part is answered as at those ends.

theorem own_notBehind (apart : ∀ x ∈ around.before.head?, set.contains x = false) (c : Cursor) :
    Own around (Pattern.notBehind set).ways c := by
  refine own_if _ ?_
  obtain ⟨before,after⟩ := c
  cases before with
  | cons x before => rfl
  | nil =>
    cases behind : around.before with
    | nil => simp [Cursor.inside,behind]
    | cons x others => simp [Cursor.inside,behind,apart x (by simp [behind])]

theorem own_notAhead (apart : ∀ x ∈ around.after.head?, set.contains x = false) (c : Cursor) :
    Own around (Pattern.notAhead (.char set)).ways c := by
  refine own_if (fun c => ((Pattern.char set).ways c).isEmpty) ?_
  obtain ⟨before,after⟩ := c
  cases after with
  | cons x rest =>
    have ahead : (Cursor.inside ⟨before,x :: rest⟩ around).after = x :: (rest ++ around.after) := rfl
    rw [ways_char_cons ahead,ways_char_cons rfl]
    cases set.contains x <;> rfl
  | nil =>
    rw [ways_char_nil (c := ⟨before,[]⟩) rfl]
    cases ahead : around.after with
    | nil => rw [ways_char_nil (by simp [Cursor.inside,ahead])]
    | cons x others =>
      rw [ways_char_cons (by simpa [Cursor.inside] using ahead),apart x (by simp [ahead])]
      rfl

theorem own_textStart (first : around.before = []) (c : Cursor) : Own around Pattern.textStart.ways c :=
  own_if (fun c => c.before.isEmpty) (by simp [Cursor.inside,first])

theorem own_lineStart (first : isLineStart around = true) (c : Cursor) : Own around Pattern.lineStart.ways c := by
  refine own_if isLineStart ?_
  obtain ⟨before,after⟩ := c
  cases before with
  | cons x before => rfl
  | nil => exact first

theorem own_lineEnd (last : isLineEnd around = true) (c : Cursor) : Own around Pattern.lineEnd.ways c := by
  refine own_if isLineEnd ?_
  obtain ⟨before,after⟩ := c
  cases after with
  | cons x rest => rfl
  | nil => exact last

def CapturesRead (way : Way) (_ : Cursor) : Prop :=
  ∀ k ∈ way.2, ∃ t, k.start.Reads t k.stop

theorem capturesRead_closed : Closed CapturesRead where
  none _ := List.forall_mem_nil _
  after one two := List.forall_mem_append.mpr ⟨two,one⟩

-- A group holds what lies between its places.
theorem ways_capturesRead : ∀ c, ∀ way ∈ p.ways c, CapturesRead way c := by
  refine capturesRead_closed.ways (fun _ => ?_) (fun _ reads inner => ?_) fun first => ?_
  · exact List.forall_mem_nil _
  · exact List.forall_mem_cons.mpr ⟨reads,inner⟩
  · exact first

end Pattern

namespace Match

open Pattern

variable {p : Pattern} {m n : Match}

theorem IsWay.reads_group (way : m.IsWay p) {k : Nat} {held : Capture} (found : m.capture? k = some held) :
    ∃ t, held.start.Reads t held.stop ∧ m.group? k = some t := by
  have read : ∃ t, held.start.Reads t held.stop := by
    unfold capture? at found
    split at found
    · cases found
      exact way.reads
    · exact ways_capturesRead _ _ way held (List.mem_of_find?_eq_some found)
  obtain ⟨t,read⟩ := read
  exact ⟨t,read,by rw [group?,found,Option.map_some,read.textTo]⟩

-- A match as it is seen from a longer text.
def inside (m : Match) (around : Cursor) : Match :=
  ⟨m.start.inside around,m.stop.inside around,m.captures.map (·.inside around)⟩

theorem inside_capture (m : Match) (around : Cursor) (k : Nat) :
    (m.inside around).capture? k = (m.capture? k).map (·.inside around) := by
  unfold capture?
  split
  · rfl
  · rw [inside,List.find?_map]
    rfl

-- It has the same groups.
theorem inside_group (way : m.IsWay p) (around : Cursor) (k : Nat) : (m.inside around).group? k = m.group? k := by
  cases found : m.capture? k with
  | none => rw [group?,group?,inside_capture,found]; rfl
  | some held =>
    obtain ⟨t,read,text⟩ := way.reads_group found
    have inside : (held.start.inside around).Reads t (held.stop.inside around) :=
      ⟨by simp [Cursor.inside,read.1],by simp [Cursor.inside,read.2]⟩
    rw [text,group?,inside_capture,found]
    simp [Capture.inside,inside.textTo]

-- What stands around a match.
def around (m : Match) : Cursor :=
  ⟨m.start.before,m.stop.after⟩

-- The second match is the first one in its text alone: it takes all of it, with the same groups.
structure Repeats (m n : Match) : Prop where
  span : n.span = (0,m.text.length)
  text : n.text = m.text
  group : ∀ k, n.group? k = m.group? k
  groupSpan : ∀ k, m.groupSpan? k = (n.groupSpan? k).map fun span => (m.start.position + span.1,m.start.position + span.2)

theorem Repeats.of_inside (whole : n.start = .start m.text) (ended : n.stop.after = []) (isWay : n.IsWay p)
    (start : m.start = n.start.inside m.around) (stop : m.stop = n.stop.inside m.around)
    (captures : m.captures = n.captures.map (·.inside m.around)) : m.Repeats n := by
  have same : n.inside m.around = m := ((Match.mk.injEq ..).mpr ⟨start,stop,captures⟩).symm
  obtain ⟨t,read⟩ := isWay.reads
  have all : t = m.text := by
    have ahead := read.1
    rw [ended,List.append_nil,whole] at ahead
    exact ahead.symm
  have position : n.start.position = 0 := by rw [whole]; rfl
  refine ⟨?_,?_,fun k => ?_,fun k => ?_⟩
  · rw [Match.span,position,read.position,position,all,Nat.zero_add]
  · rw [← all]
    exact read.textTo
  · have group := inside_group isWay m.around k
    rw [same] at group
    exact group.symm
  · have capture := inside_capture n m.around k
    rw [same] at capture
    rw [groupSpan?,groupSpan?,capture,Option.map_map,Option.map_map]
    congr 1
    funext held
    simp [Capture.inside,Cursor.inside,Cursor.position,around,Nat.add_comm]

end Match

namespace Pattern

variable {p : Pattern} {c : Cursor} {m : Match} {way : Way} {t : Text}

-- Matched again in the text of a match alone, the pattern finds this match, whether it is searched for there, has to begin
-- there or has to take all of it.
def Again (p : Pattern) (m : Match) : Prop :=
  ∃ n, m.Repeats n ∧ p.search? m.text = some n ∧ p.matchStart? m.text = some n ∧ p.fullMatch? m.text = some n

theorem fullMatch_head (head : (p.ways (.start t)).head? = some way) (ended : way.1.after = []) :
    p.fullMatch? t = some ⟨.start t,way.1,way.2⟩ := by
  obtain ⟨others,ways⟩ := List.head?_eq_some_iff.mp head
  rw [fullMatch?,run_eq,firstWay,ways,List.findSome?_cons,ended]
  simp

theorem head_filter {α : Type} {f : α → Bool} {xs : List α} {x : α} (head : xs.head? = some x) (holds : f x = true) :
    (xs.filter f).head? = some x := by
  obtain ⟨rest,rfl⟩ := List.head?_eq_some_iff.mp head
  rw [List.filter_cons_of_pos holds]
  rfl

-- A match whose ends look alike in its text alone is found there again, and it takes all of the text.
theorem own_again (found : p.matchAt? c = some m) (own : Own m.around p.ways (.start m.text)) : p.Again m := by
  obtain ⟨rfl,isWay⟩ := matchAt_way found
  obtain ⟨t,read⟩ := isWay.reads
  have text : m.text = t := read.textTo
  have start : m.start = (Cursor.start m.text).inside m.around := by
    obtain ⟨⟨before,after⟩,stop,captures⟩ := m
    rw [text]
    exact Cursor.mk.injEq .. ▸ ⟨rfl,read.1⟩
  have head : (p.ways m.start).head? = some (m.stop,m.captures) := by
    rw [matchAt_head] at found
    obtain ⟨way,head,same⟩ := Option.map_eq_some_iff.mp found
    rw [head,← same]
  have kept : staysIn m.around (m.stop,m.captures) = true := decide_eq_true (Nat.le_refl _)
  rw [Own,← start] at own
  have first := head_filter head kept
  rw [own,List.head?_map] at first
  obtain ⟨way,preferred,same⟩ := Option.map_eq_some_iff.mp first
  obtain ⟨stop,captures⟩ := Prod.mk.inj same
  have ended : way.1.after = [] := by
    have behind := congrArg Cursor.after stop
    simpa [Cursor.inside,Match.around] using behind
  have again : p.matchAt? (.start m.text) = some ⟨.start m.text,way.1,way.2⟩ := by rw [matchAt_head,preferred]; rfl
  have repeats : m.Repeats ⟨.start m.text,way.1,way.2⟩ :=
    .of_inside rfl ended (List.mem_of_mem_head? preferred) start stop.symm captures.symm
  exact ⟨_,repeats,search_start again,again,fullMatch_head preferred ended⟩

end Pattern
end LightMarkup
