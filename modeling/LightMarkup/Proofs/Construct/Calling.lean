import LightMarkup.Proofs.Construct.Citing

/-!
Calls: keys between an ampersand and a character that ends them. A text is put together from letters and calls, the calls
wherever they can be. Then the calls are what is found in it, one after the other, and the letters are what stands between
them.
-/

namespace LightMarkup

namespace Pattern

/-- A text with something made of what stands between its matches, and of each match. -/
def woven (gap : Text → Text) (made : Match → Text) (t : Text) : Nat → List Match → Text
  | first, [] => gap (t.drop first)
  | first, m :: rest => gap ((t.take m.start.position).drop first) ++ (made m ++ woven gap made t m.stop.position rest)

end Pattern

namespace Inline

open Pattern

variable {ends : CharSet} {key t s : Text} {x : Char} {c : Cursor} {way : Way}

/-- A key between an ampersand and one of the characters that may end it. -/
def calling (ends : CharSet) : Pattern :=
  literal ['&'] ++ captured 1 (plus (.char CharSet.wordOrHyphen)) ++ .char ends

-- No key holds what ends one.
def Apart (ends : CharSet) : Prop :=
  ∀ x, ends.contains x = true → ¬ CharSet.wordOrHyphen.contains x = true

def Opens (ends : CharSet) (t : Text) : Prop :=
  ∃ key x rest, t = key ++ x :: rest ∧ Citable key ∧ ends.contains x = true

theorem calling_way (found : way ∈ (calling ends).ways c) : ∃ key x rest, c.after = '&' :: (key ++ x :: rest) ∧
    Citable key ∧ ends.contains x = true ∧ way = (c.past (key.length + 2),[⟨1,c.past 1,c.past (1 + key.length)⟩]) := by
  obtain ⟨_,front,last,closed,rfl⟩ := mem_seq.mp found
  obtain ⟨start,opened,stop,isKey,rfl⟩ := mem_seq.mp front
  obtain ⟨opening,noneOpening⟩ := literal_reads opened
  obtain ⟨key,read,some,all,captured⟩ := run_parts isKey
  obtain ⟨x,next,isNext,isEnd,rfl⟩ := mem_char.mp closed
  have closing := Cursor.next_reads isNext
  have atKey : start.1 = c.past 1 := opening.eq_past
  have atEnd : stop.1 = c.past (1 + key.length) := by rw [read.eq_past,atKey,Cursor.past_past]
  have ended : next = c.past (key.length + 2) := by
    rw [closing.eq_past,atEnd,Cursor.past_past]
    exact congrArg c.past (by simp only [List.length_singleton]; omega)
  have whole := ((opening.append read).append closing).1
  refine ⟨key,x,next.after,by simpa using whole,⟨some,all⟩,isEnd,?_⟩
  rw [noneOpening,captured,atKey,atEnd,ended]
  rfl

-- Where a key is called there is one way, and where none is there is no way.
theorem calling_head {rest : Text} (apart : Apart ends) (isKey : Citable key) (isEnd : ends.contains x = true)
    (begins : c.after = '&' :: (key ++ x :: rest)) : ((calling ends).ways c).head? =
      some (c.past (key.length + 2),[⟨1,c.past 1,c.past (1 + key.length)⟩]) := by
  have taken : (calling ends).Takes c (['&'] ++ key ++ [x]) := by
    obtain ⟨y,more,rfl⟩ := List.exists_cons_of_ne_nil isKey.1
    have opened : (c.past 1).after = y :: (more ++ x :: rest) := by rw [Cursor.past_after,begins]; rfl
    have others : ((c.past 1).past 1).after = more ++ x :: rest := by rw [Cursor.past_after,opened]; rfl
    have closed : (c.past (['&'] ++ y :: more).length).after = x :: rest := by
      rw [Cursor.past_after,begins]
      simp
    have run : (plus (.char CharSet.wordOrHyphen)).Takes (c.past 1) (y :: more) :=
      takes_plus (takes_char opened (isKey.2 y (List.mem_cons_self ..)))
        (takes_run others fun z member => isKey.2 z (List.mem_cons_of_mem _ member))
    exact ((takes_literal begins).seq (.group run)).seq (takes_char closed isEnd)
  refine taken.head fun other found => ?_
  obtain ⟨k,y,behind,text,other,isOther,rfl⟩ := calling_way found
  obtain ⟨rfl,rfl,rfl⟩ := Text.run_once other.2 isKey.2 (apart y isOther) (apart x isEnd)
    (List.cons.inj (text.symm.trans begins)).2
  rfl

theorem calling_none (closed : ∀ t, c.after = '&' :: t → ¬ Opens ends t) : (calling ends).ways c = [] := by
  rw [List.eq_nil_iff_forall_not_mem]
  intro way found
  obtain ⟨key,x,rest,text,isKey,isEnd,_⟩ := calling_way found
  exact closed _ text ⟨key,x,rest,rfl,isKey,isEnd⟩

-- A key is called only by what may end it.
theorem not_opens {rest : Text} (apart : Apart ends) (all : ∀ c ∈ key, CharSet.wordOrHyphen.contains c = true)
    (other : ¬ CharSet.wordOrHyphen.contains x = true) (open_ : ¬ ends.contains x = true) : ¬ Opens ends (key ++ x :: rest) := by
  rintro ⟨k,y,behind,same,isKey,isEnd⟩
  obtain ⟨_,rfl,_⟩ := Text.run_once all isKey.2 other (apart y isEnd) same
  exact open_ isEnd

/-- A piece of a text that holds calls. -/
inductive Segment where
  | letter (c : Char)
  | call (key : Text) (stop : Char)

namespace Segment

variable {segments : List Segment} {gap : Text → Text}

def text : Segment → Text
  | letter c => [c]
  | call key stop => '&' :: (key ++ [stop])

theorem call_last (key : Text) (stop : Char) : (call key stop).text.getLast? = some stop := by
  rw [text,← List.cons_append,List.getLast?_concat]

def key? : Segment → Option Text
  | letter _ => none
  | call key _ => some key

def written (segments : List Segment) : Text :=
  segments.flatMap text

-- The pieces are calls wherever they can be.
def Reading (ends : CharSet) : List Segment → Prop
  | [] => True
  | letter c :: rest => (c = '&' → ¬ Opens ends (written rest)) ∧ Reading ends rest
  | call key stop :: rest => (Citable key ∧ ends.contains stop = true) ∧ Reading ends rest

-- Every text is put together from such pieces.
theorem reading_exists (ends : CharSet) (s : Text) : ∃ segments, written segments = s ∧ Reading ends segments := by
  induction length : s.length using Nat.strongRecOn generalizing s with
  | _ n ih =>
    cases s with
    | nil => exact ⟨[],rfl,trivial⟩
    | cons c t =>
      by_cases opens : c = '&' ∧ Opens ends t
      · obtain ⟨rfl,key,x,rest,rfl,isKey,isEnd⟩ := opens
        obtain ⟨segments,rfl,reading⟩ := ih rest.length (by simp at length; omega) rest rfl
        exact ⟨call key x :: segments,by simp [written,text],⟨isKey,isEnd⟩,reading⟩
      · obtain ⟨segments,rfl,reading⟩ := ih t.length (by simp at length; omega) t rfl
        exact ⟨letter c :: segments,rfl,fun same open_ => opens ⟨same,open_⟩,reading⟩

def letters (t : Text) : List Segment :=
  t.map letter

theorem written_append (one two : List Segment) : written (one ++ two) = written one ++ written two :=
  List.flatMap_append

theorem written_letters (t : Text) : written (letters t) = t := by
  rw [written,letters,List.flatMap_map]
  exact List.flatMap_singleton' t

theorem reading_letters (none : '&' ∉ t) (reading : Reading ends segments) : Reading ends (letters t ++ segments) := by
  induction t with
  | nil => exact reading
  | cons c t ih =>
    refine ⟨fun same => absurd ?_ none,ih (List.not_mem_of_not_mem_cons none)⟩
    exact same ▸ List.mem_cons_self ..

-- An ampersand and letters that do not go on with an end.
theorem reading_uncalled (apart : Apart ends) (ampersand : ends.contains '&' = true)
    (all : ∀ c ∈ key, CharSet.wordOrHyphen.contains c = true) (other : ¬ CharSet.wordOrHyphen.contains x = true)
    (open_ : ¬ ends.contains x = true) (reading : Reading ends segments) :
    Reading ends (letters ('&' :: (key ++ [x])) ++ segments) := by
  refine ⟨fun _ => ?_,reading_letters ?_ reading⟩
  · have text : written (letters (key ++ [x]) ++ segments) = key ++ x :: written segments := by
      rw [written_append,written_letters,List.append_assoc]
      rfl
    exact text ▸ not_opens apart all other open_
  · intro member
    rcases List.mem_append.mp member with inside | last
    · exact apart '&' ampersand (all _ inside)
    · exact open_ (List.mem_singleton.mp last ▸ ampersand)

-- The match of a call between two texts.
def called (before key : Text) (stop : Char) (back : Text) : Match :=
  let here : Cursor := ⟨before,'&' :: (key ++ stop :: back)⟩
  ⟨here,here.past (key.length + 2),[⟨1,here.past 1,here.past (1 + key.length)⟩]⟩

theorem called_group (before key : Text) (stop : Char) (back : Text) : (called before key stop back).group 1 = key := by
  show Cursor.textTo _ _ = key
  rw [← Cursor.past_past]
  exact (Cursor.Reads.of_after (t := key) rfl).textTo

theorem called_stop (before key : Text) (stop : Char) (back : Text) :
    (called before key stop back).stop.position = before.length + (key.length + 2) :=
  Cursor.past_position (by simp)

theorem called_text (before key : Text) (stop : Char) (back : Text) :
    (called before key stop back).text = (call key stop).text := by
  have begins : '&' :: (key ++ stop :: back) = (call key stop).text ++ back := by simp [text]
  have read := Cursor.Reads.of_after (c := ⟨before,'&' :: (key ++ stop :: back)⟩) begins
  have length : (call key stop).text.length = key.length + 2 := by simp [text]
  rw [length] at read
  exact read.textTo

def finds (before : Text) : List Segment → List Match
  | [] => []
  | letter c :: rest => finds (c :: before) rest
  | call key stop :: rest =>
    called before key stop (written rest) :: finds ((call key stop).text.reverse ++ before) rest

theorem scan_reading (apart : Apart ends) (reading : Reading ends segments) (before : Text) :
    scanFrom Match.length (calling ends).matchSomeAt? before 0 (written segments) = finds before segments := by
  induction segments generalizing before with
  | nil =>
    have none : (calling ends).ways ⟨before,[]⟩ = [] := calling_none fun t same => by cases same
    rw [written,List.flatMap_nil,scanFrom,matchSomeAt_none.mpr (none ▸ List.forall_mem_nil _)]
    rfl
  | cons segment rest ih =>
    cases segment with
    | letter c =>
      obtain ⟨closed,reading⟩ := reading
      have none : (calling ends).matchSomeAt? ⟨before,c :: written rest⟩ = none := by
        refine matchSomeAt_none.mpr (calling_none (fun t same => ?_) ▸ List.forall_mem_nil _)
        obtain ⟨rfl,rfl⟩ := List.cons.inj same
        exact closed rfl
      rw [finds,← ih reading,written,List.flatMap_cons,text,List.singleton_append,← written,scanFrom,none]
    | call key stop =>
      obtain ⟨⟨isKey,isEnd⟩,reading⟩ := reading
      have split : '&' :: (key ++ stop :: written rest) = (call key stop).text ++ written rest := by simp [text]
      have length : (called before key stop (written rest)).length = (call key stop).text.length := by
        rw [Match.length,called_stop]
        simp [called,text,Cursor.position]
      have here : (calling ends).matchSomeAt? ⟨before,(call key stop).text ++ written rest⟩ =
          some (called before key stop (written rest)) := by
        rw [← split]
        refine matchSomeAt_some (by rw [matchAt_head,calling_head apart isKey isEnd rfl]; rfl) ?_
        show (called before key stop (written rest)).length ≠ 0
        rw [length,text]
        simp
      rw [written,List.flatMap_cons,← written,scan_take here (by simp [text]) length,ih reading,finds]

theorem occurrences_reading (apart : Apart ends) (reading : Reading ends segments) :
    (calling ends).occurrences (written segments) = finds [] segments :=
  scan_reading apart reading []

theorem finds_group (before : Text) (segments : List Segment) :
    (finds before segments).map (·.group 1) = segments.filterMap key? := by
  induction segments generalizing before with
  | nil => rfl
  | cons segment rest ih =>
    cases segment with
    | letter c => exact ih _
    | call key stop =>
      rw [finds,List.map_cons,ih,called_group]
      rfl

theorem finds_text (before : Text) (segments : List Segment) :
    (finds before segments).map Match.text = (segments.filter (·.key?.isSome)).map text := by
  induction segments generalizing before with
  | nil => rfl
  | cons segment rest ih =>
    cases segment with
    | letter c => exact ih _
    | call key stop =>
      rw [finds,List.map_cons,ih,called_text]
      rfl

def piece (gap value : Text → Text) : Segment → Text
  | letter c => gap [c]
  | call key _ => value key

theorem woven_finds (none : gap [] = []) (split : ∀ t u, gap (t ++ u) = gap t ++ gap u) (value : Text → Text)
    (segments : List Segment) (before : Text) (first : Nat) (inside : first ≤ before.length) :
    woven gap (fun m => value (m.group 1)) (before.reverse ++ written segments) first (finds before segments) =
      gap (before.reverse.drop first) ++ segments.flatMap (piece gap value) := by
  induction segments generalizing before first with
  | nil => simp [finds,woven,written]
  | cons segment rest ih =>
    cases segment with
    | letter c =>
      have later := ih (c :: before) first (by simp; omega)
      have whole : before.reverse ++ written (letter c :: rest) = (c :: before).reverse ++ written rest := by
        simp [written,text]
      rw [whole,finds,later,List.reverse_cons,List.drop_append_of_le_length (by simpa using inside),split,List.flatMap_cons,
        piece,List.append_assoc]
    | call key stop =>
      have whole : before.reverse ++ written (call key stop :: rest) =
          ((call key stop).text.reverse ++ before).reverse ++ written rest := by
        simp [written,text]
      have length : before.length + (key.length + 2) = ((call key stop).text.reverse ++ before).reverse.length := by
        simp [text]
      have later := ih ((call key stop).text.reverse ++ before) (before.length + (key.length + 2))
        (Nat.le_of_eq (length.trans List.length_reverse))
      rw [List.drop_eq_nil_of_le (Nat.le_of_eq length.symm),none,List.nil_append,← whole] at later
      have start : (called before key stop (written rest)).start.position = before.reverse.length := List.length_reverse.symm
      rw [finds,woven,called_group,start,called_stop,later,List.take_left,List.flatMap_cons,piece]

theorem letters_pieces (none : gap [] = []) (split : ∀ t u, gap (t ++ u) = gap t ++ gap u) (value : Text → Text) (t : Text) :
    (letters t).flatMap (piece gap value) = gap t := by
  induction t with
  | nil => exact none.symm
  | cons c t ih => rw [letters,List.map_cons,List.flatMap_cons,← letters,ih,piece,← split,List.singleton_append]

theorem letters_keys (t : Text) : (letters t).filterMap key? = [] := by
  rw [letters,List.filterMap_map]
  exact List.filterMap_eq_nil_iff.mpr fun _ _ => rfl

end Segment
end Inline
end LightMarkup
