import LightMarkup.Proofs.Pattern.Following

/-!
The way that a pattern prefers. Of patterns in sequence it is the first way of the first pattern behind which the others
go on, so a lazy repetition takes the least text behind which the rest of the pattern matches.
-/

namespace LightMarkup
namespace Cursor

variable {c stop : Cursor} {t u : Text} {m n : Nat}

-- The place `n` characters on.
def past (c : Cursor) (n : Nat) : Cursor :=
  ⟨(c.after.take n).reverse ++ c.before,c.after.drop n⟩

@[simp] theorem past_after (c : Cursor) (n : Nat) : (c.past n).after = c.after.drop n := rfl

@[simp] theorem past_zero (c : Cursor) : c.past 0 = c := by simp [past]

theorem past_past (c : Cursor) (m n : Nat) : (c.past m).past n = c.past (m + n) := by
  simp only [past,List.drop_drop,List.take_add,List.reverse_append,List.append_assoc]

theorem past_reads (c : Cursor) (n : Nat) : c.Reads (c.after.take n) (c.past n) :=
  ⟨(List.take_append_drop n c.after).symm,rfl⟩

theorem past_position (bound : n ≤ c.after.length) : (c.past n).position = c.position + n := by
  simp [past,position,Nat.min_eq_left bound,Nat.add_comm]

theorem Reads.eq_past (read : c.Reads t stop) : stop = c.past t.length := by
  obtain ⟨before,after⟩ := stop
  obtain ⟨ahead,behind⟩ := read
  simp only at ahead behind
  rw [past,ahead,List.take_left,List.drop_left,behind]

theorem Reads.of_after {rest : Text} (begins : c.after = t ++ rest) : c.Reads t (c.past t.length) := by
  have read := c.past_reads t.length
  rwa [begins,List.take_left] at read

theorem next_eq {x : Char} {rest : Text} (begins : c.after = x :: rest) : c.next? = some (x,c.past 1) := by
  obtain ⟨before,after⟩ := c
  subst begins
  rfl

theorem next_none (ended : c.after = []) : c.next? = none := by
  simp [next?,ended]

end Cursor

namespace Pattern

variable {p q r : Pattern} {c mid : Cursor} {way next : Way} {skipped others : List Way} {t : Text} {set : CharSet}

theorem thenWays_assoc (first : List Way) (second third : Cursor → List Way) :
    thenWays (thenWays first second) third = thenWays first fun c => thenWays (second c) third := by
  simp only [thenWays,List.flatMap_assoc,List.flatMap_map,List.map_flatMap,List.map_map,Function.comp_def,
    List.append_assoc]

theorem seq_assoc (p q r : Pattern) (c : Cursor) : (p ++ q ++ r).ways c = (p ++ (q ++ r)).ways c :=
  thenWays_assoc _ _ _

@[simp] theorem thenWays_plain (c : Cursor) (second : Cursor → List Way) : thenWays [(c,[])] second = second c := by
  simp [thenWays]

theorem thenWays_end (first : List Way) : (thenWays first fun c => [(c,[])]) = first := by
  simp [thenWays]

theorem matchAt_head (p : Pattern) (c : Cursor) :
    p.matchAt? c = (p.ways c).head?.map fun way => ⟨c,way.1,way.2⟩ := by
  rw [matchAt?,run_eq]
  cases p.ways c <;> simp [firstWay]

-- A search stops where it begins if the pattern matches there.
theorem search_start {m : Match} (found : p.matchAt? (.start t) = some m) : p.search? t = some m := by
  cases t with
  | nil => exact found
  | cons x rest =>
    have here : p.matchAt? ⟨[],x :: rest⟩ = some m := found
    rw [search?,searchFrom?,here]

theorem head_then (first : List Way) (second : Cursor → List Way) : (thenWays first second).head? =
    first.findSome? fun way => (second way.1).head?.map fun next => (next.1,next.2 ++ way.2) := by
  simp [thenWays,List.head?_flatMap]

-- The ways behind which nothing goes on are passed over.
theorem head_seq (split : p.ways c = skipped ++ way :: others) (dead : ∀ way ∈ skipped, q.ways way.1 = [])
    (alive : (q.ways way.1).head? = some next) : ((p ++ q).ways c).head? = some (next.1,next.2 ++ way.2) := by
  show (thenWays (p.ways c) q.ways).head? = _
  have none : skipped.findSome? (fun way => (q.ways way.1).head?.map fun next => (next.1,next.2 ++ way.2)) = none :=
    List.findSome?_eq_none_iff.mpr fun way member => by simp [dead way member]
  rw [head_then,split,List.findSome?_append,none,Option.none_or,List.findSome?_cons,alive]
  rfl

theorem head_seq_inv (head : ((p ++ q).ways c).head? = some way) : ∃ skipped first others next,
    p.ways c = skipped ++ first :: others ∧ (q.ways first.1).head? = some next ∧ way = (next.1,next.2 ++ first.2) ∧
      ∀ way ∈ skipped, q.ways way.1 = [] := by
  change (thenWays (p.ways c) q.ways).head? = _ at head
  rw [head_then] at head
  obtain ⟨skipped,first,others,split,here,dead⟩ := List.findSome?_eq_some_iff.mp head
  obtain ⟨next,alive,same⟩ := Option.map_eq_some_iff.mp here
  refine ⟨skipped,first,others,next,split,alive,same.symm,fun way member => ?_⟩
  simpa using dead way member

-- The same for a group, which captures what its pattern takes.
theorem head_captured {number : Nat} (split : p.ways c = skipped ++ (mid,[]) :: others)
    (dead : ∀ way ∈ skipped, q.ways way.1 = []) (alive : (q.ways mid).head? = some next) :
    ((captured number p ++ q).ways c).head? = some (next.1,next.2 ++ [⟨number,c,mid⟩]) := by
  have ways : (captured number p).ways c = skipped.map (fun way => (way.1,⟨number,c,way.1⟩ :: way.2)) ++
      (mid,[⟨number,c,mid⟩]) :: others.map fun way => (way.1,⟨number,c,way.1⟩ :: way.2) := by
    simp [captured,Pattern.ways,split]
  exact head_seq ways (List.forall_mem_map.mpr dead) alive

theorem ways_char_cons {x : Char} {rest : Text} (begins : c.after = x :: rest) :
    (Pattern.char set).ways c = waysIf (set.contains x) (c.past 1) := by
  simp only [ways,Cursor.next_eq begins]

theorem ways_char_nil (ended : c.after = []) : (Pattern.char set).ways c = [] := by
  simp only [ways,Cursor.next_none ended]

theorem ways_maybe (p : Pattern) (c : Cursor) : (maybe p).ways c = p.ways c ++ [(c,[])] := by
  show thenWays [(c,[])] (waysRounds p.ways false 0 (some 1)) = _
  rw [thenWays_plain]
  show thenWays (p.ways c) (fun c => [(c,[])]) ++ [(c,[])] = _
  rw [thenWays_end]

-- A literal has one way where its text stands, and none elsewhere.
theorem ways_literal (t : Text) (c : Cursor) :
    (literal t).ways c = if t <+: c.after then [(c.past t.length,[])] else [] := by
  have one : ∀ (x : Char) (c : Cursor),
      (Pattern.char (.one x)).ways c = if [x] <+: c.after then [(c.past 1,[])] else [] := by
    intro x c
    cases after : c.after with
    | nil => simp [ways_char_nil after]
    | cons y rest =>
      rw [ways_char_cons after]
      by_cases same : x = y
      · simp [waysIf,CharSet.contains,same]
      · simp [waysIf,CharSet.contains,same,Ne.symm same]
  induction t generalizing c with
  | nil => simp [literal,ways]
  | cons x rest ih =>
    cases rest with
    | nil => exact one x c
    | cons y rest =>
      show thenWays ((Pattern.char (.one x)).ways c) (literal (y :: rest)).ways = _
      rw [one]
      cases after : c.after with
      | nil => simp [thenWays]
      | cons z behind =>
        by_cases same : x = z
        · have step : (c.past 1).after = behind := by simp [after]
          simp only [same,List.cons_prefix_cons,List.nil_prefix,and_true,true_and,↓reduceIte,thenWays_plain,ih,step,
            Cursor.past_past,List.length_cons,Nat.add_comm 1]
        · simp [same,thenWays]

theorem ways_literal_at {rest : Text} (begins : c.after = t ++ rest) : (literal t).ways c = [(c.past t.length,[])] := by
  rw [ways_literal,if_pos (by rw [begins]; exact List.prefix_append _ _)]

theorem head_literal {rest : Text} (begins : c.after = t ++ rest) :
    ((literal t ++ q).ways c).head? = (q.ways (c.past t.length)).head? := by
  rw [append_eq,ways,ways_literal_at begins,thenWays_plain]

-- At the start of a line the literal that begins it leads to one place, and what follows the literal decides.
theorem ways_line_literal (starts : isLineStart c = true) {rest : Text} (begins : c.after = t ++ rest) (q : Pattern) :
    (.lineStart ++ literal t ++ q : Pattern).ways c = q.ways (c.past t.length) := by
  have start : Pattern.lineStart.ways c = [(c,[])] := by rw [ways,starts]; rfl
  rw [append_eq,append_eq,ways,ways,start,thenWays_plain,ways_literal_at begins,thenWays_plain]

theorem ways_literal_none (other : ¬ t <+: c.after) : (literal t).ways c = [] := by
  rw [ways_literal,if_neg other]

-- How many characters of a kind stand ahead.
def runOf (set : CharSet) (t : Text) : Nat :=
  (t.takeWhile set.contains).length

theorem upTo_char {β : Type} (set : CharSet) (lazily : Bool) (left : List β) (c : Cursor) :
    waysUpTo (Pattern.char set).ways lazily left c =
      let growing := (List.range (min left.length (runOf set c.after) + 1)).map fun n => (c.past n,[])
      if lazily then growing else growing.reverse := by
  induction left generalizing c with
  | nil => cases lazily <;> simp [waysUpTo]
  | cons item left ih =>
    rw [waysUpTo]
    cases after : c.after with
    | nil => cases lazily <;> simp [ways_char_nil after,thenWays,runOf]
    | cons x rest =>
      rw [ways_char_cons after]
      cases inSet : set.contains x with
      | false => cases lazily <;> simp [waysIf,thenWays,runOf,inSet]
      | true =>
        have run : runOf set (x :: rest) = runOf set rest + 1 := by simp [runOf,inSet]
        have step : (c.past 1).after = rest := by simp [after]
        rw [waysIf,if_pos rfl,thenWays_plain,ih,step,run,List.length_cons,Nat.add_min_add_right,
          List.range_succ_eq_map (n := min left.length (runOf set rest) + 1)]
        cases lazily <;>
          simp [Function.comp_def,Cursor.past_past,Nat.add_comm 1]

theorem runOf_le (set : CharSet) (t : Text) : runOf set t ≤ t.length :=
  (List.takeWhile_prefix _).length_le

theorem runOf_take {n : Nat} (run : n ≤ runOf set t) : ∀ x ∈ t.take n, set.contains x = true := by
  intro x member
  have front := List.prefix_iff_eq_take.mp (List.takeWhile_prefix (l := t) set.contains)
  have kept : t.take n = (t.takeWhile set.contains).take n := by
    rw [front,List.take_take,Nat.min_eq_left (show n ≤ (t.takeWhile set.contains).length from run)]
  rw [kept] at member
  exact List.all_eq_true.mp List.all_takeWhile x (List.mem_of_mem_take member)

-- A lazy repetition grows by one character at a time.
theorem ways_lazyMany (set : CharSet) (c : Cursor) :
    (lazyMany (.char set)).ways c = (List.range (runOf set c.after + 1)).map fun n => (c.past n,[]) := by
  show thenWays [(c,[])] (waysRounds (Pattern.char set).ways true 0 none) = _
  rw [thenWays_plain,waysRounds,upTo_char,Nat.min_eq_right (runOf_le _ _)]
  rfl

theorem ways_many (set : CharSet) (c : Cursor) :
    (many (.char set)).ways c = ((List.range (runOf set c.after + 1)).map fun n => (c.past n,[])).reverse := by
  show thenWays [(c,[])] (waysRounds (Pattern.char set).ways false 0 none) = _
  rw [thenWays_plain,waysRounds,upTo_char,Nat.min_eq_right (runOf_le _ _)]
  rfl

theorem runOf_reads (read : c.Reads t mid) (all : ∀ x ∈ t, set.contains x = true) : t.length ≤ runOf set c.after := by
  rw [runOf,read.1,List.takeWhile_append_of_pos all,List.length_append]
  exact Nat.le_add_right _ _

theorem mem_many : way ∈ (many (.char set)).ways c ↔
    ∃ t, c.Reads t way.1 ∧ (∀ x ∈ t, set.contains x = true) ∧ way.2 = [] := by
  simp only [ways_many,List.mem_reverse,List.mem_map,List.mem_range,Nat.lt_succ_iff]
  constructor
  · rintro ⟨n,run,rfl⟩
    exact ⟨c.after.take n,c.past_reads n,runOf_take run,rfl⟩
  · rintro ⟨t,read,all,none⟩
    exact ⟨t.length,runOf_reads read all,Prod.ext read.eq_past.symm none.symm⟩

-- What a lazy repetition prefers to a text: less of it.
theorem lazyMany_split (read : c.Reads t mid) (all : ∀ x ∈ t, set.contains x = true) : ∃ others,
    (lazyMany (.char set)).ways c = (List.range t.length).map (fun n => (c.past n,[])) ++ (mid,[]) :: others := by
  obtain ⟨more,enough⟩ := Nat.exists_eq_add_of_le (runOf_reads read all)
  refine ⟨(List.range more).map fun n => (c.past (t.length + (n + 1)),[]),?_⟩
  rw [ways_lazyMany,enough,Nat.add_assoc,List.range_add,List.map_append,List.range_succ_eq_map]
  simp [read.eq_past,Function.comp_def]

-- A text that may be taken after less of it.
def Grows (p : Pattern) (c : Cursor) (t : Text) : Prop :=
  ∃ skipped others, p.ways c = skipped ++ (c.past t.length,[]) :: others ∧
    ∀ way ∈ skipped, ∃ n < t.length, way.1 = c.past n

theorem lazyMany_grows {rest : Text} (begins : c.after = t ++ rest) (all : ∀ x ∈ t, set.contains x = true) :
    (lazyMany (.char set)).Grows c t := by
  obtain ⟨others,split⟩ := lazyMany_split (.of_after begins) all
  refine ⟨_,others,split,List.forall_mem_map.mpr fun n member => ?_⟩
  exact ⟨n,List.mem_range.mp member,rfl⟩

theorem char_grows {x : Char} {rest : Text} (begins : c.after = x :: rest) (inSet : set.contains x = true)
    (grows : q.Grows (c.past 1) t) : (.char set ++ q : Pattern).Grows c (x :: t) := by
  obtain ⟨skipped,others,split,less⟩ := grows
  refine ⟨skipped,others,?_,fun way member => ?_⟩
  · rw [append_eq,ways,ways_char_cons begins,waysIf,if_pos inSet,thenWays_plain,split,Cursor.past_past,List.length_cons,
      Nat.add_comm 1]
  · obtain ⟨n,bound,same⟩ := less way member
    exact ⟨1 + n,by simp; omega,by rw [same,Cursor.past_past]⟩

-- The text that the rest does not match before is the one taken.
theorem Grows.head {number : Nat} (grows : p.Grows c t) (dead : ∀ n < t.length, q.ways (c.past n) = [])
    (alive : (q.ways (c.past t.length)).head? = some next) :
    ((captured number p ++ q).ways c).head? = some (next.1,next.2 ++ [⟨number,c,c.past t.length⟩]) := by
  obtain ⟨skipped,others,split,less⟩ := grows
  refine head_captured split (fun way member => ?_) alive
  obtain ⟨n,bound,same⟩ := less way member
  rw [same]
  exact dead n bound

theorem lazy_takes {number : Nat} (read : c.Reads t mid) (all : ∀ x ∈ t, set.contains x = true)
    (dead : ∀ n < t.length, q.ways (c.past n) = []) (alive : (q.ways mid).head? = some next) :
    ((captured number (lazyMany (.char set)) ++ q).ways c).head? = some (next.1,next.2 ++ [⟨number,c,mid⟩]) := by
  obtain rfl : c.past t.length = mid := read.eq_past.symm
  exact (lazyMany_grows read.1 all).head dead alive

theorem lazyPlus_ways (p : Pattern) (c : Cursor) : (lazyPlus p).ways c = (p ++ lazyMany p).ways c := by
  have once : waysExactly p.ways 1 c = p.ways c := thenWays_end _
  show thenWays (waysExactly p.ways 1 c) (waysRounds p.ways true 1 none) =
    thenWays (p.ways c) fun c => thenWays [(c,[])] (waysRounds p.ways true 0 none)
  simp only [once,thenWays_plain]
  rfl

-- Some way leads to a place ahead of which the text satisfies `P`.
def Leads (p : Pattern) (P : Text → Prop) (c : Cursor) : Prop :=
  ∃ way ∈ p.ways c, P way.1.after

theorem leads_seq {P Q : Text → Prop} (second : ∀ c, q.Leads P c ↔ Q c.after) : (p ++ q).Leads P c ↔ p.Leads Q c := by
  constructor
  · rintro ⟨way,found,holds⟩
    obtain ⟨mid,first,next,others,rfl⟩ := mem_seq.mp found
    exact ⟨mid,first,(second mid.1).mp ⟨next,others,holds⟩⟩
  · rintro ⟨mid,first,holds⟩
    obtain ⟨next,others,end_⟩ := (second mid.1).mpr holds
    exact ⟨_,mem_seq.mpr ⟨mid,first,next,others,rfl⟩,end_⟩

theorem leads_choice {P : Text → Prop} : (p <|> q).Leads P c ↔ p.Leads P c ∨ q.Leads P c := by
  simp only [Leads,orElse_eq,ways,List.mem_append,or_and_right,exists_or]

-- What is looked at is not read.
theorem mem_ahead (groupless : p.groups = []) :
    way ∈ (Pattern.ahead p).ways c ↔ p.Leads (fun _ => True) c ∧ way = (c,[]) := by
  simp only [ways,Leads,and_true]
  cases seen : p.ways c with
  | nil => simp [waysAhead]
  | cons first others =>
    have none := no_captures groupless (show first ∈ p.ways c by simp [seen])
    simp [waysAhead,none]

theorem findSome_range {α : Type} {f : Nat → Option α} {a : α} {k : Nat}
    (found : (List.range k).findSome? f = some a) : ∃ n < k, f n = some a ∧ ∀ m < n, f m = none := by
  induction k with
  | zero => cases found
  | succ k ih =>
    rw [List.range_succ,List.findSome?_append] at found
    cases earlier : (List.range k).findSome? f with
    | some b =>
      rw [earlier] at found
      obtain ⟨n,less,here,none⟩ := ih (earlier.trans found)
      exact ⟨n,Nat.lt_succ_of_lt less,here,none⟩
    | none =>
      rw [earlier] at found
      refine ⟨k,Nat.lt_succ_self k,by simpa using found,fun m less => ?_⟩
      exact List.findSome?_eq_none_iff.mp earlier m (List.mem_range.mpr less)

-- The least text is taken behind which the rest matches.
theorem lazy_least {number : Nat} (head : ((captured number (lazyMany (.char set)) ++ q).ways c).head? = some way) :
    ∃ t mid next, c.Reads t mid ∧ (∀ x ∈ t, set.contains x = true) ∧ (q.ways mid).head? = some next ∧
      way = (next.1,next.2 ++ [⟨number,c,mid⟩]) ∧ ∀ n < t.length, q.ways (c.past n) = [] := by
  change (thenWays ((captured number (lazyMany (.char set))).ways c) q.ways).head? = _ at head
  simp only [captured,ways,ways_lazyMany,List.map_map,Function.comp_def,head_then,List.findSome?_map] at head
  obtain ⟨n,less,here,none⟩ := findSome_range head
  obtain ⟨next,alive,same⟩ := Option.map_eq_some_iff.mp here
  have run : n ≤ runOf set c.after := Nat.lt_succ_iff.mp less
  have length : (c.after.take n).length = n := by
    rw [List.length_take,Nat.min_eq_left (Nat.le_trans run (runOf_le _ _))]
  refine ⟨c.after.take n,c.past n,next,c.past_reads n,runOf_take run,alive,same.symm,fun m less => ?_⟩
  simpa using none m (length ▸ less)

section

variable {α : Type} {lengthOf : α → Nat} {attempt : Cursor → Option α} {before u : Text}

-- Where nothing is found the search goes on behind.
theorem scan_pass (dead : ∀ n < u.length, attempt ((⟨before,u ++ t⟩ : Cursor).past n) = none) :
    scanFrom lengthOf attempt before 0 (u ++ t) = scanFrom lengthOf attempt (u.reverse ++ before) 0 t := by
  induction u generalizing before with
  | nil => rfl
  | cons x u ih =>
    have here : attempt ⟨before,x :: (u ++ t)⟩ = none := by simpa using dead 0 (by simp)
    have later : ∀ n < u.length, attempt ((⟨x :: before,u ++ t⟩ : Cursor).past n) = none := by
      intro n less
      have behind := dead (1 + n) (by simp; omega)
      rwa [← Cursor.past_past] at behind
    rw [List.cons_append,scanFrom,here]
    simpa using ih later

theorem scan_skip (u before t : Text) : scanFrom lengthOf attempt before u.length (u ++ t) =
    scanFrom lengthOf attempt (u.reverse ++ before) 0 t := by
  induction u generalizing before with
  | nil => rfl
  | cons x u ih =>
    rw [List.cons_append,List.length_cons,scanFrom,ih]
    simp

-- What is found is taken whole.
theorem scan_take {a : α} (found : attempt ⟨before,u ++ t⟩ = some a) (some : u ≠ []) (length : lengthOf a = u.length) :
    scanFrom lengthOf attempt before 0 (u ++ t) = a :: scanFrom lengthOf attempt (u.reverse ++ before) 0 t := by
  obtain ⟨x,u,rfl⟩ := List.exists_cons_of_ne_nil some
  rw [List.cons_append] at found ⊢
  rw [scanFrom,found]
  simp only [length,List.length_cons,Nat.add_sub_cancel,scan_skip]
  simp

end

end Pattern
end LightMarkup
