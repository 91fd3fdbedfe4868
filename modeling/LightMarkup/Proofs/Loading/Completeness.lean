import LightMarkup.Proofs.Loading.Passing
import LightMarkup.Proofs.Pattern.Searching

/-!
The search for the blocks of a construct is complete. It goes from match to match: one that starts where a block may is kept,
and the search goes on at its end; any other is passed over by one character, because a block may start inside of it. So each
place where a block of the construct may start is the start of a kept match or lies inside an earlier one, and there is only
one list of matches of which this holds.
-/

namespace LightMarkup

-- Of two spans in order the one that starts first ends before the other starts.
theorem InOrder.apart {first last : Nat} {spans : List (Nat × Nat)} {one two : Nat × Nat} (ordered : InOrder first last spans)
    (isOne : one ∈ spans) (isTwo : two ∈ spans) (less : one.1 < two.1) : one.2 ≤ two.1 := by
  induction spans generalizing first with
  | nil => cases isOne
  | cons span spans ih =>
    obtain ⟨_,some,later⟩ := ordered
    rcases List.mem_cons.mp isOne with rfl | oneLater
    · rcases List.mem_cons.mp isTwo with rfl | twoLater
      · exact absurd less (Nat.lt_irrefl _)
      · exact (later.within two twoLater).1
    · rcases List.mem_cons.mp isTwo with rfl | twoLater
      · have behind := (later.within one oneLater).1
        omega
      · exact ih later oneLater twoLater

namespace Cursor

theorem past_start (t : Text) (n : Nat) : (start t).past n = atPosition t n := by
  simp [past,start,atPosition]

-- A place behind another one is as far behind the text's begin as both ways together.
theorem past_behind {c : Cursor} {m n : Nat} (behind : m ≤ n) (bound : n ≤ c.after.length) :
    ∃ k ≤ (c.past m).after.length, (c.past m).past k = c.past n ∧ (c.past m).position + k = c.position + n := by
  refine ⟨n - m,?_,?_,?_⟩
  · rw [past_after,List.length_drop]
    omega
  · rw [past_past,Nat.add_sub_cancel' behind]
  · rw [past_position (Nat.le_trans behind bound)]
    omega

theorem atPosition_position {t : Text} {c : Cursor} (text : c.text = t) : atPosition t c.position = c := by
  obtain ⟨before,after⟩ := c
  obtain rfl := text
  simp [atPosition,Cursor.text,position]

end Cursor

namespace BlockConstruct

open Pattern

variable {construct : BlockConstruct} {c : Cursor} {m : Match} {ms ms' : List Match} {t : Text}

/-- The rounds of a search. Each takes the first match at its place or behind it, which is not empty; the last finds none. -/
inductive Rounds (construct : BlockConstruct) : Cursor → List Match → Prop where
  | done {c : Cursor} (none : searchFrom? construct.pattern.matchAt? c.before c.after = none) : Rounds construct c []
  | kept {c : Cursor} {m : Match} {others : List Match}
      (first : searchFrom? construct.pattern.matchAt? c.before c.after = some m)
      (consumes : m.start.position < m.stop.position) (starts : m.start.isBlockStart = true)
      (later : Rounds construct m.stop others) : Rounds construct c (m :: others)
  | passed {c : Cursor} {m : Match} {others : List Match}
      (first : searchFrom? construct.pattern.matchAt? c.before c.after = some m)
      (consumes : m.start.position < m.stop.position) (elsewhere : m.start.isBlockStart = false)
      (later : Rounds construct (m.start.past 1) others) : Rounds construct c others

/-- All blocks of a construct in a text, from left to right. A place where one could start and none does is inside an
earlier one. -/
structure AllBlocks (construct : BlockConstruct) (t : Text) (ms : List Match) : Prop where
  apart : InOrder 0 t.length (ms.map Match.span)
  start : ∀ m ∈ ms, m.start = .atPosition t m.start.position ∧ m.start.isBlockStart = true ∧
    construct.pattern.matchAt? m.start = some m
  complete : ∀ position ≤ t.length, (Cursor.atPosition t position).isBlockStart = true →
    ∀ m, construct.pattern.matchAt? (.atPosition t position) = some m →
      m ∈ ms ∨ ∃ earlier ∈ ms, earlier.start.position < position ∧ position < earlier.stop.position

-- What the first match leaves before and behind it.
theorem first_parts (first : searchFrom? construct.pattern.matchAt? c.before c.after = some m) :
    ∃ k stop, k ≤ stop ∧ stop ≤ c.after.length ∧ m.start = c.past k ∧ m.stop = c.past stop ∧
      construct.pattern.matchAt? (c.past k) = some m ∧ ∀ n < k, construct.pattern.matchAt? (c.past n) = none := by
  obtain ⟨k,bound,found,before⟩ := search_first first
  obtain ⟨start,way⟩ := matchAt_way found
  obtain ⟨inner,read⟩ := way.reads
  have stop := read.eq_past
  have length := read.length
  rw [start,Cursor.past_past] at stop
  rw [start,Cursor.past_after,List.length_drop] at length
  exact ⟨k,k + inner.length,Nat.le_add_right _ _,by omega,start,stop,found,before⟩

theorem Rounds.pass {x : Char} (begins : c.after = x :: t) (none : construct.pattern.matchAt? c = none)
    (rounds : Rounds construct (c.past 1) ms) : Rounds construct c ms := by
  have same := search_pass begins none
  cases rounds with
  | done ended => exact .done (same.trans ended)
  | kept first consumes starts later => exact .kept (same.trans first) consumes starts later
  | passed first consumes elsewhere later => exact .passed (same.trans first) consumes elsewhere later

section

variable (some : ∀ {c m}, construct.pattern.matchAt? c = some m → m.length ≠ 0)
include some

theorem match_consumes (found : construct.pattern.matchAt? c = .some m) : m.start.position < m.stop.position := by
  have positive := some found
  rw [Match.length] at positive
  omega

-- Reading on from place to place keeps what the rounds keep.
theorem foundFrom_rounds (c : Cursor) : Rounds construct c (foundFrom construct.blockAt? id c) := by
  have finds := construct.blockAt_finds
  refine search_induct (P := fun c => Rounds construct c (foundFrom construct.blockAt? id c)) finds (fun {c} ended => ?_)
    (fun {c x t} begins none later => ?_) (fun {c m} found later => ?_) c
  · rw [foundFrom_ended finds ended]
    refine .done ?_
    cases search : searchFrom? construct.pattern.matchAt? c.before c.after with
    | none => rfl
    | some m =>
      obtain ⟨k,n,ordered,within,start,stop,found,_⟩ := first_parts search
      rw [ended] at within
      obtain rfl := Nat.le_zero.mp within
      obtain rfl := Nat.le_zero.mp ordered
      have consumes := match_consumes some found
      rw [start,stop] at consumes
      exact absurd consumes (Nat.lt_irrefl _)
  · rw [foundFrom_pass begins none]
    cases matched : construct.pattern.matchAt? c with
    | none => exact later.pass begins matched
    | some m =>
      have start := (matchAt_way matched).1
      have elsewhere : m.start.isBlockStart = false := by
        rw [construct.blockAt_found matched (some matched)] at none
        rw [start]
        simpa using none
      exact .passed (search_here matched) (match_consumes some matched) elsewhere (start ▸ later)
  · obtain ⟨matched,good⟩ := Option.filter_eq_some_iff.mp found
    rw [foundFrom_take finds found]
    exact .kept (search_here matched) (match_consumes some matched) (Bool.and_eq_true_iff.mp good).2 later

end

-- A place where a block may start is not passed over: before the first match nothing matches, and from one that is passed
-- over the search goes on with the next character.
theorem Rounds.complete (rounds : Rounds construct c ms) (n : Nat) (bound : n ≤ c.after.length)
    (starts : (c.past n).isBlockStart = true) (matched : construct.pattern.matchAt? (c.past n) = some m) :
    m ∈ ms ∨ ∃ earlier ∈ ms, earlier.start.position < c.position + n ∧ c.position + n < earlier.stop.position := by
  induction rounds generalizing n with
  | done none => cases (search_none none n bound).symm.trans matched
  | @kept c first ms search _ _ _ ih =>
    obtain ⟨k,stop,ordered,within,start,stops,found,before⟩ := first_parts search
    rcases Nat.lt_trichotomy n k with less | rfl | greater
    · cases (before n less).symm.trans matched
    · cases found.symm.trans matched
      exact .inl (List.mem_cons_self ..)
    · by_cases inside : n < stop
      · refine .inr ⟨first,List.mem_cons_self ..,?_,?_⟩
        · rw [start,Cursor.past_position (Nat.le_trans ordered within)]
          exact Nat.add_lt_add_left greater _
        · rw [stops,Cursor.past_position within]
          exact Nat.add_lt_add_left inside _
      · obtain ⟨i,inner,same,position⟩ := Cursor.past_behind (Nat.le_of_not_lt inside) bound
        rw [← stops] at inner same position
        rcases ih i inner (same ▸ starts) (same ▸ matched) with member | ⟨earlier,member,around⟩
        · exact .inl (List.mem_cons_of_mem _ member)
        · exact .inr ⟨earlier,List.mem_cons_of_mem _ member,position ▸ around⟩
  | @passed c first ms search _ elsewhere _ ih =>
    obtain ⟨k,_,_,_,start,_,_,before⟩ := first_parts search
    rcases Nat.lt_trichotomy n k with less | rfl | greater
    · cases (before n less).symm.trans matched
    · rw [start,starts] at elsewhere
      cases elsewhere
    · obtain ⟨i,inner,same,position⟩ := Cursor.past_behind (Nat.succ_le_of_lt greater) bound
      have next : first.start.past 1 = c.past (k + 1) := by rw [start,Cursor.past_past]
      rw [← next] at inner same position
      exact position ▸ ih i inner (same ▸ starts) (same ▸ matched)

theorem AllBlocks.within (all : AllBlocks construct t ms) (member : m ∈ ms) :
    m.start.position < m.stop.position ∧ m.stop.position ≤ t.length :=
  (all.apart.within m.span (List.mem_map_of_mem member)).2

-- A block of one list is one of the other, if all that start before it there are its own.
theorem AllBlocks.shared (one : AllBlocks construct t ms) (two : AllBlocks construct t ms') (member : m ∈ ms)
    (before : ∀ earlier ∈ ms', earlier.start.position < m.start.position → earlier ∈ ms) : m ∈ ms' := by
  obtain ⟨place,starts,matched⟩ := one.start m member
  obtain ⟨some,within⟩ := one.within member
  rw [place] at starts matched
  rcases two.complete m.start.position (by omega) starts m matched with shared | ⟨earlier,inTwo,less,inside⟩
  · exact shared
  · have isEarlier := List.mem_map_of_mem (f := Match.span) (before earlier inTwo less)
    exact absurd (one.apart.apart isEarlier (List.mem_map_of_mem member) less) (Nat.not_le_of_lt inside)

-- The conditions leave no choice, place by place.
theorem AllBlocks.unique (one : AllBlocks construct t ms) (two : AllBlocks construct t ms') : ms = ms' := by
  have same : ∀ p, ∀ m : Match, m.start.position = p → (m ∈ ms ↔ m ∈ ms') := by
    intro p
    induction p using Nat.strongRecOn with
    | ind p ih =>
      rintro m rfl
      exact ⟨fun member => one.shared two member fun earlier inTwo less => (ih _ less earlier rfl).mpr inTwo,
        fun member => two.shared one member fun earlier inOne less => (ih _ less earlier rfl).mp inOne⟩
  have ordered : ∀ {ms}, AllBlocks construct t ms → ms.Pairwise fun one two => one.start.position < two.start.position :=
    fun all => (List.pairwise_map.mp all.apart.pairwise).imp_of_mem fun isOne _ behind =>
      Nat.lt_of_lt_of_le (all.within isOne).1 behind
  have irreflexive : Std.Irrefl fun one two : Match => one.start.position < two.start.position := ⟨fun _ => Nat.lt_irrefl _⟩
  have antisymmetric : Std.Antisymm fun one two : Match => one.start.position < two.start.position :=
    ⟨fun _ _ less greater => absurd less (Nat.lt_asymm greater)⟩
  exact (ordered one).eq_of_mem_iff (ordered two) fun m => same _ m rfl

theorem Rounds.allBlocks (rounds : Rounds construct (.start t) ms) (found : construct.blockMatches t = .ok ms) :
    AllBlocks construct t ms := by
  refine ⟨?_,fun m member => ?_,fun position bound starts m matched => ?_⟩
  · have apart := (blockMatches_follow found).inOrder
    rwa [Nat.zero_add] at apart
  · obtain ⟨here,text⟩ := blockMatches_found found m member
    obtain ⟨matched,good⟩ := Option.filter_eq_some_iff.mp here
    exact ⟨(Cursor.atPosition_position text).symm,(Bool.and_eq_true_iff.mp good).2,matched⟩
  · rw [← Cursor.past_start] at starts matched
    have kept := rounds.complete position bound starts matched
    rwa [show (Cursor.start t).position + position = position from Nat.zero_add _] at kept

theorem known_some (known : construct ∈ Block.fallback :: Block.standard) (found : construct.pattern.matchAt? c = some m) :
    m.length ≠ 0 := by
  rcases List.mem_cons.mp known with rfl | member
  · exact match_some _ (by decide) found
  · exact Block.standard_some member found

-- Of every text and every construct the search ends with all its blocks.
theorem blockMatches_complete (known : construct ∈ Block.fallback :: Block.standard) (t : Text) :
    ∃ ms, construct.blockMatches t = .ok ms ∧ construct.Rounds (.start t) ms ∧ construct.AllBlocks t ms ∧
      ∀ other, construct.AllBlocks t other → other = ms := by
  have found : construct.blockMatches t = .ok (foundFrom construct.blockAt? id (.start t)) :=
    matchesFrom_ok (known_some known) t [] 0
  have rounds := foundFrom_rounds (known_some known) (.start t)
  have all := rounds.allBlocks found
  exact ⟨_,found,rounds,all,fun other others => others.unique all⟩

-- The first fence cannot open a block, and its match reaches over the one that can.
def overlapped : Text := "x```\na\n\n```\nb\n```"

theorem blockMatches_complete_overlapped : Block.code ∈ Block.fallback :: Block.standard ∧
    ∃ ms, Block.code.blockMatches overlapped = .ok ms ∧ ms.map Match.span = [(8,17)] ∧
      (Block.code.pattern.matchAt? (.atPosition overlapped 1)).map Match.span = some (1,17) ∧
      (Cursor.atPosition overlapped 8).isBlockStart = true ∧
      ∃ m ∈ ms, Block.code.pattern.matchAt? (.atPosition overlapped 8) = some m := by
  have known : Block.code ∈ Block.fallback :: Block.standard := List.mem_cons_of_mem _ (List.mem_cons_self ..)
  obtain ⟨ms,found,_,all,_⟩ := blockMatches_complete known overlapped
  have spans : (Block.code.blockMatches overlapped).toOption.map (·.map Match.span) = some [(8,17)] := by decide +kernel
  have fence : (Block.code.pattern.matchAt? (.atPosition overlapped 8)).isSome = true := by decide +kernel
  have starts : (Cursor.atPosition overlapped 8).isBlockStart = true := by decide +kernel
  obtain ⟨m,matched⟩ := Option.isSome_iff_exists.mp fence
  rw [found] at spans
  have isSpan : ms.map Match.span = [(8,17)] := Option.some.inj spans
  refine ⟨known,ms,found,isSpan,by decide +kernel,starts,m,?_,matched⟩
  rcases all.complete 8 (by decide +kernel) starts m matched with member | ⟨earlier,member,less,_⟩
  · exact member
  · have span := List.mem_map_of_mem (f := Match.span) member
    rw [isSpan,List.mem_singleton] at span
    exact absurd (congrArg Prod.fst span) (Nat.ne_of_lt less)

end BlockConstruct
end LightMarkup
