import LightMarkup.Proofs.Pattern.Preferring

/-!
Texts that a pattern can take. A text is put together as the pattern is: what two patterns take one after the other, their
sequence takes, and what a pattern takes again and again, its repetition does.
-/

namespace LightMarkup
namespace Pattern

variable {p q : Pattern} {c : Cursor} {way : Way} {t u : Text} {x : Char} {rest : Text} {set : CharSet}

-- Some way reads the text.
def Takes (p : Pattern) (c : Cursor) (t : Text) : Prop :=
  ∃ g, (c.past t.length,g) ∈ p.ways c

theorem Takes.seq (one : p.Takes c t) (two : q.Takes (c.past t.length) u) : (p ++ q).Takes c (t ++ u) := by
  obtain ⟨g,first⟩ := one
  obtain ⟨h,second⟩ := two
  rw [Cursor.past_past] at second
  exact ⟨h ++ g,mem_seq.mpr ⟨_,first,_,second,by rw [List.length_append]⟩⟩

-- A pattern with one way prefers it.
theorem Takes.head (taken : p.Takes c t) (only : ∀ other ∈ p.ways c, other = way) : (p.ways c).head? = some way := by
  obtain ⟨g,found⟩ := taken
  cases ways : p.ways c with
  | nil =>
    rw [ways] at found
    cases found
  | cons first others => rw [List.head?_cons,only first (ways ▸ List.mem_cons_self ..)]

-- The second pattern only looks.
theorem Takes.looking (one : p.Takes c t) (two : q.Takes (c.past t.length) []) : (p ++ q).Takes c t := by
  have both := one.seq two
  rwa [List.append_nil] at both

-- Both only look.
theorem Takes.also (one : p.Takes c []) (two : q.Takes c []) : (p ++ q).Takes c [] :=
  one.looking (by rwa [List.length_nil,Cursor.past_zero])

-- The first pattern only looks.
theorem Takes.looked (one : p.Takes c []) (two : q.Takes c t) : (p ++ q).Takes c t :=
  one.seq (by rwa [List.length_nil,Cursor.past_zero])

theorem Takes.left (taken : p.Takes c t) : (Pattern.choice p q).Takes c t := by
  obtain ⟨g,found⟩ := taken
  exact ⟨g,List.mem_append_left _ found⟩

theorem Takes.right (taken : q.Takes c t) : (Pattern.choice p q).Takes c t := by
  obtain ⟨g,found⟩ := taken
  exact ⟨g,List.mem_append_right _ found⟩

theorem Takes.group {number : Nat} {name : Option String} (taken : p.Takes c t) : (Pattern.group number name p).Takes c t := by
  obtain ⟨g,found⟩ := taken
  exact ⟨_,mem_group.mpr ⟨_,found,rfl⟩⟩

-- What can be taken as a whole is matched as a whole.
theorem Takes.full (taken : p.Takes (.start t) t) : ∃ m, p.fullMatch? t = some m := by
  obtain ⟨g,found⟩ := taken
  rw [← Option.isSome_iff_exists,fullMatch?,run_eq,firstWay,List.findSome?_isSome_iff]
  exact ⟨_,found,by simp [Cursor.start]⟩

-- What can be taken is found.
theorem Takes.found (taken : p.Takes c t) : (p.matchAt? c).isSome = true := by
  obtain ⟨g,found⟩ := taken
  rw [matchAt_head,Option.isSome_map,List.isSome_head?]
  exact List.ne_nil_of_mem found

theorem takes_char (begins : c.after = x :: rest) (inSet : set.contains x = true) : (Pattern.char set).Takes c [x] := by
  refine ⟨[],?_⟩
  rw [ways_char_cons begins,inSet]
  exact List.mem_singleton.mpr rfl

theorem takes_literal (begins : c.after = t ++ rest) : (literal t).Takes c t := by
  refine ⟨[],?_⟩
  rw [ways_literal_at begins]
  exact List.mem_singleton.mpr rfl

-- What is looked at and holds takes nothing.
theorem takes_nothing (found : (c,[]) ∈ p.ways c) : p.Takes c [] :=
  ⟨[],by simpa using found⟩

theorem takes_none (p : Pattern) (c : Cursor) : (many p).Takes c [] :=
  takes_nothing (many_none p c)

theorem takes_maybe_none (p : Pattern) (c : Cursor) : (maybe p).Takes c [] :=
  takes_nothing (by rw [ways_maybe]; simp)

theorem takes_run (begins : c.after = t ++ rest) (all : ∀ x ∈ t, set.contains x = true) : (many (.char set)).Takes c t :=
  ⟨[],mem_many.mpr ⟨t,.of_after begins,all,rfl⟩⟩

theorem takes_lazily (begins : c.after = t ++ rest) (all : ∀ x ∈ t, set.contains x = true) :
    (lazyMany (.char set)).Takes c t := by
  obtain ⟨others,split⟩ := lazyMany_split (.of_after begins) all
  exact ⟨[],by rw [split]; simp⟩

-- With room for more rounds there are no fewer ways.
theorem upTo_more {α β : Type} {step : Cursor → List Way} {lazily : Bool} {left : List α} {more : List β}
    (room : left.length ≤ more.length) (found : way ∈ waysUpTo step lazily left c) :
    way ∈ waysUpTo step lazily more c := by
  induction left generalizing more c way with
  | nil =>
    cases List.mem_singleton.mp found
    exact upTo_none step lazily more c
  | cons item left ih =>
    cases more with
    | nil => cases room
    | cons other more =>
      have later : way ∈ thenWays (step c) (waysUpTo step lazily left) → way ∈ thenWays (step c) (waysUpTo step lazily more) := by
        intro inner
        obtain ⟨mid,first,next,others,rfl⟩ := mem_thenWays.mp inner
        exact mem_thenWays.mpr ⟨mid,first,next,ih (Nat.le_of_succ_le_succ room) others,rfl⟩
      cases lazily with
      | true =>
        rcases List.mem_cons.mp found with rfl | found
        · exact List.mem_cons_self ..
        · exact List.mem_cons_of_mem _ (later found)
      | false =>
        rcases List.mem_append.mp found with found | found
        · exact List.mem_append_left _ (later found)
        · exact List.mem_append_right _ found

-- One round more. It takes something, so that the rounds never run out.
theorem takes_round (begins : c.after = t ++ rest) (some : t ≠ []) (one : p.Takes c t)
    (others : (many p).Takes (c.past t.length) u) : (many p).Takes c (t ++ u) := by
  obtain ⟨g,first⟩ := one
  obtain ⟨h,later⟩ := others
  change _ ∈ thenWays [(c.past t.length,[])] (waysRounds p.ways false 0 none) at later
  rw [thenWays_plain,waysRounds,Cursor.past_past] at later
  refine ⟨h ++ g,?_⟩
  show _ ∈ thenWays [(c,[])] (waysRounds p.ways false 0 none)
  rw [thenWays_plain,waysRounds]
  obtain ⟨x,t,rfl⟩ := List.exists_cons_of_ne_nil some
  have ahead : c.after = x :: (t ++ rest) := begins
  have room : (c.past (x :: t).length).after.length ≤ (t ++ rest).length := by
    rw [Cursor.past_after,begins,List.drop_left]
    simp
  rw [ahead]
  refine List.mem_append_left _ (mem_thenWays.mpr ⟨_,first,_,upTo_more room later,?_⟩)
  rw [List.length_append]

-- One round, and any more.
theorem takes_plus (one : p.Takes c t) (others : (many p).Takes (c.past t.length) u) : (plus p).Takes c (t ++ u) := by
  obtain ⟨g,first⟩ := one
  obtain ⟨h,later⟩ := others
  change _ ∈ thenWays [(c.past t.length,[])] (waysRounds p.ways false 0 none) at later
  rw [thenWays_plain,Cursor.past_past] at later
  have once : (c.past t.length,g) ∈ waysExactly p.ways 1 c :=
    mem_thenWays.mpr ⟨_,first,_,List.mem_singleton.mpr rfl,rfl⟩
  exact ⟨h ++ g,mem_thenWays.mpr ⟨_,once,_,later,by rw [List.length_append]⟩⟩

-- Rounds one after the other, each over its own text and from a place of a kind to another one.
theorem takes_rounds {P : Cursor → Prop} {ts : List Text} (begins : c.after = ts.flatten ++ rest) (here : P c)
    (each : ∀ t ∈ ts, t ≠ [] ∧
      ∀ {c : Cursor} {rest : Text}, c.after = t ++ rest → P c → p.Takes c t ∧ P (c.past t.length)) :
    (many p).Takes c ts.flatten ∧ P (c.past ts.flatten.length) := by
  induction ts generalizing c with
  | nil => exact ⟨takes_none p c,by rwa [List.flatten_nil,List.length_nil,Cursor.past_zero]⟩
  | cons t ts ih =>
    obtain ⟨⟨some,round⟩,others⟩ := List.forall_mem_cons.mp each
    rw [List.flatten_cons,List.append_assoc] at begins
    obtain ⟨taken,next⟩ := round begins here
    have ahead : (c.past t.length).after = ts.flatten ++ rest := by rw [Cursor.past_after,begins,List.drop_left]
    obtain ⟨rounds,last⟩ := ih ahead next others
    rw [Cursor.past_past,← List.length_append] at last
    exact ⟨takes_round begins some taken rounds,last⟩

theorem exactly_char (n : Nat) (begins : c.after = List.replicate n x ++ rest) (inSet : set.contains x = true) :
    (c.past n,[]) ∈ waysExactly (Pattern.char set).ways n c := by
  induction n generalizing c with
  | zero => simp [waysExactly]
  | succ n ih =>
    have step : (c.past 1).after = List.replicate n x ++ rest := by simp [begins,List.replicate_succ]
    have later := ih step
    rw [Cursor.past_past,Nat.add_comm] at later
    rw [waysExactly,ways_char_cons (by rw [begins,List.replicate_succ]; rfl),inSet,waysIf,if_pos rfl,thenWays_plain]
    exact later

theorem takes_exactly (n : Nat) (begins : c.after = List.replicate n x ++ rest) (inSet : set.contains x = true) :
    (exactly n (.char set)).Takes c (List.replicate n x) := by
  refine ⟨[],?_⟩
  rw [List.length_replicate]
  refine mem_thenWays.mpr ⟨_,exactly_char n begins inSet,(c.past n,[]),?_,rfl⟩
  simp [waysRounds,waysUpTo]

theorem takes_atLeast (n : Nat) (begins : c.after = List.replicate n x ++ rest) (inSet : set.contains x = true) :
    (atLeast n (.char set)).Takes c (List.replicate n x) := by
  refine ⟨[],?_⟩
  rw [List.length_replicate]
  exact mem_thenWays.mpr ⟨_,exactly_char n begins inSet,(c.past n,[]),upTo_none _ _ _ _,rfl⟩

-- The text is taken wherever it stands.
def Accepts (p : Pattern) (t : Text) : Prop :=
  ∀ ⦃c : Cursor⦄ ⦃rest : Text⦄, c.after = t ++ rest → p.Takes c t

-- Behind what is taken, as the next text.
theorem Takes.then (taken : p.Takes c t) (begins : c.after = t ++ (u ++ rest)) (accepts : q.Accepts u) :
    (p ++ q).Takes c (t ++ u) := by
  have ahead : (c.past t.length).after = u ++ rest := by rw [Cursor.past_after,begins,List.drop_left]
  exact taken.seq (accepts ahead)

theorem Accepts.seq (one : p.Accepts t) (two : q.Accepts u) : (p ++ q).Accepts (t ++ u) := by
  intro c rest begins
  rw [List.append_assoc] at begins
  exact (one begins).then begins two

theorem Accepts.group {number : Nat} {name : Option String} (accepts : p.Accepts t) :
    (Pattern.group number name p).Accepts t :=
  fun _ _ begins => (accepts begins).group

theorem Accepts.maybe (accepts : p.Accepts t) : (maybe p).Accepts t := by
  intro c rest begins
  obtain ⟨g,found⟩ := accepts begins
  refine ⟨g,?_⟩
  rw [ways_maybe]
  exact List.mem_append_left _ found

theorem maybe_accepts_none (p : Pattern) : (maybe p).Accepts [] :=
  fun c _ _ => takes_maybe_none p c

theorem literal_accepts (t : Text) : (literal t).Accepts t :=
  fun _ _ begins => takes_literal begins

theorem run_accepts (all : ∀ x ∈ t, set.contains x = true) : (many (.char set)).Accepts t :=
  fun _ _ begins => takes_run begins all

theorem lazily_accepts (all : ∀ x ∈ t, set.contains x = true) : (lazyMany (.char set)).Accepts t :=
  fun _ _ begins => takes_lazily begins all

theorem plus_accepts (some : t ≠ []) (all : ∀ x ∈ t, set.contains x = true) : (plus (.char set)).Accepts t := by
  intro c rest begins
  obtain ⟨x,t,rfl⟩ := List.exists_cons_of_ne_nil some
  obtain ⟨here,others⟩ := List.forall_mem_cons.mp all
  have ahead : (c.past [x].length).after = t ++ rest := by simp [begins]
  exact takes_plus (takes_char begins here) (takes_run ahead others)

theorem Accepts.full (accepts : p.Accepts t) : ∃ m, p.fullMatch? t = some m :=
  Takes.full (accepts (List.append_nil t).symm)

end Pattern
end LightMarkup
