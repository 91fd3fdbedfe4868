import LightMarkup.Proofs.Pattern.Ways

/-!
What a way through a pattern reads: the text between the place where it starts and the place where it ends, and the
groups it captures on the way.
-/

namespace LightMarkup

-- Characters of a kind that are followed by one of another kind are read in one way.
theorem Text.run_once {kind : Char → Prop} {x y : Char} {t u back rest : Text} (one : ∀ c ∈ t, kind c) (two : ∀ c ∈ u, kind c)
    (other : ¬ kind x) (another : ¬ kind y) (same : t ++ x :: back = u ++ y :: rest) : t = u ∧ x = y ∧ back = rest := by
  induction t generalizing u with
  | nil =>
    cases u with
    | nil => exact ⟨rfl,List.cons.inj same⟩
    | cons z u => exact absurd ((List.cons.inj same).1 ▸ two z (List.mem_cons_self ..)) other
  | cons z t ih =>
    cases u with
    | nil => exact absurd ((List.cons.inj same).1 ▸ one z (List.mem_cons_self ..)) another
    | cons w u =>
      obtain ⟨rfl,later⟩ := List.cons.inj same
      obtain ⟨rfl,behind⟩ := ih (List.forall_mem_cons.mp one).2 (List.forall_mem_cons.mp two).2 later
      exact ⟨rfl,behind⟩

-- So a text ends where a character stands that it does not hold.
theorem Text.ends_once {x : Char} {t u back rest : Text} (one : x ∉ t) (two : x ∉ u) (same : t ++ x :: back = u ++ x :: rest) :
    t = u ∧ back = rest := by
  have apart : ∀ {v : Text}, x ∉ v → ∀ c ∈ v, c ≠ x := fun absent c member equal => absent (equal ▸ member)
  obtain ⟨whole,_,behind⟩ := run_once (apart one) (apart two) (· rfl) (· rfl) same
  exact ⟨whole,behind⟩

namespace Cursor

variable {a b c start stop : Cursor} {t u : Text}

-- `t` lies between two places of one text.
def Reads (start : Cursor) (t : Text) (stop : Cursor) : Prop :=
  start.after = t ++ stop.after ∧ stop.before = t.reverse ++ start.before

theorem Reads.refl (c : Cursor) : c.Reads [] c :=
  ⟨rfl,rfl⟩

theorem Reads.append (one : a.Reads t b) (two : b.Reads u c) : a.Reads (t ++ u) c :=
  ⟨by rw [one.1,two.1,List.append_assoc],by rw [two.2,one.2,List.reverse_append,List.append_assoc]⟩

theorem Reads.position (read : start.Reads t stop) : stop.position = start.position + t.length := by
  simp [Cursor.position,read.2,Nat.add_comm]

theorem Reads.length (read : start.Reads t stop) : start.after.length = t.length + stop.after.length := by
  simp [read.1]

theorem Reads.unique (one : start.Reads t stop) (two : start.Reads u stop) : t = u :=
  List.append_cancel_right (one.1.symm.trans two.1)

theorem Reads.textTo (read : start.Reads t stop) : start.textTo stop = t := by
  simp [Cursor.textTo,read.position,read.1]

theorem Reads.take (read : start.Reads t stop) : start.after.take (stop.position - start.position) = t := by
  rw [read.position,Nat.add_sub_cancel_left,read.1,List.take_left]

theorem Reads.drop (read : start.Reads t stop) : start.after.drop (stop.position - start.position) = stop.after := by
  rw [read.position,Nat.add_sub_cancel_left,read.1,List.drop_left]

theorem Reads.cut (read : start.Reads t stop) : (start.text.take stop.position).drop start.position = t := by
  have whole : start.text = start.before.reverse ++ t ++ stop.after := by
    rw [Cursor.text,read.1,List.append_assoc]
  have length : (start.before.reverse ++ t).length = stop.position := by
    rw [read.position,List.length_append,List.length_reverse,Cursor.position]
  rw [whole,← length,List.take_left]
  exact List.drop_left' (List.length_reverse ..)

theorem next_reads (some_next : c.next? = some (x,stop)) : c.Reads [x] stop := by
  obtain ⟨before,after⟩ := c
  cases after with
  | nil => cases some_next
  | cons y rest =>
    cases Option.some.inj some_next
    exact ⟨rfl,rfl⟩

end Cursor

namespace Pattern

variable {p q : Pattern} {c start : Cursor} {way : Way} {P : Char → Prop}

theorem append_eq (p q : Pattern) : p ++ q = .seq p q := rfl

theorem orElse_eq (p q : Pattern) : (p <|> q) = .choice p q := rfl

theorem mem_thenWays {first : List Way} {second : Cursor → List Way} :
    way ∈ thenWays first second ↔
      ∃ mid ∈ first, ∃ next ∈ second mid.1, way = (next.1,next.2 ++ mid.2) := by
  simp [thenWays,eq_comm]

theorem mem_waysIf {holds : Bool} : way ∈ waysIf holds c ↔ holds = true ∧ way = (c,[]) := by
  cases holds <;> simp [waysIf]

theorem mem_seq : way ∈ (p ++ q).ways c ↔ ∃ mid ∈ p.ways c, ∃ next ∈ q.ways mid.1, way = (next.1,next.2 ++ mid.2) :=
  mem_thenWays

theorem seq_parts {stop : Cursor} {g : Captures} (found : (stop,g) ∈ (p ++ q).ways c) :
    ∃ (mid : Cursor) (one two : Captures), (mid,one) ∈ p.ways c ∧ (stop,two) ∈ q.ways mid ∧ g = two ++ one := by
  obtain ⟨mid,first,next,second,same⟩ := mem_seq.mp found
  cases same
  exact ⟨mid.1,mid.2,next.2,first,second,rfl⟩

theorem mem_char {set : CharSet} : way ∈ (Pattern.char set).ways c ↔
    ∃ x next, c.next? = some (x,next) ∧ set.contains x = true ∧ way = (next,[]) := by
  simp only [ways]
  cases c.next? with
  | none => simp
  | some read =>
    simp only [mem_waysIf,Option.some.injEq]
    constructor
    · rintro ⟨inSet,rfl⟩
      exact ⟨read.1,read.2,rfl,inSet,rfl⟩
    · rintro ⟨x,next,rfl,inSet,rfl⟩
      exact ⟨inSet,rfl⟩

theorem mem_group {number : Nat} {name : Option String} :
    way ∈ (Pattern.group number name p).ways c ↔
      ∃ inner ∈ p.ways c, way = (inner.1,⟨number,c,inner.1⟩ :: inner.2) := by
  simp [ways,eq_comm]

theorem mem_waysAhead {ws : List Way} (found : way ∈ waysAhead c ws) : ∃ first ∈ ws, way = (c,first.2) := by
  cases ws with
  | nil => cases found
  | cons first others => exact ⟨first,by simp,by simpa [waysAhead] using found⟩

-- A relation between the places of one round holds between the ends of any number of rounds.
structure Closed (R : Way → Cursor → Prop) : Prop where
  none : ∀ c, R (c,[]) c
  after : ∀ {first next c}, R first c → R next first.1 → R (next.1,next.2 ++ first.2) c

theorem Closed.waysIf {R : Way → Cursor → Prop} (closed : Closed R) {holds : Bool} : ∀ way ∈ waysIf holds c, R way c := by
  intro way found
  obtain ⟨_,rfl⟩ := mem_waysIf.mp found
  exact closed.none c

theorem Closed.thenWays {R : Way → Cursor → Prop} (closed : Closed R) {first : List Way} {second : Cursor → List Way}
    (one : ∀ way ∈ first, R way c) (two : ∀ c, ∀ way ∈ second c, R way c) : ∀ way ∈ thenWays first second, R way c := by
  intro way found
  obtain ⟨mid,isFirst,next,isNext,rfl⟩ := mem_thenWays.mp found
  exact closed.after (one mid isFirst) (two mid.1 next isNext)

theorem Closed.exactly {R : Way → Cursor → Prop} (closed : Closed R) {step : Cursor → List Way}
    (round : ∀ c, ∀ way ∈ step c, R way c) (n : Nat) : ∀ c, ∀ way ∈ waysExactly step n c, R way c := by
  induction n with
  | zero => intro c way found; cases List.mem_singleton.mp found; exact closed.none c
  | succ n ih => intro c; exact closed.thenWays (round c) ih

theorem Closed.upTo {β : Type} {R : Way → Cursor → Prop} (closed : Closed R) {step : Cursor → List Way}
    (round : ∀ c, ∀ way ∈ step c, R way c) (lazily : Bool) (left : List β) :
    ∀ c, ∀ way ∈ waysUpTo step lazily left c, R way c := by
  induction left with
  | nil => intro c way found; cases List.mem_singleton.mp found; exact closed.none c
  | cons item left ih =>
    intro c way found
    have more := closed.thenWays (round c) ih way
    cases lazily with
    | true =>
      rcases List.mem_cons.mp found with rfl | found
      · exact closed.none c
      · exact more found
    | false =>
      rcases List.mem_append.mp found with found | found
      · exact more found
      · cases List.mem_singleton.mp found; exact closed.none c

theorem Closed.rounds {R : Way → Cursor → Prop} (closed : Closed R) {step : Cursor → List Way}
    (round : ∀ c, ∀ way ∈ step c, R way c) (lazily : Bool) (least : Nat) (most : Option Nat) :
    ∀ c, ∀ way ∈ waysRounds step lazily least most c, R way c := by
  intro c
  cases most with
  | none => exact closed.upTo round lazily c.after c
  | some most => exact closed.upTo round lazily (List.range (most - least)) c

theorem Closed.repeated {R : Way → Cursor → Prop} (closed : Closed R) (round : ∀ c, ∀ way ∈ p.ways c, R way c)
    (lazily : Bool) (least : Nat) (most : Option Nat) :
    ∀ c, ∀ way ∈ (Pattern.repeated lazily least most p).ways c, R way c :=
  fun c => closed.thenWays (closed.exactly round least c) (closed.rounds round lazily least most)

-- Every character that the pattern reads satisfies `P`; what is only looked at is not read.
def Only (P : Char → Prop) : Pattern → Prop
  | .char set => ∀ x, set.contains x = true → P x
  | .seq first second => first.Only P ∧ second.Only P
  | .choice first second => first.Only P ∧ second.Only P
  | .repeated _ _ _ body => body.Only P
  | .group _ _ body => body.Only P
  | _ => True

def ReadsOnly (P : Char → Prop) (way : Way) (c : Cursor) : Prop :=
  ∃ t, c.Reads t way.1 ∧ ∀ x ∈ t, P x

theorem readsOnly_closed (P : Char → Prop) : Closed (ReadsOnly P) where
  none c := ⟨[],.refl c,by simp⟩
  after := by
    rintro first next c ⟨t,one,ts⟩ ⟨u,two,us⟩
    refine ⟨t ++ u,one.append two,fun x member => ?_⟩
    rcases List.mem_append.mp member with member | member
    · exact ts x member
    · exact us x member

theorem ways_only (only : p.Only P) : ∀ c, ∀ way ∈ p.ways c, ReadsOnly P way c := by
  induction p with
  | empty => intro c way found; cases List.mem_singleton.mp found; exact (readsOnly_closed P).none c
  | char set =>
    intro c way found
    obtain ⟨x,next,read,inSet,rfl⟩ := mem_char.mp found
    exact ⟨[x],Cursor.next_reads read,by simpa using only x inSet⟩
  | seq first second one two => intro c; exact (readsOnly_closed P).thenWays (one only.1 c) (two only.2)
  | choice first second one two =>
    intro c way found
    rcases List.mem_append.mp found with found | found
    · exact one only.1 c way found
    · exact two only.2 c way found
  | repeated lazily least most body ih => exact (readsOnly_closed P).repeated (ih only) lazily least most
  | group number name body ih =>
    intro c way found
    obtain ⟨inner,isInner,rfl⟩ := mem_group.mp found
    exact ih only c inner isInner
  | ahead body =>
    intro c way found
    obtain ⟨first,_,rfl⟩ := mem_waysAhead found
    exact ⟨[],.refl c,by simp⟩
  | notAhead | notBehind | textStart | textEnd | lineStart | lineEnd | lastLineEnd => intro c; exact (readsOnly_closed P).waysIf

theorem only_true (p : Pattern) : p.Only fun _ => True := by
  induction p <;> simp_all [Only]

theorem ways_reads (found : way ∈ p.ways c) : ∃ t, c.Reads t way.1 := by
  obtain ⟨t,read,_⟩ := ways_only (only_true p) c way found
  exact ⟨t,read⟩

-- A relation that characters, groups and looking ahead keep, whatever the pattern, holds of all its ways.
theorem Closed.ways {R : Way → Cursor → Prop} (closed : Closed R)
    (char : ∀ {c x next}, c.next? = some (x,next) → R (next,[]) c)
    (group : ∀ {c inner} (number : Nat), (∃ t, c.Reads t inner.1) → R inner c → R (inner.1,⟨number,c,inner.1⟩ :: inner.2) c)
    (ahead : ∀ {c first}, R first c → R (c,first.2) c) : ∀ c, ∀ way ∈ p.ways c, R way c := by
  induction p with
  | empty => intro c way found; cases List.mem_singleton.mp found; exact closed.none c
  | char set =>
    intro c way found
    obtain ⟨x,next,read,_,rfl⟩ := mem_char.mp found
    exact char read
  | seq first second one two => intro c; exact closed.thenWays (one c) two
  | choice first second one two =>
    intro c way found
    rcases List.mem_append.mp found with found | found
    · exact one c way found
    · exact two c way found
  | repeated lazily least most body ih => exact closed.repeated ih lazily least most
  | group number name body ih =>
    intro c way found
    obtain ⟨inner,isInner,rfl⟩ := mem_group.mp found
    exact group number (ways_reads isInner) (ih c inner isInner)
  | ahead body ih =>
    intro c way found
    obtain ⟨first,isFirst,rfl⟩ := mem_waysAhead found
    exact ahead (ih c first isFirst)
  | notAhead | notBehind | textStart | textEnd | lineStart | lineEnd | lastLineEnd => intro c; exact closed.waysIf

def CapturesIn (numbers : List Nat) (way : Way) : Prop :=
  ∀ k ∈ way.2, k.group ∈ numbers

theorem capturesIn_closed (numbers : List Nat) : Closed fun way _ => CapturesIn numbers way where
  none c := by simp [CapturesIn]
  after := by
    intro first next c one two k member
    rcases List.mem_append.mp member with member | member
    · exact two k member
    · exact one k member

theorem CapturesIn.mono {numbers others : List Nat} (captures : CapturesIn numbers way) (sub : numbers ⊆ others) :
    CapturesIn others way :=
  fun k member => sub (captures k member)

-- A way captures groups of its own pattern only.
theorem ways_groups : ∀ c, ∀ way ∈ p.ways c, CapturesIn (p.groups.map Prod.fst) way := by
  induction p with
  | empty => intro c way found; cases List.mem_singleton.mp found; exact (capturesIn_closed _).none c
  | char set =>
    intro c way found
    obtain ⟨_,next,_,_,rfl⟩ := mem_char.mp found
    exact (capturesIn_closed _).none next
  | seq first second one two =>
    intro c
    refine (capturesIn_closed _).thenWays (c := c) (fun way found => (one c way found).mono ?_)
      (fun c way found => (two c way found).mono ?_) <;> simp [groups]
  | choice first second one two =>
    intro c way found
    rcases List.mem_append.mp found with found | found
    · exact (one c way found).mono (by simp [groups])
    · exact (two c way found).mono (by simp [groups])
  | repeated lazily least most body ih => exact (capturesIn_closed _).repeated ih lazily least most
  | group number name body ih =>
    intro c way found
    obtain ⟨inner,isInner,rfl⟩ := mem_group.mp found
    intro k member
    rcases List.mem_cons.mp member with rfl | member
    · simp [groups]
    · exact List.mem_cons_of_mem _ (ih c inner isInner k member)
  | ahead body ih =>
    intro c way found
    obtain ⟨first,isFirst,rfl⟩ := mem_waysAhead found
    exact ih c first isFirst
  | notAhead | notBehind | textStart | textEnd | lineStart | lineEnd | lastLineEnd => intro c; exact (capturesIn_closed _).waysIf

-- What a way captures begins in the text ahead of it, and there it ends too.
def CapturesAhead (way : Way) (c : Cursor) : Prop :=
  way.1.after <:+ c.after ∧ ∀ k ∈ way.2, k.start.after <:+ c.after

theorem capturesAhead_closed : Closed CapturesAhead where
  none c := ⟨List.suffix_refl _,by simp⟩
  after := by
    rintro first next c ⟨one,ones⟩ ⟨two,twos⟩
    refine ⟨two.trans one,fun k member => ?_⟩
    rcases List.mem_append.mp member with member | member
    · exact (twos k member).trans one
    · exact ones k member

theorem ways_ahead : ∀ c, ∀ way ∈ p.ways c, CapturesAhead way c := by
  refine capturesAhead_closed.ways (fun read => ?_) (fun _ _ inner => ?_) fun first => ?_
  · exact ⟨⟨_,(Cursor.next_reads read).1.symm⟩,List.forall_mem_nil _⟩
  · exact ⟨inner.1,List.forall_mem_cons.mpr ⟨List.suffix_refl _,inner.2⟩⟩
  · exact ⟨List.suffix_refl _,first.2⟩

theorem no_captures (groupless : p.groups = []) (found : way ∈ p.ways c) : way.2 = [] := by
  have captures := ways_groups c way found
  rw [groupless] at captures
  cases held : way.2 with
  | nil => rfl
  | cons k rest => exact absurd (captures k (by simp [held])) (by simp)

theorem literal_reads {t : Text} (found : way ∈ (literal t).ways c) : c.Reads t way.1 ∧ way.2 = [] := by
  induction t generalizing c way with
  | nil => cases List.mem_singleton.mp found; exact ⟨.refl c,rfl⟩
  | cons x rest ih =>
    have one : ∀ {c : Cursor} {way : Way}, way ∈ (Pattern.char (.one x)).ways c → c.Reads [x] way.1 ∧ way.2 = [] := by
      intro c way found
      obtain ⟨y,next,read,same,rfl⟩ := mem_char.mp found
      have equal : y = x := by simpa [CharSet.contains] using same
      exact ⟨equal ▸ Cursor.next_reads read,rfl⟩
    cases rest with
    | nil => exact one found
    | cons y rest =>
      obtain ⟨mid,first,next,others,rfl⟩ := mem_thenWays.mp found
      obtain ⟨readFirst,noneFirst⟩ := one first
      obtain ⟨readOthers,noneOthers⟩ := ih others
      exact ⟨readFirst.append readOthers,by simp [noneFirst,noneOthers]⟩

theorem mem_captured {number : Nat} {name : Option String} {body : Pattern} (groupless : body.groups = [])
    (found : way ∈ (Pattern.group number name body).ways c) :
    ∃ inner ∈ body.ways c, way = (inner.1,[⟨number,c,inner.1⟩]) := by
  obtain ⟨inner,isInner,rfl⟩ := mem_group.mp found
  exact ⟨inner,isInner,by rw [no_captures groupless isInner]⟩

@[simp] theorem literal_groups (t : Text) : (literal t).groups = [] := by
  induction t with
  | nil => rfl
  | cons x rest ih =>
    cases rest with
    | nil => rfl
    | cons y rest => simpa [literal,groups] using ih

theorem upTo_none {β : Type} (step : Cursor → List Way) (lazily : Bool) (left : List β) (c : Cursor) :
    (c,[]) ∈ waysUpTo step lazily left c := by
  cases left with
  | nil => exact List.mem_singleton.mpr rfl
  | cons item left => cases lazily <;> simp [waysUpTo]

-- Any number of rounds may be none.
theorem many_none (p : Pattern) (c : Cursor) : (c,[]) ∈ (many p).ways c :=
  mem_thenWays.mpr ⟨(c,[]),List.mem_singleton.mpr rfl,(c,[]),upTo_none _ _ _ _,rfl⟩

theorem mem_maybe (found : way ∈ (maybe p).ways c) : way ∈ p.ways c ∨ way = (c,[]) := by
  obtain ⟨start,none,round,rounds,rfl⟩ := mem_thenWays.mp found
  cases List.mem_singleton.mp none
  rcases List.mem_append.mp rounds with one | zero
  · obtain ⟨first,isFirst,rest,none,rfl⟩ := mem_thenWays.mp one
    cases List.mem_singleton.mp none
    exact Or.inl (by simpa using isFirst)
  · cases List.mem_singleton.mp zero
    exact Or.inr rfl

-- One round at least reads something if the first one does.
theorem plus_reads {set : CharSet} (found : way ∈ (plus (.char set)).ways c) : ∃ t, c.Reads t way.1 ∧ t ≠ [] := by
  obtain ⟨first,one,others,rounds,rfl⟩ := mem_thenWays.mp found
  obtain ⟨round,isRound,rest,end_,rfl⟩ := mem_thenWays.mp one
  cases List.mem_singleton.mp end_
  obtain ⟨x,next,read,_,rfl⟩ := mem_char.mp isRound
  obtain ⟨t,more,_⟩ :=
    (readsOnly_closed fun _ => True).rounds (ways_only (only_true (.char set))) false 1 none _ others rounds
  exact ⟨[x] ++ t,(Cursor.next_reads read).append more,by simp⟩

theorem group_parts {number : Nat} {name : Option String} {body : Pattern} {stop : Cursor} {g : Captures}
    (groupless : body.groups = []) (found : (stop,g) ∈ (Pattern.group number name body).ways c) :
    (∃ t, c.Reads t stop) ∧ g = [⟨number,c,stop⟩] := by
  obtain ⟨inner,isInner,same⟩ := mem_captured groupless found
  cases same
  exact ⟨ways_reads isInner,rfl⟩

-- A group of characters of one kind.
theorem run_parts {number : Nat} {name : Option String} {set : CharSet}
    (found : way ∈ (Pattern.group number name (plus (.char set))).ways c) :
    ∃ t, c.Reads t way.1 ∧ t ≠ [] ∧ (∀ x ∈ t, set.contains x = true) ∧ way.2 = [⟨number,c,way.1⟩] := by
  obtain ⟨inner,isInner,rfl⟩ := mem_captured rfl found
  obtain ⟨t,read,some⟩ := plus_reads isInner
  obtain ⟨u,same,all⟩ := ways_only (p := plus (.char set)) (P := fun x => set.contains x = true) (fun _ => id) c inner isInner
  obtain rfl := read.unique same
  exact ⟨t,read,some,all,rfl⟩

-- A group between two texts is all that is captured, and it lies between them.
theorem enclosed_way {opening closing : Text} {number : Nat} {body : Pattern} (groupless : body.groups = [])
    (found : way ∈ (literal opening ++ captured number body ++ literal closing).ways c) :
    ∃ start stop : Cursor, way.2 = [⟨number,start,stop⟩] ∧ start.position = c.position + opening.length ∧
      start.position ≤ stop.position ∧ way.1.position = stop.position + closing.length := by
  obtain ⟨mid,front,last,closed,rfl⟩ := mem_seq.mp found
  obtain ⟨first,opened,body,isBody,rfl⟩ := mem_seq.mp front
  obtain ⟨readOpening,noneOpening⟩ := literal_reads opened
  obtain ⟨readClosing,noneClosing⟩ := literal_reads closed
  obtain ⟨inner,isInner,rfl⟩ := mem_captured groupless isBody
  obtain ⟨t,read⟩ := ways_reads isInner
  refine ⟨first.1,inner.1,by simp [noneOpening,noneClosing],readOpening.position,?_,readClosing.position⟩
  have length := read.position
  omega

end Pattern
end LightMarkup
