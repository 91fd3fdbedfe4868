import LightMarkup.Proofs.Loading.Outline
import LightMarkup.Proofs.Pattern.Searching

/-!
Heading constructs in another order. At one place no more than one of them matches, because each reads a marker of its own
up to the first gap; so the order in which they are tried makes no difference to what is loaded. The search for the next
heading goes through all the constructs and takes what begins first, and each round goes on behind what the one before has
found.
-/

namespace LightMarkup

-- Where no more than one element has an answer, the order of a list does not matter to a search.
theorem findSome_perm {α β : Type} {f : α → Option β} {as bs : List α} (permuted : as.Perm bs)
    (single : ∀ a ∈ as, ∀ b ∈ as, (f a).isSome → (f b).isSome → a = b) : as.findSome? f = bs.findSome? f := by
  cases found : as.findSome? f with
  | none =>
    refine (List.findSome?_eq_none_iff.mpr fun b member => ?_).symm
    exact List.findSome?_eq_none_iff.mp found b (permuted.mem_iff.mpr member)
  | some x =>
    obtain ⟨a,member,here⟩ := List.exists_of_findSome?_eq_some found
    have some : (bs.findSome? f).isSome := List.findSome?_isSome_iff.mpr ⟨a,permuted.mem_iff.mp member,by rw [here]; rfl⟩
    obtain ⟨y,again⟩ := Option.isSome_iff_exists.mp some
    obtain ⟨b,other,there⟩ := List.exists_of_findSome?_eq_some again
    obtain rfl := single a member b (permuted.mem_iff.mpr other) (by rw [here]; rfl) (by rw [there]; rfl)
    rw [again,← there,here]

namespace HeadingConstruct

open Pattern

variable {construct one two : HeadingConstruct} {constructs headings : List HeadingConstruct} {c : Cursor} {m : Match}
  {found : HeadingConstruct × Match} {t : Text}

-- The marker is what stands before the first gap, so two constructs that match at one place are the same.
theorem standard_one (isOne : one ∈ standard) (isTwo : two ∈ standard) (first : (one.pattern.matchAt? c).isSome)
    (second : (two.pattern.matchAt? c).isSome) : one = two := by
  have solid : signed.all (fun entry => entry.2.all fun x => !CharSet.gap.contains x) = true := by decide_cbv
  have apart : (signed.map Prod.snd).Nodup := by decide_cbv
  have reads : ∀ construct ∈ standard, (construct.pattern.matchAt? c).isSome → ∃ mark x rest,
      (construct,mark) ∈ signed ∧ (∀ y ∈ mark, ¬ CharSet.gap.contains y = true) ∧ CharSet.gap.contains x = true ∧
        c.after = mark ++ x :: rest := by
    intro construct member some
    obtain ⟨mark,isEntry,_⟩ := standard_signed member
    obtain ⟨m,matched⟩ := Option.isSome_iff_exists.mp some
    obtain ⟨start,way⟩ := matchAt_way matched
    obtain ⟨x,rest,gap,read⟩ := signed_reads isEntry way
    have all := List.all_eq_true.mp (List.all_eq_true.mp solid _ isEntry)
    rw [start] at read
    exact ⟨mark,x,_,isEntry,fun y member => by simpa using all y member,gap,
      read.1.trans (by rw [List.append_assoc,List.cons_append])⟩
  obtain ⟨mark,x,rest,isEntry,off,gap,begins⟩ := reads one isOne first
  obtain ⟨mark',x',rest',isEntry',off',gap',begins'⟩ := reads two isTwo second
  obtain ⟨rfl,_,_⟩ := Text.run_once off off' (not_not_intro gap) (not_not_intro gap') (begins.symm.trans begins')
  exact congrArg Prod.fst (List.inj_on_of_nodup_map apart isEntry isEntry' rfl)

theorem standard_distinct : standard.Nodup := by
  have distinct : (standard.map HeadingConstruct.name).Nodup := by decide
  exact distinct.of_map _

-- At most one of the constructs matches at a place.
theorem standard_atMostOne (c : Cursor) : (standard.filter fun construct => (construct.pattern.matchAt? c).isSome).length ≤ 1 := by
  have distinct := standard_distinct.filter fun construct => (construct.pattern.matchAt? c).isSome
  cases matching : standard.filter fun construct => (construct.pattern.matchAt? c).isSome with
  | nil => exact Nat.zero_le _
  | cons one others =>
    cases others with
    | nil => exact Nat.le_refl _
    | cons two others =>
      have isMember : ∀ construct ∈ one :: two :: others, construct ∈ standard ∧ (construct.pattern.matchAt? c).isSome := by
        rw [← matching]
        exact fun construct member => List.mem_filter.mp member
      obtain ⟨isOne,first⟩ := isMember one (by simp)
      obtain ⟨isTwo,second⟩ := isMember two (by simp)
      rw [matching,standard_one isOne isTwo first second] at distinct
      exact absurd distinct (by simp)

example : standard.length = 15 := rfl

theorem findAt_perm (permuted : headings.Perm standard) (c : Cursor) : findAt? headings c = findAt? standard c := by
  refine (findSome_perm permuted.symm fun one isOne two isTwo first second => ?_).symm
  exact standard_one isOne isTwo (by simpa using first) (by simpa using second)

theorem findAll_perm (permuted : headings.Perm standard) (t : Text) : findAll headings t = findAll standard t := by
  rw [findAll,findAll,funext (findAt_perm permuted)]

-- One construct after the other is looked for from a place on; what begins earlier than all before it is kept.
def earlier (c : Cursor) (best : Option (HeadingConstruct × Match)) (construct : HeadingConstruct) :
    Option (HeadingConstruct × Match) :=
  match searchFrom? construct.pattern.matchAt? c.before c.after,best with
  | none,_ => best
  | some m,none => some (construct,m)
  | some m,some held => if m.start.position < held.2.start.position then some (construct,m) else best

/-- The heading that begins first from a place on, and of several at one place that of the first construct. -/
def earliest? (constructs : List HeadingConstruct) (c : Cursor) : Option (HeadingConstruct × Match) :=
  constructs.foldl (earlier c) none

/-- The rounds of the search: each takes the earliest heading and goes on behind it, and the last finds none. -/
inductive Rounds (constructs : List HeadingConstruct) : Cursor → List (HeadingConstruct × Match) → Prop where
  | done {c : Cursor} (none : earliest? constructs c = none) : Rounds constructs c []
  | round {c : Cursor} {found : HeadingConstruct × Match} {others : List (HeadingConstruct × Match)}
      (first : earliest? constructs c = some found) (reaches : c.position ≤ found.2.start.position)
      (consumes : found.2.start.position < found.2.stop.position) (later : Rounds constructs found.2.stop others) :
      Rounds constructs c (found :: others)

-- Nothing begins before the place where the search does.
theorem earlier_kept (here : found.2.start.position ≤ c.position) (constructs : List HeadingConstruct) :
    constructs.foldl (earlier c) (some found) = some found := by
  refine List.foldl_fixed' (fun construct => ?_) constructs
  cases search : searchFrom? construct.pattern.matchAt? c.before c.after with
  | none => simp only [earlier,search]
  | some m =>
    have behind : c.position ≤ m.start.position := search_behind search
    simp only [earlier,search]
    exact if_neg (Nat.not_lt.mpr (Nat.le_trans here behind))

-- What begins at the place itself is kept, whatever was kept before it begins later.
theorem earlier_found (finds : findAt? constructs c = some found) {best : Option (HeadingConstruct × Match)}
    (later : ∀ held, best = some held → c.position < held.2.start.position) :
    constructs.foldl (earlier c) best = some found := by
  induction constructs generalizing best with
  | nil => cases finds
  | cons construct constructs ih =>
    rw [List.foldl_cons]
    cases matched : construct.pattern.matchAt? c with
    | some m =>
      rw [findAt_first matched] at finds
      obtain rfl := Option.some.inj finds
      have start := (matchAt_way matched).1
      have first : earlier c best construct = some (construct,m) := by
        cases best with
        | none => simp only [earlier,search_here matched]
        | some held =>
          simp only [earlier,search_here matched]
          exact if_pos (by rw [start]; exact later held rfl)
      rw [first]
      exact earlier_kept (Nat.le_of_eq (congrArg Cursor.position start)) constructs
    | none =>
      rw [findAt_behind matched] at finds
      refine ih finds fun held isHeld => ?_
      cases search : searchFrom? construct.pattern.matchAt? c.before c.after with
      | none =>
        simp only [earlier,search] at isHeld
        exact later held isHeld
      | some m =>
        have behind := search_later matched search
        cases best with
        | none =>
          simp only [earlier,search] at isHeld
          exact Option.some.inj isHeld ▸ behind
        | some kept =>
          simp only [earlier,search] at isHeld
          split at isHeld
          · exact Option.some.inj isHeld ▸ behind
          · exact later held isHeld

theorem earliest_found (finds : findAt? constructs c = some found) : earliest? constructs c = some found :=
  earlier_found finds fun _ none => nomatch none

theorem unmatched_here (free : findAt? constructs c = none) : ∀ construct ∈ constructs, construct.pattern.matchAt? c = none :=
  fun construct member => by simpa using List.findSome?_eq_none_iff.mp free construct member

-- Where nothing begins, the search goes on with the next place.
theorem earliest_pass {before rest : Text} {x : Char} (free : findAt? constructs ⟨before,x :: rest⟩ = none) :
    earliest? constructs ⟨before,x :: rest⟩ = earliest? constructs ⟨x :: before,rest⟩ := by
  refine List.foldl_ext _ _ _ fun best construct member => ?_
  simp only [earlier,searchFrom?,unmatched_here free construct member]

theorem earliest_end {before : Text} (free : findAt? constructs ⟨before,[]⟩ = none) :
    earliest? constructs ⟨before,[]⟩ = none := by
  have ends : earliest? constructs ⟨before,[]⟩ = constructs.foldl (fun best _ => best) none := by
    refine List.foldl_ext _ _ _ fun best construct member => ?_
    simp only [earlier,searchFrom?,unmatched_here free construct member]
  rw [ends]
  exact List.foldl_fixed' (fun _ => rfl) _

theorem Rounds.pass {before rest : Text} {x : Char} {others : List (HeadingConstruct × Match)}
    (free : findAt? constructs ⟨before,x :: rest⟩ = none) (rounds : Rounds constructs ⟨x :: before,rest⟩ others) :
    Rounds constructs ⟨before,x :: rest⟩ others := by
  cases rounds with
  | done ended => exact .done (by rw [earliest_pass free,ended])
  | round first reaches consumes later =>
    exact .round (by rw [earliest_pass free,first]) (Nat.le_of_succ_le reaches) consumes later

-- Reading on from place to place finds what the rounds find.
theorem foundFrom_rounds (known : constructs ⊆ standard) (c : Cursor) :
    Rounds constructs c (foundFrom (findAt? constructs) Prod.snd c) := by
  have finds := findAt_finds known
  refine search_induct (P := fun c => Rounds constructs c (foundFrom (findAt? constructs) Prod.snd c)) finds
    (fun {c} ended => ?_) (fun {c x t} begins none later => ?_) (fun {c found} here later => ?_) c
  · obtain ⟨before,after⟩ := c
    cases ended
    rw [foundFrom_ended finds rfl]
    exact .done (earliest_end (finds.not_at_end before))
  · obtain ⟨before,after⟩ := c
    cases begins
    rw [foundFrom_pass rfl none]
    exact later.pass none
  · obtain ⟨inner,read,some⟩ := finds.reads here
    have start : found.2.start = c := finds.start here
    have stop : found.2.stop.position = c.position + inner.length := read.position
    have positive := List.length_pos_iff.mpr some
    rw [foundFrom_take finds here]
    exact .round (earliest_found here) (by rw [start]) (by rw [start,stop]; omega) later

theorem findAll_rounds (known : constructs ⊆ standard) (t : Text) : Rounds constructs (.start t) (findAll constructs t) :=
  foundFrom_rounds known (.start t)

end HeadingConstruct

namespace Catalogue

/-- A catalogue with its heading constructs in the order of the standard. -/
def ordered (catalogue : Catalogue) : Catalogue :=
  { catalogue with headings := HeadingConstruct.standard }

end Catalogue

namespace Loader

section

variable {catalogue : Catalogue} (permuted : catalogue.headings.Perm HeadingConstruct.standard) (settings : LoadSettings)
include permuted

theorem leafBlocks_ordered (nested : Nat → Nested) (offset : Nat) (t : Text) (last : LastLevel) :
    (Loader.mk catalogue settings nested).leafBlocks offset t last =
      (Loader.mk catalogue.ordered settings nested).leafBlocks offset t last := by
  have same : ∀ (found : List (HeadingConstruct × Match)) (position : Nat) (t : Text) (last : LastLevel),
      (Loader.mk catalogue settings nested).leafBlocksFrom offset position t last found =
        (Loader.mk catalogue.ordered settings nested).leafBlocksFrom offset position t last found := by
    intro found
    induction found with
    | nil => intro position t last; rfl
    | cons head found ih =>
      intro position t last
      simp only [leafBlocksFrom,ih]
      rfl
  rw [leafBlocks,leafBlocks,same,HeadingConstruct.findAll_perm permuted]
  rfl

theorem partition_ordered (nested : Nat → Nested) (constructs : List BlockConstruct) (offset : Nat) (t : Text)
    (last : LastLevel) :
    (Loader.mk catalogue settings nested).partition constructs offset t last =
      (Loader.mk catalogue.ordered settings nested).partition constructs offset t last := by
  induction constructs generalizing offset t last with
  | nil => exact leafBlocks_ordered permuted settings nested offset t last
  | cons construct constructs ih =>
    have below : (Loader.mk catalogue settings nested).partition constructs =
        (Loader.mk catalogue.ordered settings nested).partition constructs := by
      funext offset t last
      exact ih offset t last
    rw [partition,partition,below]
    rfl

-- Bodies of containers are loaded with the same catalogue.
theorem within_ordered (levels room : Nat) :
    Nested.within catalogue settings levels room = Nested.within catalogue.ordered settings levels room := by
  induction levels generalizing room with
  | zero => rfl
  | succ levels ih =>
    funext tried t
    rw [Nested.within,Nested.within,Loader.blocks,Loader.blocks,partition_ordered permuted,ih]
    rfl

-- The order of the heading constructs makes no difference to what is loaded between and with the headings: no more than one
-- matches at a place. Each round of the search consumes something, so the search ends.
theorem headings_unordered :
    (∀ c : Cursor, (HeadingConstruct.standard.filter fun construct => (construct.pattern.matchAt? c).isSome).length ≤ 1) ∧
      (∀ (levels room offset : Nat) (t : Text) (last : LastLevel),
        (Loader.mk catalogue settings (Nested.within catalogue settings levels room)).leafBlocks offset t last =
          (Loader.mk catalogue.ordered settings (Nested.within catalogue.ordered settings levels room)).leafBlocks
            offset t last) ∧
      ∀ t : Text, HeadingConstruct.Rounds catalogue.headings (.start t) (HeadingConstruct.findAll catalogue.headings t) := by
  refine ⟨HeadingConstruct.standard_atMostOne,fun levels room offset t last => ?_,fun t => ?_⟩
  · rw [leafBlocks_ordered permuted,within_ordered permuted]
  · exact HeadingConstruct.findAll_rounds permuted.subset t

end

-- The constructs the other way round.
theorem headings_unordered_reversed :
    let reversed : Catalogue := { Catalogue.standard with headings := HeadingConstruct.standard.reverse }
    reversed.headings.Perm HeadingConstruct.standard ∧
      ((Loader.mk reversed {} (Nested.within reversed {} 1 Nested.room)).leafBlocks 0 "#2 A\n\nb" none).value?.map
        (fun blocks => blocks.1.map PlacedBlock.span) = some [(0,4),(4,7)] := by
  intro reversed
  have permuted : reversed.headings.Perm HeadingConstruct.standard := List.reverse_perm _
  refine ⟨permuted,?_⟩
  rw [(headings_unordered permuted {}).2.1]
  decide +kernel

end Loader
end LightMarkup
