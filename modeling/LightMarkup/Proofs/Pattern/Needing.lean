import LightMarkup.Proofs.Pattern.Preferring

/-!
Characters that a pattern cannot do without: it does not match where they do not occur. A character that it begins with
stands where a match is, and at another character it may not match at all.
-/

namespace LightMarkup
namespace Pattern

variable {p : Pattern} {kind : CharSet → Bool} {x : Char} {c : Cursor} {way : Way} {t : Text}

-- Every way reads a character of a set of the kind.
def needs (kind : CharSet → Bool) : Pattern → Bool
  | .char set => kind set
  | .seq first second => first.needs kind || second.needs kind
  | .choice first second => first.needs kind && second.needs kind
  | .repeated _ least _ body => decide (0 < least) && body.needs kind
  | .group _ _ body => body.needs kind
  | _ => false

theorem needs_reads (needed : p.needs kind = true) (found : way ∈ p.ways c) :
    ∃ t x set, c.Reads t way.1 ∧ x ∈ t ∧ kind set = true ∧ set.contains x = true := by
  induction p generalizing c way with
  | char set =>
    obtain ⟨x,next,read,inSet,rfl⟩ := mem_char.mp found
    exact ⟨[x],x,set,Cursor.next_reads read,by simp,needed,inSet⟩
  | seq first second one two =>
    obtain ⟨mid,here,next,there,rfl⟩ := mem_thenWays.mp found
    rcases Bool.or_eq_true_iff.mp needed with needed | needed
    · obtain ⟨t,x,set,read,member,good⟩ := one needed here
      obtain ⟨u,more⟩ := ways_reads there
      exact ⟨t ++ u,x,set,read.append more,List.mem_append_left _ member,good⟩
    · obtain ⟨t,read⟩ := ways_reads here
      obtain ⟨u,x,set,more,member,good⟩ := two needed there
      exact ⟨t ++ u,x,set,read.append more,List.mem_append_right _ member,good⟩
  | choice first second one two =>
    obtain ⟨here,there⟩ := Bool.and_eq_true_iff.mp needed
    rcases List.mem_append.mp found with found | found
    · exact one here found
    · exact two there found
  | repeated lazily least most body ih =>
    obtain ⟨some,inside⟩ := Bool.and_eq_true_iff.mp needed
    obtain ⟨mid,rounds,next,others,rfl⟩ := mem_thenWays.mp found
    obtain ⟨least,rfl⟩ := Nat.exists_eq_succ_of_ne_zero (Nat.pos_iff_ne_zero.mp (of_decide_eq_true some))
    obtain ⟨first,here,rest,later,rfl⟩ := mem_thenWays.mp rounds
    obtain ⟨t,x,set,read,member,good⟩ := ih inside here
    have reads := (readsOnly_closed fun _ => True).exactly (ways_only (only_true body)) least _ _ later
    obtain ⟨u,more,_⟩ := reads
    obtain ⟨v,last,_⟩ :=
      (readsOnly_closed fun _ => True).rounds (ways_only (only_true body)) lazily (least + 1) most _ _ others
    exact ⟨t ++ u ++ v,x,set,(read.append more).append last,by simp [member],good⟩
  | group number name body ih =>
    obtain ⟨inner,isInner,rfl⟩ := mem_group.mp found
    obtain ⟨t,x,set,read,member,good⟩ := ih needed isInner
    exact ⟨t,x,set,read,member,good⟩
  | empty | ahead | notAhead | notBehind | textStart | textEnd | lineStart | lineEnd | lastLineEnd => cases needed

theorem needs_ways (needed : p.needs (· == .one x) = true) (absent : x ∉ c.after) : p.ways c = [] := by
  rw [List.eq_nil_iff_forall_not_mem]
  intro way found
  obtain ⟨t,y,set,read,member,isOne,inSet⟩ := needs_reads needed found
  obtain rfl : set = .one x := by simpa using isOne
  obtain rfl : y = x := by simpa [CharSet.contains] using inSet
  exact absurd (read.1 ▸ List.mem_append_left _ member) absent

theorem needs_scan {α : Type} {lengthOf : α → Nat} {attempt : Cursor → Option α}
    (none : ∀ c : Cursor, x ∉ c.after → attempt c = none) (absent : x ∉ t) (before : Text) :
    scanFrom lengthOf attempt before 0 t = [] := by
  induction t generalizing before with
  | nil => rw [scanFrom,none ⟨before,[]⟩ absent]; rfl
  | cons y rest ih =>
    rw [scanFrom,none ⟨before,y :: rest⟩ absent]
    exact ih (fun member => absent (List.mem_cons_of_mem _ member)) _

theorem needs_occurrences (needed : p.needs (· == .one x) = true) (absent : x ∉ t) : p.occurrences t = [] := by
  refine needs_scan (fun c absent => ?_) absent []
  rw [matchSomeAt_none]
  simp [needs_ways needed absent]

-- Patterns that look at a place and read nothing.
def isStill : Pattern → Bool
  | .char _ | .seq _ _ | .choice _ _ | .repeated _ _ _ _ | .group _ _ _ => false
  | _ => true

theorem still_way (still : p.isStill = true) (found : way ∈ p.ways c) : way.1 = c := by
  cases p with
  | char | seq | choice | repeated | group => cases still
  | ahead body =>
    obtain ⟨first,_,rfl⟩ := mem_waysAhead found
    rfl
  | empty => rw [List.mem_singleton.mp found]
  | notAhead | notBehind | textStart | textEnd | lineStart | lineEnd | lastLineEnd => rw [(mem_waysIf.mp found).2]

-- Every way begins with the character.
def begins (x : Char) : Pattern → Bool
  | .char set => set == .one x
  | .seq first second => first.begins x || first.isStill && second.begins x
  | .choice first second => first.begins x && second.begins x
  | .group _ _ body => body.begins x
  | _ => false

theorem begins_way (begun : p.begins x = true) (found : way ∈ p.ways c) : c.after.head? = some x := by
  induction p generalizing c way with
  | char set =>
    obtain rfl : set = .one x := by simpa [begins] using begun
    obtain ⟨y,next,read,inSet,_⟩ := mem_char.mp found
    obtain rfl : y = x := by simpa [CharSet.contains] using inSet
    rw [(Cursor.next_reads read).1]
    rfl
  | seq first second one two =>
    obtain ⟨mid,isFirst,next,isSecond,_⟩ := mem_thenWays.mp found
    rcases Bool.or_eq_true_iff.mp begun with begun | begun
    · exact one begun isFirst
    · obtain ⟨still,begun⟩ := Bool.and_eq_true_iff.mp begun
      rw [still_way still isFirst] at isSecond
      exact two begun isSecond
  | choice first second one two =>
    obtain ⟨here,there⟩ := Bool.and_eq_true_iff.mp begun
    rcases List.mem_append.mp found with found | found
    · exact one here found
    · exact two there found
  | group number name body ih =>
    obtain ⟨inner,isInner,_⟩ := mem_group.mp found
    exact ih begun isInner
  | _ => cases begun

theorem begins_ways (begun : p.begins x = true) (other : c.after.head? ≠ some x) : p.ways c = [] :=
  List.eq_nil_iff_forall_not_mem.mpr fun _ found => other (begins_way begun found)

-- In a text, the character stands where the match starts.
theorem begins_occurrence {m : Match} (begun : p.begins x = true) (found : m ∈ p.occurrences t) :
    (t.drop m.start.position).head? = some x := by
  rw [← occurrences_text found,Cursor.text,Cursor.position,← List.length_reverse,List.drop_left]
  exact begins_way begun (occurrences_way found)

-- What a pattern does at a character: it does not match, it reads nothing, or it may read.
inductive Outset where
  | dead
  | still
  | moving
  deriving DecidableEq

def Outset.Holds (c stop : Cursor) : Outset → Prop
  | .dead => False
  | .still => stop = c
  | .moving => True

def Outset.join : Outset → Outset → Outset
  | .dead, other => other
  | .still, .moving => .moving
  | .still, _ => .still
  | .moving, _ => .moving

theorem Outset.Holds.join {one two : Outset} {stop : Cursor} (holds : one.Holds c stop ∨ two.Holds c stop) :
    (one.join two).Holds c stop := by
  cases one <;> cases two <;> simp_all [Outset.Holds,Outset.join]

def outset (x : Char) : Pattern → Outset
  | .char set => if set.contains x then .moving else .dead
  | .seq first second =>
    match first.outset x with
    | .dead => .dead
    | .still => second.outset x
    | .moving => .moving
  | .choice first second => (first.outset x).join (second.outset x)
  | .repeated _ least _ body =>
    match body.outset x with
    | .dead => if least = 0 then .still else .dead
    | .still => .still
    | .moving => .moving
  | .group _ _ body => body.outset x
  | _ => .still

-- Rounds that read nothing stay where they are.
theorem still_closed (x : Char) : Closed fun way c => c.after.head? = some x → way.1 = c where
  none _ _ := rfl
  after one two head := by
    have same := one head
    exact (two (same ▸ head)).trans same

theorem outset_holds (head : c.after.head? = some x) (found : way ∈ p.ways c) : (p.outset x).Holds c way.1 := by
  induction p generalizing c way with
  | char set =>
    obtain ⟨y,next,read,inSet,_⟩ := mem_char.mp found
    rw [(Cursor.next_reads read).1] at head
    cases head
    rw [outset,if_pos inSet]
    trivial
  | seq first second one two =>
    obtain ⟨mid,here,next,there,rfl⟩ := mem_thenWays.mp found
    have before := one head here
    rw [outset]
    cases stage : first.outset x with
    | dead =>
      rw [stage] at before
      exact before
    | still =>
      rw [stage] at before
      obtain rfl : mid.1 = c := before
      have after := two head there
      exact after
    | moving => trivial
  | choice first second one two =>
    rcases List.mem_append.mp found with found | found
    · exact .join (Or.inl (one head found))
    · exact .join (Or.inr (two head found))
  | repeated lazily least most body ih =>
    have rounds : (∀ c, ∀ way ∈ body.ways c, c.after.head? = some x → way.1 = c) → way.1 = c := fun still =>
      (still_closed x).repeated still lazily least most c way found head
    rw [outset]
    cases stage : body.outset x with
    | dead =>
      rw [stage] at ih
      cases least with
      | zero => exact rounds fun c way here head => (ih head here).elim
      | succ least =>
        obtain ⟨mid,first,_,_,_⟩ := mem_thenWays.mp found
        obtain ⟨round,here,_,_,_⟩ := mem_thenWays.mp first
        have stays := ih head here
        exact stays
    | still =>
      rw [stage] at ih
      exact rounds fun c way here head => ih head here
    | moving => trivial
  | group number name body ih =>
    obtain ⟨inner,isInner,rfl⟩ := mem_group.mp found
    have holds := ih head isInner
    exact holds
  | empty | ahead | notAhead | notBehind | textStart | textEnd | lineStart | lineEnd | lastLineEnd =>
    exact still_way rfl found

theorem outset_dead (dead : p.outset x = .dead) (head : c.after.head? = some x) : p.ways c = [] :=
  List.eq_nil_iff_forall_not_mem.mpr fun way found => by
    have holds := outset_holds head found
    rw [dead] at holds
    exact holds

end Pattern
end LightMarkup
