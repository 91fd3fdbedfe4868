import LightMarkup.Proofs.Loading.Rematching

/-!
What blocks open with: gaps, and then something that is not blank, which is a hash for page breaks only.
-/

namespace LightMarkup
namespace CharSet

-- Without blanks.
def unblank (set : CharSet) : Bool :=
  Text.blankCodes.all fun n => !set.contains (Char.ofNat n)

theorem unblank_contains {set : CharSet} {x : Char} (unblank : set.unblank = true) (inSet : set.contains x = true) :
    Text.isBlank x = false := by
  cases blank : Text.isBlank x with
  | false => rfl
  | true =>
    have here := List.all_eq_true.mp unblank x.toNat (Text.blank_code blank)
    simp [Char.ofNat_toNat,inSet] at here

-- Without blanks and without hashes.
def unhashed (set : CharSet) : Bool :=
  set.unblank && !set.contains '#'

end CharSet

namespace Block

-- Gaps, and then a character of a set of the kind.
def Opening (kind : CharSet → Bool) (t : Text) : Prop :=
  ∃ g x u set, t = g ++ x :: u ∧ Gaps g ∧ kind set = true ∧ set.contains x = true

variable {kind : CharSet → Bool} {t u : Text}

theorem Opening.append (opening : Opening kind t) (u : Text) : Opening kind (t ++ u) := by
  obtain ⟨g,x,v,set,rfl,gaps,isKind,inSet⟩ := opening
  exact ⟨g,x,v ++ u,set,by rw [List.append_assoc,List.cons_append],gaps,isKind,inSet⟩

theorem Opening.behind (gaps : Gaps t) (opening : Opening kind u) : Opening kind (t ++ u) := by
  obtain ⟨g,x,v,set,rfl,others,isKind,inSet⟩ := opening
  exact ⟨t ++ g,x,v,set,by rw [List.append_assoc],List.forall_mem_append.mpr ⟨gaps,others⟩,isKind,inSet⟩

end Block

namespace Pattern

open Block (Gaps Opening)

variable {kind : CharSet → Bool} {p : Pattern} {way : Way} {c : Cursor}

-- Gaps only, or what opens with the kind.
def MayOpen (kind : CharSet → Bool) (way : Way) (c : Cursor) : Prop :=
  ∃ t, c.Reads t way.1 ∧ (Gaps t ∨ Opening kind t)

theorem mayOpen_closed (kind : CharSet → Bool) : Closed (MayOpen kind) where
  none c := ⟨[],.refl c,Or.inl (List.forall_mem_nil _)⟩
  after := by
    rintro first next c ⟨t,one,here⟩ ⟨u,two,there⟩
    refine ⟨t ++ u,one.append two,?_⟩
    rcases here with gaps | opening
    · exact there.imp (fun others => List.forall_mem_append.mpr ⟨gaps,others⟩) (.behind gaps)
    · exact Or.inr (opening.append u)

mutual

-- Every way opens with the kind.
def opens (kind : CharSet → Bool) : Pattern → Bool
  | .char set => kind set
  | .seq first second => first.opens kind || first.mayOpen kind && second.opens kind
  | .choice first second => first.opens kind && second.opens kind
  | .repeated _ least _ body => least != 0 && body.opens kind
  | .group _ _ body => body.opens kind
  | _ => false

-- No way reads anything but gaps before it.
def mayOpen (kind : CharSet → Bool) : Pattern → Bool
  | .char set => set == CharSet.gap || kind set
  | .seq first second => first.opens kind || first.mayOpen kind && second.mayOpen kind
  | .choice first second => first.mayOpen kind && second.mayOpen kind
  | .repeated _ _ _ body => body.mayOpen kind
  | .group _ _ body => body.mayOpen kind
  | _ => true

end

def Opens (kind : CharSet → Bool) (way : Way) (c : Cursor) : Prop :=
  ∃ t, c.Reads t way.1 ∧ Opening kind t

theorem Opens.may (opens : Opens kind way c) : MayOpen kind way c := by
  obtain ⟨t,read,opening⟩ := opens
  exact ⟨t,read,Or.inr opening⟩

-- What a way opens with is left as it is by what is read behind it.
theorem Opens.then {next : Way} {captures : Captures} (opens : Opens kind way c) (read : ∃ t, way.1.Reads t next.1) :
    Opens kind (next.1,captures) c := by
  obtain ⟨t,one,opening⟩ := opens
  obtain ⟨u,two⟩ := read
  exact ⟨t ++ u,one.append two,opening.append u⟩

theorem MayOpen.then {next : Way} {captures : Captures} (mayOpen : MayOpen kind way c) (opens : Opens kind next way.1) :
    Opens kind (next.1,captures) c := by
  obtain ⟨t,one,either⟩ := mayOpen
  obtain ⟨u,two,opening⟩ := opens
  refine ⟨t ++ u,one.append two,?_⟩
  rcases either with gaps | front
  · exact .behind gaps opening
  · exact front.append u

theorem opens_ways : (p.opens kind = true → ∀ c, ∀ way ∈ p.ways c, Opens kind way c) ∧
    (p.mayOpen kind = true → ∀ c, ∀ way ∈ p.ways c, MayOpen kind way c) := by
  have stays : ∀ {p : Pattern}, p.isStill = true → ∀ c, ∀ way ∈ p.ways c, MayOpen kind way c := by
    intro p still c way found
    rw [MayOpen,still_way still found]
    exact (mayOpen_closed kind).none c
  induction p with
  | char set =>
    have reads : ∀ c, ∀ way ∈ (Pattern.char set).ways c, ∃ x, c.Reads [x] way.1 ∧ set.contains x = true := by
      intro c way found
      obtain ⟨x,next,read,inSet,rfl⟩ := mem_char.mp found
      exact ⟨x,Cursor.next_reads read,inSet⟩
    have opens : kind set = true → ∀ c, ∀ way ∈ (Pattern.char set).ways c, Opens kind way c := by
      intro isKind c way found
      obtain ⟨x,read,inSet⟩ := reads c way found
      exact ⟨[x],read,[],x,[],set,rfl,List.forall_mem_nil _,isKind,inSet⟩
    refine ⟨opens,fun either c way found => ?_⟩
    rcases Bool.or_eq_true_iff.mp either with gap | isKind
    · obtain ⟨x,read,inSet⟩ := reads c way found
      exact ⟨[x],read,Or.inl (List.forall_mem_singleton.mpr (beq_iff_eq.mp gap ▸ inSet))⟩
    · exact (opens isKind c way found).may
  | seq first second one two =>
    have front : first.opens kind = true → ∀ c, ∀ way ∈ (first.seq second).ways c, Opens kind way c := by
      intro isFirst c way found
      obtain ⟨mid,here,next,there,rfl⟩ := mem_thenWays.mp found
      exact (one.1 isFirst c mid here).then (ways_reads there)
    refine ⟨fun either => ?_,fun either => ?_⟩
    · rcases Bool.or_eq_true_iff.mp either with isFirst | both
      · exact front isFirst
      · obtain ⟨isFirst,isSecond⟩ := Bool.and_eq_true_iff.mp both
        intro c way found
        obtain ⟨mid,here,next,there,rfl⟩ := mem_thenWays.mp found
        exact (one.2 isFirst c mid here).then (two.1 isSecond mid.1 next there)
    · rcases Bool.or_eq_true_iff.mp either with isFirst | both
      · exact fun c way found => (front isFirst c way found).may
      · obtain ⟨isFirst,isSecond⟩ := Bool.and_eq_true_iff.mp both
        exact fun c => (mayOpen_closed kind).thenWays (one.2 isFirst c) (two.2 isSecond)
  | choice first second one two =>
    refine ⟨fun both c way found => ?_,fun both c way found => ?_⟩ <;>
      obtain ⟨isFirst,isSecond⟩ := Bool.and_eq_true_iff.mp both <;>
      rcases List.mem_append.mp found with found | found
    · exact one.1 isFirst c way found
    · exact two.1 isSecond c way found
    · exact one.2 isFirst c way found
    · exact two.2 isSecond c way found
  | repeated lazily least most body ih =>
    refine ⟨fun both c way found => ?_,fun mayOpen => (mayOpen_closed kind).repeated (ih.2 mayOpen) lazily least most⟩
    obtain ⟨some,isBody⟩ := Bool.and_eq_true_iff.mp both
    cases least with
    | zero => cases some
    | succ least =>
      obtain ⟨mid,here,next,there,rfl⟩ := mem_thenWays.mp found
      obtain ⟨round,first,last,others,rfl⟩ := mem_thenWays.mp here
      have reads : ∀ c, ∀ way ∈ body.ways c, ReadsOnly (fun _ => True) way c := ways_only (only_true body)
      have closed := readsOnly_closed fun _ => True
      obtain ⟨t,one,_⟩ := closed.exactly reads least _ _ others
      obtain ⟨u,two,_⟩ := closed.rounds reads lazily (least + 1) most _ _ there
      exact (ih.1 isBody c round first).then ⟨t ++ u,one.append two⟩
  | group number name body ih =>
    refine ⟨fun isBody c way found => ?_,fun isBody c way found => ?_⟩ <;>
      obtain ⟨inner,isInner,rfl⟩ := mem_group.mp found
    · exact ih.1 isBody c inner isInner
    · exact ih.2 isBody c inner isInner
  | empty | ahead | notAhead | notBehind | textStart | textEnd | lineStart | lineEnd | lastLineEnd =>
    exact ⟨fun no => (nomatch no),fun _ => stays rfl⟩

end Pattern

namespace Block

open Pattern

theorem standard_unhashed : standard.filter (fun construct => !construct.pattern.opens CharSet.unhashed) = [pageBreak] := by
  decide +kernel

-- A match opens with something that is not blank, behind gaps.
theorem standard_opening {construct : BlockConstruct} {c : Cursor} {m : Match} (member : construct ∈ standard)
    (found : construct.pattern.matchAt? c = some m) : ∃ g x u, m.text = g ++ x :: u ∧ Gaps g ∧ Text.isBlank x = false ∧
      (x = '#' → construct = pageBreak) := by
  obtain ⟨start,isWay⟩ := matchAt_way found
  have text : ∀ {t}, m.start.Reads t m.stop → m.text = t := Cursor.Reads.textTo
  cases opens : construct.pattern.opens CharSet.unhashed with
  | true =>
    obtain ⟨t,read,g,x,u,set,whole,gaps,isKind,inSet⟩ := opens_ways.1 opens _ _ isWay
    obtain ⟨unblank,hash⟩ := Bool.and_eq_true_iff.mp isKind
    refine ⟨g,x,u,(text read).trans whole,gaps,CharSet.unblank_contains unblank inSet,?_⟩
    rintro rfl
    simp [inSet] at hash
  | false =>
    have single : construct ∈ [pageBreak] := standard_unhashed ▸ List.mem_filter.mpr ⟨member,by rw [opens]; rfl⟩
    obtain rfl := List.mem_singleton.mp single
    have known : pageBreak.pattern.opens CharSet.unblank = true := by decide
    obtain ⟨t,read,g,x,u,set,whole,gaps,isKind,inSet⟩ := opens_ways.1 known _ _ isWay
    exact ⟨g,x,u,(text read).trans whole,gaps,CharSet.unblank_contains isKind inSet,fun _ => rfl⟩

end Block
end LightMarkup
