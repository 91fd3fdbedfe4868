import LightMarkup.Proofs.Construct.Rematching

/-!
Texts put behind each other. A pattern that looks at nothing but what it reads finds in the whole what it finds in each
text alone, unless a match goes over a seam.
-/

namespace LightMarkup

def shifted (offset : Nat) (span : Nat × Nat) : Nat × Nat :=
  (offset + span.1,offset + span.2)

@[simp] theorem shifted_zero (span : Nat × Nat) : shifted 0 span = span := by
  simp [shifted]

theorem shifted_add (one two : Nat) (span : Nat × Nat) : shifted one (shifted two span) = shifted (one + two) span := by
  simp [shifted,Nat.add_assoc]

theorem InOrder.shifted {first last : Nat} {spans : List (Nat × Nat)} (ordered : InOrder first last spans) (offset : Nat) :
    InOrder (offset + first) (offset + last) (spans.map (shifted offset)) := by
  induction spans generalizing first with
  | nil => exact Nat.add_le_add_left ordered offset
  | cons span spans ih =>
    obtain ⟨before,some,after⟩ := ordered
    exact ⟨Nat.add_le_add_left before offset,Nat.add_lt_add_left some offset,ih after⟩

theorem InOrder.append {first middle last : Nat} {spans others : List (Nat × Nat)} (ordered : InOrder first middle spans)
    (follow : InOrder middle last others) : InOrder first last (spans ++ others) := by
  induction spans generalizing first with
  | nil =>
    cases others with
    | nil => exact Nat.le_trans ordered follow
    | cons next others => exact ⟨Nat.le_trans ordered follow.1,follow.2⟩
  | cons span spans ih => exact ⟨ordered.1,ordered.2.1,ih ordered.2.2⟩

-- Where one of the texts ends, in the whole.
def seams : List Text → List Nat
  | [] => []
  | t :: texts => t.length :: (seams texts).map (t.length + ·)

-- A span that goes over a seam.
def crosses (seam : Nat) (span : Nat × Nat) : Bool :=
  decide (span.1 < seam ∧ seam < span.2)

namespace Pattern

variable {p : Pattern} {c around : Cursor} {m : Match} {t : Text} {texts : List Text}

-- What is found in each text alone, at its place in the whole.
def spansAlone (p : Pattern) : List Text → List (Nat × Nat)
  | [] => []
  | t :: texts => (p.occurrences t).map Match.span ++ (p.spansAlone texts).map (shifted t.length)

theorem spansAlone_inOrder (p : Pattern) (texts : List Text) : InOrder 0 texts.flatten.length (p.spansAlone texts) := by
  induction texts with
  | nil => exact Nat.le_refl 0
  | cons t texts ih =>
    rw [List.flatten_cons,List.length_append]
    exact (p.occurrences_inOrder t).append (ih.shifted t.length)

theorem own_none (eats : p.needs (fun _ => true) = true) (own : Own around p.ways c)
    (none : p.matchSomeAt? (c.inside around) = none) : p.matchSomeAt? c = .none := by
  rw [matchSomeAt_needed eats] at none ⊢
  have ways := matchAt_none none
  rw [Own,ways] at own
  rw [matchAt_head,List.map_eq_nil_iff.mp own.symm]
  rfl

theorem own_some (eats : p.needs (fun _ => true) = true) (own : Own around p.ways c)
    (found : p.matchSomeAt? (c.inside around) = some m) (stays : around.after.length ≤ m.stop.after.length) :
    ∃ n, p.matchSomeAt? c = some n ∧ m.span = shifted around.before.length n.span := by
  rw [matchSomeAt_needed eats] at found ⊢
  rw [matchAt_head] at found
  obtain ⟨way,head,rfl⟩ := Option.map_eq_some_iff.mp found
  have kept : staysIn around way = true := decide_eq_true stays
  have first := head_filter head kept
  rw [own,List.head?_map] at first
  obtain ⟨alone,preferred,rfl⟩ := Option.map_eq_some_iff.mp first
  refine ⟨⟨c,alone.1,alone.2⟩,by rw [matchAt_head,preferred]; rfl,?_⟩
  simp [Match.span,shifted,Way.inside,Cursor.inside,Cursor.position,Nat.add_comm]

-- A text among others, from a place in it on. Nothing that is found in it goes on behind it.
theorem scan_among (looks : p.looksOnly [] = true) (eats : p.needs (fun _ => true) = true) (earlier later : Text) :
    ∀ (t before : Text) (skip : Nat), skip ≤ t.length →
      (∀ m ∈ scanFrom Match.length p.matchSomeAt? (before ++ earlier) skip (t ++ later),
        crosses ((before ++ earlier).length + t.length) m.span = false) →
      (scanFrom Match.length p.matchSomeAt? (before ++ earlier) skip (t ++ later)).map Match.span =
        ((scanFrom Match.length p.matchSomeAt? before skip t).map Match.span).map (shifted earlier.length) ++
          (scanFrom Match.length p.matchSomeAt? (t.reverse ++ before ++ earlier) 0 later).map Match.span := by
  intro t
  induction t with
  | nil =>
    intro before skip bound closed
    cases Nat.le_zero.mp bound
    simp [scanFrom,(occurrences_find p).not_at_end]
  | cons x rest ih =>
    intro before skip bound closed
    have behind : (before ++ earlier).length + (x :: rest).length = (x :: before ++ earlier).length + rest.length := by
      simp only [List.length_append,List.length_cons]
      omega
    have reversed : (x :: rest).reverse ++ before ++ earlier = rest.reverse ++ (x :: before) ++ earlier := by simp
    rw [behind] at closed
    rw [reversed]
    cases skip with
    | succ skip => exact ih (x :: before) skip (by simpa using bound) closed
    | zero =>
      have own : Own ⟨earlier,later⟩ p.ways ⟨before,x :: rest⟩ := looksOnly_own (List.forall_mem_nil _) looks _
      rw [List.cons_append,scanFrom] at closed ⊢
      rw [scanFrom]
      cases found : p.matchSomeAt? ⟨before ++ earlier,x :: (rest ++ later)⟩ with
      | none =>
        rw [found] at closed
        rw [own_none eats own found]
        exact ih (x :: before) 0 (Nat.zero_le _) closed
      | some m =>
        rw [found] at closed
        obtain ⟨here,others⟩ := List.forall_mem_cons.mp closed
        obtain ⟨start,isWay,shorter⟩ := matchSomeAt_way found
        obtain ⟨inner,read⟩ := isWay.reads
        have position := read.position
        have length := read.length
        -- The match begins in the text, so it ends there.
        have stays : later.length ≤ m.stop.after.length := by
          simp only [crosses,Match.span,start,Cursor.position,decide_eq_false_iff_not,List.length_append,List.length_cons]
            at here length position
          omega
        obtain ⟨n,alone,span⟩ := own_some eats own found stays
        have same : n.length = m.length := by
          have starts := congrArg Prod.fst span
          have stops := congrArg Prod.snd span
          simp only [Match.span,shifted] at starts stops
          simp only [Match.length]
          omega
        rw [alone,List.map_cons,List.map_cons,List.map_cons,List.cons_append,← span,same]
        refine congrArg _ (ih (x :: before) (m.length - 1) ?_ others)
        rw [Match.length,position]
        simp only [start,List.length_append,List.length_cons] at length
        omega

-- From a place in the whole on.
theorem scan_flatten (looks : p.looksOnly [] = true) (eats : p.needs (fun _ => true) = true) (earlier : Text)
    (closed : ∀ m ∈ scanFrom Match.length p.matchSomeAt? earlier 0 texts.flatten,
      ∀ seam ∈ seams texts, crosses (earlier.length + seam) m.span = false) :
    (scanFrom Match.length p.matchSomeAt? earlier 0 texts.flatten).map Match.span =
      (p.spansAlone texts).map (shifted earlier.length) := by
  induction texts generalizing earlier with
  | nil => simp [scanFrom,(occurrences_find p).not_at_end,spansAlone]
  | cons t texts ih =>
    have split := scan_among looks eats earlier texts.flatten t [] 0 (Nat.zero_le _) fun m member =>
      closed m member t.length (by simp [seams])
    simp only [List.nil_append,List.append_nil] at split
    rw [List.flatten_cons] at closed ⊢
    have later := ih (t.reverse ++ earlier) fun m member seam isSeam => by
      obtain ⟨n,isFound,same⟩ : ∃ n ∈ scanFrom Match.length p.matchSomeAt? earlier 0 (t ++ texts.flatten),
          n.span = m.span := by
        have found : m.span ∈ (scanFrom Match.length p.matchSomeAt? earlier 0 (t ++ texts.flatten)).map Match.span := by
          rw [split]
          exact List.mem_append_right _ (List.mem_map_of_mem member)
        exact List.mem_map.mp found
      have apart := closed n isFound (t.length + seam) (by simpa [seams] using Or.inr isSeam)
      rw [← same]
      simpa [Nat.add_assoc,Nat.add_comm,Nat.add_left_comm] using apart
    rw [split,later,spansAlone,List.map_append,List.map_map,List.length_append,List.length_reverse]
    simp [occurrences,scan,Function.comp_def,shifted_add,Nat.add_comm]

theorem occurrences_flatten (looks : p.looksOnly [] = true) (eats : p.needs (fun _ => true) = true)
    (closed : ∀ span ∈ (p.occurrences texts.flatten).map Match.span, ∀ seam ∈ seams texts, crosses seam span = false) :
    (p.occurrences texts.flatten).map Match.span = p.spansAlone texts := by
  have whole := scan_flatten looks eats [] fun m member seam isSeam => by
    simpa using closed m.span (List.mem_map_of_mem member) seam isSeam
  simpa [occurrences,scan,funext shifted_zero] using whole

end Pattern
end LightMarkup
