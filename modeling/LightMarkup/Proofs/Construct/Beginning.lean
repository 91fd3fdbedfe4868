import LightMarkup.Proofs.Construct.Applying
import LightMarkup.Proofs.Construct.Recutting

/-!
Beginnings. A construct whose matches all begin with one character does nothing where the character is not seen, and
what stands before the first of them stays before everything that it makes of a draft.
-/

namespace LightMarkup
namespace Construct

open Draft

variable {constructs : List Construct} {settings : CompileSettings} {context : Context} {c : Construct} {d e : Draft}
  {front back : List Part} {chars : List Char} {x : Char}

-- Where nothing begins that a construct could begin with, it does nothing.
theorem apply_unbegun (begun : c.pattern.begins x = true) (absent : x ∉ visibleContentOf (some c.name) d.parts) :
    c.apply settings context d = pure d := by
  have none : spansOf c.name c.pattern d = [] := by
    rw [spansOf,List.map_eq_nil_iff,List.eq_nil_iff_forall_not_mem]
    intro m found
    exact absent (List.mem_of_mem_drop (List.mem_of_head? (Pattern.begins_occurrence begun found)))
  rw [apply,applyAt,none]
  rfl

-- A front in which nothing begins stays.
theorem stretch_front (whole : atoms d.parts = front ++ back) {scope : Option String} {stop : Nat}
    (reach : (visibleContentOf scope front).length ≤ stop) :
    ∃ rest, atoms (stretch scope d.parts 0 stop) = front ++ rest := by
  have some : ∀ part ∈ front, part.visibleTo scope = true → part.content ≠ [] := fun part member =>
    have inside : part ∈ atoms d.parts := by simp [whole,member]
    atoms_some part inside
  have kept : windowFrom scope .both 0 stop 0 front = front :=
    windowFrom_inner some (Nat.zero_le _) (by omega) fun placed hidden => by
      have bound := hiddenFrom_within hidden
      exact (Boundary.keeps_both (Nat.zero_le _)).mpr ⟨Nat.zero_le _,by omega⟩
  exact ⟨_,by rw [stretch,atoms_window,whole,windowFrom_append,kept]⟩

-- What a step puts before everything else: what it has passed before its first match, and what it has made of that.
theorem apply_first (run : (c.apply settings context d).outcome = .ok e) :
    c.pattern.occurrences (visibleContentOf (some c.name) d.parts) = [] ∧ atoms e.parts = atoms d.parts ∨
      ∃ m out rest, (c.pattern.occurrences (visibleContentOf (some c.name) d.parts)).head? = some m ∧
        (c.rewriteMatch settings context (c.handed d m.span)).outcome = .ok out ∧
        atoms e.parts = atoms (stretch (some c.name) d.parts 0 m.start.position) ++ (atoms out ++ rest) := by
  obtain ⟨outs,ran,parts⟩ := apply_rewrites run
  rw [spansOf] at ran parts
  cases found : c.pattern.occurrences (visibleContentOf (some c.name) d.parts) with
  | nil =>
    rw [found] at parts
    refine Or.inl ⟨rfl,parts.trans ?_⟩
    cases outs <;> exact stretch_whole _ _
  | cons m others =>
    rw [found,List.map_cons] at ran parts
    cases ran with
    | @cons _ out _ outs here later =>
      rw [Match.span,spliced,atoms_append,atoms_append] at parts
      exact Or.inr ⟨m,out,_,rfl,here,parts⟩

theorem apply_front (begun : c.pattern.begins x = true) (whole : atoms d.parts = front ++ back)
    (absent : x ∉ visibleContentOf (some c.name) front) (run : (c.apply settings context d).outcome = .ok e) :
    ∃ rest, atoms e.parts = front ++ rest := by
  rcases apply_first run with ⟨_,parts⟩ | ⟨m,out,rest,first,_,parts⟩
  · exact ⟨back,parts.trans whole⟩
  · have reach : (visibleContentOf (some c.name) front).length ≤ m.start.position := by
      have begins := Pattern.begins_occurrence begun (List.mem_of_head? first)
      rw [← visibleContentOf_atoms,whole,visibleContentOf_append] at begins
      by_contra near
      have inside : m.start.position < (visibleContentOf (some c.name) front).length := by omega
      rw [List.drop_append_of_le_length (Nat.le_of_lt inside),List.drop_eq_getElem_cons inside] at begins
      exact absent (Option.some.inj begins ▸ List.getElem_mem inside)
    obtain ⟨more,kept⟩ := stretch_front whole reach
    exact ⟨_,by rw [parts,kept,List.append_assoc]⟩

-- A run that has nothing to begin with, and one that leaves a front in which nothing begins.
theorem applyEach_unbegun (begun : ∀ c ∈ constructs, ∃ x ∈ chars, c.pattern.begins x = true)
    (absent : ∀ x ∈ chars, ∀ construct : String, x ∉ visibleContentOf (some construct) d.parts) :
    applyEach settings context constructs d = pure d := by
  induction constructs with
  | nil => rfl
  | cons c constructs ih =>
    obtain ⟨⟨x,starts,here⟩,others⟩ := List.forall_mem_cons.mp begun
    by_cases excluded : settings.excluded.contains c.name = true
    · rw [applyEach_skipped excluded,ih others]
    · rw [applyEach_applied excluded,apply_unbegun here (absent x starts _),pure_bind,ih others]

theorem applyEach_front (begun : ∀ c ∈ constructs, ∃ x ∈ chars, c.pattern.begins x = true)
    (whole : atoms d.parts = front ++ back) (absent : ∀ x ∈ chars, ∀ construct : String, x ∉ visibleContentOf (some construct) front)
    (run : (applyEach settings context constructs d).outcome = .ok e) : ∃ rest, atoms e.parts = front ++ rest := by
  refine applyEach_induct (I := fun d => ∃ rest, atoms d.parts = front ++ rest) ?_ ⟨back,whole⟩ run
  rintro c member d e ⟨rest,kept⟩ ran
  obtain ⟨x,starts,here⟩ := begun c member
  exact apply_front here kept (absent x starts _) ran

end Construct
end LightMarkup
