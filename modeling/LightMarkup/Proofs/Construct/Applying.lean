import LightMarkup.Proofs.Logged
import LightMarkup.Proofs.Pattern.Following
import LightMarkup.Rewrite

/-!
Constructs applied in their order, one step after the other. What every step keeps, a run keeps. A draft of which nothing is
visible is left as it is.
-/

namespace LightMarkup

open Draft

variable {constructs : List Construct} {settings : CompileSettings} {d : Draft}

theorem Pattern.occurrences_nil (p : Pattern) : p.occurrences [] = [] := by
  simp [Pattern.occurrences,Pattern.scan,Pattern.scanFrom,(Pattern.occurrences_find p).not_at_end]

namespace Construct

theorem applyEach_skipped {c : Construct} {context : Context} (excluded : settings.excluded.contains c.name = true) :
    applyEach settings context (c :: constructs) d = applyEach settings context constructs d := by
  rw [applyEach,if_pos excluded,pure_bind]

theorem applyEach_applied {c : Construct} {context : Context} (included : ¬ settings.excluded.contains c.name = true) :
    applyEach settings context (c :: constructs) d =
      c.apply settings context d >>= applyEach settings context constructs := by
  rw [applyEach,if_neg included]

-- What each step keeps, a run keeps.
theorem applyEach_induct {context : Context} {e : Draft} {I : Draft → Prop}
    (step : ∀ c ∈ constructs, ∀ {d e}, I d → (c.apply settings context d).outcome = .ok e → I e) (start : I d)
    (run : (applyEach settings context constructs d).outcome = .ok e) : I e := by
  induction constructs generalizing d with
  | nil =>
    cases run
    exact start
  | cons c constructs ih =>
    obtain ⟨here,others⟩ := List.forall_mem_cons.mp step
    by_cases excluded : settings.excluded.contains c.name = true
    · rw [applyEach_skipped excluded] at run
      exact ih others start run
    · rw [applyEach_applied excluded] at run
      obtain ⟨next,first,later⟩ := Logged.outcome_bind_ok.mp run
      exact ih others (here start first) later

theorem compile_induct {context : Context} {e : Draft} {I : Draft → Prop}
    (step : ∀ c ∈ constructs, ∀ {d e}, I d → (c.apply settings context d).outcome = .ok e → I e) (start : I d)
    (run : (d.compile constructs settings context).outcome = .ok e) : I e := by
  unfold Draft.compile at run
  split at run
  · cases run
    exact start
  · exact applyEach_induct step start run

-- A construct on its own.
theorem compile_alone {c : Construct} (included : settings.excluded.contains c.name = false) (context : Context) (d : Draft) :
    d.compile [c] settings context = c.apply settings context d := by
  have some : settings.excluded ≠ .everything := by
    intro all
    rw [all] at included
    cases included
  rw [Draft.compile,if_neg some,applyEach_applied (by rw [included]; decide)]
  exact bind_pure _

theorem apply_unseen (c : Construct) (settings : CompileSettings) (context : Context)
    (unseen : visibleContentOf (some c.name) d.parts = []) : c.apply settings context d = pure d := by
  have spans : spansOf c.name c.pattern d = [] := by rw [spansOf,unseen,Pattern.occurrences_nil]; rfl
  rw [apply,applyAt,spans]
  rfl

theorem compile_unseen (constructs : List Construct) (settings : CompileSettings) (context : Context)
    (unseen : ∀ construct : String, visibleContentOf (some construct) d.parts = []) : d.compile constructs settings context = pure d := by
  unfold Draft.compile
  split
  · rfl
  · induction constructs with
    | nil => rfl
    | cons c constructs ih =>
      by_cases excluded : settings.excluded.contains c.name = true
      · rwa [applyEach_skipped excluded]
      · rwa [applyEach_applied excluded,apply_unseen c settings context (unseen _),pure_bind]

end Construct
end LightMarkup
