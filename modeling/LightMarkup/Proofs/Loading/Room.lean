import LightMarkup.Proofs.Complaints

/-!
The room for containers inside each other. A run with more room gives what a run with less of it gives, unless the run
with less comes to its end, and it does not come to its end with what the levels can take at most.
-/

namespace LightMarkup

-- The same, unless the first run was short of room and found none.
def Logged.Roomy {α : Type} (short : Prop) (x y : Logged α) : Prop :=
  short ∧ x.outcome = .error (.fault .endless) ∨ x = y

namespace Logged.Roomy

theorem mono {α : Type} {short shorter : Prop} {x y : Logged α} (implies : short → shorter) (roomy : Roomy short x y) :
    Roomy shorter x y :=
  roomy.imp_left (And.imp_left implies)

variable (short : Prop)

theorem lockstep : Lockstep (Roomy short) where
  except _ := Or.inr rfl
  write _ := Or.inr rfl
  bind := by
    intro α β x y f g first later
    rcases first with ⟨isShort,full⟩ | rfl
    · exact Or.inl ⟨isShort,outcome_bind_error.mpr (Or.inl full)⟩
    · cases ran : x.outcome with
      | error failure => exact Or.inr (by rw [bind_error ran,bind_error ran])
      | ok a =>
        rcases later a ran with ⟨isShort,full⟩ | same
        · exact Or.inl ⟨isShort,outcome_bind_error.mpr (Or.inr ⟨a,ran,full⟩)⟩
        · exact Or.inr (by rw [bind_ok ran,bind_ok ran,same])

theorem steps (catalogue : Catalogue) (settings : LoadSettings) : catalogue.InStep (Roomy short) settings settings where
  depth := rfl
  block _ _ _ _ _ _ _ _ _ inside := Loading.load_step (lockstep short) (fun _ => Or.inr rfl) (fun _ _ => Or.inr rfl)
    (fun _ _ => Or.inr rfl) inside
  fallback _ _ _ _ _ _ _ inside := Loading.load_step (lockstep short) (fun _ => Or.inr rfl) (fun _ _ => Or.inr rfl)
    (fun _ _ => Or.inr rfl) inside
  skip _ _ := Or.inr rfl

end Logged.Roomy

namespace Nested

variable {catalogue : Catalogue} {settings : LoadSettings} {levels room tried : Nat} {t : Text}

end Nested

end LightMarkup
