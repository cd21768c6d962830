import StellarPay.Interleaving.History

/-!
# Trails

A trail is a list of acts that take something from stage to stage, by a relation that says what one
act can do. It may be cut at every act. What a stage has left to do is done by the acts that follow,
or it is left in the end.
-/

namespace StellarPay.Interleaving

section Trails

variable {A S : Type} {step : S → A → S → Prop}

/-- The acts lead from the first stage to the last one. -/
inductive Trail (step : S → A → S → Prop) (first : S) : List A → S → Prop where
  | nil : Trail step first [] first
  | snoc {acts : List A} {act : A} {stage next : S} (h : Trail step first acts stage)
      (hstep : step stage act next) : Trail step first (acts ++ [act]) next

variable {first last : S} {act : A} {acts before after : List A}

namespace Trail

/-- A trail is cut at an act. -/
theorem at_act (h : Trail step first acts last) (hacts : acts = before ++ act :: after) :
    ∃ stage next, Trail step first before stage ∧ step stage act next ∧
      Trail step next after last := by
  induction h generalizing after with
  | nil => simp at hacts
  | @snoc acts made stage next h hstep ih =>
      rcases List.eq_nil_or_concat' after with rfl | ⟨rest, other, rfl⟩
      · obtain ⟨rfl, hlast⟩ := List.append_inj' hacts rfl
        cases hlast
        exact ⟨stage, next, h, hstep, .nil⟩
      · rw [← List.cons_append, ← List.append_assoc] at hacts
        obtain ⟨rfl, hlast⟩ := List.append_inj' hacts rfl
        cases hlast
        obtain ⟨earlier, later, hbefore, hact, hafter⟩ := ih rfl
        exact ⟨earlier, later, hbefore, hact, hafter.snoc hstep⟩

end Trail

end Trails

section Threads

variable {M : Machine}

end Threads

end StellarPay.Interleaving
