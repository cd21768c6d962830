/-!
# Two systems in lockstep

One sequence of steps, carried out on two systems that know nothing of each other. A property of a
step may speak about the states it finds in both. Along a sequence two such properties are the same
when they agree on every step from states that a simulation relates. The relation also sees the
steps that are still to come, so that it can say what they may use.
-/

namespace StellarPay.Interleaving

section

variable {Step First Second : Type} (first : Step → First → First)
  (second : Step → Second → Second)

/-- The property holds of every step and the states it finds. -/
def Throughout (property : Step → First → Second → Prop) : List Step → First → Second → Prop
  | [], _, _ => True
  | step :: rest, left, right =>
      property step left right ∧ Throughout property rest (first step left) (second step right)

variable {first second} {steps : List Step} {left : First} {right : Second}
  {observed allowed : Step → First → Second → Prop} {simulates : List Step → First → Second → Prop}

/-- A simulation that the allowed steps keep, and in which a step is allowed exactly when something
is observed of it, makes the two the same along every sequence. -/
theorem Throughout.iff_of_simulation
    (hsame : ∀ step rest left right, simulates (step :: rest) left right →
      (observed step left right ↔ allowed step left right))
    (hkeep : ∀ step rest left right, simulates (step :: rest) left right →
      allowed step left right → simulates rest (first step left) (second step right))
    (hstart : simulates steps left right) :
    Throughout first second observed steps left right ↔
      Throughout first second allowed steps left right := by
  induction steps generalizing left right with
  | nil => exact Iff.rfl
  | cons step rest ih =>
      rw [Throughout, Throughout, hsame step rest left right hstart]
      exact and_congr_right fun hallowed => ih (hkeep step rest left right hstart hallowed)

end

end StellarPay.Interleaving
