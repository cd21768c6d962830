import StellarPay.Interleaving.History

/-!
# Programs under watch

An automaton watches the requests of a program with the spans they are made in, and does not see the
answers. A program `Brings` it from a state to a final one if it does so whatever the answers are.
In a run, what a thread has done and what it has still to do meet in the state of the automaton.
-/

namespace StellarPay.Interleaving

namespace Program

variable {Span Request S : Type} {Answer : Request → Type} {α β : Type}

/-- The program brings the automaton from a state to a final one, whatever the answers. -/
def Brings (watch : S → Option Span → Request → S) (final : S → Prop) :
    S → Program Span Answer α → Prop
  | state, .done _ => final state
  | state, .call span request next =>
      ∀ answer, (next answer).Brings watch final (watch state span request)

variable {watch : S → Option Span → Request → S} {final : S → Prop} {state : S}

@[simp]
theorem brings_pure (result : α) :
    (pure result : Program Span Answer α).Brings watch final state ↔ final state :=
  Iff.rfl

@[simp]
theorem brings_request_bind (r : Request) (next : Answer r → Program Span Answer α) :
    (request r >>= next : Program Span Answer α).Brings watch final state ↔
      ∀ answer, (next answer).Brings watch final (watch state none r) :=
  Iff.rfl

/-- A composition goes on in the states in which its first part ends. -/
theorem brings_bind {program : Program Span Answer α} {next : α → Program Span Answer β}
    {middle : S → Prop} (hfirst : program.Brings watch middle state)
    (hnext : ∀ state, middle state → ∀ result, (next result).Brings watch final state) :
    (program >>= next).Brings watch final state := by
  induction program generalizing state with
  | done result => exact hnext state hfirst result
  | call span request rest ih => exact fun answer => ih answer (hfirst answer)

/-- Inside a span the automaton sees that span only. -/
@[simp]
theorem brings_within {program : Program Span Answer α} {span : Span} :
    (program.within span).Brings watch final state ↔
      program.Brings (fun state _ => watch state (some span)) final state := by
  induction program generalizing state with
  | done result => exact Iff.rfl
  | call _ request next ih => exact forall_congr' fun answer => ih answer

/-- An automaton that does not move stays where it is. -/
theorem brings_of_const {program : Program Span Answer α} (h : final state) :
    program.Brings (fun state _ _ => state) final state := by
  induction program with
  | done result => exact h
  | call span request next ih => exact fun answer => ih answer

end Program

section Runs

variable {M : Machine} {S : Type} (watch : S → Option M.Span → M.Request → S)

/-- What the automaton makes of an event. -/
def Event.watched (state : S) : Event M → S
  | .act made => watch state made.span made.request
  | .start _ _ _ => state

variable {rules : Rules M} {world : M.World} {state : State M} {final : S → Prop} {first : S}

/-- If the calls of a kind bring the automaton from `first` to a final state, then so does the rest
of each of them, from where its requests have brought the automaton. -/
theorem Reachable.brings (kind : M.Call → Prop)
    (hcalls : ∀ call, rules.admits call → kind call →
      (M.body call).Brings watch final first)
    (hreach : Reachable rules world state) {thread : Nat} {t : Thread M}
    (ht : state.threads[thread]? = some t) (hkind : kind t.call) :
    t.program.Brings watch final ((state.config.own thread).foldl (Event.watched watch) first) := by
  induction hreach generalizing thread t with
  | init => simp [State.init] at ht
  | @step state _ hbefore hstep ih =>
      cases hstep with
      | start call hadmits =>
          rcases thread_of_start ht with ⟨hlt, ht⟩ | ⟨rfl, rfl⟩
          · rw [Config.own_start_other _ (Nat.ne_of_gt hlt)]
            exact ih ht hkind
          · rw [Config.own_start_self, hbefore.own_next]
            exact hcalls call hadmits hkind
      | act acting call span request next env hthread hpermits =>
          rcases thread_of_act hthread ht with ⟨rfl, rfl⟩ | ⟨hne, ht⟩
          · rw [Config.own_act_self, List.foldl_append]
            exact ih hthread hkind _
          · rw [Config.own_act_other _ hne]
            exact ih ht hkind

end Runs

end StellarPay.Interleaving
