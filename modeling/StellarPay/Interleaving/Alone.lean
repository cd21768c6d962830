import StellarPay.Interleaving.History

/-!
# Calls with nobody else acting

A judgement for a program that runs to its end alone. The environment is chosen anew at every
request, within the rules, so that a clock may go on while the program runs. `finishes_alone` turns
it into a property of the runs of the machine in which only one call was ever started.
-/

namespace StellarPay.Interleaving

variable {M : Machine} {rules : Rules M} {α β : Type}

variable (rules) in
/-- However its requests are answered, the program ends with its requests, its result and its world
in `post`. Requests are made in the span `outer` if there is one. -/
def Alone (outer : Option M.Span) :
    M.Prog α → (List (Act M) → α → M.World → Prop) → M.World → Prop
  | .done result, post, world => post [] result world
  | .call span request next, post, world =>
      ∀ env, rules.permits env (outer.or span) request world →
        Alone outer (next (M.answer env request world).1)
          (fun acts => post (⟨0, outer.or span, request, env, world⟩ :: acts))
          (M.answer env request world).2

section Rules

variable {outer : Option M.Span} {world : M.World}

/-- A program that returns makes no request. -/
theorem alone_pure {result : α} {post : List (Act M) → α → M.World → Prop}
    (h : post [] result world) : Alone rules outer (pure result) post world :=
  h

/-- A weaker postcondition is easier to reach. -/
theorem Alone.mono {program : M.Prog α} {post weaker : List (Act M) → α → M.World → Prop}
    (h : Alone rules outer program post world)
    (hpost : ∀ acts result after, post acts result after → weaker acts result after) :
    Alone rules outer program weaker world := by
  induction program generalizing world post weaker with
  | done result => exact hpost _ _ _ h
  | call span request next ih =>
      intro env hpermits
      exact ih _ (h env hpermits) fun acts => hpost _

/-- A composition goes on where its first part has ended. -/
theorem alone_bind {program : M.Prog α} {next : α → M.Prog β}
    {post : List (Act M) → β → M.World → Prop}
    (h : Alone rules outer program (fun acts result after =>
      Alone rules outer (next result) (fun more => post (acts ++ more)) after) world) :
    Alone rules outer (program >>= next) post world := by
  induction program generalizing world post with
  | done result => exact h
  | call span request rest ih =>
      intro env hpermits
      exact ih _ (h env hpermits)

/-- A request first, then the rest of the program. -/
theorem alone_request_bind {request : M.Request} {next : M.Answer request → M.Prog β}
    {post : List (Act M) → β → M.World → Prop}
    (h : ∀ env, rules.permits env outer request world →
      Alone rules outer (next (M.answer env request world).1)
        (fun acts => post (⟨0, outer, request, env, world⟩ :: acts))
        (M.answer env request world).2) :
    Alone rules outer (.request request >>= next) post world := by
  intro env hpermits
  rw [Option.or_none] at hpermits ⊢
  exact h env hpermits

/-- A span is carried by the judgement. -/
theorem alone_within {program : M.Prog α} {span : M.Span}
    {post : List (Act M) → α → M.World → Prop}
    (h : Alone rules (outer.or (some span)) program post world) :
    Alone rules outer (program.within span) post world := by
  induction program generalizing world post with
  | done result => exact h
  | call inner request rest ih =>
      have hspan : (outer.or (some span)).or inner = outer.or (some span) := by
        cases outer <;> rfl
      intro env hpermits
      have hrest := h env (hspan.symm ▸ hpermits)
      rw [hspan] at hrest
      exact ih _ hrest

end Rules

/-- Before the first call nothing has happened. -/
theorem Reachable.init_of_nil {world : M.World} {state : State M}
    (hreach : Reachable rules world state) (hnil : state.threads = []) :
    state.config = ⟨world, []⟩ := by
  cases hreach with
  | init => rfl
  | step _ hstep =>
      cases hstep with
      | start call hadmits => simp at hnil
      | act thread call span request next env hthread hpermits =>
          rw [List.set_eq_nil_iff] at hnil
          simp [hnil] at hthread

/-- While a call is all that was ever started, it is on its way to what it ends with alone. -/
theorem alone_of_reachable {world : M.World} {call : M.Call}
    {post : List (Act M) → M.Result call → M.World → Prop}
    (hcall : Alone rules none (M.body call) post world) {state : State M}
    (hreach : Reachable rules world state) {program : M.Prog (M.Result call)}
    (hthreads : state.threads = [⟨call, program⟩]) :
    ∃ acts, state.config.trace = .start 0 call world :: acts.map .act ∧
      Alone rules none program (fun more => post (acts ++ more)) state.config.world := by
  induction hreach generalizing program with
  | init => cases hthreads
  | @step state _ hbefore hstep ih =>
      cases hstep with
      | start other hadmits =>
          obtain ⟨hnil, hstarted⟩ := List.append_eq_singleton_iff.mp hthreads |>.resolve_right
            fun h => by simp at h
          have hinit := hbefore.init_of_nil hnil
          cases hstarted
          refine ⟨[], ?_, ?_⟩
          · simp [hinit, hnil]
          · simpa [hinit] using hcall
      | act thread other span request next env hthread hpermits =>
          obtain ⟨old, hold⟩ : ∃ old, state.threads = [old] := by
            have hlength := congrArg List.length hthreads
            rw [List.length_set] at hlength
            exact List.length_eq_one_iff.mp hlength
          rw [hold] at hthread hthreads
          obtain ⟨hlt, hthread⟩ := List.getElem?_eq_some_iff.mp hthread
          obtain rfl : thread = 0 := Nat.lt_one_iff.mp hlt
          obtain rfl : old = ⟨other, .call span request next⟩ := hthread
          cases hthreads
          obtain ⟨acts, htrace, halone⟩ := ih hold
          refine ⟨acts ++ [⟨0, span, request, env, state.config.world⟩], ?_, ?_⟩
          · simp [htrace]
          · simpa using halone env hpermits

/-- The requests of a history. -/
def Config.acts (config : Config M) : List (Act M) :=
  config.trace.filterMap fun event =>
    match event with
    | .start _ _ _ => none
    | .act made => some made

/-- A call that has returned, and is all that was ever started, has ended as it does alone. -/
theorem finishes_alone {world : M.World} {call : M.Call}
    {post : List (Act M) → M.Result call → M.World → Prop}
    (hcall : Alone rules none (M.body call) post world) {state : State M}
    (hreach : Reachable rules world state) {result : M.Result call}
    (hthreads : state.threads = [⟨call, .done result⟩]) :
    post state.config.acts result state.config.world := by
  obtain ⟨acts, htrace, halone⟩ := alone_of_reachable hcall hreach hthreads
  have hacts : state.config.acts = acts := by
    simp [Config.acts, htrace, List.filterMap_map]
  rw [hacts, ← List.append_nil acts]
  exact halone

/-- A call that is all that was ever started can go on to its end, if some answer is always
permitted. -/
theorem Reachable.can_finish {world : M.World} {state : State M}
    (hreach : Reachable rules world state)
    (hsome : ∀ span request seen, ∃ env, rules.permits env span request seen) {call : M.Call}
    {program : M.Prog (M.Result call)} (hthreads : state.threads = [⟨call, program⟩]) :
    ∃ later result, Reachable rules world later ∧ later.threads = [⟨call, .done result⟩] := by
  induction program generalizing state with
  | done result => exact ⟨state, result, hreach, hthreads⟩
  | call span request next ih =>
      obtain ⟨env, hpermits⟩ := hsome span request state.config.world
      have hthread : state.threads[0]? = some ⟨call, .call span request next⟩ := by
        rw [hthreads]
        rfl
      refine ih (M.answer env request state.config.world).1
        (hreach.step (.act state 0 call span request next env hthread hpermits)) ?_
      rw [hthreads]
      rfl

end StellarPay.Interleaving
