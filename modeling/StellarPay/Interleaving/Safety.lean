import StellarPay.Interleaving.History

/-!
# Invariants of interleaved programs

A `Discipline` is an invariant of the shared state and its history, together with a preorder
that every step follows. A thread may use what it has seen as long as the others, who also
follow the preorder, cannot make it false. `Safe` states what a program must show at each
request under that interference; `Discipline.sound` turns safe bodies into an invariant of
every reachable state and a postcondition of every finished call.
-/

namespace StellarPay.Interleaving

variable {M : Machine} {α β : Type}

/-- An invariant and an order, followed by every step of every thread. -/
structure Discipline (M : Machine) (rules : Rules M) where
  Inv : Config M → Prop
  Evolves : Config M → Config M → Prop
  refl (config : Config M) : Evolves config config
  trans {first second third : Config M} :
    Evolves first second → Evolves second third → Evolves first third

namespace Discipline

variable {rules : Rules M} (D : Discipline M rules)

/-- What the other threads can do while `thread` waits: the order is followed, the history
grows, and nothing is added to the thread's own history. -/
structure Rely (thread : Nat) (before after : Config M) : Prop where
  evolves : D.Evolves before after
  grows : before.trace <+: after.trace
  own : after.own thread = before.own thread

theorem Rely.refl (thread : Nat) (config : Config M) : D.Rely thread config config :=
  ⟨D.refl config, List.prefix_refl _, rfl⟩

variable {D} in
theorem Rely.trans {thread : Nat} {first second third : Config M}
    (h : D.Rely thread first second) (h' : D.Rely thread second third) :
    D.Rely thread first third :=
  ⟨D.trans h.evolves h'.evolves, h.grows.trans h'.grows, h'.own.trans h.own⟩

/-- Under interference, every request of the program keeps the invariant and follows the order,
and the result satisfies `post`. Requests are made in the span `outer` if there is one. -/
def Safe (thread : Nat) (outer : Option M.Span) :
    M.Prog α → (α → Config M → Prop) → Config M → Prop
  | .done result, post, config => post result config
  | .call span request next, post, config =>
      ∀ current, D.Rely thread config current → D.Inv current →
      ∀ env, rules.permits env (outer.or span) request current.world →
        D.Inv (current.act thread (outer.or span) request env) ∧
        D.Evolves current (current.act thread (outer.or span) request env) ∧
        Safe thread outer (next (M.answer env request current.world).1) post
          (current.act thread (outer.or span) request env)

variable {D} {thread : Nat} {outer : Option M.Span} {config : Config M}

@[simp]
theorem safe_pure {result : α} {post : α → Config M → Prop} :
    D.Safe thread outer (pure result) post config ↔ post result config :=
  Iff.rfl

/-- A single request is safe when its effect is, whatever happened before it. -/
theorem safe_request {request : M.Request} {post : M.Answer request → Config M → Prop} :
    D.Safe thread outer (.request request) post config ↔
      ∀ current, D.Rely thread config current → D.Inv current →
      ∀ env, rules.permits env outer request current.world →
        D.Inv (current.act thread outer request env) ∧
        D.Evolves current (current.act thread outer request env) ∧
        post (M.answer env request current.world).1 (current.act thread outer request env) := by
  simp only [Program.request, Safe, Option.or_none]

/-- A composition is safe when its first part is safe up to the safety of the second. -/
theorem safe_bind {program : M.Prog α} {next : α → M.Prog β} {post : β → Config M → Prop} :
    D.Safe thread outer (program >>= next) post config ↔
      D.Safe thread outer program (fun result => D.Safe thread outer (next result) post)
        config := by
  induction program generalizing config with
  | done result => exact Iff.rfl
  | call span request rest ih => simp only [Program.call_bind, Safe, ih]

/-- A span is carried by the judgement. -/
theorem safe_within {program : M.Prog α} {span : M.Span} {post : α → Config M → Prop} :
    D.Safe thread outer (program.within span) post config ↔
      D.Safe thread (outer.or (some span)) program post config := by
  induction program generalizing config with
  | done result => exact Iff.rfl
  | call inner request rest ih =>
      have hspan : (outer.or (some span)).or inner = outer.or (some span) := by
        cases outer <;> rfl
      simp only [Program.within, Safe, ih, hspan]

/-- A weaker postcondition is easier to reach. -/
theorem Safe.mono {program : M.Prog α} {post weaker : α → Config M → Prop}
    (h : D.Safe thread outer program post config)
    (hpost : ∀ result config, post result config → weaker result config) :
    D.Safe thread outer program weaker config := by
  induction program generalizing config with
  | done result => exact hpost _ _ h
  | call span request rest ih =>
      intro current hrely hinv env hpermits
      obtain ⟨hinv', hevolves, hrest⟩ := h current hrely hinv env hpermits
      exact ⟨hinv', hevolves, ih _ hrest⟩

/-- The other threads cannot make `post` false. -/
def Stable (D : Discipline M rules) (thread : Nat) (post : α → Config M → Prop) : Prop :=
  ∀ result before after, D.Rely thread before after → D.Inv after →
    post result before → post result after

/-- Safety survives interference. -/
theorem Safe.stable {program : M.Prog α} {post : α → Config M → Prop} {after : Config M}
    (hstable : D.Stable thread post) (hrely : D.Rely thread config after) (hinv : D.Inv after)
    (h : D.Safe thread outer program post config) : D.Safe thread outer program post after := by
  cases program with
  | done result => exact hstable _ _ _ hrely hinv h
  | call span request rest => exact fun current hrely' => h current (hrely.trans hrely')

/-- A program whose requests never break the discipline is safe without looking at answers. -/
theorem safe_of_makes {program : M.Prog α} (allowed : M.Request → Prop)
    (hallowed : ∀ request, allowed request → ∀ current, D.Inv current → ∀ env span,
      rules.permits env span request current.world →
        D.Inv (current.act thread span request env) ∧
        D.Evolves current (current.act thread span request env))
    (hmakes : program.Makes allowed) :
    D.Safe thread outer program (fun _ _ => True) config := by
  induction program generalizing config with
  | done result => trivial
  | call span request rest ih =>
      intro current _ hinv env hpermits
      obtain ⟨hinv', hevolves⟩ := hallowed request hmakes.1 current hinv env _ hpermits
      exact ⟨hinv', hevolves, ih _ (hmakes.2 _)⟩

/-- The calls of the machine follow the discipline and establish `post`. -/
structure Certified (D : Discipline M rules)
    (post : (call : M.Call) → Nat → M.Result call → Config M → Prop) : Prop where
  start : ∀ call thread config, rules.admits call → D.Inv config → config.own thread = [] →
    D.Inv (config.start thread call) ∧ D.Evolves config (config.start thread call) ∧
    D.Safe thread none (M.body call) (post call thread) (config.start thread call)
  stable : ∀ call thread, D.Stable thread (post call thread)

/-- What holds of a state reached by certified calls. -/
structure Holds (D : Discipline M rules)
    (post : (call : M.Call) → Nat → M.Result call → Config M → Prop) (state : State M) :
    Prop where
  inv : D.Inv state.config
  safe : ∀ (thread : Nat) (t : Thread M), state.threads[thread]? = some t →
    D.Safe thread none t.program (post t.call thread) state.config

variable {post : (call : M.Call) → Nat → M.Result call → Config M → Prop}

/-- Starting a call is interference for every thread that already exists. -/
theorem rely_start {other : Nat} {call : M.Call} (hne : thread ≠ other)
    (hevolves : D.Evolves config (config.start thread call)) :
    D.Rely other config (config.start thread call) :=
  ⟨hevolves, List.prefix_append _ _, config.own_start_other hne call⟩

/-- A request of one thread is interference for every other thread. -/
theorem rely_act {other : Nat} {span : Option M.Span} {request : M.Request} {env : M.Env}
    (hne : thread ≠ other) (hevolves : D.Evolves config (config.act thread span request env)) :
    D.Rely other config (config.act thread span request env) :=
  ⟨hevolves, List.prefix_append _ _, config.own_act_other hne span request env⟩

/-- One step of the pool keeps everything that certified calls guarantee. -/
theorem Certified.step (hcert : D.Certified post) {world : M.World} {state next : State M}
    (hreach : Reachable rules world state) (h : D.Holds post state)
    (hstep : Step rules state next) : D.Holds post next := by
  cases hstep with
  | start call hadmits =>
      obtain ⟨hinv, hevolves, hsafe⟩ := hcert.start call _ _ hadmits h.inv hreach.own_next
      refine ⟨hinv, fun thread t ht => ?_⟩
      rcases thread_of_start ht with ⟨hlt, ht⟩ | ⟨rfl, rfl⟩
      · exact (h.safe thread t ht).stable (hcert.stable _ _)
          (rely_start (Nat.ne_of_gt hlt) hevolves) hinv
      · exact hsafe
  | act thread call span request rest env hthread hpermits =>
      have hcurrent := h.safe thread _ hthread
      obtain ⟨hinv, hevolves, hsafe⟩ :=
        hcurrent state.config (Rely.refl D thread _) h.inv env hpermits
      refine ⟨hinv, fun other t ht => ?_⟩
      -- The thread that acted is safe because it was, and for the others its act is interference.
      rcases thread_of_act hthread ht with ⟨rfl, rfl⟩ | ⟨hne, ht⟩
      · exact hsafe
      · exact (h.safe other t ht).stable (hcert.stable _ _) (rely_act hne hevolves) hinv

/-- In every reachable state the invariant holds and every thread is safe. -/
theorem Certified.sound (hcert : D.Certified post) {world : M.World} {state : State M}
    (hinit : D.Inv ⟨world, []⟩) (hreach : Reachable rules world state) : D.Holds post state := by
  induction hreach with
  | init => exact ⟨hinit, by simp [State.init]⟩
  | step hbefore hstep ih => exact hcert.step hbefore ih hstep

/-- A finished call satisfies its postcondition, also long after it has returned. -/
theorem Holds.finished {state : State M} (h : D.Holds post state) {thread : Nat} {call : M.Call}
    {result : M.Result call} (hthread : state.threads[thread]? = some ⟨call, .done result⟩) :
    post call thread result state.config :=
  h.safe thread _ hthread

end Discipline

end StellarPay.Interleaving
