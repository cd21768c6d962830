import StellarPay.Interleaving.History

/-!
# Front ends

A front end offers calls of its own over a machine. Each of them runs a call of the machine and then
makes a response of its result, perhaps with requests that change nothing. A run of the front end is
a run of the machine from which the requests of the responses are missing.
-/

namespace StellarPay.Interleaving

/-- The request leaves every world as it is. -/
def Machine.Quiet (M : Machine) (request : M.Request) : Prop :=
  ∀ env world, (M.answer env request world).2 = world

/-- The calls of a front end over a machine. -/
structure FrontEnd (M : Machine) where
  Call : Type
  Result : Call → Type
  body : (call : Call) → M.Prog (Result call)
  /-- The call that a call of the front end runs. -/
  behind : Call → M.Call
  /-- What it makes of the result. -/
  respond : (call : Call) → M.Result (behind call) → M.Prog (Result call)
  body_eq (call : Call) : body call = M.body (behind call) >>= respond call
  quiet (call : Call) (result : M.Result (behind call)) : (respond call result).Makes M.Quiet

namespace FrontEnd

variable {M : Machine}

/-- The machine with the calls of the front end. -/
abbrev machine (F : FrontEnd M) : Machine where
  Span := M.Span
  Request := M.Request
  Answer := M.Answer
  Env := M.Env
  World := M.World
  Call := F.Call
  Result := F.Result
  answer := M.answer
  body := F.body

variable {F : FrontEnd M}

/-- An event of the front end, as one of the machine behind it. -/
def event : Event F.machine → Event M
  | .start thread call before => .start thread (F.behind call) before
  | .act act => .act ⟨act.thread, act.span, act.request, act.env, act.before⟩

/-- The rules of the machine, for the front end. -/
def rules (F : FrontEnd M) (rules : Rules M) : Rules F.machine :=
  ⟨fun call => rules.admits (F.behind call), rules.permits⟩

/-- A thread of the front end and the one behind it. -/
inductive Behind : Thread F.machine → Thread M → Prop where
  | running (call : F.Call) (program : M.Prog (M.Result (F.behind call))) :
      Behind ⟨call, program >>= F.respond call⟩ ⟨F.behind call, program⟩
  /-- The call has returned, and the front end is at work on its response. -/
  | responding (call : F.Call) (result : M.Result (F.behind call))
      (program : M.Prog (F.Result call))
      (hmore : ∀ response, F.respond call result ≠ .done response)
      (hquiet : program.Makes M.Quiet) : Behind ⟨call, program⟩ ⟨F.behind call, .done result⟩

/-- The request belongs to the response of its call, and changes nothing. -/
def Responds (trace : List (Event F.machine)) (act : Act F.machine) : Prop :=
  M.Quiet act.request ∧ ∃ call before, .start act.thread call before ∈ trace ∧
    ∃ result, ∀ response, F.respond call result ≠ .done response

/-- A run of the machine is the one behind a run of the front end. -/
structure Shows (outer : State F.machine) (inner : State M) : Prop where
  world : inner.config.world = outer.config.world
  length : inner.threads.length = outer.threads.length
  threads : ∀ (thread : Nat) (t : Thread F.machine), outer.threads[thread]? = some t →
    ∃ t', inner.threads[thread]? = some t' ∧ Behind t t'
  sublist : inner.config.trace.Sublist (outer.config.trace.map event)
  /-- What is missing are requests of responses. -/
  kept : ∀ happened ∈ outer.config.trace, event happened ∈ inner.config.trace ∨
    ∃ act, happened = .act act ∧ Responds outer.config.trace act

variable {rules : Rules M} {world : M.World} {outer next : State F.machine} {inner : State M}

/-- What is missing stays missing for its reason. -/
theorem Shows.kept_mono (h : Shows outer inner) {trace : List (Event F.machine)}
    {shown : List (Event M)} (htrace : outer.config.trace <+: trace)
    (hshown : inner.config.trace <+: shown) {happened : Event F.machine}
    (hhappened : happened ∈ outer.config.trace) :
    event happened ∈ shown ∨ ∃ act, happened = .act act ∧ Responds trace act := by
  rcases h.kept happened hhappened with hkept | ⟨act, hact, hquiet, call, before, hstart, hmore⟩
  · exact .inl (hshown.subset hkept)
  · exact .inr ⟨act, hact, hquiet, call, before, htrace.subset hstart, hmore⟩

/-- A call starts. -/
theorem Shows.start (h : Shows outer inner) (call : F.Call) :
    Shows (F := F)
      ⟨outer.threads ++ [⟨call, F.body call⟩], outer.config.start outer.threads.length call⟩
      ⟨inner.threads ++ [⟨F.behind call, M.body (F.behind call)⟩],
        inner.config.start inner.threads.length (F.behind call)⟩ := by
  have hevent : event (F := F) (.start outer.threads.length call outer.config.world) =
      .start inner.threads.length (F.behind call) inner.config.world := by
    rw [event, h.length, h.world]
  refine ⟨h.world, by simp [h.length], fun thread t ht => ?_, ?_, fun happened hhappened => ?_⟩
  · rcases thread_of_start ht with ⟨hlt, ht⟩ | ⟨rfl, rfl⟩
    · obtain ⟨t', ht', hbehind⟩ := h.threads thread t ht
      exact ⟨t', by rw [List.getElem?_append_left (h.length ▸ hlt), ht'], hbehind⟩
    · refine ⟨_, by rw [← h.length, List.getElem?_concat_length], ?_⟩
      rw [F.body_eq]
      exact .running call _
  · rw [Config.start_trace, Config.start_trace, List.map_append, List.map_singleton, hevent]
    exact h.sublist.append (List.Sublist.refl _)
  · rcases List.mem_append.mp hhappened with hhappened | hhappened
    · exact h.kept_mono (List.prefix_append _ _) (List.prefix_append _ _) hhappened
    · rw [List.mem_singleton.mp hhappened]
      exact .inl (List.mem_append_right _ (List.mem_singleton.mpr hevent))

/-- Another thread is where it was, whichever thread has moved. -/
theorem Shows.threads_set (h : Shows outer inner) {acting thread : Nat}
    {new t : Thread F.machine} {after : List (Thread M)}
    (hacting : ∃ old, outer.threads[acting]? = some old)
    (hafter : ∀ other, other ≠ acting → after[other]? = inner.threads[other]?)
    (hnew : ∃ new', after[acting]? = some new' ∧ Behind new new')
    (ht : (outer.threads.set acting new)[thread]? = some t) :
    ∃ t', after[thread]? = some t' ∧ Behind t t' := by
  obtain ⟨old, hold⟩ := hacting
  rcases thread_of_act hold ht with ⟨rfl, rfl⟩ | ⟨hne, ht⟩
  · exact hnew
  · rw [hafter thread hne.symm]
    exact h.threads thread t ht

/-- A request of a response, which the machine behind does not make. -/
theorem Shows.respond (h : Shows outer inner) {thread : Nat} {call : F.Call}
    {span : Option M.Span} {request : M.Request}
    {rest : M.Answer request → M.Prog (F.Result call)} {result : M.Result (F.behind call)}
    (env : M.Env) (hthread : outer.threads[thread]? = some ⟨call, .call span request rest⟩)
    (hinner : inner.threads[thread]? = some ⟨F.behind call, .done result⟩)
    {before : M.World} (hstart : .start thread call before ∈ outer.config.trace)
    (hmore : ∀ response, F.respond call result ≠ .done response)
    (hquiet : M.Quiet request ∧ ∀ answer, (rest answer).Makes M.Quiet) :
    Shows (F := F)
      ⟨outer.threads.set thread ⟨call, rest (M.answer env request outer.config.world).1⟩,
        outer.config.act thread span request env⟩ inner := by
  refine ⟨?_, by simp [h.length], fun other t ht => ?_, ?_, fun happened hhappened => ?_⟩
  · rw [Config.act_world, h.world]
    exact (hquiet.1 env outer.config.world).symm
  · exact h.threads_set ⟨_, hthread⟩ (fun _ _ => rfl)
      ⟨_, hinner, .responding call result _ hmore (hquiet.2 _)⟩ ht
  · rw [Config.act_trace, List.map_append]
    exact h.sublist.trans (List.sublist_append_left _ _)
  · rcases List.mem_append.mp hhappened with hhappened | hhappened
    · exact h.kept_mono (List.prefix_append _ _) (List.prefix_refl _) hhappened
    · rw [List.mem_singleton.mp hhappened]
      exact .inr ⟨_, rfl, hquiet.1, call, before, List.mem_append_left _ hstart, result, hmore⟩

/-- A request of the call behind. -/
theorem Shows.act (h : Shows outer inner) {thread : Nat} {call : F.Call} {span : Option M.Span}
    {request : M.Request} {program : M.Answer request → M.Prog (M.Result (F.behind call))}
    (env : M.Env) (hthread : outer.threads[thread]? =
      some ⟨call, .call span request program >>= F.respond call⟩)
    (hinner : inner.threads[thread]? = some ⟨F.behind call, .call span request program⟩) :
    Shows (F := F)
      ⟨outer.threads.set thread
          ⟨call, program (M.answer env request outer.config.world).1 >>= F.respond call⟩,
        outer.config.act thread span request env⟩
      ⟨inner.threads.set thread
          ⟨F.behind call, program (M.answer env request inner.config.world).1⟩,
        inner.config.act thread span request env⟩ := by
  have hevent : event (F := F) (.act ⟨thread, span, request, env, outer.config.world⟩) =
      .act ⟨thread, span, request, env, inner.config.world⟩ := by
    rw [event, h.world]
  have hlt := (List.getElem?_eq_some_iff.mp hinner).1
  refine ⟨?_, by simp [h.length], fun other t ht => ?_, ?_, fun happened hhappened => ?_⟩
  · rw [Config.act_world, Config.act_world, h.world]
  · refine h.threads_set ⟨_, hthread⟩ (fun other hne => List.getElem?_set_ne hne.symm)
      ⟨_, List.getElem?_set_self hlt, ?_⟩ ht
    rw [h.world]
    exact .running call _
  · rw [Config.act_trace, Config.act_trace, List.map_append, List.map_singleton, hevent]
    exact h.sublist.append (List.Sublist.refl _)
  · rcases List.mem_append.mp hhappened with hhappened | hhappened
    · exact h.kept_mono (List.prefix_append _ _) (List.prefix_append _ _) hhappened
    · rw [List.mem_singleton.mp hhappened]
      exact .inl (List.mem_append_right _ (List.mem_singleton.mpr hevent))

/-- A step of the front end is a step behind it, or a request of a response. -/
theorem Shows.step (h : Shows outer inner) (hreach : Reachable (F.rules rules) world outer)
    (hstep : Step (F.rules rules) outer next) :
    ∃ after, (after = inner ∨ Step rules inner after) ∧ Shows next after := by
  cases hstep with
  | start call hadmits => exact ⟨_, .inr (.start inner (F.behind call) hadmits), h.start call⟩
  | act thread call span request rest env hthread hpermits =>
      obtain ⟨t, ht, hbehind⟩ := h.threads thread _ hthread
      obtain ⟨before, acts, hown⟩ := hreach.own_eq hthread
      have hstart : .start thread call before ∈ outer.config.trace :=
        Config.mem_of_own (hown ▸ List.mem_cons_self)
      generalize hmoving : (⟨call, .call span request rest⟩ : Thread F.machine) = moving at hbehind
      cases hbehind with
      | responding call' result program hmore hquiet =>
          cases hmoving
          exact ⟨inner, .inl rfl, h.respond env hthread ht hstart hmore hquiet⟩
      | running call' program =>
          cases program with
          | done result =>
              -- The call behind has returned, so this is the first request of the response.
              injection hmoving with hcall hprogram
              subst hcall
              have hresponse : F.respond call result = .call span request rest :=
                (eq_of_heq hprogram).symm
              have hquiet := F.quiet call result
              rw [hresponse] at hquiet
              refine ⟨inner, .inl rfl, h.respond env hthread ht hstart (fun response heq => ?_)
                hquiet⟩
              cases hresponse.symm.trans heq
          | call span' request' program =>
              cases hmoving
              refine ⟨_, .inr (.act inner thread _ _ _ _ env ht ?_), h.act env hthread ht⟩
              rw [h.world]
              exact hpermits

/-- Behind every run of the front end there is one of the machine. -/
theorem exists_behind (hreach : Reachable (F.rules rules) world outer) :
    ∃ inner, Reachable rules world inner ∧ Shows outer inner := by
  induction hreach with
  | init =>
      refine ⟨.init world, .init, rfl, rfl, ?_, .refl _, ?_⟩
      · simp [State.init]
      · simp [State.init]
  | step hbefore hstep ih =>
      obtain ⟨inner, hinner, hshows⟩ := ih
      obtain ⟨after, rfl | hafter, hnext⟩ := hshows.step hbefore hstep
      · exact ⟨_, hinner, hnext⟩
      · exact ⟨_, hinner.step hafter, hnext⟩

/-- The request behind an act of the front end is that act. -/
theorem event_eq_act {happened : Event F.machine} {act : Act M}
    (h : event happened = .act act) :
    happened = .act ⟨act.thread, act.span, act.request, act.env, act.before⟩ := by
  cases happened with
  | start => cases h
  | act => cases h; rfl

/-- Every request behind is one of the front end. -/
theorem Shows.outer_act (h : Shows outer inner) {act : Act M}
    (hact : .act act ∈ inner.config.trace) :
    .act ⟨act.thread, act.span, act.request, act.env, act.before⟩ ∈ outer.config.trace := by
  obtain ⟨happened, hmem, hevent⟩ := List.mem_map.mp (h.sublist.subset hact)
  exact event_eq_act hevent ▸ hmem

/-- The events behind are those of the same threads. -/
@[simp]
theorem event_thread (happened : Event F.machine) : (event happened).thread = happened.thread := by
  cases happened <;> rfl

/-- Threads at work one after the other are so behind the front end. -/
theorem Shows.follows (h : Shows outer inner) {first second : Nat}
    (hfollows : Follows outer first second) : Follows inner first second := by
  refine ⟨hfollows.1, List.Pairwise.sublist h.sublist (List.pairwise_map.mpr ?_)⟩
  simpa using hfollows.2

/-- A call whose response takes no request has all its requests behind it. -/
theorem Shows.kept_act (h : Shows outer inner) (hreach : Reachable (F.rules rules) world outer)
    {act : Act F.machine} (hact : .act act ∈ outer.config.trace) {t : Thread F.machine}
    (ht : outer.threads[act.thread]? = some t)
    (hmade : ∀ result, ∃ made, F.respond t.call result = .done made) :
    event (.act act) ∈ inner.config.trace := by
  rcases h.kept _ hact with hkept | ⟨other, hother, -, call, before, hstart, result, hmore⟩
  · exact hkept
  · -- It would belong to a response that takes requests.
    cases hother
    obtain ⟨rfl, -⟩ := hreach.start_unique ht hstart hstart
    obtain ⟨made, hresponse⟩ := hmade result
    exact absurd hresponse (hmore made)

/-- A call whose response takes no request returns what it makes of the result behind it. -/
theorem Shows.returned (h : Shows outer inner) {thread : Nat} {call : F.Call}
    {response : F.Result call} (ht : outer.threads[thread]? = some ⟨call, .done response⟩)
    (hmade : ∀ result, ∃ made, F.respond call result = .done made) :
    ∃ result, inner.threads[thread]? = some ⟨F.behind call, .done result⟩ ∧
      F.respond call result = .done response := by
  obtain ⟨t, ht, hbehind⟩ := h.threads thread _ ht
  generalize hreturned : (⟨call, .done response⟩ : Thread F.machine) = returned at hbehind
  cases hbehind with
  | responding call' result program hmore =>
      cases hreturned
      obtain ⟨made, hresponse⟩ := hmade result
      exact absurd hresponse (hmore made)
  | running call' program =>
      cases program with
      | done result =>
          injection hreturned with hcall hprogram
          subst hcall
          exact ⟨result, ht, (eq_of_heq hprogram).symm⟩
      | call => cases hreturned

end FrontEnd

end StellarPay.Interleaving
