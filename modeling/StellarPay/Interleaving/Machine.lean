import StellarPay.Interleaving.Program

/-!
# Interleaved execution

A `Machine` fixes the requests, what each one does to the shared world, and the calls a client
can start. Its states are pools of threads: `Step` either starts a call on a new thread or lets
one thread make its next request, with an environment chosen anew at every request. A thread
that is never chosen again has stopped, so crashes need no step of their own. `Rules` restrict
the runs considered. The trace of a state lists everything that happened, oldest first.
-/

namespace StellarPay.Interleaving

/-- The requests of a system, their effect, and the programs its calls run. -/
structure Machine where
  /-- The units of work a request can be made for. -/
  Span : Type
  /-- What a program can ask for. -/
  Request : Type
  /-- The type of the answer to a request. -/
  Answer : Request → Type
  /-- What the outside world decides at one request. -/
  Env : Type
  /-- The shared state. -/
  World : Type
  /-- The calls a client can start. -/
  Call : Type
  /-- The type of the result of a call. -/
  Result : Call → Type
  /-- The atomic effect of a request. -/
  answer : Env → (request : Request) → World → Answer request × World
  /-- The program a call runs. -/
  body : (call : Call) → Program Span Answer (Result call)

variable {M : Machine}

/-- A program of the machine. -/
abbrev Machine.Prog (M : Machine) (α : Type) : Type := Program M.Span M.Answer α

/-- One request made by a thread, with the environment and the world it met. -/
structure Act (M : Machine) where
  thread : Nat
  span : Option M.Span
  request : M.Request
  env : M.Env
  before : M.World

/-- The world the request left behind. -/
def Act.after (act : Act M) : M.World :=
  (M.answer act.env act.request act.before).2

/-- The act made `request` and received `reply`. -/
def Act.Got (act : Act M) (request : M.Request) (reply : M.Answer request) : Prop :=
  act.request = request ∧ (M.answer act.env request act.before).1 = reply

/-- What a trace records: the start of a call, in the world it met, or a request. -/
inductive Event (M : Machine) where
  | start (thread : Nat) (call : M.Call) (before : M.World)
  | act (made : Act M)

namespace Event

/-- The thread an event belongs to. -/
def thread : Event M → Nat
  | .start thread _ _ => thread
  | .act made => made.thread

/-- The world an event met. -/
def before : Event M → M.World
  | .start _ _ before => before
  | .act made => made.before

/-- The world an event left behind. -/
def after : Event M → M.World
  | .start _ _ before => before
  | .act made => made.after

end Event

/-- The shared world together with the history that led to it. -/
structure Config (M : Machine) where
  world : M.World
  trace : List (Event M)

namespace Config

/-- Record the start of a call. -/
def start (config : Config M) (thread : Nat) (call : M.Call) : Config M :=
  ⟨config.world, config.trace ++ [.start thread call config.world]⟩

/-- Perform a request and record it. -/
def act (config : Config M) (thread : Nat) (span : Option M.Span) (request : M.Request)
    (env : M.Env) : Config M :=
  ⟨(M.answer env request config.world).2,
    config.trace ++ [.act ⟨thread, span, request, env, config.world⟩]⟩

/-- The events of one thread. -/
def own (config : Config M) (thread : Nat) : List (Event M) :=
  config.trace.filter fun event => event.thread = thread

@[simp]
theorem start_world (config : Config M) (thread : Nat) (call : M.Call) :
    (config.start thread call).world = config.world :=
  rfl

@[simp]
theorem start_trace (config : Config M) (thread : Nat) (call : M.Call) :
    (config.start thread call).trace = config.trace ++ [.start thread call config.world] :=
  rfl

@[simp]
theorem act_world (config : Config M) (thread : Nat) (span : Option M.Span)
    (request : M.Request) (env : M.Env) :
    (config.act thread span request env).world = (M.answer env request config.world).2 :=
  rfl

@[simp]
theorem act_trace (config : Config M) (thread : Nat) (span : Option M.Span)
    (request : M.Request) (env : M.Env) :
    (config.act thread span request env).trace =
      config.trace ++ [.act ⟨thread, span, request, env, config.world⟩] :=
  rfl

theorem mem_own {config : Config M} {thread : Nat} {event : Event M} :
    event ∈ config.own thread ↔ event ∈ config.trace ∧ event.thread = thread := by
  simp [own]

theorem mem_of_own {config : Config M} {thread : Nat} {event : Event M}
    (h : event ∈ config.own thread) : event ∈ config.trace :=
  (mem_own.mp h).1

/-- Where an event stands in the history of its thread. -/
theorem own_split {config : Config M} {before after : List (Event M)} {event : Event M}
    (h : config.trace = before ++ event :: after) :
    config.own event.thread = (before.filter fun other => other.thread = event.thread) ++
      event :: after.filter fun other => other.thread = event.thread := by
  simp [own, h]

/-- A longer history extends that of every thread. -/
theorem own_mono {config later : Config M} (hgrows : config.trace <+: later.trace)
    (thread : Nat) : config.own thread <+: later.own thread :=
  hgrows.filter _

/-- A request is recorded. -/
theorem act_mem (config : Config M) (thread : Nat) (span : Option M.Span)
    (request : M.Request) (env : M.Env) :
    .act ⟨thread, span, request, env, config.world⟩ ∈
      (config.act thread span request env).trace :=
  List.mem_append_right _ (List.mem_singleton.mpr rfl)

@[simp]
theorem own_act_self (config : Config M) (thread : Nat) (span : Option M.Span)
    (request : M.Request) (env : M.Env) :
    (config.act thread span request env).own thread =
      config.own thread ++ [.act ⟨thread, span, request, env, config.world⟩] := by
  simp [own, Event.thread]

@[simp]
theorem own_start_self (config : Config M) (thread : Nat) (call : M.Call) :
    (config.start thread call).own thread =
      config.own thread ++ [.start thread call config.world] := by
  simp [own, Event.thread]

theorem own_act_other (config : Config M) {thread other : Nat} (hne : thread ≠ other)
    (span : Option M.Span) (request : M.Request) (env : M.Env) :
    (config.act thread span request env).own other = config.own other := by
  simp [own, Event.thread, hne]

theorem own_start_other (config : Config M) {thread other : Nat} (hne : thread ≠ other)
    (call : M.Call) : (config.start thread call).own other = config.own other := by
  simp [own, Event.thread, hne]

end Config

/-- A call together with what it still has to do. -/
structure Thread (M : Machine) where
  call : M.Call
  program : M.Prog (M.Result call)

/-- A pool of threads over one world. -/
structure State (M : Machine) where
  threads : List (Thread M)
  config : Config M

/-- Nothing has been started yet. -/
def State.init (world : M.World) : State M :=
  ⟨[], world, []⟩

/-- A thread of the pool after a start is an old one or the new one. -/
theorem thread_of_start {threads : List (Thread M)} {new t : Thread M} {thread : Nat}
    (ht : (threads ++ [new])[thread]? = some t) :
    thread < threads.length ∧ threads[thread]? = some t ∨ thread = threads.length ∧ t = new := by
  rcases Nat.lt_or_ge thread threads.length with hlt | hge
  · rw [List.getElem?_append_left hlt] at ht
    exact .inl ⟨hlt, ht⟩
  · rw [List.getElem?_append_right hge] at ht
    obtain ⟨hzero, rfl⟩ : thread - threads.length = 0 ∧ new = t := by
      simpa [List.getElem?_singleton] using ht
    exact .inr ⟨by omega, rfl⟩

/-- A thread of the pool after a request is the one that made it or another one as it was. -/
theorem thread_of_act {threads : List (Thread M)} {old new t : Thread M} {acting thread : Nat}
    (hacting : threads[acting]? = some old) (ht : (threads.set acting new)[thread]? = some t) :
    thread = acting ∧ t = new ∨ acting ≠ thread ∧ threads[thread]? = some t := by
  by_cases hne : acting = thread
  · subst hne
    rw [List.getElem?_set_self (List.getElem?_eq_some_iff.mp hacting).1] at ht
    exact .inl ⟨rfl, (Option.some.inj ht).symm⟩
  · rw [List.getElem?_set_ne hne] at ht
    exact .inr ⟨hne, ht⟩

/-- Which calls may start, and which requests the environment may answer. -/
structure Rules (M : Machine) where
  admits : M.Call → Prop
  permits : M.Env → Option M.Span → M.Request → M.World → Prop

/-- Every call and every answer. -/
def Rules.any : Rules M :=
  ⟨fun _ => True, fun _ _ _ _ => True⟩

instance : DecidablePred (Rules.any : Rules M).admits :=
  fun _ => inferInstanceAs (Decidable True)

instance (env : M.Env) (span : Option M.Span) (request : M.Request) (world : M.World) :
    Decidable ((Rules.any : Rules M).permits env span request world) :=
  inferInstanceAs (Decidable True)

/-- One step of the pool: a call starts, or a thread makes its next request. -/
inductive Step (rules : Rules M) : State M → State M → Prop where
  | start (state : State M) (call : M.Call) (hadmits : rules.admits call) :
      Step rules state
        ⟨state.threads ++ [⟨call, M.body call⟩], state.config.start state.threads.length call⟩
  | act (state : State M) (thread : Nat) (call : M.Call) (span : Option M.Span)
      (request : M.Request) (next : M.Answer request → M.Prog (M.Result call)) (env : M.Env)
      (hthread : state.threads[thread]? = some ⟨call, .call span request next⟩)
      (hpermits : rules.permits env span request state.config.world) :
      Step rules state
        ⟨state.threads.set thread ⟨call, next (M.answer env request state.config.world).1⟩,
          state.config.act thread span request env⟩

/-- The states of all runs from `world`. -/
inductive Reachable (rules : Rules M) (world : M.World) : State M → Prop where
  | init : Reachable rules world (.init world)
  | step {state next : State M} (hreach : Reachable rules world state)
      (hstep : Step rules state next) : Reachable rules world next

/-- A run under stronger rules is a run under weaker ones. -/
theorem Reachable.mono {rules weaker : Rules M} {world : M.World} {state : State M}
    (hadmits : ∀ call, rules.admits call → weaker.admits call)
    (hpermits : ∀ env span request world, rules.permits env span request world →
      weaker.permits env span request world)
    (h : Reachable rules world state) : Reachable weaker world state := by
  induction h with
  | init => exact .init
  | step _ hstep ih =>
      refine ih.step ?_
      cases hstep with
      | start call hcall => exact .start _ _ (hadmits _ hcall)
      | act thread call span request next env hthread henv =>
          exact .act _ _ _ _ _ _ _ hthread (hpermits _ _ _ _ henv)

section Schedule

/-- What a scheduler picks next. -/
inductive Choice (M : Machine) where
  | start (call : M.Call)
  | act (thread : Nat) (env : M.Env)

variable (rules : Rules M) [DecidablePred rules.admits]
  [∀ env span request world, Decidable (rules.permits env span request world)]

/-- Carry out one choice, or fail when the rules forbid it or the thread has returned. -/
def advance (choice : Choice M) (state : State M) : Option (State M) :=
  match choice with
  | .start call =>
      if rules.admits call then
        some ⟨state.threads ++ [⟨call, M.body call⟩],
          state.config.start state.threads.length call⟩
      else none
  | .act thread env =>
      match state.threads[thread]? with
      | some ⟨call, .call span request next⟩ =>
          if rules.permits env span request state.config.world then
            some ⟨state.threads.set thread
                ⟨call, next (M.answer env request state.config.world).1⟩,
              state.config.act thread span request env⟩
          else none
      | _ => none

/-- Carry out the choices in order. -/
def schedule : List (Choice M) → State M → Option (State M)
  | [], state => some state
  | choice :: rest, state => advance rules choice state >>= schedule rest

/-- A choice that can be carried out is a step. -/
theorem advance_step {choice : Choice M} {state next : State M}
    (h : advance rules choice state = some next) : Step rules state next := by
  cases choice with
  | start call =>
      simp only [advance, Option.ite_none_right_eq_some, Option.some.injEq] at h
      obtain ⟨hadmits, rfl⟩ := h
      exact .start _ _ hadmits
  | act thread env =>
      simp only [advance] at h
      split at h
      · rename_i call span request rest hthread
        simp only [Option.ite_none_right_eq_some, Option.some.injEq] at h
        obtain ⟨hpermits, rfl⟩ := h
        exact .act _ _ _ _ _ _ _ hthread hpermits
      · cases h

/-- A schedule that can be carried out leads from reachable states to reachable states. -/
theorem schedule_reachable {choices : List (Choice M)} {world : M.World} {state final : State M}
    (hreach : Reachable rules world state) (h : schedule rules choices state = some final) :
    Reachable rules world final := by
  induction choices generalizing state with
  | nil =>
      obtain rfl := Option.some.inj h
      exact hreach
  | cons choice rest ih =>
      simp only [schedule, Option.bind_eq_bind, Option.bind_eq_some_iff] at h
      obtain ⟨next, hnext, hrest⟩ := h
      exact ih (hreach.step (advance_step rules hnext)) hrest

/-- A schedule whose outcome passes a test shows a reachable state that passes it. -/
theorem exists_reachable (choices : List (Choice M)) (world : M.World) (test : State M → Bool)
    (h : (schedule rules choices (.init world)).any test = true) :
    ∃ state, Reachable rules world state ∧ test state = true := by
  obtain ⟨state, hstate, htest⟩ := Option.any_eq_true _ _ |>.mp h
  exact ⟨state, schedule_reachable rules .init hstate, htest⟩

end Schedule

end StellarPay.Interleaving
