import StellarPay.Interleaving.History

/-!
# Tasks that run calls in turn

A task is written in calls of a machine: it runs one after the other, and what it runs next may
depend on their results. A loop over a pass is such a task. Behind a run of tasks there is a run of
the machine that starts every one of these calls as a thread of its own. It makes the same requests
in the same order, and the calls of one task follow each other.
-/

namespace StellarPay.Interleaving

/-- A program that is written in calls of a machine. -/
inductive Script (M : Machine) (α : Type) : Type where
  | done (result : α)
  | call (inner : M.Call) (next : M.Result inner → Script M α)

namespace Script

variable {M : Machine} {α : Type}

/-- The program that runs the calls. -/
def program : Script M α → M.Prog α
  | .done result => .done result
  | .call inner next => M.body inner >>= fun result => (next result).program

/-- The rules admit every call of the script, whatever the results. -/
def Admitted (rules : Rules M) : Script M α → Prop
  | .done _ => True
  | .call inner next => rules.admits inner ∧ ∀ result, (next result).Admitted rules

/-- A call that the script may run. -/
def Calls : Script M α → M.Call → Prop
  | .done _, _ => False
  | .call inner next, made => made = inner ∨ ∃ result, (next result).Calls made

end Script

/-- Tasks over a machine. -/
structure Tasks (M : Machine) where
  Call : Type
  Result : Call → Type
  body : (call : Call) → M.Prog (Result call)
  /-- How a task is written in calls of the machine. -/
  script : (call : Call) → Script M (Result call)
  body_eq (call : Call) : body call = (script call).program

namespace Tasks

variable {M : Machine}

/-- The machine that runs the tasks. -/
abbrev machine (T : Tasks M) : Machine where
  Span := M.Span
  Request := M.Request
  Answer := M.Answer
  Env := M.Env
  World := M.World
  Call := T.Call
  Result := T.Result
  answer := M.answer
  body := T.body

/-- The rules of the machine, for its tasks. -/
def rules (T : Tasks M) (rules : Rules M) : Rules T.machine :=
  ⟨fun call => (T.script call).Admitted rules, rules.permits⟩

variable {T : Tasks M}

/-- The request that an event of a task made. -/
def taskRequest : Event T.machine → Option (Act M)
  | .start _ _ _ => none
  | .act act => some ⟨act.thread, act.span, act.request, act.env, act.before⟩

/-- The request that an event of a thread made, under the task that the thread belongs to. -/
def threadRequest (owners : List Nat) : Event M → Option (Act M)
  | .start _ _ _ => none
  | .act act => some { act with thread := owners.getD act.thread 0 }

/-- Threads of the task that have returned have brought its script from one point to another. -/
inductive Ran (threads : List (Thread M)) (owners : List Nat) (task : Nat) {α : Type} :
    Script M α → Script M α → Prop where
  | refl {script : Script M α} : Ran threads owners task script script
  | snoc {script : Script M α} {inner : M.Call} {next : M.Result inner → Script M α} (thread : Nat)
      (result : M.Result inner) (h : Ran threads owners task script (.call inner next))
      (howner : owners[thread]? = some task)
      (hthread : threads[thread]? = some ⟨inner, .done result⟩) :
      Ran threads owners task script (next result)

/-- Where a task stands: it has returned, or the last of its threads is at work. -/
inductive Stands (threads : List (Thread M)) (owners : List Nat) (task : Nat) :
    Thread T.machine → Prop where
  | returned (call : T.Call) (result : T.Result call)
      (hran : Ran threads owners task (T.script call) (.done result)) :
      Stands threads owners task ⟨call, .done result⟩
  | running (call : T.Call) (thread : Nat) (inner : M.Call)
      (next : M.Result inner → Script M (T.Result call)) (program : M.Prog (M.Result inner))
      (hran : Ran threads owners task (T.script call) (.call inner next))
      (howner : owners[thread]? = some task)
      (hlast : ∀ other : Nat, owners[other]? = some task → other ≤ thread)
      (hthread : threads[thread]? = some ⟨inner, program⟩)
      (hmore : ∀ result, program ≠ .done result) :
      Stands threads owners task ⟨call, program >>= fun result => (next result).program⟩

/-- A run of threads makes the requests of a run of tasks. -/
structure Matches (outer : State T.machine) (inner : State M) (owners : List Nat) : Prop where
  world : inner.config.world = outer.config.world
  length : owners.length = inner.threads.length
  owned : ∀ owner ∈ owners, owner < outer.threads.length
  requests : inner.config.trace.filterMap (threadRequest owners) =
    outer.config.trace.filterMap taskRequest
  /-- A thread runs a call of the script of its task. -/
  belongs : ∀ (thread task : Nat) (t : Thread T.machine) (t' : Thread M),
    owners[thread]? = some task → outer.threads[task]? = some t →
    inner.threads[thread]? = some t' → (T.script t.call).Calls t'.call
  /-- The threads of a task that follows another one follow those of the other. -/
  ordered : ∀ first second : Nat, Follows outer first second →
    inner.config.trace.Pairwise fun earlier later =>
      ¬ (owners[earlier.thread]? = some second ∧ owners[later.thread]? = some first)
  /-- The threads of one task follow each other. -/
  sequential : inner.config.trace.Pairwise fun earlier later =>
    owners[earlier.thread]? = owners[later.thread]? → earlier.thread ≤ later.thread

/-- A run of threads is the one behind a run of tasks. -/
structure Unfolds (outer : State T.machine) (inner : State M) (owners : List Nat) : Prop
    extends Matches outer inner owners where
  stands : ∀ (task : Nat) (t : Thread T.machine), outer.threads[task]? = some t →
    Stands inner.threads owners task t

section Progress

variable {threads threads' : List (Thread M)} {owners more : List Nat} {task : Nat} {α : Type}

/-- What is found in a list is found in a longer one. -/
theorem found_append {β : Type} {items later : List β} {item : β} {index : Nat}
    (h : items[index]? = some item) : (items ++ later)[index]? = some item := by
  rw [List.getElem?_append_left (List.getElem?_eq_some_iff.mp h).1, h]

/-- A thread that makes a request has not returned, so those that have stay. -/
theorem returned_set {acting index : Nat} {call first : M.Call} {span : Option M.Span}
    {request : M.Request} {program : M.Answer request → M.Prog (M.Result first)} {t : Thread M}
    {result : M.Result call} (hacting : threads[acting]? = some ⟨first, .call span request program⟩)
    (hreturned : threads[index]? = some ⟨call, .done result⟩) :
    (threads.set acting t)[index]? = some ⟨call, .done result⟩ := by
  have hne : acting ≠ index := by
    rintro rfl
    cases hacting.symm.trans hreturned
  rw [List.getElem?_set_ne hne, hreturned]

/-- What has been run stays so while threads that have returned stay. -/
theorem Ran.mono {first last : Script M α} (h : Ran threads owners task first last)
    (hthreads : ∀ (thread : Nat) (inner : M.Call) (result : M.Result inner),
      threads[thread]? = some ⟨inner, .done result⟩ →
        threads'[thread]? = some ⟨inner, .done result⟩) :
    Ran threads' (owners ++ more) task first last := by
  induction h with
  | refl => exact .refl
  | snoc thread result _ howner hthread ih =>
      exact ih.snoc thread result (found_append howner) (hthreads _ _ _ hthread)

/-- A script that is admitted is so from every point that it is brought to. -/
theorem Ran.admitted {rules : Rules M} {first last : Script M α}
    (h : Ran threads owners task first last) (hfirst : first.Admitted rules) :
    last.Admitted rules := by
  induction h with
  | refl => exact hfirst
  | snoc thread result _ _ _ ih => exact ih.2 result

/-- A script of a single call comes to its end with the thread of that call. -/
theorem Ran.single {first last : Script M α} (h : Ran threads owners task first last)
    {single : M.Call} {respond : M.Result single → α}
    (hfirst : first = .call single fun made => .done (respond made)) :
    last = first ∨ ∃ (thread : Nat) (made : M.Result single), owners[thread]? = some task ∧
      threads[thread]? = some (⟨single, .done made⟩ : Thread M) ∧ last = .done (respond made) := by
  induction h with
  | refl => exact .inl rfl
  | snoc thread result _ howner hthread ih =>
      refine .inr ?_
      rcases ih with hsame | ⟨_, _, _, _, hdone⟩
      · rw [hfirst] at hsame
        cases hsame
        exact ⟨thread, result, howner, hthread, rfl⟩
      · cases hdone

/-- What a script runs from a point that it is brought to, it runs from its beginning. -/
theorem Ran.calls {first last : Script M α} (h : Ran threads owners task first last)
    {call : M.Call} (hcall : last.Calls call) : first.Calls call := by
  induction h with
  | refl => exact hcall
  | snoc thread result _ _ _ ih => exact ih (.inr ⟨result, hcall⟩)

/-- Another task stands where it stood while its threads stay. -/
theorem Stands.mono {t : Thread T.machine} (h : Stands threads owners task t)
    (hthreads : ∀ (thread : Nat) (inner : M.Call) (result : M.Result inner),
      threads[thread]? = some ⟨inner, .done result⟩ →
        threads'[thread]? = some ⟨inner, .done result⟩)
    (hown : ∀ (thread : Nat) (t : Thread M), owners[thread]? = some task →
      threads[thread]? = some t → threads'[thread]? = some t)
    (hmore : ∀ owner ∈ more, owner ≠ task) : Stands threads' (owners ++ more) task t := by
  cases h with
  | returned call result hran => exact .returned call result (hran.mono hthreads)
  | running call thread inner next program hran howner hlast hthread hrest =>
      refine .running call thread inner next program (hran.mono hthreads) (found_append howner)
        (fun later hlater => ?_) (hown thread _ howner hthread) hrest
      rcases Nat.lt_or_ge later owners.length with hlt | hge
      · rw [List.getElem?_append_left hlt] at hlater
        exact hlast later hlater
      · rw [List.getElem?_append_right hge] at hlater
        exact absurd rfl (hmore task (List.mem_of_getElem? hlater))

end Progress

section Runs

variable {rules : Rules M} {world : M.World} {outer next : State T.machine} {inner : State M}
  {owners more : List Nat} {task : Nat}

/-- The requests of threads that are there do not depend on the owners of others. -/
theorem requests_for_append {trace : List (Event M)}
    (hknown : ∀ event ∈ trace, event.thread < owners.length) :
    trace.filterMap (threadRequest (owners ++ more)) =
      trace.filterMap (threadRequest owners) := by
  refine List.filterMap_congr fun event hevent => ?_
  cases event with
  | start => rfl
  | act act =>
      have hlt : act.thread < owners.length := hknown _ hevent
      simp only [threadRequest, List.getD_eq_getElem?_getD, List.getElem?_append_left hlt]

/-- A task starts, and nothing has been done for it yet. -/
theorem Matches.start_task (h : Matches outer inner owners) (call : T.Call) :
    Matches (T := T)
      ⟨outer.threads ++ [⟨call, T.body call⟩], outer.config.start outer.threads.length call⟩
      inner owners := by
  refine ⟨h.world, h.length, fun owner howner => ?_, ?_, ?_, fun first second hfollows => ?_,
    h.sequential⟩
  · rw [List.length_append]
    exact Nat.lt_add_right _ (h.owned owner howner)
  · rw [h.requests, Config.start_trace, List.filterMap_append]
    exact (List.append_nil _).symm
  · intro thread task t t' howner ht ht'
    have hlt := h.owned task (List.mem_of_getElem? howner)
    rw [List.getElem?_append_left hlt] at ht
    exact h.belongs thread task t t' howner ht ht'
  · exact h.ordered first second (hfollows.of_prefix (List.prefix_append _ _))

/-- A call of a task starts as a thread. -/
theorem Matches.start (h : Matches outer inner owners) (hreach : Reachable rules world inner)
    (htask : task < outer.threads.length)
    (hlatest : ∀ second : Nat, Follows outer task second → outer.threads.length ≤ second)
    {call : M.Call} (hcall : ∀ t, outer.threads[task]? = some t → (T.script t.call).Calls call) :
    Matches outer
      ⟨inner.threads ++ [⟨call, M.body call⟩], inner.config.start inner.threads.length call⟩
      (owners ++ [task]) := by
  have hknown : ∀ event ∈ inner.config.trace, event.thread < owners.length := by
    rw [h.length]
    exact hreach.known
  refine ⟨h.world, by simp [h.length], fun owner howner => ?_, ?_, ?_,
    fun first second hfollows => ?_, ?_⟩
  · rcases List.mem_append.mp howner with hold | hnew
    · exact h.owned owner hold
    · rw [List.mem_singleton.mp hnew]
      exact htask
  · rw [Config.start_trace, List.filterMap_append, requests_for_append hknown, h.requests]
    exact List.append_nil _
  · intro thread task' t t' howner ht ht'
    rcases thread_of_start ht' with ⟨hlt, ht'⟩ | ⟨rfl, rfl⟩
    · rw [List.getElem?_append_left (h.length ▸ hlt)] at howner
      exact h.belongs thread task' t t' howner ht ht'
    · rw [← h.length, List.getElem?_concat_length] at howner
      cases howner
      exact hcall t ht
  · rw [Config.start_trace]
    refine List.pairwise_append.mpr ⟨?_, List.pairwise_singleton _ _, ?_⟩
    · refine (h.ordered first second hfollows).imp_of_mem fun hearlier hlater hordered => ?_
      rw [List.getElem?_append_left (hknown _ hearlier),
        List.getElem?_append_left (hknown _ hlater)]
      exact hordered
    · intro earlier hearlier later hlater hswapped
      rw [List.getElem?_append_left (hknown _ hearlier), List.mem_singleton.mp hlater] at hswapped
      obtain ⟨hsecond, hfirst⟩ := hswapped
      -- The second task would have been started before, and after the first one.
      have hfirst : (owners ++ [task])[inner.threads.length]? = some first := hfirst
      rw [← h.length, List.getElem?_concat_length] at hfirst
      cases hfirst
      exact absurd (h.owned second (List.mem_of_getElem? hsecond))
        (Nat.not_lt.mpr (hlatest second hfollows))
  · rw [Config.start_trace]
    refine List.pairwise_append.mpr ⟨?_, List.pairwise_singleton _ _, ?_⟩
    · refine h.sequential.imp_of_mem fun hearlier hlater hordered => ?_
      rw [List.getElem?_append_left (hknown _ hearlier),
        List.getElem?_append_left (hknown _ hlater)]
      exact hordered
    · intro earlier hearlier later hlater _
      rw [List.mem_singleton.mp hlater]
      exact Nat.le_of_lt (hreach.known earlier hearlier)

/-- A task makes a request, by the last of its threads. -/
theorem Matches.act (h : Matches outer inner owners) {thread : Nat}
    (howner : owners[thread]? = some task)
    (hlast : ∀ other : Nat, owners[other]? = some task → other ≤ thread) {call : T.Call}
    {first : M.Call} {old new : T.machine.Prog (T.Result call)}
    {program next : M.Prog (M.Result first)} (htask : outer.threads[task]? = some ⟨call, old⟩)
    (hthread : inner.threads[thread]? = some ⟨first, program⟩) (span : Option M.Span)
    (request : M.Request) (env : M.Env)
    (hlatest : ∀ second : Nat, Follows (M := T.machine)
      ⟨outer.threads.set task ⟨call, new⟩, outer.config.act task span request env⟩ task second →
      outer.threads.length ≤ second) :
    Matches ⟨outer.threads.set task ⟨call, new⟩, outer.config.act task span request env⟩
      ⟨inner.threads.set thread ⟨first, next⟩, inner.config.act thread span request env⟩
      owners := by
  refine ⟨?_, by simp [h.length], fun owner hmem => ?_, ?_, ?_, fun first second hfollows => ?_, ?_⟩
  · rw [Config.act_world, Config.act_world, h.world]
  · rw [List.length_set]
    exact h.owned owner hmem
  · have hget : owners.getD thread 0 = task := by
      rw [List.getD_eq_getElem?_getD, howner]
      rfl
    rw [Config.act_trace, Config.act_trace, List.filterMap_append, List.filterMap_append,
      h.requests, h.world]
    simp only [List.filterMap_cons, List.filterMap_nil, threadRequest, taskRequest, hget]
  · -- The threads still run the same calls.
    intro index task' t t' howner' ht ht'
    obtain ⟨u, hu, hcall⟩ : ∃ u, outer.threads[task']? = some u ∧ u.call = t.call := by
      rcases thread_of_act htask ht with ⟨rfl, rfl⟩ | ⟨-, ht⟩
      · exact ⟨_, htask, rfl⟩
      · exact ⟨t, ht, rfl⟩
    obtain ⟨u', hu', hcall'⟩ : ∃ u', inner.threads[index]? = some u' ∧ u'.call = t'.call := by
      rcases thread_of_act hthread ht' with ⟨rfl, rfl⟩ | ⟨-, ht'⟩
      · exact ⟨_, hthread, rfl⟩
      · exact ⟨t', ht', rfl⟩
    rw [← hcall, ← hcall']
    exact h.belongs index task' u u' howner' hu hu'
  · rw [Config.act_trace]
    refine List.pairwise_append.mpr
      ⟨h.ordered first second (hfollows.of_prefix (List.prefix_append _ _)),
        List.pairwise_singleton _ _, ?_⟩
    intro earlier _ later hlater hswapped
    rw [List.mem_singleton.mp hlater] at hswapped
    obtain ⟨hsecond, hfirst⟩ := hswapped
    cases howner.symm.trans hfirst
    exact absurd (h.owned second (List.mem_of_getElem? hsecond))
      (Nat.not_lt.mpr (hlatest second hfollows))
  · rw [Config.act_trace]
    refine List.pairwise_append.mpr ⟨h.sequential, List.pairwise_singleton _ _, ?_⟩
    intro earlier _ later hlater hsame
    rw [List.mem_singleton.mp hlater] at hsame ⊢
    exact hlast earlier.thread (hsame.trans howner)

/-- The calls that a task has before it are started, up to the first that makes a request. -/
theorem Matches.settle (h : Matches outer inner owners) (hreach : Reachable rules world inner)
    {call : T.Call} {program : T.machine.Prog (T.Result call)}
    (htask : outer.threads[task]? = some ⟨call, program⟩)
    (hlatest : ∀ second : Nat, Follows outer task second → outer.threads.length ≤ second)
    {rest : Script M (T.Result call)}
    (hran : Ran inner.threads owners task (T.script call) rest) (hadmitted : rest.Admitted rules) :
    ∃ (after : State M) (count : Nat), Reachable rules world after ∧
      Matches outer after (owners ++ List.replicate count task) ∧
      inner.threads <+: after.threads ∧
      Stands after.threads (owners ++ List.replicate count task) task ⟨call, rest.program⟩ := by
  induction rest generalizing inner owners with
  | done result =>
      refine ⟨inner, 0, hreach, ?_, List.prefix_refl _, ?_⟩
      · simpa using h
      · rw [List.replicate_zero, List.append_nil]
        exact .returned call result hran
  | call first next ih =>
      have hstarted : Matches outer
          ⟨inner.threads ++ [⟨first, M.body first⟩], inner.config.start inner.threads.length first⟩
          (owners ++ [task]) := by
        refine h.start hreach (List.getElem?_eq_some_iff.mp htask).1 hlatest fun t ht => ?_
        cases htask.symm.trans ht
        exact hran.calls (.inl rfl)
      have hreach' := hreach.step (.start inner first hadmitted.1)
      have hprefix : inner.threads <+: inner.threads ++ [⟨first, M.body first⟩] :=
        List.prefix_append _ _
      have howner : (owners ++ [task])[inner.threads.length]? = some task := by
        rw [← h.length, List.getElem?_concat_length]
      have hthread : (inner.threads ++ [⟨first, M.body first⟩])[inner.threads.length]? =
          some (⟨first, M.body first⟩ : Thread M) := List.getElem?_concat_length
      have hran' : Ran (inner.threads ++ [⟨first, M.body first⟩]) (owners ++ [task]) task
          (T.script call) (.call first next) :=
        hran.mono fun _ _ _ hold => found_append hold
      rw [Script.program]
      cases hbody : M.body first with
      | done result =>
          -- The call has returned as soon as it starts.
          rw [hbody] at hstarted hreach' hthread hran' hprefix
          obtain ⟨after, count, hafter, hmatches, hgrown, hstands⟩ := ih result hstarted hreach'
            (hran'.snoc _ result howner hthread) (hadmitted.2 result)
          rw [List.append_assoc, ← List.replicate_one, ← List.replicate_add] at hmatches hstands
          exact ⟨after, 1 + count, hafter, hmatches, hprefix.trans hgrown, hstands⟩
      | call span request rest =>
          refine ⟨_, 1, hreach', hstarted, hprefix, ?_⟩
          rw [← hbody]
          refine .running call _ first next _ hran' howner (fun other hother => ?_) hthread ?_
          · have hlt := (List.getElem?_eq_some_iff.mp hother).1
            rw [List.length_append, List.length_replicate, h.length] at hlt
            omega
          · intro result hdone
            cases hbody.symm.trans hdone

/-- A task starts. -/
theorem Unfolds.start (h : Unfolds outer inner owners)
    (houter : Reachable (T.rules rules) world outer) (hreach : Reachable rules world inner)
    (call : T.Call) (hadmitted : (T.script call).Admitted rules) :
    ∃ (after : State M) (owners' : List Nat), Reachable rules world after ∧
      Unfolds (T := T)
        ⟨outer.threads ++ [⟨call, T.body call⟩], outer.config.start outer.threads.length call⟩
        after owners' := by
  have hnext := houter.step (.start outer call hadmitted)
  obtain ⟨after, count, hafter, hmatches, hgrown, hstands⟩ :=
    (h.toMatches.start_task call).settle hreach List.getElem?_concat_length
      (fun _ => hnext.follows_last rfl) .refl hadmitted
  refine ⟨after, _, hafter, hmatches, fun task t ht => ?_⟩
  rcases thread_of_start ht with ⟨hold, ht⟩ | ⟨rfl, rfl⟩
  · obtain ⟨rest, hrest⟩ := hgrown
    refine (h.stands task t ht).mono (fun _ _ _ hthread => hrest ▸ found_append hthread)
      (fun _ _ _ hthread => hrest ▸ found_append hthread) fun owner howner => ?_
    rw [List.eq_of_mem_replicate howner]
    exact Nat.ne_of_gt hold
  · rw [T.body_eq]
    exact hstands

/-- A request of the last thread of a task. When the thread returns with it, the task goes on to its
next calls. -/
theorem Unfolds.request (h : Unfolds outer inner owners) (hreach : Reachable rules world inner)
    {call : T.Call} {thread : Nat} {first : M.Call}
    {next : M.Result first → Script M (T.Result call)}
    {span : Option M.Span} {request : M.Request}
    {program : M.Answer request → M.Prog (M.Result first)} (env : M.Env)
    {old : T.machine.Prog (T.Result call)} (htask : outer.threads[task]? = some ⟨call, old⟩)
    {reply : M.Answer request} (hlatest : ∀ second : Nat, Follows (M := T.machine)
      ⟨outer.threads.set task ⟨call, program reply >>= fun result => (next result).program⟩,
        outer.config.act task span request env⟩ task second → outer.threads.length ≤ second)
    (hadmitted : (T.script call).Admitted rules)
    (hran : Ran inner.threads owners task (T.script call) (.call first next))
    (howner : owners[thread]? = some task)
    (hlast : ∀ other : Nat, owners[other]? = some task → other ≤ thread)
    (hthread : inner.threads[thread]? = some ⟨first, .call span request program⟩)
    (hpermits : rules.permits env span request inner.config.world)
    (hreply : (M.answer env request inner.config.world).1 = reply) :
    ∃ (after : State M) (count : Nat), Reachable rules world after ∧
      Matches (T := T)
        ⟨outer.threads.set task ⟨call, program reply >>= fun result => (next result).program⟩,
          outer.config.act task span request env⟩
        after (owners ++ List.replicate count task) ∧
      inner.threads.set thread ⟨first, program reply⟩ <+: after.threads ∧
      Stands after.threads (owners ++ List.replicate count task) task
        (⟨call, program reply >>= fun result => (next result).program⟩ : Thread T.machine) := by
  have hreach' := hreach.step (.act inner thread first span request program env hthread hpermits)
  have hmatches : Matches (T := T)
      ⟨outer.threads.set task ⟨call, program reply >>= fun result => (next result).program⟩,
        outer.config.act task span request env⟩
      ⟨inner.threads.set thread ⟨first, program reply⟩, inner.config.act thread span request env⟩
      owners := h.toMatches.act howner hlast htask hthread span request env hlatest
  have hself : (inner.threads.set thread ⟨first, program reply⟩)[thread]? =
      some (⟨first, program reply⟩ : Thread M) :=
    List.getElem?_set_self (List.getElem?_eq_some_iff.mp hthread).1
  have hran' : Ran (inner.threads.set thread ⟨first, program reply⟩) (owners ++ []) task
      (T.script call) (.call first next) :=
    hran.mono fun _ _ _ hother => returned_set hthread hother
  rw [List.append_nil] at hran'
  rw [hreply] at hreach'
  cases hprogram : program reply with
  | done result =>
      rw [hprogram] at hreach' hmatches hself hran'
      exact hmatches.settle hreach'
        (List.getElem?_set_self (List.getElem?_eq_some_iff.mp htask).1)
        (fun second hfollows => by
          rw [List.length_set]
          exact hlatest second hfollows)
        (hran'.snoc thread result howner hself) ((hran'.admitted hadmitted).2 result)
  | call span' request' rest =>
      rw [hprogram] at hreach' hmatches hself hran'
      refine ⟨_, 0, hreach', ?_, List.prefix_refl _, ?_⟩
      · rw [List.replicate_zero, List.append_nil]
        exact hmatches
      · rw [List.replicate_zero, List.append_nil]
        exact .running call thread first next _ hran' howner hlast hself fun _ => nofun

/-- A task makes its next request. -/
theorem Unfolds.act (h : Unfolds outer inner owners)
    (houter : Reachable (T.rules rules) world outer) (hreach : Reachable rules world inner)
    {call : T.Call} {span : Option M.Span} {request : M.Request}
    {rest : M.Answer request → M.Prog (T.Result call)} (env : M.Env)
    (hthread : outer.threads[task]? = some ⟨call, .call span request rest⟩)
    (hadmitted : (T.script call).Admitted rules)
    (hpermits : rules.permits env span request outer.config.world) :
    ∃ (after : State M) (owners' : List Nat), Reachable rules world after ∧
      Unfolds (T := T)
        ⟨outer.threads.set task ⟨call, rest (M.answer env request outer.config.world).1⟩,
          outer.config.act task span request env⟩
        after owners' := by
  have hstands := h.stands task _ hthread
  generalize hmoving : (⟨call, .call span request rest⟩ : Thread T.machine) = moving at hstands
  cases hstands with
  | returned => cases hmoving
  | running call' thread first next program hran howner hlast hinner hmore =>
      cases program with
      | done result => exact absurd rfl (hmore result)
      | call span' request' program =>
          cases hmoving
          have hnext := houter.step (.act outer task _ span request _ env hthread hpermits)
          rw [← h.world] at hpermits
          obtain ⟨after, count, hafter, hmatches, hgrown, hstands⟩ := h.request hreach env
            hthread (fun second hfollows => by
              have hbound := hnext.follows_last rfl hfollows
              rwa [List.length_set] at hbound) hadmitted hran howner hlast hinner hpermits
            (congrArg (fun world => (M.answer env request world).1) h.world)
          refine ⟨after, _, hafter, hmatches, fun other t ht => ?_⟩
          obtain ⟨extra, hextra⟩ := hgrown
          rcases thread_of_act hthread ht with ⟨rfl, rfl⟩ | ⟨hne, ht⟩
          · exact hstands
          · refine (h.stands other t ht).mono (fun _ _ _ hreturned => ?_)
              (fun index t' howner' ht' => ?_) fun owner hmem => ?_
            · exact hextra ▸ found_append (returned_set hinner hreturned)
            · have hdifferent : thread ≠ index := by
                rintro rfl
                exact hne (Option.some.inj (howner.symm.trans howner'))
              exact hextra ▸ found_append ((List.getElem?_set_ne hdifferent).trans ht')
            · rw [List.eq_of_mem_replicate hmem]
              exact hne

/-- Two threads of one task were at work one after the other. -/
theorem Matches.follows (h : Matches outer inner owners) {first second : Nat}
    (hlt : first < second) (hsame : owners[first]? = owners[second]?) :
    Follows inner first second := by
  refine ⟨Nat.ne_of_lt hlt, h.sequential.imp fun hordered hswapped => ?_⟩
  rw [hswapped.1, hswapped.2] at hordered
  exact absurd (hordered hsame.symm) (Nat.not_le_of_lt hlt)

/-- If a task followed another one, its threads followed those of the other. -/
theorem Matches.follows_of (h : Matches outer inner owners) {first second : Nat}
    (hfollows : Follows outer first second) {thread thread' : Nat}
    (howner : owners[thread]? = some first) (howner' : owners[thread']? = some second) :
    Follows inner thread thread' := by
  refine ⟨?_, (h.ordered first second hfollows).imp fun hordered hswapped => hordered ?_⟩
  · rintro rfl
    exact hfollows.1 (Option.some.inj (howner.symm.trans howner'))
  · rw [hswapped.1, hswapped.2]
    exact ⟨howner', howner⟩

/-- A task that runs a single call has returned what it makes of the result of that call. -/
theorem Unfolds.returned (h : Unfolds outer inner owners) {call : T.Call} {result : T.Result call}
    (ht : outer.threads[task]? = some ⟨call, .done result⟩) {single : M.Call}
    {respond : M.Result single → T.Result call}
    (hscript : T.script call = .call single fun made => .done (respond made)) :
    ∃ (thread : Nat) (made : M.Result single), owners[thread]? = some task ∧
      inner.threads[thread]? = some (⟨single, .done made⟩ : Thread M) ∧ respond made = result := by
  have hstands := h.stands task _ ht
  generalize hreturned : (⟨call, .done result⟩ : Thread T.machine) = returned at hstands
  cases hstands with
  | returned call' result' hran =>
      cases hreturned
      rcases hran.single hscript with hsame | ⟨thread, made, howner, hthread, hresult⟩
      · cases hsame.trans hscript
      · cases hresult
        exact ⟨thread, made, howner, hthread, rfl⟩
  | running call' thread first next program hran howner hlast hthread hmore =>
      cases program with
      | done made => exact absurd rfl (hmore made)
      | call => cases hreturned

/-- Behind every run of tasks there is a run of the machine that makes the same requests. -/
theorem exists_unfolded (hreach : Reachable (T.rules rules) world outer) :
    ∃ (inner : State M) (owners : List Nat), Reachable rules world inner ∧
      Unfolds outer inner owners := by
  induction hreach with
  | init =>
      have hnone : Matches (T := T) (.init world) (.init world) [] :=
        ⟨rfl, rfl, fun _ => nofun, rfl, fun _ _ _ _ => nofun, fun _ _ _ => .nil, .nil⟩
      exact ⟨.init world, [], .init, hnone, fun _ _ => nofun⟩
  | step hbefore hstep ih =>
      obtain ⟨inner, owners, hinner, hunfolds⟩ := ih
      cases hstep with
      | start call hadmits => exact hunfolds.start hbefore hinner call hadmits
      | act task call span request rest env hthread hpermits =>
          have hadmits := (hbefore.threads_make (fun _ _ => True)
            (fun _ _ => .of_forall fun _ => trivial) _ (List.mem_of_getElem? hthread)).1
          exact hunfolds.act hbefore hinner env hthread hadmits hpermits

end Runs

end Tasks

end StellarPay.Interleaving
