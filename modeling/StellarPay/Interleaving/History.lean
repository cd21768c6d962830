import StellarPay.Interleaving.Machine
import Mathlib.Algebra.BigOperators.Group.Finset.Piecewise
import Mathlib.Algebra.Order.BigOperators.Group.Finset
import Mathlib.Data.List.Chain

/-!
# Histories

What the trace of a reachable state says about its run. Every event of the trace met the world
the event before it left, so a fact about single requests extends to all the worlds of the run
(`Linked`). The events of one thread are the start of its call and then its requests.
-/

namespace StellarPay.Interleaving

variable {M : Machine} {rules : Rules M}

/-- What holds of all pairs of a list holds of the elements at two positions. -/
theorem pairwise_at {α : Type} {relation : α → α → Prop} {list : List α}
    (h : list.Pairwise relation) {first second : Nat} {a b : α} (hfirst : list[first]? = some a)
    (hsecond : list[second]? = some b) (hlt : first < second) : relation a b := by
  obtain ⟨hbound, rfl⟩ := List.getElem?_eq_some_iff.mp hfirst
  obtain ⟨hbound', rfl⟩ := List.getElem?_eq_some_iff.mp hsecond
  exact List.pairwise_iff_getElem.mp h first second hbound hbound' hlt

/-- A list is split at a position. -/
theorem split_at_position {α : Type} {list : List α} {position : Nat} {a : α}
    (h : list[position]? = some a) :
    ∃ before after, list = before ++ a :: after ∧ before.length = position := by
  obtain ⟨hbound, rfl⟩ := List.getElem?_eq_some_iff.mp h
  exact ⟨list.take position, list.drop (position + 1), by simp, by simp; omega⟩

/-- Each event met the world that the one before it left, from `first` to `last`. -/
def Linked : M.World → List (Event M) → M.World → Prop
  | first, [], last => first = last
  | first, event :: rest, last => event.before = first ∧ Linked event.after rest last

/-- The worlds of a run that begins in `first`. -/
def worlds (first : M.World) (trace : List (Event M)) : List M.World :=
  first :: trace.map Event.after

namespace Linked

variable {first last : M.World} {trace : List (Event M)}

/-- One more event, in the world the last one left. -/
theorem snoc (event : Event M) (h : Linked first trace event.before) :
    Linked first (trace ++ [event]) event.after := by
  induction trace generalizing first with
  | nil => exact ⟨h.symm, rfl⟩
  | cons head rest ih => exact ⟨h.1, ih h.2⟩

/-- An event cuts the history in two. -/
theorem split {before after : List (Event M)} {event : Event M}
    (h : Linked first (before ++ event :: after) last) :
    Linked first before event.before ∧ Linked event.after after last := by
  induction before generalizing first with
  | nil => exact ⟨h.1.symm, h.2⟩
  | cons head rest ih =>
      obtain ⟨hrest, hafter⟩ := ih h.2
      exact ⟨⟨h.1, hrest⟩, hafter⟩

/-- What holds at first and is kept by every event holds of the last world. -/
theorem keeps (h : Linked first trace last) (property : M.World → Prop)
    (hkept : ∀ event ∈ trace, property event.before → property event.after)
    (hfirst : property first) : property last := by
  induction trace generalizing first with
  | nil => exact h ▸ hfirst
  | cons head rest ih =>
      refine ih h.2 (fun event hevent => hkept event (List.mem_cons_of_mem _ hevent)) ?_
      exact hkept head List.mem_cons_self (h.1 ▸ hfirst)

/-- What holds at first and is kept by every event holds of the world every event met. -/
theorem keeps_before (h : Linked first trace last) (property : M.World → Prop)
    (hkept : ∀ event ∈ trace, property event.before → property event.after)
    (hfirst : property first) : ∀ event ∈ trace, property event.before := by
  intro event hevent
  obtain ⟨before, after, rfl⟩ := List.append_of_mem hevent
  refine h.split.1.keeps property (fun other hother => ?_) hfirst
  exact hkept other (List.mem_append_left _ hother)

/-- A preorder that every event follows relates the first world to the last. -/
theorem relates (h : Linked first trace last) (relation : M.World → M.World → Prop)
    (hrefl : ∀ world, relation world world)
    (htrans : ∀ {first second third}, relation first second → relation second third →
      relation first third)
    (hevents : ∀ event ∈ trace, relation event.before event.after) : relation first last :=
  h.keeps (relation first)
    (fun event hevent hbefore => htrans hbefore (hevents event hevent)) (hrefl first)

/-- A preorder that every event follows relates what an event left to the last world. -/
theorem relates_last (h : Linked first trace last) (relation : M.World → M.World → Prop)
    (hrefl : ∀ world, relation world world)
    (htrans : ∀ {first second third}, relation first second → relation second third →
      relation first third)
    (hevents : ∀ event ∈ trace, relation event.before event.after) {event : Event M}
    (hevent : event ∈ trace) : relation event.after last := by
  obtain ⟨before, after, rfl⟩ := List.append_of_mem hevent
  refine h.split.2.relates relation hrefl htrans fun other hother => hevents other ?_
  exact List.mem_append_right _ (List.mem_cons_of_mem _ hother)

/-- A relation that every event follows links neighbouring worlds. -/
theorem is_chain (h : Linked first trace last) (relation : M.World → M.World → Prop)
    (hevents : ∀ event ∈ trace, relation event.before event.after) :
    (worlds first trace).IsChain relation := by
  induction trace generalizing first with
  | nil => exact .singleton _
  | cons head rest ih =>
      obtain ⟨hhead, hrest⟩ := h
      refine List.isChain_cons_cons.mpr ⟨hhead ▸ hevents head List.mem_cons_self, ?_⟩
      exact ih hrest fun event hevent => hevents event (List.mem_cons_of_mem _ hevent)

/-- A preorder that every event follows orders the worlds of the run. -/
theorem pairwise_worlds (h : Linked first trace last) (relation : M.World → M.World → Prop)
    (htrans : ∀ {first second third}, relation first second → relation second third →
      relation first third)
    (hevents : ∀ event ∈ trace, relation event.before event.after) :
    (worlds first trace).Pairwise relation := by
  have htransitive : IsTrans M.World relation := ⟨fun _ _ _ => htrans⟩
  exact (h.is_chain relation hevents).pairwise

/-- The last world is one of the worlds of the run. -/
theorem last_mem (h : Linked first trace last) : last ∈ worlds first trace := by
  induction trace generalizing first with
  | nil => exact h ▸ List.mem_cons_self
  | cons head rest ih => exact List.mem_cons_of_mem _ (ih h.2)

/-- If the worlds of a run are ordered, every event follows the order. -/
theorem of_pairwise_worlds (h : Linked first trace last) (relation : M.World → M.World → Prop)
    (hworlds : (worlds first trace).Pairwise relation) :
    ∀ event ∈ trace, relation event.before event.after := by
  induction trace generalizing first with
  | nil => simp
  | cons head rest ih =>
      obtain ⟨hfirst, hrest⟩ := List.pairwise_cons.mp hworlds
      intro event hevent
      cases hevent with
      | head => exact h.1 ▸ hfirst head.after List.mem_cons_self
      | tail _ hevent => exact ih h.2 hrest event hevent

/-- A preorder that every event follows relates what one event left to what a later one met. -/
theorem pairwise_events (h : Linked first trace last) (relation : M.World → M.World → Prop)
    (hrefl : ∀ world, relation world world)
    (htrans : ∀ {first second third}, relation first second → relation second third →
      relation first third)
    (hevents : ∀ event ∈ trace, relation event.before event.after) :
    trace.Pairwise fun earlier later => relation earlier.after later.before := by
  induction trace generalizing first with
  | nil => exact .nil
  | cons head rest ih =>
      have hrest : ∀ event ∈ rest, relation event.before event.after :=
        fun event hevent => hevents event (List.mem_cons_of_mem _ hevent)
      refine .cons (h.2.keeps_before (relation head.after) ?_ (hrefl _)) (ih h.2 hrest)
      exact fun event hevent hbefore => htrans hbefore (hrest event hevent)

end Linked

namespace Reachable

variable {world : M.World} {state : State M}

/-- The trace of a reachable state leads from the first world to the present one. -/
theorem linked (hreach : Reachable rules world state) :
    Linked world state.config.trace state.config.world := by
  induction hreach with
  | init => rfl
  | step _ hstep ih =>
      cases hstep with
      | start call hadmits => exact Linked.snoc (.start _ call _) ih
      | act thread call span request next env hthread hpermits =>
          exact Linked.snoc (.act ⟨thread, span, request, env, _⟩) ih

/-- Every event of the trace was the next one in an earlier state of the run. -/
theorem at_event (hreach : Reachable rules world state) {before after : List (Event M)}
    {event : Event M} (htrace : state.config.trace = before ++ event :: after) :
    ∃ earlier next, Reachable rules world earlier ∧ Step rules earlier next ∧
      earlier.config = ⟨event.before, before⟩ ∧
      next.config = ⟨event.after, before ++ [event]⟩ := by
  induction hreach generalizing after with
  | init => simp [State.init] at htrace
  | @step state next hbefore hstep ih =>
      obtain ⟨last, hlast, hnext⟩ : ∃ last,
          state.config.world = last.before ∧
          next.config = ⟨last.after, state.config.trace ++ [last]⟩ := by
        cases hstep with
        | start call hadmits => exact ⟨.start _ call _, rfl, rfl⟩
        | act thread call span request rest env hthread hpermits =>
            exact ⟨.act ⟨thread, span, request, env, _⟩, rfl, rfl⟩
      rw [hnext] at htrace
      -- Either the event is the last one, or it lies in the trace before the last step.
      rcases List.eq_nil_or_concat' after with rfl | ⟨rest, other, rfl⟩
      · obtain ⟨hearlier, hevent⟩ := List.append_inj' htrace rfl
        cases hevent
        exact ⟨state, next, hbefore, hstep, by rw [← hlast, ← hearlier], by rw [hnext, hearlier]⟩
      · rw [← List.cons_append, ← List.append_assoc] at htrace
        exact ih (List.append_inj' htrace rfl).1

variable (allowed : M.Call → M.Request → Prop)

/-- The world that a request met is that of a reachable state, after the requests before it. -/
theorem met_by_act (hreach : Reachable rules world state) {act : Act M}
    (hact : .act act ∈ state.config.trace) :
    ∃ seen, Reachable rules world seen ∧ seen.config.world = act.before ∧
      ∀ earlier, .act earlier ∈ seen.config.trace →
        [.act earlier, .act act].Sublist state.config.trace := by
  obtain ⟨before, after, htrace⟩ := List.append_of_mem hact
  obtain ⟨seen, _, hseen, -, hconfig, -⟩ := hreach.at_event htrace
  refine ⟨seen, hseen, by rw [hconfig]; rfl, fun earlier hearlier => ?_⟩
  rw [hconfig] at hearlier
  rw [htrace]
  exact (List.singleton_sublist.mpr hearlier).append
    (List.singleton_sublist.mpr List.mem_cons_self)

/-- Every thread runs an admitted call, and will only make requests allowed for it. -/
theorem threads_make (hmakes : ∀ call, rules.admits call → (M.body call).Makes (allowed call))
    (hreach : Reachable rules world state) :
    ∀ thread ∈ state.threads, rules.admits thread.call ∧
      thread.program.Makes (allowed thread.call) := by
  induction hreach with
  | init => simp [State.init]
  | step _ hstep ih =>
      cases hstep with
      | start call hadmits =>
          intro thread hthread
          rcases List.mem_append.mp hthread with hthread | hthread
          · exact ih thread hthread
          · obtain rfl := List.mem_singleton.mp hthread
            exact ⟨hadmits, hmakes call hadmits⟩
      | act thread call span request next env hthread hpermits =>
          intro other hother
          rcases List.mem_or_eq_of_mem_set hother with hother | rfl
          · exact ih other hother
          · obtain ⟨hadmits, hprogram⟩ := ih _ (List.mem_of_getElem? hthread)
            exact ⟨hadmits, hprogram.2 _⟩

/-- Threads are never removed, and keep their calls. -/
theorem call_of_step {next : State M} (hstep : Step rules state next) {thread : Nat}
    {t : Thread M} (ht : state.threads[thread]? = some t) :
    ∃ t', next.threads[thread]? = some t' ∧ t'.call = t.call := by
  have hlt := (List.getElem?_eq_some_iff.mp ht).1
  cases hstep with
  | start call hadmits => exact ⟨t, by rw [List.getElem?_append_left hlt, ht], rfl⟩
  | act acting call span request rest env hthread hpermits =>
      by_cases hne : acting = thread
      · subst hne
        rw [List.getElem?_set_self hlt]
        rw [hthread] at ht
        cases ht
        exact ⟨_, rfl, rfl⟩
      · exact ⟨t, by rw [List.getElem?_set_ne hne, ht], rfl⟩

/-- Every request of the run was allowed for the call of its thread and permitted by the rules. -/
theorem acts_make (hmakes : ∀ call, rules.admits call → (M.body call).Makes (allowed call))
    (hreach : Reachable rules world state) :
    ∀ act, .act act ∈ state.config.trace → ∃ t, state.threads[act.thread]? = some t ∧
      rules.admits t.call ∧ allowed t.call act.request ∧
      rules.permits act.env act.span act.request act.before := by
  induction hreach with
  | init => simp [State.init]
  | @step state next hbefore hstep ih =>
      intro act hact
      have hold : .act act ∈ state.config.trace → ∃ t, next.threads[act.thread]? = some t ∧
          rules.admits t.call ∧ allowed t.call act.request ∧
          rules.permits act.env act.span act.request act.before := by
        intro hact
        obtain ⟨t, ht, hfacts⟩ := ih act hact
        obtain ⟨t', ht', hcall⟩ := call_of_step hstep ht
        exact ⟨t', ht', hcall ▸ hfacts⟩
      cases hstep with
      | start call hadmits =>
          rcases List.mem_append.mp hact with hact | hact
          · exact hold hact
          · simp at hact
      | act thread call span request next env hthread hpermits =>
          rcases List.mem_append.mp hact with hact | hact
          · exact hold hact
          · obtain rfl := Event.act.inj (List.mem_singleton.mp hact)
            obtain ⟨hadmits, hprogram⟩ :=
              hbefore.threads_make allowed hmakes _ (List.mem_of_getElem? hthread)
            have hlt := (List.getElem?_eq_some_iff.mp hthread).1
            exact ⟨_, List.getElem?_set_self hlt, hadmits, hprogram.1, hpermits⟩

/-- Every request of the run was permitted. -/
theorem permitted (hreach : Reachable rules world state) {act : Act M}
    (hact : .act act ∈ state.config.trace) :
    rules.permits act.env act.span act.request act.before := by
  obtain ⟨_, _, _, _, hpermits⟩ := hreach.acts_make (fun _ _ => True)
    (fun _ _ => .of_forall fun _ => trivial) act hact
  exact hpermits

/-- Every event belongs to a thread of the pool. -/
theorem known (hreach : Reachable rules world state) :
    ∀ event ∈ state.config.trace, event.thread < state.threads.length := by
  induction hreach with
  | init => simp [State.init]
  | step _ hstep ih =>
      intro event hevent
      cases hstep with
      | start call hadmits =>
          rw [List.length_append, List.length_singleton]
          rcases List.mem_append.mp hevent with hevent | hevent
          · exact Nat.lt_succ_of_lt (ih event hevent)
          · obtain rfl := List.mem_singleton.mp hevent
            exact Nat.lt_succ_self _
      | act thread call span request next env hthread hpermits =>
          rw [List.length_set]
          rcases List.mem_append.mp hevent with hevent | hevent
          · exact ih event hevent
          · obtain rfl := List.mem_singleton.mp hevent
            exact (List.getElem?_eq_some_iff.mp hthread).1

/-- The next thread of the pool has no events yet. -/
theorem own_next (hreach : Reachable rules world state) :
    state.config.own state.threads.length = [] := by
  refine List.filter_eq_nil_iff.mpr fun event hevent => ?_
  simpa using Nat.ne_of_lt (hreach.known event hevent)

/-- A thread's events are the start of its call and then its requests. -/
theorem own_eq (hreach : Reachable rules world state) {thread : Nat} {t : Thread M}
    (ht : state.threads[thread]? = some t) :
    ∃ before acts, state.config.own thread =
      .start thread t.call before :: List.map .act acts := by
  induction hreach generalizing t with
  | init => simp [State.init] at ht
  | @step state _ hbefore hstep ih =>
      cases hstep with
      | start call hadmits =>
          rcases thread_of_start ht with ⟨hlt, ht⟩ | ⟨rfl, rfl⟩
          · rw [Config.own_start_other _ (Nat.ne_of_gt hlt)]
            exact ih ht
          · rw [Config.own_start_self, hbefore.own_next]
            exact ⟨_, [], rfl⟩
      | act acting call span request next env hthread hpermits =>
          rcases thread_of_act hthread ht with ⟨rfl, rfl⟩ | ⟨hne, ht⟩
          · obtain ⟨before, acts, hown⟩ := ih hthread
            rw [Config.own_act_self, hown]
            exact ⟨before, acts ++ [⟨thread, span, request, env, state.config.world⟩], by simp⟩
          · rw [Config.own_act_other _ hne]
            exact ih ht

/-- A thread starts once, with the call it runs. -/
theorem start_unique (hreach : Reachable rules world state) {thread : Nat} {t : Thread M}
    (ht : state.threads[thread]? = some t) {call call' : M.Call} {before before' : M.World}
    (h : .start thread call before ∈ state.config.trace)
    (h' : .start thread call' before' ∈ state.config.trace) :
    call = t.call ∧ before = before' := by
  obtain ⟨first, acts, hown⟩ := hreach.own_eq ht
  have honly : ∀ {call before}, .start thread call before ∈ state.config.trace →
      call = t.call ∧ before = first := by
    intro call before hmem
    have hmem : .start thread call before ∈ state.config.own thread :=
      Config.mem_own.mpr ⟨hmem, rfl⟩
    simpa [hown] using hmem
  exact ⟨(honly h).1, (honly h).2.trans (honly h').2.symm⟩

/-- A thread that has events is in the pool. -/
theorem thread_of_event (hreach : Reachable rules world state) {event : Event M}
    (hevent : event ∈ state.config.trace) : ∃ t, state.threads[event.thread]? = some t :=
  ⟨_, List.getElem?_eq_getElem (hreach.known event hevent)⟩

/-- A preorder that every event follows relates what one event of a thread left to what a later
event of the thread met. -/
theorem own_relates (hreach : Reachable rules world state) (relation : M.World → M.World → Prop)
    (hrefl : ∀ world, relation world world)
    (htrans : ∀ {first second third}, relation first second → relation second third →
      relation first third)
    (hevents : ∀ event ∈ state.config.trace, relation event.before event.after)
    {thread : Nat} {before after : List (Event M)}
    (hown : state.config.own thread = before ++ after)
    {first second : Event M} (hfirst : first ∈ before) (hsecond : second ∈ after) :
    relation first.after second.before := by
  have hpairs := (hreach.linked.pairwise_events relation hrefl htrans hevents).sublist
    (List.filter_sublist (p := fun event : Event M => event.thread = thread))
  change (state.config.own thread).Pairwise _ at hpairs
  rw [hown] at hpairs
  exact (List.pairwise_append.mp hpairs).2.2 first hfirst second hsecond

/-- A preorder that every event follows relates the world a thread started in to the worlds its
requests met. -/
theorem start_relates (hreach : Reachable rules world state)
    (relation : M.World → M.World → Prop) (hrefl : ∀ world, relation world world)
    (htrans : ∀ {first second third}, relation first second → relation second third →
      relation first third)
    (hevents : ∀ event ∈ state.config.trace, relation event.before event.after)
    {thread : Nat} {call : M.Call} {before : M.World} {act : Act M}
    (hstart : .start thread call before ∈ state.config.trace)
    (hact : .act act ∈ state.config.trace) (hthread : act.thread = thread) :
    relation before act.before := by
  obtain ⟨t, ht⟩ := hreach.thread_of_event hstart
  obtain ⟨first, acts, hown⟩ := hreach.own_eq ht
  change state.config.own thread = [.start thread t.call first] ++ acts.map .act at hown
  have hmem : .start thread call before ∈ state.config.own thread :=
    Config.mem_own.mpr ⟨hstart, rfl⟩
  have hmem' : .act act ∈ state.config.own thread := Config.mem_own.mpr ⟨hact, hthread⟩
  rw [hown] at hmem hmem'
  obtain ⟨_, rfl⟩ : call = t.call ∧ before = first := by simpa using hmem
  have hlater : Event.act act ∈ acts.map Event.act := by simpa using hmem'
  exact hreach.own_relates relation hrefl htrans hevents hown (List.mem_singleton.mpr rfl) hlater

end Reachable

/-- The two threads were at work one after the other. -/
def Follows (state : State M) (first second : Nat) : Prop :=
  first ≠ second ∧ state.config.trace.Pairwise fun earlier later =>
    ¬ (earlier.thread = second ∧ later.thread = first)

instance (state : State M) (first second : Nat) : Decidable (Follows state first second) :=
  inferInstanceAs (Decidable (_ ∧ List.Pairwise _ _))

/-- A preorder that every event follows relates what an event of the first thread left to what an
event of the second met. -/
theorem Reachable.follows_relates {world : M.World} {state : State M}
    (hreach : Reachable rules world state) (relation : M.World → M.World → Prop)
    (hrefl : ∀ world, relation world world)
    (htrans : ∀ {first second third}, relation first second → relation second third →
      relation first third)
    (hevents : ∀ event ∈ state.config.trace, relation event.before event.after)
    {earlier later : Event M} (hfollows : Follows state earlier.thread later.thread)
    (hearlier : earlier ∈ state.config.trace) (hlater : later ∈ state.config.trace) :
    relation earlier.after later.before := by
  have hpairs := hreach.linked.pairwise_events relation hrefl htrans hevents
  obtain ⟨hne, horder⟩ := hfollows
  obtain ⟨before, after, htrace⟩ := List.append_of_mem hlater
  rw [htrace] at hearlier hpairs horder
  rcases List.mem_append.mp hearlier with hbefore | hafter
  · exact (List.pairwise_append.mp hpairs).2.2 earlier hbefore later List.mem_cons_self
  · cases hafter with
    | head => exact absurd rfl hne
    | tail _ hafter =>
        have hlast := (List.pairwise_cons.mp (List.pairwise_append.mp horder).2.1).1 earlier hafter
        exact absurd ⟨rfl, rfl⟩ hlast

section Readings

/-- The request of an event. -/
def Event.made : Event M → Option (Act M)
  | .act made => some made
  | .start _ _ _ => none

/-- A reading that never goes back. What a request shows that is `late` may have been read some time
before it takes effect: after the earlier requests of its thread, but perhaps before what others
have done in the meantime. -/
def Ascending (late : M.Request → Bool) (reading : M.Env → Int) (history : List (Event M)) : Prop :=
  (history.filterMap Event.made).Pairwise fun earlier later =>
    (late later.request = true → earlier.thread = later.thread) →
      reading earlier.env ≤ reading later.env

instance (late : M.Request → Bool) (reading : M.Env → Int) (history : List (Event M)) :
    Decidable (Ascending late reading history) :=
  inferInstanceAs (Decidable (List.Pairwise _ _))

variable {late : M.Request → Bool} {reading : M.Env → Int} {history : List (Event M)}

/-- The reading at two requests, one before the other. -/
theorem Ascending.le_of (h : Ascending late reading history) {first second : Act M}
    (hsublist : [.act first, .act second].Sublist history)
    (hlate : late second.request = true → first.thread = second.thread) :
    reading first.env ≤ reading second.env :=
  List.pairwise_pair.mp (List.Pairwise.sublist (hsublist.filterMap Event.made) h) hlate

/-- The reading at two requests of which the second is not late. -/
theorem Ascending.le (h : Ascending late reading history) {first second : Act M}
    (hsublist : [.act first, .act second].Sublist history) (hprompt : late second.request = false) :
    reading first.env ≤ reading second.env :=
  h.le_of hsublist fun hlate => absurd hlate (by simp [hprompt])

/-- The reading at two requests of one thread. -/
theorem Ascending.le_own (h : Ascending late reading history) {first second : Act M}
    (hsublist : [.act first, .act second].Sublist history)
    (hthread : first.thread = second.thread) : reading first.env ≤ reading second.env :=
  h.le_of hsublist fun _ => hthread

end Readings

section Counting

variable (property : Event M → Bool)

/-- The events of a trace with a property, thread by thread. -/
theorem count_eq_sum_own {config : Config M} {bound : Nat}
    (hknown : ∀ event ∈ config.trace, event.thread < bound) :
    config.trace.countP property =
      ∑ thread ∈ .range bound, (config.own thread).countP property := by
  obtain ⟨world, trace⟩ := config
  simp only [Config.own, List.countP_filter]
  induction trace with
  | nil => simp
  | cons event rest ih =>
      have hbound : event.thread < bound := hknown event List.mem_cons_self
      have hrest := ih fun other hother => hknown other (List.mem_cons_of_mem _ hother)
      simp only [List.countP_cons, Finset.sum_add_distrib, hrest]
      congr 1
      cases property event with
      | false => simp
      | true => simp [hbound]

/-- If no thread has more events of one kind than of another, neither has the whole trace. -/
theorem count_le_of_own {other : Event M → Bool} {config : Config M} {bound : Nat}
    (hknown : ∀ event ∈ config.trace, event.thread < bound)
    (h : ∀ thread, (config.own thread).countP property ≤ (config.own thread).countP other) :
    config.trace.countP property ≤ config.trace.countP other := by
  rw [count_eq_sum_own property hknown, count_eq_sum_own other hknown]
  exact Finset.sum_le_sum fun thread _ => h thread

/-- If no two events have a property, one at most does. -/
theorem count_le_one {trace : List (Event M)}
    (h : trace.Pairwise fun first second => property first = true → property second = false) :
    trace.countP property ≤ 1 := by
  induction trace with
  | nil => simp
  | cons event rest ih =>
      obtain ⟨hhead, hrest⟩ := List.pairwise_cons.mp h
      cases hevent : property event with
      | false =>
          rw [List.countP_cons_of_neg (by simp [hevent])]
          exact ih hrest
      | true =>
          have hnone : rest.countP property = 0 :=
            List.countP_eq_zero.mpr fun other hother => by simp [hhead other hother hevent]
          rw [List.countP_cons_of_pos hevent, hnone]

end Counting

/-- Threads that follow each other in a run did so in what was there of it before. -/
theorem Follows.of_prefix {earlier later : State M} {first second : Nat}
    (hfollows : Follows later first second)
    (hgrows : earlier.config.trace <+: later.config.trace) : Follows earlier first second :=
  ⟨hfollows.1, hfollows.2.sublist hgrows.sublist⟩

/-- The thread that made the last event is followed by none that has started. -/
theorem Reachable.follows_last {world : M.World} {state : State M}
    (hreach : Reachable rules world state) {before : List (Event M)} {event : Event M}
    (htrace : state.config.trace = before ++ [event]) {second : Nat}
    (hfollows : Follows state event.thread second) : state.threads.length ≤ second := by
  by_contra hstarted
  obtain ⟨first, acts, hown⟩ :=
    hreach.own_eq (List.getElem?_eq_getElem (Nat.not_le.mp hstarted))
  obtain ⟨hmem, hthread⟩ := Config.mem_own.mp (hown ▸ List.mem_cons_self)
  rw [htrace] at hmem
  have hpairs := hfollows.2
  rw [htrace] at hpairs
  rcases List.mem_append.mp hmem with hbefore | hlast
  · exact (List.pairwise_append.mp hpairs).2.2 _ hbefore event (List.mem_singleton.mpr rfl)
      ⟨hthread, rfl⟩
  · rw [List.mem_singleton] at hlast
    exact hfollows.1 (hlast ▸ hthread)

end StellarPay.Interleaving
