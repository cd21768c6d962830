import StellarPay.Interleaving.Safety

/-!
# Properties of a thread's own history

Some properties of a thread depend on nothing but the requests it makes and the answers it gets.
They need no interference reasoning: `Local` follows a program with its own history only, and
`own_holds` turns it into a property of every thread of every reachable state.
-/

namespace StellarPay.Interleaving

variable {M : Machine} {rules : Rules M} {α β : Type}

/-- An event of a history that has been extended lies in the old part, or behind all of it. -/
theorem split_extended {history more earlier later : List α} {event : α}
    (h : history ++ more = earlier ++ event :: later) :
    (∃ rest, history = earlier ++ event :: rest) ∨
      ∃ middle, earlier = history ++ middle ∧ event ∈ more := by
  rcases List.append_eq_append_iff.mp h with ⟨middle, hearlier, hmore⟩ | ⟨middle, hhistory, hlater⟩
  · exact .inr ⟨middle, hearlier, hmore ▸ List.mem_append_right _ List.mem_cons_self⟩
  · cases middle with
    | nil =>
        rw [List.append_nil] at hhistory
        rw [List.nil_append] at hlater
        exact .inr ⟨[], by rw [hhistory, List.append_nil], hlater ▸ List.mem_cons_self⟩
    | cons head middle =>
        obtain ⟨rfl, -⟩ := List.cons.inj hlater
        exact .inl ⟨middle, hhistory⟩

/-- The discipline of a property that each thread's own history has. -/
def Discipline.ofOwn (rules : Rules M) (property : List (Event M) → Prop) :
    Discipline M rules where
  Inv config := ∀ thread, property (config.own thread)
  Evolves _ _ := True
  refl _ := trivial
  trans _ _ := trivial

variable (rules) in
/-- A thread with this history keeps the property while it runs the program, and the result and
the history it ends with satisfy `post`. -/
def Local (property : List (Event M) → Prop) (thread : Nat) (outer : Option M.Span)
    (program : M.Prog α) (post : α → List (Event M) → Prop) (history : List (Event M)) : Prop :=
  ∀ config : Config M, config.own thread = history →
    (Discipline.ofOwn rules property).Safe thread outer program
      (fun result config => post result (config.own thread)) config

section Rules

variable {property : List (Event M) → Prop} {thread : Nat} {outer : Option M.Span}
  {history : List (Event M)}

/-- A program that returns leaves the history as it is. -/
theorem local_pure {result : α} {post : α → List (Event M) → Prop} (h : post result history) :
    Local rules property thread outer (pure result) post history := by
  rintro config rfl
  exact h

/-- A request extends the history. -/
theorem local_request {request : M.Request} {post : M.Answer request → List (Event M) → Prop}
    (h : ∀ env world, rules.permits env outer request world →
      property (history ++ [.act ⟨thread, outer, request, env, world⟩]) ∧
      post (M.answer env request world).1
        (history ++ [.act ⟨thread, outer, request, env, world⟩])) :
    Local rules property thread outer (.request request) post history := by
  rintro config rfl
  rw [Discipline.safe_request]
  intro current hrely hinv env hpermits
  obtain ⟨hproperty, hpost⟩ := h env current.world hpermits
  rw [← hrely.own, ← Config.own_act_self] at hproperty hpost
  refine ⟨fun other => ?_, trivial, hpost⟩
  by_cases hne : thread = other
  · exact hne ▸ hproperty
  · rw [Config.own_act_other _ hne]
    exact hinv other

/-- A composition continues with the history of its first part. -/
theorem local_bind {program : M.Prog α} {next : α → M.Prog β}
    {post : β → List (Event M) → Prop}
    (h : Local rules property thread outer program
      (fun result history => Local rules property thread outer (next result) post history)
      history) :
    Local rules property thread outer (program >>= next) post history := by
  intro config hconfig
  rw [Discipline.safe_bind]
  exact (h config hconfig).mono fun result config hlocal => hlocal config rfl

/-- A span is carried by the judgement. -/
theorem local_within {program : M.Prog α} {span : M.Span} {post : α → List (Event M) → Prop}
    (h : Local rules property thread (outer.or (some span)) program post history) :
    Local rules property thread outer (program.within span) post history := by
  intro config hconfig
  rw [Discipline.safe_within]
  exact h config hconfig

/-- A weaker postcondition is easier to reach. -/
theorem Local.mono {program : M.Prog α} {post weaker : α → List (Event M) → Prop}
    (h : Local rules property thread outer program post history)
    (hpost : ∀ result history, post result history → weaker result history) :
    Local rules property thread outer program weaker history :=
  fun config hconfig => (h config hconfig).mono fun result _ => hpost result _

/-- A request first, then the rest of the program. -/
theorem local_request_bind {request : M.Request} {next : M.Answer request → M.Prog β}
    {post : β → List (Event M) → Prop}
    (h : ∀ env world, rules.permits env outer request world →
      property (history ++ [.act ⟨thread, outer, request, env, world⟩]) ∧
      Local rules property thread outer (next (M.answer env request world).1) post
        (history ++ [.act ⟨thread, outer, request, env, world⟩])) :
    Local rules property thread outer (.request request >>= next) post history :=
  local_bind (local_request h)

/-- A request first, and then the program goes on with what it got. -/
theorem local_got_bind {request : M.Request} {next : M.Answer request → M.Prog β}
    {post : β → List (Event M) → Prop}
    (h : ∀ (act : Act M) (reply : M.Answer request), act.span = outer → act.Got request reply →
      property (history ++ [.act act]) ∧
      Local rules property thread outer (next reply) post (history ++ [.act act])) :
    Local rules property thread outer (.request request >>= next) post history :=
  local_request_bind fun env world _ =>
    h ⟨thread, outer, request, env, world⟩ _ rfl ⟨rfl, rfl⟩

/-- Acts of a kind that the program is bound to extend the history. -/
theorem local_acts {program : M.Prog α} {allowed : M.Request → Prop} {kind : Act M → Prop}
    (hmakes : program.Makes allowed)
    (hkind : ∀ (act : Act M) (span : Option M.Span), act.span = outer.or span →
      allowed act.request → kind act)
    (h : ∀ acts : List (Act M), (∀ act ∈ acts, kind act) → property (history ++ acts.map .act)) :
    Local rules property thread outer program
      (fun _ later => ∃ acts : List (Act M), later = history ++ acts.map .act ∧
        ∀ act ∈ acts, kind act) history := by
  induction program generalizing history with
  | done result => exact local_pure ⟨[], by simp, fun _ => nofun⟩
  | call span request next ih =>
      rintro config rfl current hrely hinv env hpermits
      have hown : (current.act thread (outer.or span) request env).own thread =
          config.own thread ++ [.act ⟨thread, outer.or span, request, env, current.world⟩] := by
        rw [Config.own_act_self, hrely.own]
      have hact : kind ⟨thread, outer.or span, request, env, current.world⟩ :=
        hkind _ span rfl hmakes.1
      refine ⟨fun other => ?_, trivial, ?_⟩
      · by_cases hne : thread = other
        · rw [← hne, hown]
          exact h _ (List.forall_mem_singleton.mpr hact)
        · rw [Config.own_act_other _ hne]
          exact hinv other
      · have hmore : ∀ acts : List (Act M), (∀ act ∈ acts, kind act) →
            property (config.own thread ++
              [.act ⟨thread, outer.or span, request, env, current.world⟩] ++ acts.map .act) := by
          intro acts hacts
          rw [List.append_assoc]
          exact h (_ :: acts) (List.forall_mem_cons.mpr ⟨hact, hacts⟩)
        refine (ih _ (hmakes.2 _) hmore _ hown).mono fun result after hafter => ?_
        obtain ⟨acts, hlater, hacts⟩ := hafter
        refine ⟨⟨thread, outer.or span, request, env, current.world⟩ :: acts, ?_, ?_⟩
        · rw [hlater, List.append_assoc, List.map_cons, List.singleton_append]
        · exact List.forall_mem_cons.mpr ⟨hact, hacts⟩

/-- Requests of one kind extend the history by acts of that kind. -/
theorem local_makes {program : M.Prog α} {allowed : M.Request → Prop}
    (hmakes : program.Makes allowed) (h : ∀ more, property (history ++ more)) :
    Local rules property thread outer program
      (fun _ later => ∃ acts : List (Act M), later = history ++ acts.map .act ∧
        ∀ act ∈ acts, allowed act.request) history :=
  local_acts hmakes (fun _ _ _ hallowed => hallowed) fun _ _ => h _

/-- A property that no request can break needs no look at the program. -/
theorem local_any {program : M.Prog α} (h : ∀ more, property (history ++ more)) :
    Local rules property thread outer program (fun _ _ => True) history :=
  (local_makes (Program.Makes.of_forall fun _ => trivial) h).mono fun _ _ _ => trivial

/-- What holds by two arguments holds at once. -/
theorem Local.and {program : M.Prog α} {property' : List (Event M) → Prop}
    {post post' : α → List (Event M) → Prop}
    (h : Local rules property thread outer program post history)
    (h' : Local rules property' thread outer program post' history) :
    Local rules (fun events => property events ∧ property' events) thread outer program
      (fun result later => post result later ∧ post' result later) history := by
  intro config hconfig
  have hsafe := h config hconfig
  have hsafe' := h' config hconfig
  clear h h' hconfig
  induction program generalizing config with
  | done result => exact ⟨hsafe, hsafe'⟩
  | call span request next ih =>
      intro current hrely hinv env hpermits
      obtain ⟨hproperty, -, hnext⟩ := hsafe current ⟨trivial, hrely.grows, hrely.own⟩
        (fun other => (hinv other).1) env hpermits
      obtain ⟨hproperty', -, hnext'⟩ := hsafe' current ⟨trivial, hrely.grows, hrely.own⟩
        (fun other => (hinv other).2) env hpermits
      exact ⟨fun other => ⟨hproperty other, hproperty' other⟩, trivial, ih _ _ hnext hnext'⟩

end Rules

/-- If every call keeps a property from its start on, every thread has it, and a call that has
returned satisfies its postcondition. -/
theorem Reachable.own_holds {property : List (Event M) → Prop}
    (post : (call : M.Call) → M.Result call → List (Event M) → Prop) (hnil : property [])
    (hcalls : ∀ call thread before, rules.admits call →
      property [.start thread call before] ∧
      Local rules property thread none (M.body call) (post call) [.start thread call before])
    {world : M.World} {state : State M} (hreach : Reachable rules world state) :
    (∀ thread, property (state.config.own thread)) ∧
    ∀ (thread : Nat) (call : M.Call) (result : M.Result call),
      state.threads[thread]? = some ⟨call, .done result⟩ →
        post call result (state.config.own thread) := by
  have hcert : (Discipline.ofOwn rules property).Certified fun call thread result config =>
      post call result (config.own thread) := by
    refine ⟨fun call thread config hadmits hinv hown => ?_, fun call thread result before after
      hrely _ h => ?_⟩
    · have hstart : (config.start thread call).own thread = [.start thread call config.world] := by
        rw [Config.own_start_self, hown, List.nil_append]
      obtain ⟨hproperty, hlocal⟩ := hcalls call thread config.world hadmits
      refine ⟨fun other => ?_, trivial, hlocal _ hstart⟩
      by_cases hne : thread = other
      · rw [← hne, hstart]
        exact hproperty
      · rw [Config.own_start_other _ hne]
        exact hinv other
    · rw [hrely.own]
      exact h
  have hholds := hcert.sound (fun _ => hnil) hreach
  exact ⟨hholds.inv, fun thread call result ht => hholds.finished ht⟩

end StellarPay.Interleaving
