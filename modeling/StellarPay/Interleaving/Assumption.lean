import StellarPay.Interleaving.Safety

/-!
# Disciplines of some runs

Some invariants hold only of runs whose history has a property, such as that one thread at most
runs a certain call. Since a history grows, such a property, once it is lost, stays lost. A
discipline is weakened by an `Assumption` on the history, and its obligations are then met with the
assumption at hand.
-/

namespace StellarPay.Interleaving

variable {M : Machine} {rules : Rules M} {α β : Type}

/-- A property of histories that a longer history has only if the shorter one has it. -/
structure Assumption (M : Machine) where
  Holds : List (Event M) → Prop
  shorter {earlier later : List (Event M)} : earlier <+: later → Holds later → Holds earlier

namespace Discipline

variable (D : Discipline M rules) (assumption : Assumption M)

/-- The discipline, for the runs whose history has the property. -/
def assuming : Discipline M rules where
  Inv config := assumption.Holds config.trace → D.Inv config
  Evolves before after :=
    before.trace <+: after.trace ∧ (assumption.Holds after.trace → D.Evolves before after)
  refl config := ⟨List.prefix_refl _, fun _ => D.refl config⟩
  trans h h' := ⟨h.1.trans h'.1, fun hlast =>
    D.trans (h.2 (assumption.shorter h'.1 hlast)) (h'.2 hlast)⟩

/-- The program is safe in the runs whose history has the property, and what it returns then
satisfies `post`. -/
def SafeAssuming (thread : Nat) (outer : Option M.Span) (program : M.Prog α)
    (post : α → Config M → Prop) (config : Config M) : Prop :=
  (D.assuming assumption).Safe thread outer program
    (fun result config => assumption.Holds config.trace → post result config) config

variable {D assumption} {thread : Nat} {outer : Option M.Span} {config : Config M}

/-- A history that has lost the property asks for nothing more. -/
theorem safe_assuming_of_not {program : M.Prog α} {post : α → Config M → Prop}
    (h : ¬ assumption.Holds config.trace) :
    D.SafeAssuming assumption thread outer program post config := by
  induction program generalizing config with
  | done result => exact fun hholds => absurd hholds h
  | call span request next ih =>
      intro current hrely _ env _
      have hgrows : config.trace <+: (current.act thread (outer.or span) request env).trace :=
        hrely.grows.trans (List.prefix_append _ _)
      have hnot : ¬ assumption.Holds (current.act thread (outer.or span) request env).trace :=
        fun hholds => h (assumption.shorter hgrows hholds)
      exact ⟨fun hholds => absurd hholds hnot, ⟨List.prefix_append _ _, fun hholds =>
        absurd hholds hnot⟩, ih _ hnot⟩

/-- A program that returns. -/
theorem safe_assuming_pure {result : α} {post : α → Config M → Prop} (h : post result config) :
    D.SafeAssuming assumption thread outer (pure result) post config :=
  fun _ => h

/-- What the others do follows the discipline as long as the history has the property. -/
theorem Rely.of_assuming {before after : Config M}
    (h : (D.assuming assumption).Rely thread before after)
    (hholds : assumption.Holds after.trace) : D.Rely thread before after :=
  ⟨h.evolves.2 hholds, h.grows, h.own⟩

/-- A single request, with the property of the history it leads to. -/
theorem safe_assuming_request {request : M.Request} {post : M.Answer request → Config M → Prop}
    (h : ∀ current, D.Rely thread config current → D.Inv current →
      ∀ env, rules.permits env outer request current.world →
        assumption.Holds (current.act thread outer request env).trace →
          D.Inv (current.act thread outer request env) ∧
          D.Evolves current (current.act thread outer request env) ∧
          post (M.answer env request current.world).1 (current.act thread outer request env)) :
    D.SafeAssuming assumption thread outer (.request request) post config := by
  refine safe_request.mpr fun current hrely hinv env hpermits => ?_
  have hgrows : current.trace <+: (current.act thread outer request env).trace :=
    List.prefix_append _ _
  have hall := fun hholds => h current
    (hrely.of_assuming (assumption.shorter hgrows hholds))
    (hinv (assumption.shorter hgrows hholds)) env hpermits hholds
  exact ⟨fun hholds => (hall hholds).1, ⟨hgrows, fun hholds => (hall hholds).2.1⟩,
    fun hholds => (hall hholds).2.2⟩

/-- A composition is safe when its first part is safe up to the safety of the second. -/
theorem safe_assuming_bind {program : M.Prog α} {next : α → M.Prog β}
    {post : β → Config M → Prop}
    (h : D.SafeAssuming assumption thread outer program
      (fun result => D.SafeAssuming assumption thread outer (next result) post) config) :
    D.SafeAssuming assumption thread outer (program >>= next) post config := by
  refine safe_bind.mpr (Safe.mono h fun result config hnext => ?_)
  by_cases hholds : assumption.Holds config.trace
  · exact hnext hholds
  · exact safe_assuming_of_not hholds

/-- A request first, then the rest of the program. -/
theorem safe_assuming_request_bind {request : M.Request} {next : M.Answer request → M.Prog β}
    {post : β → Config M → Prop}
    (h : ∀ current, D.Rely thread config current → D.Inv current →
      ∀ env, rules.permits env outer request current.world →
        assumption.Holds (current.act thread outer request env).trace →
          D.Inv (current.act thread outer request env) ∧
          D.Evolves current (current.act thread outer request env) ∧
          D.SafeAssuming assumption thread outer (next (M.answer env request current.world).1) post
            (current.act thread outer request env)) :
    D.SafeAssuming assumption thread outer (.request request >>= next) post config :=
  safe_assuming_bind (safe_assuming_request h)

/-- A span is carried by the judgement. -/
theorem safe_assuming_within {program : M.Prog α} {span : M.Span} {post : α → Config M → Prop}
    (h : D.SafeAssuming assumption thread (outer.or (some span)) program post config) :
    D.SafeAssuming assumption thread outer (program.within span) post config :=
  safe_within.mpr h

/-- A weaker postcondition is easier to reach. -/
theorem SafeAssuming.mono {program : M.Prog α} {post weaker : α → Config M → Prop}
    (h : D.SafeAssuming assumption thread outer program post config)
    (hpost : ∀ result config, post result config → weaker result config) :
    D.SafeAssuming assumption thread outer program weaker config :=
  Safe.mono h fun result config hresult hholds => hpost result config (hresult hholds)

/-- A program whose requests never break the discipline is safe without looking at answers. -/
theorem safe_assuming_of_makes {program : M.Prog α} (allowed : M.Request → Prop)
    (hallowed : ∀ request, allowed request → ∀ current, D.Inv current → ∀ env span,
      rules.permits env span request current.world →
        D.Inv (current.act thread span request env) ∧
        D.Evolves current (current.act thread span request env))
    (hmakes : program.Makes allowed) :
    D.SafeAssuming assumption thread outer program (fun _ _ => True) config := by
  refine Safe.mono (safe_of_makes allowed (fun request hrequest current hinv env span hpermits =>
    ?_) hmakes) fun _ _ _ _ => trivial
  have hgrows : current.trace <+: (current.act thread span request env).trace :=
    List.prefix_append _ _
  have hall := fun hholds => hallowed request hrequest current
    (hinv (assumption.shorter hgrows hholds)) env span hpermits
  exact ⟨fun hholds => (hall hholds).1, hgrows, fun hholds => (hall hholds).2⟩

/-- If every call follows the discipline from its start on, in the runs whose history has the
property, then in these runs the invariant holds in every reachable state. -/
theorem inv_assuming (hcalls : ∀ call thread config, rules.admits call → D.Inv config →
      config.own thread = [] → assumption.Holds (config.start thread call).trace →
        D.Inv (config.start thread call) ∧ D.Evolves config (config.start thread call) ∧
        D.SafeAssuming assumption thread none (M.body call) (fun _ _ => True)
          (config.start thread call))
    {world : M.World} {state : State M} (hinit : D.Inv ⟨world, []⟩)
    (hreach : Reachable rules world state) (hholds : assumption.Holds state.config.trace) :
    D.Inv state.config := by
  have hcert : (D.assuming assumption).Certified fun _ _ _ _ => True := by
    refine ⟨fun call thread config hadmits hinv hown => ?_, fun _ _ _ _ _ _ _ _ => trivial⟩
    have hgrows : config.trace <+: (config.start thread call).trace := List.prefix_append _ _
    have hall := fun hholds => hcalls call thread config hadmits
      (hinv (assumption.shorter hgrows hholds)) hown hholds
    have hsafe : D.SafeAssuming assumption thread none (M.body call) (fun _ _ => True)
        (config.start thread call) := by
      by_cases hholds : assumption.Holds (config.start thread call).trace
      · exact (hall hholds).2.2
      · exact safe_assuming_of_not hholds
    exact ⟨fun hholds => (hall hholds).1, ⟨hgrows, fun hholds => (hall hholds).2.1⟩,
      Safe.mono hsafe fun _ _ _ => trivial⟩
  exact (hcert.sound (fun _ => hinit) hreach).inv hholds

end Discipline

end StellarPay.Interleaving
