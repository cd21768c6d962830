import Mathlib.Control.Basic

/-!
# Programs over typed requests

A `Program` either returns or makes one request and continues with the answer. What a
request does to the world is not part of the program: `run` interprets a program alone, and
`Interleaving.Machine` interprets many of them step by step. A request may carry a span, the
name of the unit of work it is made for, so that an environment can answer each unit by itself.
-/

namespace StellarPay.Interleaving

/-- A program that makes requests and continues with their answers. -/
inductive Program (Span : Type) {Request : Type} (Answer : Request → Type) (α : Type) : Type where
  | done (result : α)
  | call (span : Option Span) (request : Request)
      (next : Answer request → Program Span Answer α)

namespace Program

variable {Span Request : Type} {Answer : Request → Type} {α β γ : Type}

/-- Sequential composition: the result of the first program selects the second. -/
protected def bind : Program Span Answer α → (α → Program Span Answer β) → Program Span Answer β
  | .done result, next => next result
  | .call span request rest, next => .call span request fun answer => (rest answer).bind next

instance : Monad (Program Span Answer) where
  pure := .done
  bind := Program.bind

/-- The program that makes one request, outside every span, and returns its answer. -/
def request (request : Request) : Program Span Answer (Answer request) :=
  .call none request .done

/-- The same program with every request made inside `span`. -/
def within (span : Span) : Program Span Answer α → Program Span Answer α
  | .done result => .done result
  | .call _ request next => .call (some span) request fun answer => (next answer).within span

@[simp]
theorem done_bind (result : α) (next : α → Program Span Answer β) :
    (.done result : Program Span Answer α) >>= next = next result :=
  rfl

@[simp]
theorem call_bind (span : Option Span) (request : Request)
    (rest : Answer request → Program Span Answer α) (next : α → Program Span Answer β) :
    (.call span request rest : Program Span Answer α) >>= next =
      .call span request fun answer => rest answer >>= next :=
  rfl

/-- Returning after a program changes nothing. -/
theorem bind_done (program : Program Span Answer α) : program >>= .done = program := by
  induction program with
  | done result => rfl
  | call span request next ih =>
      rw [call_bind]
      congr 1
      funext answer
      exact ih answer

/-- Composition is associative. -/
theorem bind_bind (program : Program Span Answer α) (first : α → Program Span Answer β)
    (second : β → Program Span Answer γ) :
    program >>= first >>= second = program >>= fun result => first result >>= second := by
  induction program with
  | done result => rfl
  | call span request next ih =>
      simp only [call_bind]
      congr 1
      funext answer
      exact ih answer

instance : LawfulMonad (Program Span Answer) :=
  LawfulMonad.mk' (Program Span Answer) bind_done (fun _ _ => rfl) bind_bind

section Alone

variable {Env World : Type} (answer : Env → (request : Request) → World → Answer request × World)

/-- Run a program with nobody else acting. The environment may depend on the span a request
is made in. -/
def run (env : Option Span → Env) : Program Span Answer α → World → α × World
  | .done result, world => (result, world)
  | .call span request next, world =>
      let (reply, after) := answer (env span) request world
      run env (next reply) after

@[simp]
theorem run_pure (env : Option Span → Env) (result : α) (world : World) :
    run answer env (pure result) world = (result, world) :=
  rfl

@[simp]
theorem run_request (env : Option Span → Env) (r : Request) (world : World) :
    run answer env (request r) world = answer (env none) r world :=
  rfl

/-- Running a composition is running its parts one after the other. -/
@[simp]
theorem run_bind (env : Option Span → Env) (program : Program Span Answer α)
    (next : α → Program Span Answer β) (world : World) :
    run answer env (program >>= next) world =
      run answer env (next (run answer env program world).1) (run answer env program world).2 := by
  induction program generalizing world with
  | done result => rfl
  | call span request rest ih => exact ih _ _

/-- Inside a span only the environment of that span answers. -/
@[simp]
theorem run_within (env : Option Span → Env) (span : Span) (program : Program Span Answer α)
    (world : World) :
    run answer env (program.within span) world =
      run answer (fun _ => env (some span)) program world := by
  induction program generalizing world with
  | done result => rfl
  | call _ request next ih => exact ih _ _

end Alone

/-- Every request the program can make, whatever the answers, satisfies `allowed`. -/
def Makes (allowed : Request → Prop) : Program Span Answer α → Prop
  | .done _ => True
  | .call _ request next => allowed request ∧ ∀ answer, (next answer).Makes allowed

section Makes

variable {allowed : Request → Prop}

@[simp]
theorem makes_pure (result : α) : (pure result : Program Span Answer α).Makes allowed :=
  trivial

@[simp]
theorem makes_request (r : Request) :
    (request r : Program Span Answer (Answer r)).Makes allowed ↔ allowed r :=
  ⟨And.left, fun h => ⟨h, fun _ => trivial⟩⟩

@[simp]
theorem makes_request_bind (r : Request) (next : Answer r → Program Span Answer α) :
    (request r >>= next : Program Span Answer α).Makes allowed ↔
      allowed r ∧ ∀ answer, (next answer).Makes allowed :=
  Iff.rfl

/-- A program makes only requests. -/
theorem Makes.of_forall {program : Program Span Answer α} (h : ∀ request, allowed request) :
    program.Makes allowed := by
  induction program with
  | done result => trivial
  | call span request next ih => exact ⟨h request, ih⟩

/-- A program that makes only certain requests makes only more general ones. -/
theorem Makes.mono {program : Program Span Answer α} {weaker : Request → Prop}
    (h : program.Makes allowed) (hweaker : ∀ request, allowed request → weaker request) :
    program.Makes weaker := by
  induction program with
  | done result => trivial
  | call span request next ih =>
      exact ⟨hweaker request h.1, fun answer => ih answer (h.2 answer)⟩

/-- A composition makes the requests of its parts. -/
theorem Makes.bind {program : Program Span Answer α} {next : α → Program Span Answer β}
    (hfirst : program.Makes allowed) (hnext : ∀ result, (next result).Makes allowed) :
    (program >>= next).Makes allowed := by
  induction program with
  | done result => exact hnext result
  | call span request rest ih => exact ⟨hfirst.1, fun answer => ih answer (hfirst.2 answer)⟩

/-- A span does not change which requests are made. -/
@[simp]
theorem makes_within {program : Program Span Answer α} {span : Span} :
    (program.within span).Makes allowed ↔ program.Makes allowed := by
  induction program with
  | done result => exact Iff.rfl
  | call _ request next ih => exact and_congr_right fun _ => forall_congr' ih

end Makes

end Program

end StellarPay.Interleaving
