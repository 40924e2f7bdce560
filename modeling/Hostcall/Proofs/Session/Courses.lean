import Hostcall.Proofs.Session.Transitions

/-!
# The course of a program with a host

What a program and its host do together does not depend on how the engine is called. `Course.step`
says it without an engine: the machine executes an instruction, or the host handles an operation.

* `Host.Echoes`: a host that does as another one does, and pauses at any time besides.
* `Host.recording`: a host that keeps a record of the operations and of the arenas it has seen.
* `foldl_grant`: what the wishes of a host make of a session is what they make of the machine.
-/

namespace Hostcall

open Attempt

/-! ## Hosts -/

/-- The host never asks for a pause. -/
def Host.Quiet {σ : Type} (host : Host σ) : Prop :=
  ∀ state op arena, .pause ∉ (host.respond state op arena).1.wishes

/-- The host does as another one does whose state is a view of its own, pauses apart. -/
structure Host.Echoes {σ τ : Type} (host : Host τ) (view : τ → σ) (other : Host σ) : Prop where
  wishes : ∀ state op arena, (host.respond state op arena).1.wishes.filter (· ≠ .pause) =
    (other.respond (view state) op arena).1.wishes
  outcome : ∀ state op arena,
    (host.respond state op arena).1.outcome = (other.respond (view state) op arena).1.outcome
  state : ∀ state op arena,
    view (host.respond state op arena).2 = (other.respond (view state) op arena).2

/-- What a host has seen: the operations and the arenas that came with them. -/
abbrev Record : Type := List (Operation × Arena)

/-- The host keeps a record of what it sees. -/
def Host.recording {σ : Type} (host : Host σ) : Host (σ × Record) where
  respond seen op arena :=
    let (response, state) := host.respond seen.1 op arena
    (response, (state, seen.2 ++ [(op, arena)]))

section Hosts

variable {σ τ : Type} {host : Host τ} {other : Host σ} {view : τ → σ}

theorem Host.Quiet.recording (h : other.Quiet) : other.recording.Quiet :=
  fun seen op arena => h seen.1 op arena

theorem Host.Quiet.echoes (h : other.Quiet) : other.Echoes id other where
  wishes state op arena := by
    apply List.filter_eq_self.mpr
    intro wish hwish
    refine decide_eq_true ?_
    rintro rfl
    exact h state op arena hwish
  outcome _ _ _ := rfl
  state _ _ _ := rfl

theorem Host.Echoes.recording (h : host.Echoes view other) :
    host.recording.Echoes (Prod.map view id) other.recording where
  wishes seen op arena := h.wishes seen.1 op arena
  outcome seen op arena := h.outcome seen.1 op arena
  state seen op arena := Prod.ext (h.state seen.1 op arena) rfl

end Hosts

/-! ## Courses -/

namespace Machine

/-- The position of a label of the innermost procedure. -/
def labelPosition? (m : Machine) (label : String) : Option Nat := do
  let f ← m.frames.head?
  let p ← m.procedure? f
  p.labelPosition? label

/-- What a wish makes of a machine and of where it is to go on. -/
def heed : Machine × Control → Wish → Machine × Control
  | (m, control), .perform action => ({ m with arena := (m.arena.perform action).2 }, control)
  | (m, control), .goTo label =>
    match m.labelPosition? label with
    | some position => (m, .goTo position)
    | none => (m, control)
  | (m, _), .forceReturn => (m, .leave)
  | (m, control), .pause => (m, control)

theorem foldl_heed_filter (wishes : List Wish) (start : Machine × Control) :
    (wishes.filter (· ≠ .pause)).foldl heed start = wishes.foldl heed start := by
  induction wishes generalizing start with
  | nil => rfl
  | cons wish rest ih =>
    cases wish with
    | pause => exact ih start
    | perform | goTo | forceReturn => exact ih _

end Machine

/-- How far a machine and its host have come. -/
inductive Course (σ : Type) where
  | executing (m : Machine) (state : σ)
  | asking (m : Machine) (d : Dispatch) (state : σ)
  | over (fault? : Option Fault) (state : σ)

/-- The course after an operation has been answered. -/
def Course.after {σ : Type} (state : σ) : Except Fault Machine → Course σ
  | .error fault => .over (some fault) state
  | .ok m => .executing m state

/-- One instruction of the machine, or the host's answer to one operation. -/
def Course.step {σ : Type} (host : Host σ) : Course σ → Course σ
  | .executing m state =>
    match Session.advance {} 0 m with
    | .error fault => .over (some fault) state
    | .ok .finished => .over none state
    | .ok (.next m) => .executing m state
    | .ok (.dispatch m d) => .asking m d state
  | .asking m d state =>
    let (response, state) := host.respond state d.operation m.arena
    let (m, control) := response.wishes.foldl Machine.heed (m, .proceed)
    .after state (Session.answered m d control response.outcome)
  | .over fault? state => .over fault? state

theorem Course.step_asking {σ : Type} (host : Host σ) (m : Machine) (d : Dispatch) (state : σ) :
    Course.step host (.asking m d state) =
      let answer := host.respond state d.operation m.arena
      let heeded := answer.1.wishes.foldl Machine.heed (m, .proceed)
      .after answer.2 (Session.answered heeded.1 d heeded.2 answer.1.outcome) := rfl

theorem Course.step_of_frames_eq_nil {σ : Type} (host : Host σ) {m : Machine}
    (hframes : m.frames = []) (state : σ) :
    Course.step host (.executing m state) = .over none state := by
  have hsettle : m.settle = .ok m := by
    unfold Machine.settle
    rw [hframes]
    rfl
  have hadvance : Session.advance {} 0 m = .ok .finished := by
    unfold Session.advance
    rw [hsettle]
    simp [hframes, bind, Except.bind, pure, Except.pure]
  simp only [Course.step, hadvance]

/-- What can be said of a context that is executed. -/
inductive Course.Outcome where
  | going
  | completed
  | faulted (fault : Fault)
  /-- Anything else, such as a refused call. No course comes to it. -/
  | astray
  deriving DecidableEq

/-- What can be told of a course: the state of the host and the outcome so far. -/
def Course.report {σ : Type} : Course σ → σ × Course.Outcome
  | .executing _ state | .asking _ _ state => (state, .going)
  | .over none state => (state, .completed)
  | .over (some fault) state => (state, .faulted fault)

namespace Session

/-- Without a limit, it does not matter how many instructions have been executed. -/
theorem advance_of_unlimited {settings : Settings} (h : settings.stepLimit = none) (spent : Nat)
    (m : Machine) : advance settings spent m = advance {} 0 m := by
  unfold advance withinLimit
  rw [h]

/-- The call in progress with the wishes of its host carried out: they have come to a machine and to
where it goes on. -/
def heeding (a : Activation) (d : Dispatch) (heeded : Machine × Control) (paused : Bool) :
    Activation :=
  { a with
    context := { a.context with machine := heeded.1 }
    phase := .handling d heeded.2 paused }

variable {s : Session} {a : Activation} {rest : List Activation} {d : Dispatch} {control : Control}
  {paused : Bool}

/-- A wish changes the machine, where it goes on and whether it pauses, and nothing else. -/
theorem grant_eq (hactive : s.active = a :: rest) (hphase : a.phase = .handling d control paused)
    (wish : Wish) :
    s.grant wish = { s with
      active := heeding a d (Machine.heed (a.context.machine, control) wish)
        (paused || wish = .pause) :: rest } := by
  unfold heeding
  cases wish with
  | perform action =>
    simp [grant, perform, hactive, hphase, Machine.heed, Context.withArena, Context.arena]
  | goTo label =>
    have hlabel : a.context.labelPosition? label = a.context.machine.labelPosition? label := rfl
    simp only [grant, goTo, hactive, hphase, hlabel, Machine.heed]
    cases a.context.machine.labelPosition? label with
    | none => simp [← hphase, ← hactive]
    | some position => simp [request, hactive, hphase]
  | forceReturn => simp [grant, forceReturn, request, hactive, hphase, Machine.heed]
  | pause => simp [grant, pause, request, hactive, hphase, Machine.heed]

/-- **The wishes of a host.** They change the machine and where it goes on, one after the other, and
the call pauses if any of them asks for it. -/
theorem foldl_grant (hactive : s.active = a :: rest)
    (hphase : a.phase = .handling d control paused) (wishes : List Wish) :
    wishes.foldl grant s = { s with
      active := heeding a d (wishes.foldl Machine.heed (a.context.machine, control))
        (paused || decide (.pause ∈ wishes)) :: rest } := by
  induction wishes generalizing s a control paused with
  | nil => simp [heeding, ← hphase, ← hactive]
  | cons wish others ih =>
    have hpauses : (paused || decide (.pause ∈ wish :: others)) =
        (paused || decide (wish = .pause) || decide (.pause ∈ others)) := by
      rw [Bool.or_assoc, ← Bool.decide_or]
      simp only [List.mem_cons, eq_comm]
    rw [hpauses, List.foldl_cons, grant_eq hactive hphase]
    exact ih (a := heeding a d (Machine.heed (a.context.machine, control) wish)
      (paused || decide (wish = .pause))) rfl rfl

end Session

end Hostcall
