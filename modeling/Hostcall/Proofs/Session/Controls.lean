import Hostcall.Proofs.Session.Courses
import Hostcall.Proofs.Session.Retries
import Hostcall.Proofs.Session.Returns

/-!
# How a context goes on after an operation

While a host handles an operation it may ask, as often as it likes, to go on at a label or to return
from the procedure, and it may use the arena in between. Requests do not touch the machine and uses
of the arena do not touch the request, so a response comes to one arena and one request
(`foldl_heed`): the last request that did not name an unknown label.

* `Machine.Applied`: what a request makes of a machine on which the operation has been ended. To
  return is to execute a return in the frame that issued the operation, although the code need not
  have one there.
* `Session.Obeyed`: what becomes of a response, however it ends.
* `last_request_is_applied`: every operation of every history is answered in this way.
-/

namespace Hostcall

open Attempt

/-! ## Requests -/

/-- Where a wish asks a context to go on that executes a procedure. A label that the procedure does
not have asks for nothing. -/
def Wish.control? (p : Procedure) : Wish → Option Control
  | .goTo label => (p.labelPosition? label).map .goTo
  | .forceReturn => some .leave
  | .perform _ | .pause => none

/-- What a wish asks of the arena. -/
def Wish.action? : Wish → Option Arena.Action
  | .perform action => some action
  | .goTo _ | .forceReturn | .pause => none

/-- The wish is about where the context goes on. -/
def Wish.isRequest : Wish → Bool
  | .goTo _ | .forceReturn => true
  | .perform _ | .pause => false

namespace Procedure

/-- The request in force after some wishes, if `before` was in force: the last one that names no
unknown label. -/
def controlAfter (p : Procedure) (before : Control) (wishes : List Wish) : Control :=
  (wishes.filterMap (Wish.control? p)).getLast?.getD before

theorem controlAfter_cons (p : Procedure) (before : Control) (wish : Wish) (wishes : List Wish) :
    p.controlAfter before (wish :: wishes) =
      p.controlAfter ((wish.control? p).getD before) wishes := by
  unfold controlAfter
  cases hwish : wish.control? p with
  | none => simp [hwish]
  | some control => simp [hwish, List.getLast?_cons]

theorem labelPosition?_eq_none_iff {p : Procedure} {label : String} :
    p.labelPosition? label = none ↔ ∀ l ∈ p.labels, l.1 ≠ label := by
  simp [labelPosition?]

end Procedure

theorem filter_isRequest_control? (p : Procedure) (wishes : List Wish) :
    (wishes.filter (!·.isRequest)).filterMap (Wish.control? p) = [] := by
  apply List.filterMap_eq_nil_iff.mpr
  intro wish hwish
  obtain ⟨_, hplain⟩ := List.mem_filter.mp hwish
  cases wish with
  | perform | pause => rfl
  | goTo | forceReturn => cases hplain

theorem filter_isRequest_action? (wishes : List Wish) :
    (wishes.filter (!·.isRequest)).filterMap Wish.action? = wishes.filterMap Wish.action? := by
  induction wishes with
  | nil => rfl
  | cons wish others ih =>
    cases wish with
    | perform action => exact congrArg (action :: ·) ih
    | goTo | forceReturn | pause => exact ih

theorem pause_mem_filter_isRequest {wishes : List Wish} :
    .pause ∈ wishes.filter (!·.isRequest) ↔ .pause ∈ wishes := by
  simp [List.mem_filter, Wish.isRequest]

namespace Machine

variable {m n k : Machine} {f g : Frame} {callers : List Frame} {p : Procedure} {d : Dispatch}

theorem labelPosition?_eq (hframes : m.frames = f :: callers) (hp : m.procedure? f = some p)
    (label : String) : m.labelPosition? label = p.labelPosition? label := by
  simp [labelPosition?, hframes, hp]

/-- The machine after its host has used the arena. -/
def worked (m : Machine) (wishes : List Wish) : Machine :=
  { m with arena := m.arena.performAll (wishes.filterMap Wish.action?) }

/-- **The wishes of a host.** What they ask of the arena is done, and the last request counts. -/
theorem foldl_heed (hframes : m.frames = f :: callers) (hp : m.procedure? f = some p)
    (control : Control) (wishes : List Wish) :
    wishes.foldl heed (m, control) = (m.worked wishes, p.controlAfter control wishes) := by
  induction wishes generalizing m control with
  | nil => rfl
  | cons wish others ih =>
    rw [List.foldl_cons, p.controlAfter_cons]
    cases wish with
    | perform action => exact ih (m := { m with arena := (m.arena.perform action).2 }) hframes hp _
    | forceReturn | pause => exact ih hframes hp _
    | goTo label =>
      rw [heed, labelPosition?_eq hframes hp]
      cases hposition : p.labelPosition? label with
      | none =>
        simp only [Wish.control?, hposition]
        exact ih hframes hp _
      | some position =>
        simp only [Wish.control?, hposition]
        exact ih hframes hp _

theorem Reachable.worked {stage : Stage} (h : m.Reachable (fun _ _ => True) stage)
    (wishes : List Wish) : (m.worked wishes).Reachable (fun _ _ => True) stage := by
  induction wishes generalizing m with
  | nil => exact h
  | cons wish others ih =>
    cases wish with
    | perform action =>
      exact ih (m := { m with arena := (m.arena.perform action).2 }) (h.perform trivial)
    | goTo | forceReturn | pause => exact ih h

/-! ## Applying a request -/

/-- What a request makes of a machine `k` on which the operation `d` has been ended. The frame that
issued it is of the procedure `p` and lies above `callers`. -/
inductive Applied (p : Procedure) (callers : List Frame) (d : Dispatch) (k : Machine) :
    Control → Machine → Prop where
  | proceed : Applied p callers d k .proceed k
  /-- The frame has nothing in hand, and the stack goes back to where the outermost of its
  operations was opened. -/
  | goTo {g : Frame} (position : Nat) (frames : k.frames = g :: callers) :
      Applied p callers d k (.goTo position)
        { k with
          arena := { k.arena with top := g.scratches.getLast?.getD d.scratch }
          frames := { g with position, addresses := [], pending := [] } :: callers }
  /-- The frame executes a return. -/
  | leave {n : Machine} {g : Frame} (frames : k.frames = g :: callers)
      (procedure : k.procedure? g = some p)
      (ret : k.execute p { g with position := g.position + 1 } callers g.position .ret =
        .ok (.next n)) : Applied p callers d k .leave n

/-- A return does not depend on where the frame stands. -/
theorem execute_ret (hframes : k.frames = g :: callers) (position : Nat) :
    k.execute p { g with position := position + 1 } callers position .ret =
      (do return .next (← k.leave)) := by
  have hleave : leave { k with frames := { g with position := position + 1 } :: callers } =
      k.leave := by
    unfold leave
    rw [hframes]
    rfl
  unfold execute
  rw [hleave]

/-- **The answer to an operation** ends it and then applies the request. -/
theorem applied_of_complete {control : Control} (hframes : m.frames = f :: callers)
    (hp : m.procedure? f = some p) (hk : m.complete d .proceed = .ok k)
    (h : m.complete d control = .ok n) : Applied p callers d k control n := by
  obtain ⟨k', hclose, hproceed⟩ := bind_eq_ok_iff.mp hk
  cases hproceed
  obtain ⟨k', hclose', happly⟩ := bind_eq_ok_iff.mp h
  cases hclose.symm.trans hclose'
  obtain ⟨g, hkframes, hplace, -⟩ := closeOperation_cases hframes hclose
  cases control with
  | proceed =>
    cases happly
    exact .proceed
  | goTo position =>
    rw [eq_of_redirect hkframes happly]
    exact .goTo position hkframes
  | leave =>
    obtain ⟨-, hprogram, -⟩ := closeOperation_eq_ok hclose
    have hprocedure : k.procedure? g = some p := by
      rw [← hp]
      unfold procedure?
      rw [hprogram, hplace.call.procedure]
    refine .leave hkframes hprocedure ?_
    rw [execute_ret hkframes]
    exact bind_eq_ok_iff.mpr ⟨n, happly, rfl⟩

end Machine

namespace Session

variable {s : Session} {a : Activation} {rest : List Activation} {d : Dispatch}
  {control : Control} {paused : Bool}

/-! ## Answers -/

/-- What comes of a call whose operation has been answered and whose machine has got to `n`. It
stops after the operation or goes on. -/
def afterAnswer (s : Session) (a : Activation) (rest : List Activation) (paused : Bool)
    (n : Machine) : Reply × Session :=
  if a.mode = .resume ∨ a.mode = .consume ∧ paused ∧ n.frames ≠ [] then
    s.checkIn a rest (a.context.withMachine n .suspended) (.ended true)
  else
    (.working, { s with active :=
      { a with context := a.context.withMachine n .running, phase := .executing } :: rest })

theorem finish_of_complete {n k : Machine} (hactive : s.active = a :: rest)
    (hphase : a.phase = .handling d control paused) (hlive : a.cancelled = false)
    (hcomplete : a.context.machine.complete d control = .ok n) (hsettle : n.settle = .ok k) :
    s.finish (.ok ()) = s.afterAnswer a rest paused k := by
  have hanswered : answered a.context.machine d control (.ok ()) = .ok k :=
    bind_eq_ok_iff.mpr ⟨n, hcomplete, hsettle⟩
  have hstatus : (a.context.withMachine k .suspended).status ≠ .finished ↔ k.frames ≠ [] := by
    simp [Context.withMachine]
  unfold finish afterAnswer
  simp only [hactive, hphase, hlive, hanswered, hstatus]
  by_cases hresume : a.mode = .resume
  · simp [hresume]
  · simp [hresume]

/-- The innermost call has handed over an operation and waits for the answer. The frame `f` of the
procedure `p` has issued the operation. -/
structure Asks (s : Session) (a : Activation) (rest : List Activation) (d : Dispatch)
    (paused : Bool) (f : Frame) (callers : List Frame) (p : Procedure) : Prop where
  active : s.active = a :: rest
  phase : a.phase = .handling d .proceed paused
  frames : a.context.machine.frames = f :: callers
  procedure : a.context.machine.procedure? f = some p

/-- The call with the wishes of its host carried out. -/
def granted (a : Activation) (d : Dispatch) (paused : Bool) (p : Procedure) (wishes : List Wish) :
    Activation :=
  heeding a d (a.context.machine.worked wishes, p.controlAfter .proceed wishes)
    (paused || decide (.pause ∈ wishes))

section

variable {f : Frame} {callers : List Frame} {p : Procedure} {wishes : List Wish}

/-- The wishes of a host come to one arena and one request. -/
theorem Asks.foldl_grant (h : s.Asks a rest d paused f callers p) (wishes : List Wish) :
    wishes.foldl grant s = { s with active := granted a d paused p wishes :: rest } := by
  rw [Session.foldl_grant h.active h.phase, Machine.foldl_heed h.frames h.procedure]
  rfl

theorem Asks.accept_of_complete {n k : Machine} (h : s.Asks a rest d paused f callers p)
    (hlive : a.cancelled = false)
    (hcomplete : (a.context.machine.worked wishes).complete d (p.controlAfter .proceed wishes) =
      .ok n) (hsettle : n.settle = .ok k) :
    s.accept ⟨wishes, .ok ()⟩ = s.afterAnswer a rest (paused || decide (.pause ∈ wishes)) k := by
  unfold accept
  rw [h.foldl_grant]
  exact finish_of_complete (a := granted a d paused p wishes) rfl rfl hlive hcomplete hsettle

theorem Asks.accept_error (h : s.Asks a rest d paused f callers p) (hlive : a.cancelled = false)
    (message : String) :
    s.accept ⟨wishes, .error message⟩ = s.fail a rest (.host d.operation.name message) := by
  unfold accept
  rw [h.foldl_grant]
  simp [finish, granted, heeding, hlive, answered, fail]

theorem Asks.accept_of_cancelled (h : s.Asks a rest d paused f callers p)
    (hcancelled : a.cancelled = true) (outcome : Except String Unit) :
    s.accept ⟨wishes, outcome⟩ = s.dropContext rest := by
  unfold accept
  rw [h.foldl_grant]
  simp [finish, granted, heeding, hcancelled, dropContext]

/-- Which labels are known does not depend on the wishes before. -/
theorem Asks.goTo_eq (h : s.Asks a rest d paused f callers p) (wishes : List Wish)
    (label : String) :
    (wishes.foldl grant s).goTo label =
      match p.labelPosition? label with
      | some position => (wishes.foldl grant s).request fun _ paused => (.goTo position, paused)
      | none => (.refused (.labelNotFound label), wishes.foldl grant s) := by
  have hlabel : (granted a d paused p wishes).context.labelPosition? label =
      p.labelPosition? label :=
    Machine.labelPosition?_eq (m := a.context.machine.worked wishes) h.frames h.procedure label
  rw [h.foldl_grant]
  unfold goTo
  simp only [hlabel]
  rfl

end

/-- What becomes of the wishes of a host that handles the operation `d` of the call `a`. The frame
that issued the operation is of the procedure `p` and lies above `callers`. -/
structure Obeyed (s : Session) (a : Activation) (rest : List Activation) (d : Dispatch)
    (paused : Bool) (p : Procedure) (callers : List Frame) (wishes : List Wish) : Prop where
  /-- The last request that has succeeded is in force. -/
  inForce : ∃ b, (wishes.foldl grant s).active = b :: rest ∧
    b.phase = .handling d (p.controlAfter .proceed wishes) (paused || decide (.pause ∈ wishes))
  /-- To go on at an unknown label is refused, and nothing changes. -/
  unknown : ∀ label, (∀ l ∈ p.labels, l.1 ≠ label) →
    (wishes.foldl grant s).goTo label = (.refused (.labelNotFound label), wishes.foldl grant s)
  known : ∀ label, (∃ l ∈ p.labels, l.1 = label) → ((wishes.foldl grant s).goTo label).1 = .done
  /-- The request in force is applied to the machine `k` to which the same response without
  requests leads. Frames whose code has come to its end then return, in both cases. -/
  applied : a.cancelled = false → ∃ k k' n n',
    (a.context.machine.worked wishes).complete d .proceed = .ok k ∧ k.SettlesTo k' ∧
    s.accept ⟨wishes.filter (!·.isRequest), .ok ()⟩ =
      s.afterAnswer a rest (paused || decide (.pause ∈ wishes)) k' ∧
    Machine.Applied p callers d k (p.controlAfter .proceed wishes) n ∧ n.SettlesTo n' ∧
    s.accept ⟨wishes, .ok ()⟩ = s.afterAnswer a rest (paused || decide (.pause ∈ wishes)) n'
  /-- A failure ends the call in the same way whatever has been asked for. -/
  failed : a.cancelled = false → ∀ message,
    s.accept ⟨wishes, .error message⟩ = s.fail a rest (.host d.operation.name message)
  dropped : a.cancelled = true → ∀ outcome, s.accept ⟨wishes, outcome⟩ = s.dropContext rest

/-- **Requests.** Take any history of an engine that has come to an operation, with any number of
operations open around it, and any wishes of its host. The request in force is always the last one
that has succeeded: an unknown label is refused and leaves the request as it was. The context goes on
from where the same wishes without requests lead as the request in force says. If this is to return,
it is as if the frame that issued the operation executed a return there. If the host fails instead,
no request is applied, and the call ends with that failure. -/
theorem last_request_is_applied (settings : Settings) (room : Nat) (calls : List Call)
    {a : Activation} {rest : List Activation} {d : Dispatch} {paused : Bool} :
    let s := (callAll { settings, room } calls).2
    s.active = a :: rest → a.phase = .handling d .proceed paused →
    ∃ f callers p, a.context.machine.frames = f :: callers ∧
      a.context.machine.procedure? f = some p ∧
      ∀ wishes, s.Obeyed a rest d paused p callers wishes := by
  intro s hactive hphase
  have hs : s.Tracked fun _ _ _ => True := tracked_history settings room (abidesAll_any _ _)
  have hreachable := hs.head hactive
  rw [hphase] at hreachable
  obtain ⟨stackSize, memorySize, hbounded, hne, _⟩ := hreachable.bounded
  obtain ⟨f, callers, hframes⟩ := List.exists_cons_of_ne_nil hne
  obtain ⟨⟨p, hp, _⟩, _⟩ := hbounded.cons hframes
  have hasks : s.Asks a rest d paused f callers p := ⟨hactive, hphase, hframes, hp⟩
  refine ⟨f, callers, p, hframes, hp, fun wishes => ?_⟩
  refine ⟨⟨granted a d paused p wishes, by rw [hasks.foldl_grant], rfl⟩, ?_, ?_, ?_,
    hasks.accept_error, hasks.accept_of_cancelled⟩
  · intro label hunknown
    rw [hasks.goTo_eq, Procedure.labelPosition?_eq_none_iff.mpr hunknown]
  · rintro label ⟨l, hl, hname⟩
    rw [hasks.goTo_eq]
    cases hposition : p.labelPosition? label with
    | none => exact absurd hname (Procedure.labelPosition?_eq_none_iff.mp hposition l hl)
    | some position =>
      rw [hasks.foldl_grant]
      rfl
  · intro hlive
    have hback := (hreachable.worked wishes).goesBack.complete d .proceed rfl
    obtain ⟨k, k', hk, hk'⟩ := hback .proceed
    obtain ⟨n, n', hn, hn'⟩ := hback (p.controlAfter .proceed wishes)
    have happlied := Machine.applied_of_complete (m := a.context.machine.worked wishes)
      hframes hp hk hn
    have hplain : (a.context.machine.worked (wishes.filter (!·.isRequest))).complete d
        (p.controlAfter .proceed (wishes.filter (!·.isRequest))) = .ok k := by
      unfold Machine.worked Procedure.controlAfter
      rw [filter_isRequest_action?, filter_isRequest_control?]
      exact hk
    refine ⟨k, k', n, n', hk, hk', ?_, happlied, hn',
      hasks.accept_of_complete hlive hn hn'.settle⟩
    rw [hasks.accept_of_complete hlive hplain hk'.settle]
    simp only [pause_mem_filter_isRequest]

/-- A procedure with a result that asks for a value in order to tell it. -/
def inquiring : Program where
  ops := #["ask", "tell"]
  procedures := #[
    { name := "main", exported := true, code := #[.call 1, .opBegin, .param, .opEnd 1 0] },
    { name := "inquire", result := some 4, labels := [("again", 0)],
      code := #[.opBegin, .opBegin, .opEnd 0 4, .param, .opEnd 1 0] }]

/-- The host is asked while the operation to tell the answer is open. -/
def inquiringAsked : List Call :=
  [.startProgram inquiring "main" 0 8, .resume ⟨0, 1⟩, .tick, .tick, .tick, .tick]

/-- The host first wants to be asked again, then gives the result itself and returns. The label that
it names last does not exist. -/
def wavering : List Wish :=
  [.goTo "again", .perform (.store 0 (.u32 7)), .forceReturn, .goTo "nowhere"]

theorem wavering_is_returned_from :
    ∃ a d f callers p, (callAll { room := 64 } inquiringAsked).2.active = [a] ∧
      a.phase = .handling d .proceed false ∧ d.slot = some 4 ∧
      a.context.machine.frames = f :: callers ∧ callers.length = 1 ∧ f.pending.length = 1 ∧
      p.controlAfter .proceed wavering = .leave ∧
      (callAll { room := 64 } inquiringAsked).2.Obeyed a [] d false p callers wavering := by
  have hseen : (callAll { room := 64 } inquiringAsked).2.active.map
      (fun a => (a.phase, a.context.machine.frames, a.context.program)) =
      [(.handling ⟨⟨"ask", [], [4]⟩, some 4, 4⟩ .proceed false,
        [{ procedure := 1, position := 3, paramsBase := 0, result := some 0, localsBase := 4,
           pending := [{ scratch := 4 }] },
         { procedure := 0, position := 1, paramsBase := 0, result := none, localsBase := 0 }],
        inquiring)] := by
    decide +kernel
  obtain ⟨a, ha, htriple⟩ := List.map_eq_singleton_iff.mp hseen
  obtain ⟨hphase, hpair⟩ := Prod.mk.inj htriple
  obtain ⟨hframes, hprogram⟩ := Prod.mk.inj hpair
  obtain ⟨f, callers, p, hcons, hp, hobeyed⟩ :=
    last_request_is_applied {} 64 inquiringAsked ha hphase
  cases hframes.symm.trans hcons
  have hprocedure : inquiring.procedures[1]? = some p := by
    rw [← hprogram]
    exact hp
  cases hprocedure
  exact ⟨a, _, _, _, _, ha, hphase, rfl, hcons, rfl, rfl, by decide, hobeyed wavering⟩

end Session

end Hostcall
