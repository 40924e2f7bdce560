import Mathlib.Data.Set.Operations
import Mathlib.Logic.Function.Iterate
import Hostcall.Proofs.Session.Courses
import Hostcall.Proofs.Session.Soundness

/-!
# Four ways to execute a program

A host can resume a context until nothing is left of it, have it consumed at once, have it consumed
and pause it as often as it likes, or run the program without a handle. These are different calls
with different ends, and they come to the same.

* `Way.step`: one step of a host that goes one of these ways.
* `Way.Follows`: a service is at a point of a course. `Way.Follows.step`: it goes on as the course
  does, but may need a step to make its call again.
* `ways_agree`: all ways give the same reports.
-/

namespace Hostcall

open Attempt Registry

/-- A way to have a context executed. -/
structure Way where
  handle : Handle
  mode : Mode
  /-- Whether the call is made again when it ends with more to come. -/
  repeats : Bool

namespace Way

variable {σ τ : Type}

/-- One step of a service, or the call that is made again. -/
def step (w : Way) (host : Host τ) (v : Service τ) : Service τ :=
  match v.reply with
  | .ended true =>
    if w.repeats then .ofCall v.state (v.session.execute w.handle w.mode) else v
  | _ => v.step host

def outcome (w : Way) : Reply → Course.Outcome
  | .working | .operation _ => .going
  | .ended true => if w.repeats then .going else .astray
  | .ended false => .completed
  | .refused (.runtimeFault h fault) => if h = w.handle then .faulted fault else .astray
  | _ => .astray

/-- The registry while the context is executed. One that is run is not registered. -/
def Holds (w : Way) (old now : Registry Resident) : Prop :=
  if w.mode = .run then now = old ∧ old.get? w.handle = none else now.contains w.handle = true

/-- The registry when the execution is over. -/
def Leaves (w : Way) (old now : Registry Resident) : Prop :=
  if w.mode = .run then now = old else now.contains w.handle = false

/-- The innermost call of the session is that of the way. -/
structure Underway (w : Way) (old : Registry Resident) (s : Session) (a : Activation)
    (rest : List Activation) : Prop where
  unlimited : s.settings.stepLimit = none
  active : s.active = a :: rest
  handle : a.handle = w.handle
  mode : a.mode = w.mode
  uncancelled : a.cancelled = false
  holds : w.Holds old s.registry

/-- A service has come to a point of a course. -/
inductive Follows (w : Way) (old : Registry Resident) (view : τ → σ) :
    Course σ → Service τ → Prop where
  | executing {state : τ} {s : Session} {a : Activation} {rest : List Activation}
      (underway : w.Underway old s a rest) (phase : a.phase = .executing) :
      Follows w old view (.executing a.context.machine (view state)) ⟨.working, state, s⟩
  | asking {state : τ} {s : Session} {a : Activation} {rest : List Activation} {d : Dispatch}
      (underway : w.Underway old s a rest) (phase : a.phase = .handling d .proceed false) :
      Follows w old view (.asking a.context.machine d (view state))
        ⟨.operation d.operation, state, s⟩
  /-- The call has ended and will be made again. -/
  | between {state : τ} {s : Session} {c : Context} (repeats : w.repeats = true)
      (mode : w.mode ≠ .run) (unlimited : s.settings.stepLimit = none)
      (idle : s.registry.get? w.handle = some (.idle c)) (settled : c.Settled) :
      Follows w old view (.executing c.machine (view state)) ⟨.ended true, state, s⟩
  | completed {state : τ} {s : Session} (leaves : w.Leaves old s.registry) :
      Follows w old view (.over none (view state)) ⟨.ended false, state, s⟩
  | faulted {state : τ} {s : Session} {fault : Fault} (leaves : w.Leaves old s.registry) :
      Follows w old view (.over (some fault) (view state))
        ⟨.refused (.runtimeFault w.handle fault), state, s⟩

/-- The way comes to its end with the host: it goes on after each call, or there is but one. -/
structure Suits (w : Way) (host : Host τ) : Prop where
  resume : w.mode = .resume → w.repeats = true
  consume : w.mode = .consume → w.repeats = true ∨ host.Quiet

variable {w : Way} {old : Registry Resident} {view : τ → σ} {s : Session} {a : Activation}
  {rest : List Activation} {host : Host τ} {other : Host σ} {v : Service τ} {c : Course σ}

/-! ## Ends of a call -/

theorem Holds.erase {now : Registry Resident} (h : w.Holds old now) :
    w.Leaves old (now.erase w.handle) := by
  unfold Holds at h
  unfold Leaves
  split at h
  · rename_i hrun
    rw [if_pos hrun, h.1, erase_of_none h.2]
  · rename_i hrun
    rw [if_neg hrun]
    exact contains_erase_self

/-- The innermost call goes on. -/
theorem Underway.goesOn (h : w.Underway old s a rest) {b : Activation}
    (handle : b.handle = a.handle) (mode : b.mode = a.mode)
    (cancelled : b.cancelled = a.cancelled) :
    w.Underway old { s with active := b :: rest } b rest :=
  ⟨h.unlimited, rfl, handle.trans h.handle, mode.trans h.mode, cancelled.trans h.uncancelled,
    h.holds⟩

theorem Underway.executes (h : w.Underway old s a rest) (phase : a.phase = .executing)
    (state : τ) :
    w.Follows old view (.executing a.context.machine (view state))
      (.ofCall state (.working, s)) :=
  .executing h phase

theorem Underway.asks (h : w.Underway old s a rest) {d : Dispatch}
    (phase : a.phase = .handling d .proceed false) (state : τ) :
    w.Follows old view (.asking a.context.machine d (view state))
      (.ofCall state (.operation d.operation, s)) :=
  .asking h phase

theorem Underway.fail (h : w.Underway old s a rest) (fault : Fault) (state : τ) :
    w.Follows old view (.over (some fault) (view state)) (.ofCall state (s.fail a rest fault)) := by
  simp only [Session.fail, h.handle]
  exact .faulted h.holds.erase

theorem Underway.finishContext (h : w.Underway old s a rest) (state : τ) :
    w.Follows old view (.over none (view state)) (.ofCall state (s.finishContext a rest)) := by
  simp only [Session.finishContext, h.handle]
  exact .completed h.holds.erase

theorem Underway.checkIn (h : w.Underway old s a rest) (hrepeats : w.repeats = true)
    (hrun : w.mode ≠ .run) {c : Context} (hsettled : c.Settled) (state : τ) :
    w.Follows old view (.executing c.machine (view state))
      (.ofCall state (s.checkIn a rest c (.ended true))) := by
  have hholds := h.holds
  unfold Holds at hholds
  rw [if_neg hrun] at hholds
  obtain ⟨resident, hget⟩ := contains_iff.mp hholds
  simp only [Session.checkIn, h.handle]
  exact .between hrepeats hrun h.unlimited (get?_set_self hget _) hsettled

/-! ## One step -/

/-- One instruction. -/
theorem Underway.tick (h : w.Underway old s a rest) (hphase : a.phase = .executing) (state : τ) :
    w.Follows old view (Course.step other (.executing a.context.machine (view state)))
      (.ofCall state s.tick) := by
  have hadvance := Session.advance_of_unlimited h.unlimited a.spent a.context.machine
  simp only [Session.tick, h.active, hphase, hadvance, Course.step]
  cases Session.advance {} 0 a.context.machine with
  | error fault => exact h.fail fault state
  | ok progress =>
    cases progress with
    | finished => exact h.finishContext state
    | next m =>
      let b : Activation := { a with
        context := { a.context with machine := m }, spent := a.spent + 1, phase := .executing }
      exact (h.goesOn (b := b) rfl rfl rfl).executes rfl state
    | dispatch m d =>
      let b : Activation := { a with
        context := { a.context with machine := m, status := .suspended }
        spent := a.spent + 1
        phase := .handling d .proceed false }
      exact (h.goesOn (b := b) rfl rfl rfl).asks rfl state

/-- What the host answers to an operation. -/
theorem Underway.finish (h : w.Underway old s a rest) (hsuits : w.Suits host) {d : Dispatch}
    {control : Control} {paused : Bool} (hphase : a.phase = .handling d control paused)
    (hpaused : host.Quiet → paused = false) (outcome : Except String Unit) (state : τ) :
    w.Follows old view
      (.after (view state) (Session.answered a.context.machine d control outcome))
      (.ofCall state (s.finish outcome)) := by
  simp only [Session.finish, h.active, hphase, h.uncancelled, h.mode]
  cases hanswered : Session.answered a.context.machine d control outcome with
  | error fault => exact h.fail fault state
  | ok m =>
    have hsettled : (a.context.withMachine m .suspended).Settled :=
      Session.settled_withMachine _ _ (fun heq => nomatch heq)
    dsimp only
    split
    · rename_i hcancelled
      cases hcancelled
    · split
      · rename_i hresume
        have hrun : w.mode ≠ .run := by simp [hresume]
        exact h.checkIn (hsuits.resume hresume) hrun hsettled state
      · split
        · rename_i hstops
          obtain ⟨hconsume, hpause, _⟩ := hstops
          have hrun : w.mode ≠ .run := by simp [hconsume]
          have hrepeats : w.repeats = true := by
            refine (hsuits.consume hconsume).resolve_right fun hquiet => ?_
            rw [hpaused hquiet] at hpause
            cases hpause
          exact h.checkIn hrepeats hrun hsettled state
        · let b : Activation :=
            { handle := a.handle, mode := w.mode, phase := .executing,
              context := a.context.withMachine m .running, spent := a.spent }
          exact (h.goesOn (b := b) rfl h.mode.symm h.uncancelled.symm).executes rfl state

/-- The answer of the host to an operation. -/
theorem Underway.accept (h : w.Underway old s a rest) (hsuits : w.Suits host)
    (hecho : host.Echoes view other) {d : Dispatch} (hphase : a.phase = .handling d .proceed false)
    (state : τ) :
    w.Follows old view (Course.step other (.asking a.context.machine d (view state)))
      (.ofCall (host.respond state d.operation a.context.arena).2
        (s.accept (host.respond state d.operation a.context.arena).1)) := by
  generalize hanswer : host.respond state d.operation a.context.arena = answer
  have harena : a.context.machine.arena = a.context.arena := rfl
  have hwishes := hecho.wishes state d.operation a.context.arena
  have houtcome := hecho.outcome state d.operation a.context.arena
  have hstate := hecho.state state d.operation a.context.arena
  rw [hanswer] at hwishes houtcome hstate
  have hpaused : host.Quiet → (false || decide (.pause ∈ answer.1.wishes)) = false := by
    intro hq
    rw [Bool.false_or, decide_eq_false_iff_not, ← hanswer]
    exact hq state d.operation a.context.arena
  unfold Session.accept
  rw [Session.foldl_grant h.active hphase, Course.step_asking]
  dsimp only
  rw [harena, ← hwishes, ← houtcome, ← hstate, Machine.foldl_heed_filter]
  have hheeding := h.goesOn (b := Session.heeding a d
    (answer.1.wishes.foldl Machine.heed (a.context.machine, .proceed))
    (false || decide (.pause ∈ answer.1.wishes))) rfl rfl rfl
  exact hheeding.finish hsuits rfl hpaused answer.1.outcome answer.2

/-- The call that is made again. -/
theorem Follows.again (old : Registry Resident) (view : τ → σ) (hrun : w.mode ≠ .run) {c : Context}
    (hlimit : s.settings.stepLimit = none)
    (hidle : s.registry.get? w.handle = some (.idle c)) (hsettled : c.Settled) (state : τ) :
    (c.machine.frames = [] ∧
      w.Follows old view (.over none (view state))
        (.ofCall state (s.execute w.handle w.mode))) ∨
    ∃ t a rest, w.Underway old t a rest ∧ a.phase = .executing ∧
      a.context.machine = c.machine ∧ s.execute w.handle w.mode = (.working, t) := by
  unfold Session.execute
  rw [Session.idle_eq_ok_iff.mpr hidle]
  dsimp only
  split
  · rename_i hfinished
    refine .inl ⟨hsettled.mp hfinished, .completed ?_⟩
    unfold Leaves
    rw [if_neg hrun]
    exact contains_erase_self
  · refine .inr ⟨_, _, _, ⟨?_, rfl, rfl, rfl, rfl, ?_⟩, rfl, rfl, rfl⟩
    · exact hlimit
    · unfold Holds Session.checkOut
      rw [if_neg hrun]
      exact (contains_set _).trans (contains_iff.mpr ⟨_, hidle⟩)

/-- **One step.** A service goes on as the course does, unless it first has to make its call
again. -/
theorem Follows.step (hsuits : w.Suits host) (hecho : host.Echoes view other)
    (h : w.Follows old view c v) :
    w.Follows old view (c.step other) (w.step host v) ∨
      w.Follows old view c (w.step host v) ∧
        w.Follows old view (c.step other) (w.step host (w.step host v)) := by
  cases h with
  | executing underway phase => exact .inl (underway.tick phase _)
  | @asking state s a rest d underway phase =>
    left
    have hcurrent : s.current? = some a.context :=
      Session.current?_eq_some underway.active (by rw [phase]; exact fun heq => nomatch heq)
    have hstep : w.step host ⟨.operation d.operation, state, s⟩ =
        .ofCall (host.respond state d.operation a.context.arena).2
          (s.accept (host.respond state d.operation a.context.arena).1) := by
      simp only [Way.step, Service.step, hcurrent]
    rw [hstep]
    exact underway.accept hsuits hecho phase state
  | @between state s c repeats mode unlimited idle settled =>
    have hstep : w.step host ⟨.ended true, state, s⟩ =
        .ofCall state (s.execute w.handle w.mode) := by
      simp only [Way.step, repeats, if_true]
    rw [hstep]
    rcases Follows.again old view mode unlimited idle settled state with
      ⟨hframes, hover⟩ | ⟨t, a, rest, hunderway, hphase, hmachine, heq⟩
    · left
      rw [Course.step_of_frames_eq_nil other hframes]
      exact hover
    · right
      rw [heq, ← hmachine]
      exact ⟨hunderway.executes hphase state, hunderway.tick hphase state⟩
  | completed leaves => exact .inl (.completed leaves)
  | faulted leaves => exact .inl (.faulted leaves)

/-! ## Reports -/

/-- What a service reports: the state of the host and the outcome so far. -/
def report (w : Way) (view : τ → σ) (v : Service τ) : σ × Course.Outcome :=
  (view v.state, w.outcome v.reply)

/-- What a host sees and does that goes a way, step by step, with a record of it. -/
def serve (w : Way) (host : Host τ) (state : τ) (called : Reply × Session) (n : Nat) :
    Service (τ × Record) :=
  (w.step host.recording)^[n] (.ofCall (state, []) called)

/-- All that is reported on a way. -/
def reports (w : Way) (view : τ → σ) (served : Nat → Service (τ × Record)) :
    Set ((σ × Record) × Course.Outcome) :=
  Set.range fun n => w.report (Prod.map view id) (served n)

theorem Follows.report_eq (h : w.Follows old view c v) :
    w.report view v = c.report := by
  cases h with
  | executing | asking | completed => rfl
  | between repeats => simp [report, outcome, repeats, Course.report]
  | faulted => simp [report, outcome, Course.report]

theorem Follows.not_astray (h : w.Follows old view c v) : w.outcome v.reply ≠ .astray := by
  cases h with
  | executing | asking | completed => exact fun heq => nomatch heq
  | between repeats => simp [outcome, repeats]
  | faulted => simp [outcome]

theorem Follows.leaves (h : w.Follows old view c v) (hends : w.outcome v.reply ≠ .going) :
    w.Leaves old v.session.registry := by
  cases h with
  | executing | asking => exact absurd rfl hends
  | between repeats => simp [outcome, repeats] at hends
  | completed leaves | faulted leaves => exact leaves

theorem Follows.registry_of_run (h : w.Follows old view c v) (hrun : w.mode = .run) :
    v.session.registry = old := by
  cases h with
  | executing underway | asking underway =>
    have hholds := underway.holds
    unfold Holds at hholds
    rw [if_pos hrun] at hholds
    exact hholds.1
  | between _ mode => exact absurd hrun mode
  | completed leaves | faulted leaves =>
    unfold Leaves at leaves
    rw [if_pos hrun] at leaves
    exact leaves

/-- A way that has come to its end stays there. -/
theorem step_of_outcome_ne (hends : w.outcome v.reply ≠ .going) : w.step host v = v := by
  obtain ⟨reply, state, s⟩ := v
  cases reply with
  | working | operation => exact absurd rfl hends
  | ended more =>
    cases more with
    | false => rfl
    | true =>
      have hrepeats : w.repeats = false := by simpa [outcome] using hends
      simp [step, hrepeats]
  | done | flag | count | handle | handles | status | answer | inspecting | refused | misplaced =>
    rfl

/-- Two runs that go side by side, where the second may need one more step now and then, pass by the
same points. -/
theorem exists_iterate {α β : Type} {R : α → β → Prop} {f : α → α} {g : β → β}
    (hstep : ∀ x y, R x y → R (f x) (g y) ∨ R x (g y) ∧ R (f x) (g (g y))) {x : α} {y : β}
    (h : R x y) :
    (∀ k, ∃ n, R (f^[k] x) (g^[n] y)) ∧ ∀ n, ∃ k, R (f^[k] x) (g^[n] y) := by
  constructor
  · intro k
    induction k with
    | zero => exact ⟨0, h⟩
    | succ k ih =>
      obtain ⟨n, hn⟩ := ih
      rw [Function.iterate_succ_apply']
      rcases hstep _ _ hn with hnext | ⟨_, hnext⟩
      · exact ⟨n + 1, by rw [Function.iterate_succ_apply']; exact hnext⟩
      · refine ⟨n + 2, ?_⟩
        rw [Function.iterate_succ_apply', Function.iterate_succ_apply']
        exact hnext
  · intro n
    induction n with
    | zero => exact ⟨0, h⟩
    | succ n ih =>
      obtain ⟨k, hk⟩ := ih
      rw [Function.iterate_succ_apply']
      rcases hstep _ _ hk with hnext | ⟨hsame, _⟩
      · exact ⟨k + 1, by rw [Function.iterate_succ_apply']; exact hnext⟩
      · exact ⟨k, hsame⟩

/-- **All ways follow the course**, and report what there is to be told of it. -/
theorem Follows.serve {state : τ} {called : Reply × Session} {c : Course (σ × Record)}
    (hsuits : w.Suits host.recording) (hecho : host.Echoes view other)
    (h : w.Follows old (Prod.map view id) c (.ofCall (state, []) called)) :
    w.reports view (w.serve host state called) =
        (Set.range fun k => ((Course.step other.recording)^[k] c).report) ∧
      ∀ n, ∃ k, w.Follows old (Prod.map view id) ((Course.step other.recording)^[k] c)
        (w.serve host state called n) := by
  obtain ⟨hforth, hback⟩ := exists_iterate (R := w.Follows old (Prod.map view id))
    (fun _ _ hxy => hxy.step hsuits hecho.recording) h
  refine ⟨?_, hback⟩
  ext r
  constructor
  · rintro ⟨n, rfl⟩
    obtain ⟨k, hk⟩ := hback n
    exact ⟨k, hk.report_eq.symm⟩
  · rintro ⟨k, rfl⟩
    obtain ⟨n, hn⟩ := hforth k
    exact ⟨n, hn.report_eq⟩

/-- A way has one end. -/
theorem serve_eq_of_outcome_ne {state : τ} {called : Reply × Session} {m n : Nat}
    (hm : w.outcome (w.serve host state called m).reply ≠ .going)
    (hn : w.outcome (w.serve host state called n).reply ≠ .going) :
    w.serve host state called m = w.serve host state called n := by
  have hstays : ∀ m k, w.outcome (w.serve host state called m).reply ≠ .going →
      w.serve host state called (m + k) = w.serve host state called m := by
    intro m k hm
    induction k with
    | zero => rfl
    | succ k ih =>
      have hsucc : w.serve host state called (m + (k + 1)) =
          w.step host.recording (w.serve host state called (m + k)) :=
        Function.iterate_succ_apply' ..
      rw [hsucc, ih, step_of_outcome_ne hm]
  rcases Nat.le_total m n with hle | hle
  · obtain ⟨k, rfl⟩ := Nat.exists_eq_add_of_le hle
    exact (hstays m k hm).symm
  · obtain ⟨k, rfl⟩ := Nat.exists_eq_add_of_le hle
    exact hstays n k hn

end Way

namespace Session

open Way

variable {τ : Type}

/-! ## Starting -/

/-- What a context is made of does not depend on its handle. -/
theorem create_detached {room index stackSize memorySize depthLimit : Nat} {handle : Handle}
    {p : Program} {c : Context}
    (h : Context.create room handle p index stackSize memorySize depthLimit = .ok c) :
    Context.create room .detached p index stackSize memorySize depthLimit =
      .ok { c with handle := .detached } := by
  unfold Context.create at h ⊢
  split at h
  · cases h
  · split at h
    · cases h
    · cases h
    · cases h
      rfl

/-- A program that can be started can be run, and both begin with the same machine. -/
theorem start_cases {s : Session} {bytecode : List UInt8} {entry : String}
    {memorySize stackSize : Nat} {h : Handle}
    (hstart : (s.start bytecode entry memorySize stackSize).1 = .handle h) :
    ∃ c : Context, c.status = .running ∧ c.Settled ∧ h = s.registry.nextHandle ∧
      (s.start bytecode entry memorySize stackSize).2 =
        { s with registry := s.registry.insert (.idle c) } ∧
      s.run bytecode entry memorySize stackSize =
        (.working, { s with active :=
          { handle := .detached, mode := .run, phase := .executing,
            context := { c with handle := .detached } } :: s.active }) := by
  unfold start run at *
  cases hload : Program.load bytecode with
  | error cause =>
    rw [hload] at hstart
    cases hstart
  | ok p =>
    rw [hload] at hstart
    dsimp only at hstart ⊢
    rcases startProgram_cases s p entry memorySize stackSize with
      ⟨cause, heq⟩ | ⟨index, c, hsizes, hfound, _, hcreate, heq⟩
    · rw [heq] at hstart
      cases hstart
    · rw [heq] at hstart ⊢
      cases hstart
      obtain ⟨_, hstatus, hsettled⟩ := settled_of_create hcreate
      refine ⟨c, hstatus, hsettled, rfl, rfl, ?_⟩
      rw [hsizes, hfound]
      simp only [bind, Except.bind, create_detached hcreate]

/-- A call that is to execute a new context is at the beginning of the course. -/
theorem follows_execute {σ : Type} {s : Session} {w : Way} {old : Registry Resident}
    (hrun : w.mode ≠ .run) (hlimit : s.settings.stepLimit = none) {c : Context}
    (hidle : s.registry.get? w.handle = some (.idle c)) (hstatus : c.status = .running)
    (hsettled : c.Settled) (view : τ → σ) (state : τ) :
    w.Follows old (Prod.map view id) (.executing c.machine (view state, ([] : Record)))
      (.ofCall (state, []) (s.execute w.handle w.mode)) := by
  rcases Follows.again old (Prod.map view (id : Record → Record)) hrun hlimit hidle hsettled
    (state, []) with ⟨hframes, _⟩ | ⟨t, a, rest, hunderway, hphase, hmachine, heq⟩
  · rw [hsettled.mpr hframes] at hstatus
    cases hstatus
  · rw [heq, ← hmachine]
    exact hunderway.executes hphase (state, [])

/-- So is one that runs a new context. -/
theorem follows_launch {σ : Type} {s : Session} (hw : s.registry.WellFormed)
    (hlimit : s.settings.stepLimit = none) (c : Context) (view : τ → σ) (state : τ) :
    Follows ⟨.detached, .run, false⟩ s.registry (Prod.map view id)
      (.executing c.machine (view state, ([] : Record)))
      (.ofCall (state, []) (.working, { s with active :=
        { handle := .detached, mode := .run, phase := .executing,
          context := { c with handle := .detached } } :: s.active })) := by
  have hholds : Way.Holds ⟨.detached, .run, false⟩ s.registry s.registry := by
    unfold Way.Holds
    rw [if_pos rfl]
    exact ⟨rfl, hw.get?_detached⟩
  let a : Activation :=
    { handle := .detached, mode := .run, phase := .executing,
      context := { c with handle := .detached } }
  have hunderway : Way.Underway ⟨.detached, .run, false⟩ s.registry
      { s with active := a :: s.active } a s.active := ⟨hlimit, rfl, rfl, rfl, rfl, hholds⟩
  exact hunderway.executes rfl (state, [])

/-- **Four ways.** Take any state of an engine without a limit on instructions, a program that it
starts and a host that never pauses, and another host that does the same and pauses at will. Four
ways to execute the program give the same reports, of what the host has seen and of the state it is
in: to resume the context as long as there is more, to have it consumed once without a pause, to
have it consumed as long as there is more, and to run it. So they end alike or go on alike for ever.
The context is not registered when they have ended, and to run it leaves the registry alone. That a
handle can number the slots of the registry is what makes the new one name the new context. -/
theorem ways_agree {σ : Type} (settings : Settings) (room : Nat) (before : List Call)
    (bytecode : List UInt8) (entry : String) (memorySize stackSize : Nat) (h : Handle)
    (quiet : Host σ) (host : Host τ) (view : τ → σ) (x : τ) (hlimit : settings.stepLimit = none)
    (hslots : (callAll { settings, room } before).2.registry.slots.size < UInt32.size)
    (hstart : ((callAll { settings, room } before).2.start bytecode entry memorySize stackSize).1 =
      .handle h)
    (hquiet : quiet.Quiet) (hecho : host.Echoes view quiet) :
    let s := (callAll { settings, room } before).2
    let t := (s.start bytecode entry memorySize stackSize).2
    let resuming : Way := ⟨h, .resume, true⟩
    let consuming : Way := ⟨h, .consume, false⟩
    let pausing : Way := ⟨h, .consume, true⟩
    let running : Way := ⟨.detached, .run, false⟩
    let resumed := resuming.serve host x (t.resume h)
    let consumed := consuming.serve quiet (view x) (t.consume h)
    let paused := pausing.serve host x (t.consume h)
    let run := running.serve host x (s.run bytecode entry memorySize stackSize)
    resuming.reports view resumed = consuming.reports id consumed ∧
    pausing.reports view paused = consuming.reports id consumed ∧
    running.reports view run = consuming.reports id consumed ∧
    (∀ n, consuming.outcome (consumed n).reply ≠ .astray) ∧
    (∀ m n, consuming.outcome (consumed m).reply ≠ .going →
      consuming.outcome (consumed n).reply ≠ .going → consumed m = consumed n) ∧
    (∀ n, resuming.outcome (resumed n).reply ≠ .going →
      (resumed n).session.registry.contains h = false) ∧
    (∀ n, consuming.outcome (consumed n).reply ≠ .going →
      (consumed n).session.registry.contains h = false) ∧
    (∀ n, pausing.outcome (paused n).reply ≠ .going →
      (paused n).session.registry.contains h = false) ∧
    ∀ n, (run n).session.registry = s.registry := by
  intro s t resuming consuming pausing running resumed consumed paused run
  have hw : s.registry.WellFormed := wellFormed_callAll wellFormed_empty before
  have hunlimited : s.settings.stepLimit = none := by
    rw [settings_callAll]
    exact hlimit
  obtain ⟨c, hstatus, hsettled, hnext, ht, hrun⟩ := start_cases (s := s) hstart
  have hidle : t.registry.get? h = some (.idle c) := by
    rw [show t = _ from ht, hnext]
    exact get?_insert_nextHandle hw hslots _
  have htlimit : t.settings.stepLimit = none := by
    rw [show t = _ from ht]
    exact hunlimited
  -- each way begins at the beginning of the one course
  have hresuming : resuming.Follows s.registry (Prod.map view id)
      (.executing c.machine (view x, [])) (.ofCall (x, []) (t.resume h)) :=
    follows_execute (show Mode.resume ≠ .run by decide) htlimit hidle hstatus hsettled view x
  have hpausing : pausing.Follows s.registry (Prod.map view id)
      (.executing c.machine (view x, [])) (.ofCall (x, []) (t.consume h)) :=
    follows_execute (show Mode.consume ≠ .run by decide) htlimit hidle hstatus hsettled view x
  have hconsuming : consuming.Follows s.registry (Prod.map id id)
      (.executing c.machine (view x, [])) (.ofCall (view x, []) (t.consume h)) :=
    follows_execute (show Mode.consume ≠ .run by decide) htlimit hidle hstatus hsettled id (view x)
  have hrunning : running.Follows s.registry (Prod.map view id)
      (.executing c.machine (view x, ([] : Record)))
      (.ofCall (x, []) (s.run bytecode entry memorySize stackSize)) := by
    rw [hrun]
    exact follows_launch hw hunlimited c view x
  obtain ⟨hresumed, hresumedAt⟩ := hresuming.serve
    ⟨fun _ => rfl, fun (heq : Mode.resume = .consume) => nomatch heq⟩ hecho
  obtain ⟨hpaused, hpausedAt⟩ := hpausing.serve
    ⟨(fun (heq : Mode.consume = .resume) => nomatch heq), fun _ => .inl rfl⟩ hecho
  obtain ⟨hconsumed, hconsumedAt⟩ := hconsuming.serve
    ⟨(fun (heq : Mode.consume = .resume) => nomatch heq), fun _ => .inr hquiet.recording⟩
    hquiet.echoes
  obtain ⟨hran, hranAt⟩ := hrunning.serve
    ⟨(fun (heq : Mode.run = .resume) => nomatch heq),
      fun (heq : Mode.run = .consume) => nomatch heq⟩ hecho
  refine ⟨hresumed.trans hconsumed.symm, hpaused.trans hconsumed.symm, hran.trans hconsumed.symm,
    ?_, fun m n hm hn => serve_eq_of_outcome_ne hm hn, ?_, ?_, ?_, ?_⟩
  · intro n
    obtain ⟨k, hk⟩ := hconsumedAt n
    exact hk.not_astray
  · intro n hends
    obtain ⟨k, hk⟩ := hresumedAt n
    exact hk.leaves hends
  · intro n hends
    obtain ⟨k, hk⟩ := hconsumedAt n
    exact hk.leaves hends
  · intro n hends
    obtain ⟨k, hk⟩ := hpausedAt n
    exact hk.leaves hends
  · intro n
    obtain ⟨k, hk⟩ := hranAt n
    exact hk.registry_of_run rfl

/-- A host that sends a context back once. Its state is the number of questions. -/
def retryOnce : Host Nat where
  respond asked _ _ := ({ wishes := if asked = 0 then [.goTo "again"] else [] }, asked + 1)

/-- The same with a pause at each question. -/
def retryOncePausing : Host Nat where
  respond asked _ _ := ({ wishes := if asked = 0 then [.pause, .goTo "again"] else [.pause] },
    asked + 1)

theorem quiet_retryOnce : retryOnce.Quiet := by
  intro asked op arena
  by_cases hasked : asked = 0
  · simp [retryOnce, hasked]
  · simp [retryOnce, hasked]

theorem echoes_retryOncePausing : retryOncePausing.Echoes id retryOnce where
  wishes asked op arena := by
    by_cases hasked : asked = 0
    · simp [retryOnce, retryOncePausing, hasked]
    · simp [retryOnce, retryOncePausing, hasked]
  outcome _ _ _ := rfl
  state _ _ _ := rfl

/-- A session with a context of a program that has been loaded. -/
def retryingLoaded : Session := (start { room := 64 } retrying.encode "main" 0 4).2

/-- The context, resumed by the host that pauses. -/
def retryResumed : Nat → Service (Nat × Record) :=
  Way.serve ⟨⟨0, 1⟩, .resume, true⟩ retryOncePausing 0 (retryingLoaded.resume ⟨0, 1⟩)

/-- The context, consumed without a pause. -/
def retryConsumed : Nat → Service (Nat × Record) :=
  Way.serve ⟨⟨0, 1⟩, .consume, false⟩ retryOnce 0 (retryingLoaded.consume ⟨0, 1⟩)

/-- The context is consumed in seven steps, after two questions. So it comes to the same end when it
is resumed. -/
theorem retryOnce_agrees :
    ∃ n, Way.outcome ⟨⟨0, 1⟩, .resume, true⟩ (retryResumed n).reply = .completed ∧
      (retryResumed n).state.1 = 2 ∧ (retryResumed n).state.2.length = 2 := by
  have hends : Way.outcome ⟨⟨0, 1⟩, .consume, false⟩ (retryConsumed 7).reply = .completed ∧
      (retryConsumed 7).state.1 = 2 ∧ (retryConsumed 7).state.2.length = 2 := by decide +kernel
  have hstart : (start { room := 64 } retrying.encode "main" 0 4).1 = .handle ⟨0, 1⟩ :=
    Reply.eq_handle (by decide +kernel)
  obtain ⟨hresumed, _⟩ := ways_agree {} 64 [] retrying.encode "main" 0 4 ⟨0, 1⟩ retryOnce
    retryOncePausing id 0 rfl (by decide) hstart quiet_retryOnce echoes_retryOncePausing
  have hreported : Way.report ⟨⟨0, 1⟩, .consume, false⟩ (Prod.map id id) (retryConsumed 7) ∈
      Way.reports ⟨⟨0, 1⟩, .resume, true⟩ id retryResumed := by
    rw [show Way.reports ⟨⟨0, 1⟩, .resume, true⟩ id retryResumed =
      Way.reports ⟨⟨0, 1⟩, .consume, false⟩ id retryConsumed from hresumed]
    exact ⟨7, rfl⟩
  obtain ⟨n, hn⟩ := hreported
  obtain ⟨hstate, houtcome⟩ := Prod.mk.inj hn
  simp only [Prod.map_id, id] at hstate
  exact ⟨n, houtcome.trans hends.1, hstate ▸ hends.2⟩

end Session

end Hostcall
