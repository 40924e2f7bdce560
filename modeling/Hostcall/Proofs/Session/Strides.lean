import Hostcall.Proofs.Session.Cancellation
import Hostcall.Proofs.Session.Returns

/-!
# How a call in progress gets on

Of all that a host can ask of an engine only two things take the innermost call further: an
instruction is executed, or the operation before the host is answered. Each has few outcomes, since
going back on the stack never fails (`Machine.GoesBack`).

* `Ticked`, `ticked`: an instruction, under a limit on their number.
* `Concluded`, `concluded`: the answer to an operation.
* `Aside`, `aside_of_furthers`: any other call. It begins or ends another call, or it leaves the
  innermost call where it was, with as many instructions executed as before.
* `Aside.innermost`, `Transition.outer`: so a call in progress is as it was unless it is itself
  taken further.
-/

namespace Hostcall

open Attempt

/-- Whether the call answers the operation of the innermost call. -/
def Call.isFinish : Call → Bool
  | .finish _ => true
  | _ => false

/-- Whether a call of the host takes one in a phase further. -/
def Phase.furthers : Phase → Call → Bool
  | .executing, c => c.isTick
  | .handling _ _ _, c => c.isFinish
  | .inspecting, _ => false

/-- Whether the fault is that a limit on steps is exceeded. -/
def Fault.isLimit : Fault → Bool
  | .stepLimitExceeded _ => true
  | _ => false

theorem Fault.isLimit_of_ofInstruction {fault : Fault} (h : fault.ofInstruction = true) :
    fault.isLimit = false := by
  cases fault <;> first | rfl | cases h

/-- Whether an instruction has been executed, if the call was to execute one. An instruction that
meets a fault has been. -/
def Reply.isStep : Reply → Bool
  | .working | .operation _ => true
  | .refused (.runtimeFault _ fault) => !fault.isLimit
  | _ => false

/-- A frame is left after all returns that are due. -/
def Machine.Unfinished (m : Machine) : Prop := ∃ k, m.settle = .ok k ∧ k.frames ≠ []

/-- Whether the answer to its operation is to end the call: one to `resume`, or one to `consume`
whose host has asked for a pause. -/
def Activation.stops (a : Activation) : Bool :=
  match a.phase with
  | .handling _ _ paused => a.mode == .resume || (a.mode == .consume && paused)
  | .executing | .inspecting => false

theorem Activation.stops_of_handling {a : Activation} {d : Dispatch} {control : Control}
    {paused : Bool} (hphase : a.phase = .handling d control paused) :
    a.stops = (a.mode == .resume || (a.mode == .consume && paused)) := by
  unfold Activation.stops
  rw [hphase]

/-- What the host of a call in progress has been told last: that the call goes on, or which
operation it is to handle. -/
inductive Activation.Tells (a : Activation) : Reply → Prop where
  | working (phase : a.phase = .executing) : a.Tells .working
  | operation {d : Dispatch} {control : Control} {paused : Bool}
      (phase : a.phase = .handling d control paused) : a.Tells (.operation d.operation)

namespace Activation.Tells

variable {a : Activation} {reply : Reply}

theorem phase_ne_inspecting (h : a.Tells reply) : a.phase ≠ .inspecting := by
  cases h with
  | working phase | operation phase =>
    rw [phase]
    exact fun heq => nomatch heq

theorem isStep (h : a.Tells reply) : reply.isStep = true := by
  cases h with
  | working | operation => rfl

theorem fault?_eq_none (h : a.Tells reply) : reply.fault? = none := by
  cases h with
  | working | operation => rfl

end Activation.Tells

/-- The call has executed as many instructions and is doing the same. -/
structure Activation.Like (a b : Activation) : Prop where
  spent : b.spent = a.spent
  executing : b.phase = .executing ↔ a.phase = .executing
  inspecting : b.phase = .inspecting ↔ a.phase = .inspecting

theorem Activation.Like.refl (a : Activation) : a.Like a := ⟨rfl, Iff.rfl, Iff.rfl⟩

theorem Activation.like_mark (h : Handle) (a : Activation) : a.Like (a.mark h) := by
  unfold Activation.mark
  split
  · exact ⟨rfl, Iff.rfl, Iff.rfl⟩
  · exact .refl a

namespace Session

variable {s t : Session} {a : Activation} {rest : List Activation} {n : Nat}

/-! ## Executing an instruction -/

/-- What comes of the innermost call `a`, which executes and has a limit of `n` instructions. -/
inductive Ticked (n : Nat) (s : Session) (a : Activation) (rest : List Activation) :
    Reply × Session → Prop where
  | finished (done : ¬a.context.machine.Unfinished) : Ticked n s a rest (s.finishContext a rest)
  | limited (more : a.context.machine.Unfinished) (spent : n ≤ a.spent) :
      Ticked n s a rest (s.fail a rest (.stepLimitExceeded n))
  | failed {fault : Fault} (more : a.context.machine.Unfinished) (spent : a.spent < n)
      (met : fault.ofInstruction = true) : Ticked n s a rest (s.fail a rest fault)
  | onward {b : Activation} {reply : Reply} (more : a.context.machine.Unfinished)
      (spent : a.spent < n) (counted : b.spent = a.spent + 1) (tells : b.Tells reply) :
      Ticked n s a rest (reply, { s with active := b :: rest })

theorem advance_of_settle (settings : Settings) (spent : Nat) {m k : Machine}
    (hk : m.settle = .ok k) :
    advance settings spent m =
      if k.frames.isEmpty then .ok .finished
      else withinLimit settings spent >>= fun _ => k.step >>= fun
        | .next n => pure (.next n)
        | .dispatch n d => pure (.dispatch n d) := by
  unfold advance
  rw [hk]
  rfl

theorem withinLimit_of_some {settings : Settings} (hlimit : settings.stepLimit = some n)
    (spent : Nat) :
    withinLimit settings spent = if spent ≥ n then .error (.stepLimitExceeded n) else .ok () := by
  unfold withinLimit
  rw [hlimit]

/-- **One instruction** of a call with a limit. -/
theorem ticked (hs : s.active = a :: rest) (hphase : a.phase = .executing)
    (hsettles : ∃ k, a.context.machine.SettlesTo k) (hlimit : s.settings.stepLimit = some n) :
    Ticked n s a rest s.tick := by
  obtain ⟨k, hk⟩ := hsettles
  have hadvance := advance_of_settle s.settings a.spent hk.settle
  rw [withinLimit_of_some hlimit] at hadvance
  unfold tick
  rw [hs]
  dsimp only
  rw [hphase]
  dsimp only
  by_cases hframes : k.frames = []
  · rw [if_pos (List.isEmpty_iff.mpr hframes)] at hadvance
    rw [hadvance]
    refine .finished fun hmore => ?_
    obtain ⟨k', hk', hne⟩ := hmore
    cases hk.settle.symm.trans hk'
    exact hne hframes
  · have hmore : a.context.machine.Unfinished := ⟨k, hk.settle, hframes⟩
    rw [if_neg (by simpa using hframes)] at hadvance
    by_cases hspent : n ≤ a.spent
    · rw [if_pos hspent] at hadvance
      have herror : advance s.settings a.spent a.context.machine = .error (.stepLimitExceeded n) :=
        hadvance
      rw [herror]
      exact .limited hmore hspent
    · have hlt : a.spent < n := by omega
      rw [if_neg hspent] at hadvance
      cases hstep : k.step with
      | error fault =>
        rw [hstep] at hadvance
        have herror : advance s.settings a.spent a.context.machine = .error fault := hadvance
        rw [herror]
        exact .failed hmore hlt ((Machine.met_step hframes).error hstep)
      | ok e =>
        rw [hstep] at hadvance
        cases e with
        | next m =>
          have hnext : advance s.settings a.spent a.context.machine = .ok (.next m) := hadvance
          rw [hnext]
          exact .onward hmore hlt rfl (.working rfl)
        | dispatch m d =>
          have hnext : advance s.settings a.spent a.context.machine = .ok (.dispatch m d) :=
            hadvance
          rw [hnext]
          exact .onward hmore hlt rfl (.operation rfl)

theorem call_tick_of_furthers (hs : s.active = a :: rest) (h : a.phase.furthers .tick = false) :
    s.call .tick = (.misplaced, s) := by
  show s.tick = _
  unfold tick
  rw [hs]
  dsimp only
  split
  · rename_i hphase
    rw [hphase] at h
    cases h
  · rfl

/-! ## Answering an operation -/

/-- What comes of the innermost call `a` when its operation is answered. -/
inductive Concluded (s : Session) (a : Activation) (rest : List Activation) :
    Reply × Session → Prop where
  | dropped (cancelled : a.cancelled = true) : Concluded s a rest (s.dropContext rest)
  | failed {fault : Fault} (other : fault.isLimit = false) :
      Concluded s a rest (s.fail a rest fault)
  /-- The call stops after the operation, and its context is idle again. -/
  | stopped {t : Session} (active : t.active = rest) (stops : a.stops = true) :
      Concluded s a rest (.ended true, t)
  | onward {b : Activation} (same : b.spent = a.spent) (phase : b.phase = .executing) :
      Concluded s a rest (.working, { s with active := b :: rest })

/-- **One answer.** -/
theorem concluded {d : Dispatch} {control : Control} {paused : Bool} (hs : s.active = a :: rest)
    (hphase : a.phase = .handling d control paused)
    (hback : a.context.machine.GoesBack a.phase.stage) (outcome : Except String Unit) :
    Concluded s a rest (s.finish outcome) := by
  rw [hphase] at hback
  obtain ⟨m, k, hm, hk⟩ := hback.complete d control rfl control
  unfold finish
  rw [hs]
  dsimp only
  rw [hphase]
  dsimp only
  by_cases hcancelled : a.cancelled = true
  · rw [if_pos hcancelled]
    exact .dropped hcancelled
  · rw [if_neg hcancelled]
    cases outcome with
    | error message => exact .failed rfl
    | ok =>
      have hanswered : answered a.context.machine d control (.ok ()) = .ok k :=
        bind_eq_ok_iff.mpr ⟨m, hm, hk.settle⟩
      rw [hanswered]
      have hstops := Activation.stops_of_handling hphase
      dsimp only
      split
      · rename_i hmode
        exact .stopped rfl (by simp [hstops, hmode])
      · split
        · rename_i hconsume
          exact .stopped rfl (by simp [hstops, hconsume.1, hconsume.2.1])
        · exact .onward rfl rfl

/-! ## Other calls -/

/-- What a call does to those in progress if it takes none of them further. -/
inductive Aside (s t : Session) : Prop where
  | same (active : t.active = s.active)
  | push {a : Activation} (active : t.active = a :: s.active)
  | mark {h : Handle} (active : t.active = s.active.map (Activation.mark h))
  | change {a b : Activation} {rest : List Activation} (before : s.active = a :: rest)
      (active : t.active = b :: rest) (like : a.Like b)
  | pop {a : Activation} {rest : List Activation} (before : s.active = a :: rest)
      (phase : a.phase = .inspecting) (active : t.active = rest)

theorem aside_startProgram (s : Session) (p : Program) (entry : String)
    (memorySize stackSize : Nat) : s.Aside (s.startProgram p entry memorySize stackSize).2 := by
  rcases startProgram_cases s p entry memorySize stackSize with
    ⟨cause, heq⟩ | ⟨index, c, _, _, _, _, heq⟩
  · rw [heq]
    exact .same rfl
  · rw [heq]
    exact .same rfl

theorem aside_execute (s : Session) (h : Handle) (mode : Mode) :
    s.Aside (s.execute h mode).2 := by
  rcases execute_cases s h mode with ⟨cause, heq, _⟩ | ⟨c, _, heq⟩ | ⟨c, _, heq⟩
  · rw [heq]
    exact .same rfl
  · rw [heq]
    exact .same rfl
  · rw [heq]
    exact .push rfl

theorem aside_leave (s : Session) : s.Aside s.leave.2 := by
  unfold leave
  split
  · exact .same rfl
  · rename_i a rest hs
    split
    · rename_i hphase
      split
      · exact .pop hs hphase rfl
      · exact .pop hs hphase rfl
    · exact .same rfl

theorem aside_perform (s : Session) (action : Arena.Action) : s.Aside (s.perform action).2 := by
  unfold perform
  split
  · exact .same rfl
  · rename_i a rest hs
    split
    · exact .same rfl
    · exact .change hs rfl ⟨rfl, Iff.rfl, Iff.rfl⟩

theorem aside_request (s : Session) (change : Control → Bool → Control × Bool) :
    s.Aside (s.request change).2 := by
  unfold request
  split
  · exact .same rfl
  · rename_i a rest hs
    split
    · rename_i d control paused hphase
      refine .change hs rfl ⟨rfl, ?_, ?_⟩
      · simp [hphase]
      · simp [hphase]
    · exact .same rfl

theorem aside_goTo (s : Session) (label : String) : s.Aside (s.goTo label).2 := by
  unfold goTo
  split
  · exact .same rfl
  · split
    · split
      · exact aside_request s _
      · exact .same rfl
    · exact .same rfl

/-- **One call** that neither executes an instruction nor answers an operation. -/
theorem aside_call (s : Session) {c : Call} (htick : c.isTick = false)
    (hfinish : c.isFinish = false) : s.Aside (s.call c).2 := by
  cases c with
  | start bytecode entry memorySize stackSize =>
    show s.Aside (s.start bytecode entry memorySize stackSize).2
    unfold start
    split
    · exact .same rfl
    · exact aside_startProgram s _ entry memorySize stackSize
  | startProgram p entry memorySize stackSize =>
    exact aside_startProgram s p entry memorySize stackSize
  | fork parent entry memorySize stackSize =>
    show s.Aside (s.fork parent entry memorySize stackSize).2
    unfold fork
    split
    · exact .same rfl
    · exact aside_startProgram s _ entry memorySize stackSize
  | cancel h =>
    show s.Aside (s.cancel h).2
    rcases cancel_cases s h with ⟨_, heq⟩ | ⟨resident, _, heq⟩
    · rw [heq]
      exact .same rfl
    · rw [heq]
      exact .mark rfl
  | status h =>
    show s.Aside (s.status h).2
    unfold status
    split
    · exact .same rfl
    · exact .same rfl
  | contains | size | handles => exact .same rfl
  | resume h | consume h => exact aside_execute s h _
  | run bytecode entry memorySize stackSize =>
    show s.Aside (s.run bytecode entry memorySize stackSize).2
    rcases run_cases s bytecode entry memorySize stackSize with ⟨cause, heq⟩ | ⟨c, _, heq⟩
    · rw [heq]
      exact .same rfl
    · rw [heq]
      exact .push rfl
  | inspect h =>
    show s.Aside (s.inspect h).2
    rcases inspect_cases s h with ⟨cause, heq⟩ | ⟨c, _, heq⟩
    · rw [heq]
      exact .same rfl
    · rw [heq]
      exact .push rfl
  | tick => cases htick
  | finish => cases hfinish
  | leave => exact aside_leave s
  | perform action => exact aside_perform s action
  | goTo label => exact aside_goTo s label
  | forceReturn | pause => exact aside_request s _
  | isPaused =>
    show s.Aside s.isPaused.2
    unfold isPaused
    split
    · exact .same rfl
    · split
      · exact .same rfl
      · exact .same rfl

/-- A call that the innermost one has no use for is refused or takes none further. -/
theorem aside_of_furthers (hs : s.active = a :: rest) {c : Call}
    (h : a.phase.furthers c = false) : s.Aside (s.call c).2 := by
  cases htick : c.isTick with
  | true =>
    cases c <;> cases htick
    rw [call_tick_of_furthers hs h]
    exact .same rfl
  | false =>
    cases hfinish : c.isFinish with
    | false => exact aside_call s htick hfinish
    | true =>
      cases c <;> cases hfinish
      rename_i outcome
      have hmisplaced : s.finish outcome = (.misplaced, s) := by
        unfold finish
        rw [hs]
        dsimp only
        split
        · rename_i hphase
          rw [hphase] at h
          cases h
        · rfl
      show s.Aside (s.finish outcome).2
      rw [hmisplaced]
      exact .same rfl

/-! ## The call at a depth -/

/-- The innermost call stays in progress if it is left aside. -/
theorem Aside.innermost (h : s.Aside t) (hs : s.active = a :: rest)
    (hphase : a.phase ≠ .inspecting) :
    ∃ inner b base, t.active = inner ++ b :: base ∧ base.length = rest.length ∧ a.Like b := by
  cases h with
  | same active => exact ⟨[], a, rest, active.trans hs, rfl, .refl a⟩
  | @push x active => exact ⟨[x], a, rest, active.trans (by rw [hs]; rfl), rfl, .refl a⟩
  | @mark k active =>
    refine ⟨[], a.mark k, rest.map (Activation.mark k), ?_, List.length_map .., a.like_mark k⟩
    rw [active, hs]
    rfl
  | change before active like =>
    cases before.symm.trans hs
    exact ⟨[], _, _, active, rfl, like⟩
  | pop before phase active =>
    cases before.symm.trans hs
    exact absurd phase hphase

/-- The innermost call is as it was if it is left aside and still the innermost one. -/
theorem Aside.like {b : Activation} (h : s.Aside t) (hs : s.active = a :: rest)
    (ht : t.active = b :: rest) : a.Like b := by
  cases h with
  | same active =>
    cases hs.symm.trans (active.symm.trans ht)
    exact .refl a
  | push active =>
    have hlength := congrArg List.length (ht.symm.trans active)
    simp [hs] at hlength
  | @mark k active =>
    rw [ht, hs] at active
    cases (List.cons.inj active).1
    exact a.like_mark k
  | change before active like =>
    cases before.symm.trans hs
    cases active.symm.trans ht
    exact like
  | pop before phase active =>
    cases before.symm.trans hs
    have hlength := congrArg List.length (ht.symm.trans active)
    simp at hlength

/-- A call with another one inside of it stays in progress as it is. -/
theorem Transition.outer {reply : Reply} {x : Activation} {inner base : List Activation}
    (h : s.Transition reply t) (hs : s.active = (x :: inner) ++ a :: base) :
    ∃ inner' b base', t.active = inner' ++ b :: base' ∧ base'.length = base.length ∧ a.Like b := by
  rcases h.active_cases with
    ⟨_, hsame | ⟨y, _, hpush⟩ | ⟨k, hmark⟩⟩ | ⟨_, y, rest, hx, hy, _⟩ | ⟨_, rest, hx, hy⟩
  · exact ⟨x :: inner, a, base, hsame.trans hs, rfl, .refl a⟩
  · exact ⟨y :: x :: inner, a, base, hpush.trans (by rw [hs]; rfl), rfl, .refl a⟩
  · refine ⟨(x :: inner).map (Activation.mark k), a.mark k, base.map (Activation.mark k), ?_,
      List.length_map .., a.like_mark k⟩
    rw [hmark, hs, List.map_append]
    rfl
  · cases hx.symm.trans hs
    exact ⟨y :: inner, a, base, hy, rfl, .refl a⟩
  · cases hx.symm.trans hs
    exact ⟨inner, a, base, hy, rfl, .refl a⟩

end Session

end Hostcall
