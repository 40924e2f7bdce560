import Hostcall.Proofs.Machine.Setup
import Hostcall.Proofs.Registry.Table
import Hostcall.Proofs.Session.Reachable

/-!
# What one call does to a session

A host has many calls to choose from, but each of them does one of few things to a session.
`Transition` lists them with the reply that goes with each: a context is issued, launched or
discarded, a call begins, goes on or ends in one of three ways, or a handle is cancelled.
`transition_call` shows that there is nothing else, so what holds of a session at every time is
proved by cases over transitions.

`Activation.Onward` does the same for a call that goes on.
-/

namespace Hostcall

open Attempt

/-- A context is finished when no call is left in it. -/
def Context.Settled (c : Context) : Prop := c.status = .finished ↔ c.machine.frames = []

/-- The reply with which a call in progress ends if its context is not finished by it. -/
def Phase.lastReply (more : Bool) : Phase → Reply
  | .inspecting => .done
  | .executing | .handling _ _ _ => .ended more

/-- Whether a reply hands out a handle. -/
def Reply.isHandle : Reply → Bool
  | .handle _ => true
  | _ => false

/-- The handle that a reply hands out. -/
def Reply.handle? : Reply → Option Handle
  | .handle h => some h
  | _ => none

/-- The operation that a reply hands over. -/
def Reply.operation? : Reply → Option Operation
  | .operation op => some op
  | _ => none

/-- Whether there is more to come, if a reply says that a call has ended. -/
def Reply.ended? : Reply → Option Bool
  | .ended more => some more
  | _ => none

theorem Reply.eq_handle {reply : Reply} {h : Handle} (heq : reply.handle? = some h) :
    reply = .handle h := by
  cases reply with
  | handle k =>
    cases heq
    rfl
  | done | flag | count | handles | status | answer | working | operation | inspecting | ended
    | refused | misplaced => cases heq

theorem Reply.eq_ended {reply : Reply} {more : Bool} (heq : reply.ended? = some more) :
    reply = .ended more := by
  cases reply with
  | ended more =>
    cases heq
    rfl
  | done | flag | count | handle | handles | status | answer | working | operation | inspecting
    | refused | misplaced => cases heq

theorem Reply.eq_operation {reply : Reply} {op : Operation} (h : reply.operation? = some op) :
    reply = .operation op := by
  cases reply with
  | operation given =>
    cases h
    rfl
  | done | flag | count | handle | handles | status | answer | working | inspecting | ended
    | refused | misplaced => cases h

/-- The call is marked as cancelled if it has the handle. -/
def Activation.mark (h : Handle) (a : Activation) : Activation :=
  if a.handle = h then { a with cancelled := true } else a

/-- What becomes of a call that goes on, with the reply to the host. -/
inductive Activation.Onward (a : Activation) : Reply → Activation → Prop where
  /-- An instruction has been executed. -/
  | instruct {m : Machine} (phase : a.phase = .executing) (same : m.program = a.context.program) :
      Onward a .working
        { a with context := { a.context with machine := m }, spent := a.spent + 1 }
  /-- An operation is handed over. -/
  | dispatch {m : Machine} {d : Dispatch} (phase : a.phase = .executing)
      (same : m.program = a.context.program) :
      Onward a (.operation d.operation)
        { a with
          context := { a.context with machine := m, status := .suspended }
          spent := a.spent + 1
          phase := .handling d .proceed false }
  /-- The host uses the arena. -/
  | use {answer : Except ArenaError Arena.Answer} {arena : Arena} (phase : a.phase ≠ .executing) :
      Onward a (.answer answer) { a with context := a.context.withArena arena }
  /-- The host asks how to go on. -/
  | request {d : Dispatch} {control wanted : Control} {paused stops : Bool}
      (phase : a.phase = .handling d control paused) :
      Onward a .done { a with phase := .handling d wanted stops }
  /-- The operation has been answered, and the call goes on after it. -/
  | answered {m : Machine} {d : Dispatch} {control : Control} {paused : Bool}
      (phase : a.phase = .handling d control paused) (mode : a.mode ≠ .resume)
      (uncancelled : a.cancelled = false) (same : m.program = a.context.program) :
      Onward a .working
        { a with context := a.context.withMachine m .running, phase := .executing }

/-- Two activations are of the same call of the same context, at two times of it. -/
structure Activation.SameCall (a b : Activation) : Prop where
  handle : b.handle = a.handle
  mode : b.mode = a.mode
  cancelled : b.cancelled = a.cancelled
  own : b.context.handle = a.context.handle
  program : b.context.program = a.context.program
  inspecting : b.phase = .inspecting ↔ a.phase = .inspecting

theorem Activation.Onward.sameCall {a b : Activation} {reply : Reply} (h : a.Onward reply b) :
    a.SameCall b := by
  cases h with
  | instruct phase same => exact ⟨rfl, rfl, rfl, rfl, same, Iff.rfl⟩
  | dispatch phase same =>
    refine ⟨rfl, rfl, rfl, rfl, same, iff_of_false (fun heq => nomatch heq) ?_⟩
    rw [phase]
    exact fun heq => nomatch heq
  | use phase => exact ⟨rfl, rfl, rfl, rfl, rfl, Iff.rfl⟩
  | request phase =>
    refine ⟨rfl, rfl, rfl, rfl, rfl, iff_of_false (fun heq => nomatch heq) ?_⟩
    rw [phase]
    exact fun heq => nomatch heq
  | answered phase mode uncancelled same =>
    refine ⟨rfl, rfl, rfl, rfl, same, iff_of_false (fun heq => nomatch heq) ?_⟩
    rw [phase]
    exact fun heq => nomatch heq

theorem Activation.Onward.isHandle {a b : Activation} {reply : Reply} (h : a.Onward reply b) :
    reply.isHandle = false := by
  cases h with
  | instruct | dispatch | use | request | answered => rfl

theorem Phase.isHandle_lastReply (phase : Phase) (more : Bool) :
    (phase.lastReply more).isHandle = false := by
  cases phase with
  | executing | handling | inspecting => rfl

theorem Mode.ne_of_executes {mode : Mode} (h : mode = .resume ∨ mode = .consume) :
    mode ≠ .run ∧ mode ≠ .inspect := by
  rcases h with rfl | rfl
  · decide
  · decide

namespace Session

/-- What a call can do to a session, with the reply to it. -/
inductive Transition (s : Session) : Reply → Session → Prop where
  /-- The call was a question, or it was refused. -/
  | stay {reply : Reply} (handle : reply.isHandle = false)
      (operation : reply.operation? = none) : Transition s reply s
  | issue {c : Context} (room : s.checkRoom = .ok ()) (own : c.handle = s.registry.nextHandle)
      (settled : c.Settled) :
      Transition s (.handle s.registry.nextHandle)
        { s with registry := s.registry.insert (.idle c) }
  | launch {c : Context} (own : c.handle = .detached) :
      Transition s .working { s with active :=
        { handle := .detached, mode := .run, phase := .executing, context := c } :: s.active }
  /-- A finished context is removed. -/
  | discard {h : Handle} {c : Context} (idle : s.registry.get? h = some (.idle c)) :
      Transition s (.ended false) { s with registry := s.registry.erase h }
  | execute {h : Handle} {c : Context} {mode : Mode}
      (idle : s.registry.get? h = some (.idle c)) (executes : mode = .resume ∨ mode = .consume) :
      Transition s .working (s.checkOut h mode .executing { c with status := .running })
  | inspect {h : Handle} {c : Context} (idle : s.registry.get? h = some (.idle c)) :
      Transition s .inspecting (s.checkOut h .inspect .inspecting c)
  | onward {a b : Activation} {rest : List Activation} {reply : Reply}
      (active : s.active = a :: rest) (onward : a.Onward reply b) :
      Transition s reply { s with active := b :: rest }
  /-- The innermost call ends, and its context is idle again. -/
  | checkIn {a : Activation} {rest : List Activation} {c : Context}
      (active : s.active = a :: rest) (phase : a.phase ≠ .executing)
      (uncancelled : a.cancelled = false) (own : c.handle = a.context.handle)
      (settled : c.Settled ∨ a.phase = .inspecting ∧ c = a.context) :
      Transition s (a.phase.lastReply true)
        { s with registry := s.registry.set a.handle (.idle c), active := rest }
  /-- The innermost call ends with its context. -/
  | close {a : Activation} {rest : List Activation} {reply : Reply} (active : s.active = a :: rest)
      (phase : a.phase ≠ .inspecting) (handling : a.phase ≠ .executing → a.cancelled = false)
      (ends : reply = .ended false ∨ ∃ fault, reply = .refused (.runtimeFault a.handle fault)) :
      Transition s reply { s with registry := s.registry.erase a.handle, active := rest }
  /-- The innermost call ends after its context has been cancelled. -/
  | drop {a : Activation} {rest : List Activation} (active : s.active = a :: rest)
      (phase : a.phase ≠ .executing) (cancelled : a.cancelled = true) :
      Transition s (a.phase.lastReply false) { s with active := rest }
  | cancel {h : Handle} {resident : Resident} (registered : s.registry.get? h = some resident) :
      Transition s .done
        { s with registry := s.registry.erase h, active := s.active.map (Activation.mark h) }

variable {s : Session}

/-- What a transition does to the calls in progress. -/
theorem Transition.active_cases {t : Session} {reply : Reply} (h : s.Transition reply t) :
    (reply.operation? = none ∧
      (t.active = s.active ∨ (∃ a, a.cancelled = false ∧ t.active = a :: s.active) ∨
        ∃ h, t.active = s.active.map (Activation.mark h))) ∨
    (∃ a b rest, s.active = a :: rest ∧ t.active = b :: rest ∧ a.Onward reply b) ∨
    ∃ a rest, s.active = a :: rest ∧ t.active = rest := by
  cases h with
  | stay handle operation => exact .inl ⟨operation, .inl rfl⟩
  | issue room own settled => exact .inl ⟨rfl, .inl rfl⟩
  | launch own => exact .inl ⟨rfl, .inr (.inl ⟨_, rfl, rfl⟩)⟩
  | discard idle => exact .inl ⟨rfl, .inl rfl⟩
  | execute idle executes => exact .inl ⟨rfl, .inr (.inl ⟨_, rfl, rfl⟩)⟩
  | inspect idle => exact .inl ⟨rfl, .inr (.inl ⟨_, rfl, rfl⟩)⟩
  | onward active onward => exact .inr (.inl ⟨_, _, _, active, rfl, onward⟩)
  | checkIn active phase uncancelled own settled => exact .inr (.inr ⟨_, _, active, rfl⟩)
  | close active phase handling ends => exact .inr (.inr ⟨_, _, active, rfl⟩)
  | drop active phase cancelled => exact .inr (.inr ⟨_, _, active, rfl⟩)
  | cancel registered => exact .inl ⟨rfl, .inr (.inr ⟨_, rfl⟩)⟩

/-- What a transition does to the registry. -/
theorem Transition.registry_cases {t : Session} {reply : Reply} (h : s.Transition reply t) :
    (reply.isHandle = false ∧
      (t.registry = s.registry ∨ (∃ k resident, t.registry = s.registry.set k resident) ∨
        ∃ k, t.registry = s.registry.erase k)) ∨
    ∃ c, reply = .handle s.registry.nextHandle ∧ t.registry = s.registry.insert (.idle c) := by
  cases h with
  | stay handle operation => exact .inl ⟨handle, .inl rfl⟩
  | issue room own settled => exact .inr ⟨_, rfl, rfl⟩
  | launch own => exact .inl ⟨rfl, .inl rfl⟩
  | discard idle => exact .inl ⟨rfl, .inr (.inr ⟨_, rfl⟩)⟩
  | execute idle executes => exact .inl ⟨rfl, .inr (.inl ⟨_, _, rfl⟩)⟩
  | inspect idle => exact .inl ⟨rfl, .inr (.inl ⟨_, _, rfl⟩)⟩
  | onward active onward => exact .inl ⟨onward.isHandle, .inl rfl⟩
  | checkIn active phase uncancelled own settled =>
    exact .inl ⟨Phase.isHandle_lastReply _ _, .inr (.inl ⟨_, _, rfl⟩)⟩
  | close active phase handling ends =>
    refine .inl ⟨?_, .inr (.inr ⟨_, rfl⟩)⟩
    rcases ends with rfl | ⟨fault, rfl⟩
    · rfl
    · rfl
  | drop active phase cancelled => exact .inl ⟨Phase.isHandle_lastReply _ _, .inl rfl⟩
  | cancel registered => exact .inl ⟨rfl, .inr (.inr ⟨_, rfl⟩)⟩

theorem Transition.settings_eq {t : Session} {reply : Reply} (h : s.Transition reply t) :
    t.settings = s.settings := by
  cases h with
  | stay | issue | launch | discard | execute | inspect | onward | checkIn | close | drop
    | cancel => rfl

/-! ## Starting contexts -/

theorem settled_of_create {room index stackSize memorySize depthLimit : Nat} {handle : Handle}
    {p : Program} {c : Context}
    (h : Context.create room handle p index stackSize memorySize depthLimit = .ok c) :
    c.handle = handle ∧ c.status = .running ∧ c.Settled := by
  unfold Context.create at h
  split at h
  · cases h
  · rename_i m hlay
    split at h
    · cases h
    · cases h
    · rename_i n henter
      cases h
      refine ⟨rfl, rfl, ?_⟩
      unfold Machine.enter at henter
      split at henter
      · cases henter
      · obtain ⟨⟨frame, arena⟩, _, henter⟩ := bind_eq_ok_iff.mp henter
        cases henter
        exact iff_of_false (fun hstatus => nomatch hstatus) (fun hframes => nomatch hframes)

/-- A context that has been registered is new, and there was room for it. -/
theorem register_eq_ok {p : Program} {entry : String} {memorySize stackSize : Nat} {h : Handle}
    {registry : Registry Resident}
    (hregister : s.register p entry memorySize stackSize = .ok (h, registry)) :
    ∃ index c, checkSizes s.settings stackSize memorySize = .ok () ∧
      findEntry p entry = .ok index ∧ s.checkRoom = .ok () ∧
      Context.create s.room s.registry.nextHandle p index stackSize memorySize
        s.settings.maxCallDepth = .ok c ∧
      h = s.registry.nextHandle ∧ registry = s.registry.insert (.idle c) := by
  unfold register at hregister
  obtain ⟨⟨⟩, hsizes, hregister⟩ := bind_eq_ok_iff.mp hregister
  obtain ⟨index, hfound, hregister⟩ := bind_eq_ok_iff.mp hregister
  obtain ⟨⟨⟩, hroom, hregister⟩ := bind_eq_ok_iff.mp hregister
  unfold Registry.insertWith at hregister
  split at hregister
  · cases hregister
  · rename_i value hmake
    obtain ⟨c, hcreate, hvalue⟩ := bind_eq_ok_iff.mp hmake
    cases hvalue
    cases hregister
    exact ⟨index, c, hsizes, hfound, hroom, hcreate, rfl, rfl⟩

/-- What comes of a call that is to start a context. -/
theorem startProgram_cases (s : Session) (p : Program) (entry : String)
    (memorySize stackSize : Nat) :
    (∃ cause, s.startProgram p entry memorySize stackSize = (.refused cause, s)) ∨
    ∃ index c, checkSizes s.settings stackSize memorySize = .ok () ∧
      findEntry p entry = .ok index ∧ s.checkRoom = .ok () ∧
      Context.create s.room s.registry.nextHandle p index stackSize memorySize
        s.settings.maxCallDepth = .ok c ∧
      s.startProgram p entry memorySize stackSize =
        (.handle s.registry.nextHandle, { s with registry := s.registry.insert (.idle c) }) := by
  unfold startProgram
  split
  · exact .inl ⟨_, rfl⟩
  · rename_i h registry hregister
    obtain ⟨index, c, hsizes, hfound, hroom, hcreate, rfl, rfl⟩ := register_eq_ok hregister
    exact .inr ⟨index, c, hsizes, hfound, hroom, hcreate, rfl⟩

theorem transition_startProgram (s : Session) (p : Program) (entry : String)
    (memorySize stackSize : Nat) :
    s.Transition (s.startProgram p entry memorySize stackSize).1
      (s.startProgram p entry memorySize stackSize).2 := by
  rcases startProgram_cases s p entry memorySize stackSize with
    ⟨cause, heq⟩ | ⟨index, c, _, _, hroom, hcreate, heq⟩
  · rw [heq]
    exact .stay rfl rfl
  · obtain ⟨hown, _, hsettled⟩ := settled_of_create hcreate
    rw [heq]
    exact .issue hroom hown hsettled

theorem transition_start (s : Session) (bytecode : List UInt8) (entry : String)
    (memorySize stackSize : Nat) :
    s.Transition (s.start bytecode entry memorySize stackSize).1
      (s.start bytecode entry memorySize stackSize).2 := by
  unfold start
  split
  · exact .stay rfl rfl
  · exact transition_startProgram s _ entry memorySize stackSize

theorem transition_fork (s : Session) (parent : Handle) (entry : String)
    (memorySize stackSize : Nat) :
    s.Transition (s.fork parent entry memorySize stackSize).1
      (s.fork parent entry memorySize stackSize).2 := by
  unfold fork
  split
  · exact .stay rfl rfl
  · exact transition_startProgram s _ entry memorySize stackSize

/-- What comes of a call that is to execute a new context. -/
theorem run_cases (s : Session) (bytecode : List UInt8) (entry : String)
    (memorySize stackSize : Nat) :
    (∃ cause, s.run bytecode entry memorySize stackSize = (.refused cause, s)) ∨
    ∃ c, c.handle = .detached ∧ s.run bytecode entry memorySize stackSize =
      (.working, { s with active :=
        { handle := .detached, mode := .run, phase := .executing, context := c } ::
          s.active }) := by
  unfold run
  dsimp only
  split
  · exact .inl ⟨_, rfl⟩
  · rename_i context hcreated
    split at hcreated
    · cases hcreated
    · obtain ⟨_, _, hcreated⟩ := bind_eq_ok_iff.mp hcreated
      obtain ⟨index, _, hcreate⟩ := bind_eq_ok_iff.mp hcreated
      exact .inr ⟨context, (settled_of_create hcreate).1, rfl⟩

theorem transition_run (s : Session) (bytecode : List UInt8) (entry : String)
    (memorySize stackSize : Nat) :
    s.Transition (s.run bytecode entry memorySize stackSize).1
      (s.run bytecode entry memorySize stackSize).2 := by
  rcases run_cases s bytecode entry memorySize stackSize with ⟨cause, heq⟩ | ⟨c, hown, heq⟩
  · rw [heq]
    exact .stay rfl rfl
  · rw [heq]
    exact .launch hown

/-! ## Entering and leaving contexts -/

theorem idle_eq_ok_iff {h : Handle} {c : Context} :
    s.idle h = .ok c ↔ s.registry.get? h = some (.idle c) := by
  unfold idle
  constructor
  · intro hidle
    split at hidle
    · cases hidle
    · cases hidle
    · rename_i c' hget
      cases hidle
      exact hget
  · intro hget
    rw [hget]

/-- What comes of a call that is to execute a context. -/
theorem execute_cases (s : Session) (h : Handle) (mode : Mode) :
    (∃ cause, s.execute h mode = (.refused cause, s) ∧
      (s.registry.contains h = true ↔ cause = .contextBusy h)) ∨
    (∃ c, s.registry.get? h = some (.idle c) ∧
      s.execute h mode = (.ended false, { s with registry := s.registry.erase h })) ∨
    ∃ c, s.registry.get? h = some (.idle c) ∧
      s.execute h mode =
        (.working, s.checkOut h mode .executing { c with status := .running }) := by
  unfold execute idle Registry.contains
  cases hget : s.registry.get? h with
  | none => simp
  | some resident =>
    cases resident with
    | away p => simp
    | idle c =>
      by_cases hfinished : c.status = .finished
      · simp [hfinished]
      · simp [hfinished]

theorem transition_execute (s : Session) (h : Handle) {mode : Mode}
    (hmode : mode = .resume ∨ mode = .consume) :
    s.Transition (s.execute h mode).1 (s.execute h mode).2 := by
  rcases execute_cases s h mode with ⟨cause, heq, _⟩ | ⟨c, hidle, heq⟩ | ⟨c, hidle, heq⟩
  · rw [heq]
    exact .stay rfl rfl
  · rw [heq]
    exact .discard hidle
  · rw [heq]
    exact .execute hidle hmode

theorem inspect_cases (s : Session) (h : Handle) :
    (∃ cause, s.inspect h = (.refused cause, s)) ∨
    ∃ c, s.registry.get? h = some (.idle c) ∧
      s.inspect h = (.inspecting, s.checkOut h .inspect .inspecting c) := by
  unfold inspect
  split
  · exact .inl ⟨_, rfl⟩
  · rename_i c hidle
    exact .inr ⟨c, idle_eq_ok_iff.mp hidle, rfl⟩

theorem transition_inspect (s : Session) (h : Handle) :
    s.Transition (s.inspect h).1 (s.inspect h).2 := by
  rcases inspect_cases s h with ⟨cause, heq⟩ | ⟨c, hidle, heq⟩
  · rw [heq]
    exact .stay rfl rfl
  · rw [heq]
    exact .inspect hidle

theorem transition_status (s : Session) (h : Handle) :
    s.Transition (s.status h).1 (s.status h).2 := by
  unfold status
  split
  · exact .stay rfl rfl
  · exact .stay rfl rfl

theorem cancel_cases (s : Session) (h : Handle) :
    (s.registry.get? h = none ∧ s.cancel h = (.done, s)) ∨
    ∃ resident, s.registry.get? h = some resident ∧
      s.cancel h = (.done,
        { s with registry := s.registry.erase h, active := s.active.map (Activation.mark h) }) := by
  unfold cancel Registry.erase
  cases hget : s.registry.get? h with
  | none =>
    rw [Registry.remove_of_none hget]
    exact .inl ⟨rfl, rfl⟩
  | some resident =>
    rw [Registry.remove_of_some hget]
    exact .inr ⟨resident, rfl, rfl⟩

theorem transition_cancel (s : Session) (h : Handle) :
    s.Transition (s.cancel h).1 (s.cancel h).2 := by
  rcases cancel_cases s h with ⟨_, heq⟩ | ⟨resident, hget, heq⟩
  · rw [heq]
    exact .stay rfl rfl
  · rw [heq]
    exact .cancel hget

theorem transition_leave (s : Session) : s.Transition s.leave.1 s.leave.2 := by
  unfold leave
  split
  · exact .stay rfl rfl
  · rename_i a rest hs
    split
    · rename_i hphase
      have hne : a.phase ≠ .executing := by
        rw [hphase]
        exact fun heq => nomatch heq
      split
      · rename_i hcancelled
        have hdrop := Transition.drop hs hne hcancelled
        rw [hphase] at hdrop
        exact hdrop
      · rename_i hcancelled
        have hcheckIn := Transition.checkIn hs hne (Bool.not_eq_true _ ▸ hcancelled) rfl
          (.inr ⟨hphase, rfl⟩)
        rw [hphase] at hcheckIn
        exact hcheckIn
    · exact .stay rfl rfl

/-! ## Executing -/

theorem program_of_advance {settings : Settings} {spent : Nat} {m : Machine} {progress : Progress}
    (h : advance settings spent m = .ok progress) :
    match progress with
    | .finished => True
    | .next n => n.program = m.program
    | .dispatch n _ => n.program = m.program := by
  obtain ⟨k, hsettle, hprogress⟩ := advance_eq_ok h
  have hk := (Machine.sameSetup_settle hsettle).program
  cases progress with
  | finished => trivial
  | next n => exact (Machine.sameSetup_step hprogress.2).program.trans hk
  | dispatch n d => exact (Machine.sameSetup_step hprogress.2).program.trans hk

/-- **One instruction.** Nothing happens, or the innermost call executes and then goes on or ends
with its context. -/
theorem tick_cases (s : Session) :
    s.tick = (.misplaced, s) ∨
      ∃ a rest, s.active = a :: rest ∧ a.phase = .executing ∧
        ((∃ b, a.Onward s.tick.1 b ∧ s.tick.2 = { s with active := b :: rest }) ∨
          (s.tick.1 = .ended false ∨ ∃ fault, s.tick.1 = .refused (.runtimeFault a.handle fault)) ∧
            s.tick.2 = { s with registry := s.registry.erase a.handle, active := rest }) := by
  unfold tick
  split
  · exact .inl rfl
  · rename_i a rest hs
    split
    · rename_i hphase
      refine .inr ⟨a, rest, hs, hphase, ?_⟩
      split
      · exact .inr ⟨.inr ⟨_, rfl⟩, rfl⟩
      · exact .inr ⟨.inl rfl, rfl⟩
      · rename_i m hadvance
        exact .inl ⟨_, .instruct hphase (program_of_advance hadvance), rfl⟩
      · rename_i m d hadvance
        exact .inl ⟨_, .dispatch hphase (program_of_advance hadvance), rfl⟩
    · exact .inl rfl

theorem transition_tick (s : Session) : s.Transition s.tick.1 s.tick.2 := by
  rcases tick_cases s with hstay | ⟨a, rest, hs, hphase, ⟨b, hb, heq⟩ | ⟨hreply, heq⟩⟩
  · rw [hstay]
    exact .stay rfl rfl
  · rw [heq]
    exact .onward hs hb
  · rw [heq]
    refine .close hs ?_ (fun hne => absurd hphase hne) hreply
    rw [hphase]
    exact fun heq => nomatch heq

theorem program_of_answered {m n : Machine} {d : Dispatch} {control : Control}
    {outcome : Except String Unit} (h : answered m d control outcome = .ok n) :
    n.program = m.program := by
  obtain ⟨k, hcomplete, hsettle⟩ := answered_eq_ok h
  exact (Machine.sameSetup_settle hsettle).program.trans
    (Machine.sameSetup_complete hcomplete).program

theorem settled_withMachine (c : Context) (m : Machine) {status : Status}
    (hstatus : status ≠ .finished) : (c.withMachine m status).Settled := by
  unfold Context.Settled Context.withMachine
  dsimp only
  split
  · rename_i hempty
    exact iff_of_true rfl (List.isEmpty_iff.mp hempty)
  · rename_i hmore
    exact iff_of_false hstatus fun hnil => hmore (List.isEmpty_iff.mpr hnil)

theorem transition_finish (s : Session) (outcome : Except String Unit) :
    s.Transition (s.finish outcome).1 (s.finish outcome).2 := by
  unfold finish
  split
  · exact .stay rfl rfl
  · rename_i a rest hs
    split
    · rename_i d control paused hphase
      have hne : a.phase ≠ .executing := by
        rw [hphase]
        exact fun heq => nomatch heq
      have hlast : ∀ more, a.phase.lastReply more = .ended more := by
        intro more
        rw [hphase]
        rfl
      split
      · rename_i hcancelled
        have hdrop := Transition.drop hs hne hcancelled
        rw [hlast] at hdrop
        exact hdrop
      · rename_i hcancelled
        replace hcancelled := Bool.eq_false_iff.mpr hcancelled
        split
        · refine .close hs ?_ (fun _ => hcancelled) (.inr ⟨_, rfl⟩)
          rw [hphase]
          exact fun heq => nomatch heq
        · rename_i m hanswered
          have hcheckIn := Transition.checkIn hs hne hcancelled
            (c := a.context.withMachine m .suspended) rfl
            (.inl (settled_withMachine _ _ (fun heq => nomatch heq)))
          rw [hlast] at hcheckIn
          dsimp only
          split
          · exact hcheckIn
          · rename_i hmode
            split
            · exact hcheckIn
            · exact .onward hs (.answered hphase hmode hcancelled (program_of_answered hanswered))
    · exact .stay rfl rfl

/-! ## What a host asks for -/

theorem transition_perform (s : Session) (action : Arena.Action) :
    s.Transition (s.perform action).1 (s.perform action).2 := by
  unfold perform
  split
  · exact .stay rfl rfl
  · rename_i a rest hs
    split
    · exact .stay rfl rfl
    · rename_i hphase
      exact .onward hs (.use hphase)

theorem transition_request (s : Session) (change : Control → Bool → Control × Bool) :
    s.Transition (s.request change).1 (s.request change).2 := by
  unfold request
  split
  · exact .stay rfl rfl
  · rename_i a rest hs
    split
    · rename_i d control paused hphase
      exact .onward hs (.request hphase)
    · exact .stay rfl rfl

theorem transition_goTo (s : Session) (label : String) :
    s.Transition (s.goTo label).1 (s.goTo label).2 := by
  unfold goTo
  split
  · exact .stay rfl rfl
  · split
    · split
      · exact transition_request s _
      · exact .stay rfl rfl
    · exact .stay rfl rfl

theorem transition_isPaused (s : Session) : s.Transition s.isPaused.1 s.isPaused.2 := by
  unfold isPaused
  split
  · exact .stay rfl rfl
  · split
    · exact .stay rfl rfl
    · exact .stay rfl rfl

/-- **One call.** -/
theorem transition_call (s : Session) (c : Call) : s.Transition (s.call c).1 (s.call c).2 := by
  cases c with
  | start bytecode entry memorySize stackSize =>
    exact transition_start s bytecode entry memorySize stackSize
  | startProgram p entry memorySize stackSize =>
    exact transition_startProgram s p entry memorySize stackSize
  | fork parent entry memorySize stackSize =>
    exact transition_fork s parent entry memorySize stackSize
  | cancel h => exact transition_cancel s h
  | status h => exact transition_status s h
  | contains | size | handles => exact .stay rfl rfl
  | resume h => exact transition_execute s h (.inl rfl)
  | consume h => exact transition_execute s h (.inr rfl)
  | run bytecode entry memorySize stackSize =>
    exact transition_run s bytecode entry memorySize stackSize
  | inspect h => exact transition_inspect s h
  | tick => exact transition_tick s
  | finish outcome => exact transition_finish s outcome
  | leave => exact transition_leave s
  | perform action => exact transition_perform s action
  | goTo label => exact transition_goTo s label
  | forceReturn | pause => exact transition_request s _
  | isPaused => exact transition_isPaused s

theorem Transition.wellFormed {t : Session} {reply : Reply} (h : s.Transition reply t)
    (hs : s.registry.WellFormed) : t.registry.WellFormed := by
  rcases h.registry_cases with
    ⟨_, heq | ⟨k, resident, heq⟩ | ⟨k, heq⟩⟩ | ⟨c, _, heq⟩
  · rw [heq]
    exact hs
  · rw [heq]
    exact Registry.wellFormed_set hs k resident
  · rw [heq]
    exact Registry.wellFormed_erase hs k
  · rw [heq]
    exact Registry.wellFormed_insert hs _

theorem wellFormed_callAll (hs : s.registry.WellFormed) (calls : List Call) :
    (s.callAll calls).2.registry.WellFormed := by
  induction calls generalizing s with
  | nil => exact hs
  | cons c rest ih => exact ih ((transition_call s c).wellFormed hs)

theorem settings_callAll (s : Session) (calls : List Call) :
    (s.callAll calls).2.settings = s.settings := by
  induction calls generalizing s with
  | nil => rfl
  | cons c rest ih => exact (ih _).trans (transition_call s c).settings_eq

end Session

end Hostcall
