import Hostcall.Proofs.Session.Reachable

/-!
# Where faults come from

A call reports a fault only if it executes an instruction of the innermost activation or answers
the operation of it (`fails_of_call`). In particular no context is refused with a fault at its
start: the entry exists, and all that can be missing then is room in the arena.
-/

namespace Hostcall

open Attempt

/-- The fault that an error is about, with the handle of the context that has met it. -/
def EngineError.fault? : EngineError → Option (Handle × Fault)
  | .runtimeFault handle fault => some (handle, fault)
  | _ => none

/-- The fault that a reply reports. -/
def Reply.fault? : Reply → Option (Handle × Fault)
  | .refused cause => cause.fault?
  | _ => none

def EngineError.Faultless (e : EngineError) : Prop := e.fault? = none

def Reply.Faultless (r : Reply) : Prop := r.fault? = none

theorem Reply.Faultless.absurd {r : Reply} {reported : Handle × Fault} {P : Prop}
    (hr : r.Faultless) (h : r.fault? = some reported) : P := by
  rw [hr] at h
  cases h

/-- What an activation does next comes to a fault. -/
def Activation.Fails (settings : Settings) (a : Activation) (fault : Fault) : Prop :=
  match a.phase with
  | .executing => Session.advance settings a.spent a.context.machine = .error fault
  | .handling d control _ =>
    ∃ outcome, Session.answered a.context.machine d control outcome = .error fault
  | .inspecting => False

namespace Session

variable {s : Session}

theorem advance_eq_error {settings : Settings} {spent : Nat} {m : Machine} {fault : Fault}
    (h : advance settings spent m = .error fault) :
    m.settle = .error fault ∨
      ∃ k, m.settle = .ok k ∧ k.frames ≠ [] ∧
        ((∃ limit, fault = .stepLimitExceeded limit) ∨ k.step = .error fault) := by
  unfold advance at h
  rcases bind_eq_error_iff.mp h with hsettle | ⟨k, hsettle, h⟩
  · exact .inl hsettle
  · refine .inr ⟨k, hsettle, ?_⟩
    split at h
    · cases h
    · rename_i hmore
      refine ⟨fun hnil => hmore (List.isEmpty_iff.mpr hnil), ?_⟩
      rcases bind_eq_error_iff.mp h with hlimit | ⟨_, _, h⟩
      · unfold withinLimit at hlimit
        split at hlimit
        · split at hlimit
          · cases hlimit
            exact .inl ⟨_, rfl⟩
          · cases hlimit
        · cases hlimit
      · rcases bind_eq_error_iff.mp h with hstep | ⟨e, _, h⟩
        · exact .inr hstep
        · cases e with
          | next n => cases h
          | dispatch n d => cases h

theorem answered_eq_error {m : Machine} {d : Dispatch} {control : Control}
    {outcome : Except String Unit} {fault : Fault}
    (h : answered m d control outcome = .error fault) :
    (∃ message, fault = .host d.operation.name message) ∨ m.complete d control = .error fault ∨
      ∃ k, m.complete d control = .ok k ∧ k.settle = .error fault := by
  unfold answered at h
  split at h
  · cases h
    exact .inl ⟨_, rfl⟩
  · rcases bind_eq_error_iff.mp h with hcomplete | hsettle
    · exact .inr (.inl hcomplete)
    · exact .inr (.inr hsettle)

/-! ## Starting contexts -/

theorem meets_findEntry (p : Program) (entry : String) :
    Meets (fun index => ∃ procedure, p.procedures[index]? = some procedure)
      EngineError.Faultless (findEntry p entry) := by
  unfold findEntry
  split
  · exact meets_error rfl
  · split
    · rename_i procedure hprocedure
      split
      · exact meets_ok ⟨procedure, hprocedure⟩
      · exact meets_error rfl
    · exact meets_error rfl

theorem meets_checkSizes (settings : Settings) (stackSize memorySize : Nat) :
    Meets (fun _ => True) EngineError.Faultless (checkSizes settings stackSize memorySize) := by
  unfold checkSizes
  split
  · exact meets_error rfl
  · split
    · split
      · exact meets_error rfl
      · exact meets_ok trivial
    · exact meets_ok trivial

theorem meets_checkRoom (s : Session) :
    Meets (fun _ => True) EngineError.Faultless s.checkRoom := by
  unfold checkRoom
  split
  · split
    · exact meets_error rfl
    · exact meets_ok trivial
  · exact meets_ok trivial

theorem program_of_layProgram {room stackSize memorySize depthLimit : Nat} {p : Program}
    {m : Machine} (h : Context.layProgram room p stackSize memorySize depthLimit = .ok m) :
    m.program = p ∧ m.frames = [] := by
  unfold Context.layProgram at h
  obtain ⟨_, _, h⟩ := bind_eq_ok_iff.mp h
  obtain ⟨_, _, h⟩ := bind_eq_ok_iff.mp h
  obtain ⟨_, _, h⟩ := bind_eq_ok_iff.mp h
  cases h
  exact ⟨rfl, rfl⟩

/-- A procedure that exists can be entered if there is room for its frame. -/
theorem meets_create {room index stackSize memorySize depthLimit : Nat} {p : Program}
    {procedure : Procedure} (handle : Handle) (h : p.procedures[index]? = some procedure) :
    Meets (fun _ => True) EngineError.Faultless
      (Context.create room handle p index stackSize memorySize depthLimit) := by
  unfold Context.create
  split
  · exact meets_error rfl
  · rename_i m hlay
    split
    · exact meets_error rfl
    · rename_i fault hnot hfault
      unfold Machine.enter at hfault
      rw [(program_of_layProgram hlay).1, h] at hfault
      rcases bind_eq_error_iff.mp hfault with hframe | ⟨_, _, hdone⟩
      · cases hlayFrame : Machine.layFrame m.arena index procedure [] with
        | error e =>
          rw [hlayFrame] at hframe
          cases hframe
          exact absurd rfl (hnot e)
        | ok r =>
          rw [hlayFrame] at hframe
          cases hframe
      · cases hdone
    · exact meets_ok trivial

theorem faultless_startProgram (s : Session) (p : Program) (entry : String)
    (memorySize stackSize : Nat) :
    (s.startProgram p entry memorySize stackSize).1.Faultless := by
  have hregister : Meets (fun _ => True) EngineError.Faultless
      (s.register p entry memorySize stackSize) := by
    unfold register
    refine meets_bind (meets_checkSizes _ _ _) fun _ _ => ?_
    refine meets_bind (meets_findEntry p entry) fun index hindex => ?_
    obtain ⟨procedure, hprocedure⟩ := hindex
    refine meets_bind (meets_checkRoom s) fun _ _ => ?_
    unfold Registry.insertWith
    split
    · rename_i refusal hmake
      exact (meets_bind (R := fun _ => True) (meets_create _ hprocedure) fun _ _ =>
        meets_pure trivial).error hmake
    · exact meets_ok trivial
  unfold startProgram
  split
  · rename_i cause hcause
    exact hregister.error hcause
  · rfl

theorem faultless_start (s : Session) (bytecode : List UInt8) (entry : String)
    (memorySize stackSize : Nat) : (s.start bytecode entry memorySize stackSize).1.Faultless := by
  unfold start
  split
  · rfl
  · exact faultless_startProgram s _ entry memorySize stackSize

theorem faultless_fork (s : Session) (parent : Handle) (entry : String)
    (memorySize stackSize : Nat) : (s.fork parent entry memorySize stackSize).1.Faultless := by
  unfold fork
  split
  · rfl
  · exact faultless_startProgram s _ entry memorySize stackSize

theorem faultless_run (s : Session) (bytecode : List UInt8) (entry : String)
    (memorySize stackSize : Nat) : (s.run bytecode entry memorySize stackSize).1.Faultless := by
  unfold run
  dsimp only
  split
  · rename_i cause hcreated
    split at hcreated
    · cases hcreated
      rfl
    · rename_i p hload
      have hcreate : Meets (fun _ => True) EngineError.Faultless (do
          checkSizes s.settings stackSize memorySize
          let index ← findEntry p entry
          Context.create s.room .detached p index stackSize memorySize
            s.settings.maxCallDepth) := by
        refine meets_bind (meets_checkSizes _ _ _) fun _ _ => ?_
        exact meets_bind (meets_findEntry p entry) fun index hindex =>
          hindex.elim fun procedure hprocedure => meets_create _ hprocedure
      exact hcreate.error hcreated
  · rfl

/-! ## Other calls -/

theorem faultless_of_idle_eq_error {handle : Handle} {cause : EngineError}
    (h : s.idle handle = .error cause) : (Reply.refused cause).Faultless := by
  unfold idle at h
  split at h
  · cases h
    rfl
  · cases h
    rfl
  · cases h

theorem faultless_execute (s : Session) (handle : Handle) (mode : Mode) :
    (s.execute handle mode).1.Faultless := by
  unfold execute
  split
  · rename_i hidle
    exact faultless_of_idle_eq_error hidle
  · split
    · rfl
    · rfl

theorem faultless_inspect (s : Session) (handle : Handle) :
    (s.inspect handle).1.Faultless := by
  unfold inspect
  split
  · rename_i hidle
    exact faultless_of_idle_eq_error hidle
  · rfl

theorem faultless_status (s : Session) (handle : Handle) :
    (s.status handle).1.Faultless := by
  unfold status
  split
  · rename_i hidle
    exact faultless_of_idle_eq_error hidle
  · rfl

theorem faultless_cancel (s : Session) (handle : Handle) : (s.cancel handle).1.Faultless := by
  unfold cancel
  split
  · rfl
  · rfl

theorem faultless_leave (s : Session) : s.leave.1.Faultless := by
  unfold leave checkIn
  split
  · rfl
  · split
    · split
      · rfl
      · rfl
    · rfl

theorem faultless_perform (s : Session) (action : Arena.Action) :
    (s.perform action).1.Faultless := by
  unfold perform
  split
  · rfl
  · split
    · rfl
    · rfl

theorem faultless_request (s : Session) (change : Control → Bool → Control × Bool) :
    (s.request change).1.Faultless := by
  unfold request
  split
  · rfl
  · split
    · rfl
    · rfl

theorem faultless_goTo (s : Session) (label : String) : (s.goTo label).1.Faultless := by
  unfold goTo
  split
  · rfl
  · split
    · split
      · exact faultless_request s _
      · rfl
    · rfl

theorem faultless_isPaused (s : Session) : s.isPaused.1.Faultless := by
  unfold isPaused
  split
  · rfl
  · split
    · rfl
    · rfl

theorem fails_of_tick {handle : Handle} {fault : Fault}
    (h : s.tick.1.fault? = some (handle, fault)) :
    ∃ a rest, s.active = a :: rest ∧ a.handle = handle ∧ a.Fails s.settings fault := by
  unfold tick at h
  split at h
  · cases h
  · rename_i a rest hs
    split at h
    · rename_i hphase
      split at h
      · rename_i hadvance
        cases h
        refine ⟨a, rest, hs, rfl, ?_⟩
        rw [Activation.Fails, hphase]
        exact hadvance
      · cases h
      · cases h
      · cases h
    · cases h

theorem fails_of_finish {outcome : Except String Unit} {handle : Handle} {fault : Fault}
    (h : (s.finish outcome).1.fault? = some (handle, fault)) :
    ∃ a rest, s.active = a :: rest ∧ a.handle = handle ∧ a.Fails s.settings fault := by
  unfold finish at h
  split at h
  · cases h
  · rename_i a rest hs
    split at h
    · rename_i d control paused hphase
      split at h
      · cases h
      · split at h
        · rename_i hanswered
          cases h
          refine ⟨a, rest, hs, rfl, ?_⟩
          rw [Activation.Fails, hphase]
          exact ⟨outcome, hanswered⟩
        · dsimp only at h
          split at h
          · cases h
          · split at h
            · cases h
            · cases h
    · cases h

/-- A fault that a call reports is one that the innermost activation comes to. -/
theorem fails_of_call {c : Call} {handle : Handle} {fault : Fault}
    (h : (s.call c).1.fault? = some (handle, fault)) :
    ∃ a rest, s.active = a :: rest ∧ a.handle = handle ∧ a.Fails s.settings fault := by
  cases c with
  | tick => exact fails_of_tick h
  | finish outcome => exact fails_of_finish h
  | start bytecode entry memorySize stackSize =>
    exact (faultless_start s bytecode entry memorySize stackSize).absurd h
  | startProgram p entry memorySize stackSize =>
    exact (faultless_startProgram s p entry memorySize stackSize).absurd h
  | fork parent entry memorySize stackSize =>
    exact (faultless_fork s parent entry memorySize stackSize).absurd h
  | cancel target => exact (faultless_cancel s target).absurd h
  | status target => exact (faultless_status s target).absurd h
  | contains | size | handles => cases h
  | resume target | consume target => exact (faultless_execute s target _).absurd h
  | run bytecode entry memorySize stackSize =>
    exact (faultless_run s bytecode entry memorySize stackSize).absurd h
  | inspect target => exact (faultless_inspect s target).absurd h
  | leave => exact (faultless_leave s).absurd h
  | perform action => exact (faultless_perform s action).absurd h
  | goTo label => exact (faultless_goTo s label).absurd h
  | forceReturn | pause => exact (faultless_request s _).absurd h
  | isPaused => exact (faultless_isPaused s).absurd h

end Session

end Hostcall
