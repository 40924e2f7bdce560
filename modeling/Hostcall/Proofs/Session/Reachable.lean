import Hostcall.Proofs.Attempt
import Hostcall.Session.Call
import Hostcall.Session.Host

/-!
# What can happen to a context

A session interleaves the calls of many contexts, but each machine goes through few kinds of
change: it is laid out, executes an instruction, has its arena used by a host and has an
operation answered. `Machine.Reachable` lists them, for hosts that keep to what `allowed` says.

* `tracked_call`, `tracked_history`: in whatever order a host calls a session, the machine of
  every context of it is reachable. What holds of machines at every time is therefore proved by
  induction on `Machine.Reachable`, without a look at sessions.
-/

namespace Hostcall

open Attempt

/-- What a machine is waiting for. -/
inductive Stage where
  /-- The next instruction. -/
  | resting
  /-- The answer to an operation. The host has last asked to go on as `control` says. -/
  | handling (d : Dispatch) (control : Control)

def Phase.stage : Phase → Stage
  | .handling d control _ => .handling d control
  | .executing | .inspecting => .resting

/-- The machines of contexts whose hosts ask for nothing that `allowed` refuses them. An arena is
open to its host also while the machine rests, when the host inspects the context. -/
inductive Machine.Reachable (allowed : Machine → Wish → Prop) : Machine → Stage → Prop where
  | create {room stackSize memorySize depthLimit index : Nat} {p : Program} {entry : String}
      {m n : Machine} (lay : Context.layProgram room p stackSize memorySize depthLimit = .ok m)
      (found : Session.findEntry p entry = .ok index) (enter : m.enter index [] = .ok n) :
      Reachable allowed n .resting
  | settle {m n : Machine} (before : Reachable allowed m .resting) (settle : m.settle = .ok n) :
      Reachable allowed n .resting
  | next {m n : Machine} (before : Reachable allowed m .resting) (more : m.frames ≠ [])
      (step : m.step = .ok (.next n)) : Reachable allowed n .resting
  | dispatch {m n : Machine} {d : Dispatch} (before : Reachable allowed m .resting)
      (more : m.frames ≠ []) (step : m.step = .ok (.dispatch n d)) :
      Reachable allowed n (.handling d .proceed)
  | perform {m : Machine} {stage : Stage} {action : Arena.Action}
      (before : Reachable allowed m stage) (wish : allowed m (.perform action)) :
      Reachable allowed { m with arena := (m.arena.perform action).2 } stage
  | goTo {m : Machine} {d : Dispatch} {control : Control} {f : Frame} {callers : List Frame}
      {p : Procedure} {label : String} {position : Nat}
      (before : Reachable allowed m (.handling d control)) (wish : allowed m (.goTo label))
      (frames : m.frames = f :: callers) (procedure : m.procedure? f = some p)
      (found : p.labelPosition? label = some position) :
      Reachable allowed m (.handling d (.goTo position))
  | forceReturn {m : Machine} {d : Dispatch} {control : Control}
      (before : Reachable allowed m (.handling d control)) (wish : allowed m .forceReturn) :
      Reachable allowed m (.handling d .leave)
  | complete {m n : Machine} {d : Dispatch} {control : Control}
      (before : Reachable allowed m (.handling d control))
      (complete : m.complete d control = .ok n) : Reachable allowed n .resting

/-! ## The values of a registry -/

namespace Registry

variable {α : Type}

/-- A slot of the table has the value. -/
def Holds (r : Registry α) (value : α) : Prop := ∃ slot ∈ r.slots, slot.value = some value

theorem holds_of_get? {r : Registry α} {h : Handle} {value : α} (hget : r.get? h = some value) :
    r.Holds value := by
  unfold get? at hget
  split at hget
  · rename_i slot hslot
    split at hget
    · exact ⟨slot, Array.mem_of_getElem? hslot, hget⟩
    · cases hget
  · cases hget

theorem holds_of_setIfInBounds {slots : Array (Slot α)} {index : Nat} {slot : Slot α} {value : α}
    (h : ∃ x ∈ slots.setIfInBounds index slot, x.value = some value) :
    slot.value = some value ∨ ∃ x ∈ slots, x.value = some value := by
  obtain ⟨x, hx, hvalue⟩ := h
  rw [Array.setIfInBounds] at hx
  split at hx
  · rcases Array.mem_or_eq_of_mem_set hx with hx | rfl
    · exact .inr ⟨x, hx, hvalue⟩
    · exact .inl hvalue
  · exact .inr ⟨x, hx, hvalue⟩

theorem holds_of_set {r : Registry α} {h : Handle} {new value : α}
    (hset : (r.set h new).Holds value) : value = new ∨ r.Holds value := by
  unfold set at hset
  split at hset
  · rcases holds_of_setIfInBounds hset with hnew | hold
    · exact .inl (Option.some.inj hnew).symm
    · exact .inr hold
  · exact .inr hset

theorem holds_of_insert {r : Registry α} {new value : α} (hinsert : (r.insert new).Holds value) :
    value = new ∨ r.Holds value := by
  unfold insert at hinsert
  dsimp only at hinsert
  split at hinsert
  · obtain ⟨x, hx, hvalue⟩ := hinsert
    rcases Array.mem_push.mp hx with hx | rfl
    · exact .inr ⟨x, hx, hvalue⟩
    · exact .inl (Option.some.inj hvalue).symm
  · rcases holds_of_setIfInBounds hinsert with hnew | hold
    · exact .inl (Option.some.inj hnew).symm
    · exact .inr hold

theorem holds_of_remove {r rest : Registry α} {h : Handle} {old value : α}
    (hremove : r.remove h = some (old, rest)) (hrest : rest.Holds value) : r.Holds value := by
  unfold remove at hremove
  split at hremove
  · cases hremove
  · cases hremove
    exact (holds_of_setIfInBounds hrest).resolve_left fun hnone => nomatch hnone

theorem holds_of_erase {r : Registry α} {h : Handle} {value : α}
    (herase : (r.erase h).Holds value) : r.Holds value := by
  unfold erase at herase
  split at herase
  · rename_i old rest hremove
    exact holds_of_remove hremove herase
  · exact herase

end Registry

/-! ## Sessions -/

/-- What a host that makes a call asks for about the context before it. -/
def Call.wish? : Call → Option Wish
  | .perform action => some (.perform action)
  | .goTo label => some (.goTo label)
  | .forceReturn => some .forceReturn
  | .pause => some .pause
  | _ => none

namespace Session

variable {allowed : Handle → Machine → Wish → Prop} {s : Session}

/-- A call asks for nothing that `allowed` refuses to the host of the context. -/
def Abides (allowed : Handle → Machine → Wish → Prop) (s : Session) (call : Call) : Prop :=
  ∀ wish ∈ call.wish?, ∀ c ∈ s.current?, allowed c.handle c.machine wish

/-- None of the calls, made one after the other, asks for what `allowed` refuses. -/
def AbidesAll (allowed : Handle → Machine → Wish → Prop) : Session → List Call → Prop
  | _, [] => True
  | s, c :: rest => s.Abides allowed c ∧ (s.call c).2.AbidesAll allowed rest

/-- The machines of all contexts of a session are reachable. -/
structure Tracked (allowed : Handle → Machine → Wish → Prop) (s : Session) : Prop where
  idle : ∀ c, s.registry.Holds (.idle c) → c.machine.Reachable (allowed c.handle) .resting
  active : ∀ a ∈ s.active, a.context.machine.Reachable (allowed a.context.handle) a.phase.stage

theorem Tracked.head {a : Activation} {rest : List Activation} (h : s.Tracked allowed)
    (hs : s.active = a :: rest) :
    a.context.machine.Reachable (allowed a.context.handle) a.phase.stage :=
  h.active a (by rw [hs]; exact List.mem_cons_self)

/-- The innermost call goes on. -/
theorem Tracked.replace {a b : Activation} {rest : List Activation} (h : s.Tracked allowed)
    (hs : s.active = a :: rest)
    (hb : b.context.machine.Reachable (allowed b.context.handle) b.phase.stage) :
    Tracked allowed { s with active := b :: rest } := by
  refine ⟨h.idle, fun x hx => ?_⟩
  rcases List.mem_cons.mp hx with rfl | hx
  · exact hb
  · exact h.active x (by rw [hs]; exact List.mem_cons_of_mem _ hx)

/-- The innermost call ends. -/
theorem Tracked.close {a : Activation} {rest : List Activation} {registry : Registry Resident}
    (h : s.Tracked allowed) (hs : s.active = a :: rest)
    (hr : ∀ c, registry.Holds (.idle c) → c.machine.Reachable (allowed c.handle) .resting) :
    Tracked allowed { s with registry, active := rest } :=
  ⟨hr, fun x hx => h.active x (by rw [hs]; exact List.mem_cons_of_mem _ hx)⟩

theorem Tracked.of_erase (h : s.Tracked allowed) (handle : Handle) :
    ∀ c, (s.registry.erase handle).Holds (.idle c) →
      c.machine.Reachable (allowed c.handle) .resting :=
  fun c hc => h.idle c (Registry.holds_of_erase hc)

theorem Tracked.of_set {handle : Handle} {context : Context} (h : s.Tracked allowed)
    (hcontext : context.machine.Reachable (allowed context.handle) .resting) :
    ∀ c, (s.registry.set handle (.idle context)).Holds (.idle c) →
      c.machine.Reachable (allowed c.handle) .resting := by
  intro c hc
  rcases Registry.holds_of_set hc with heq | hc
  · cases heq
    exact hcontext
  · exact h.idle c hc

/-! ## Starting contexts -/

theorem reachable_of_create {room index stackSize memorySize depthLimit : Nat} {handle : Handle}
    {p : Program} {entry : String} {c : Context} (hfound : findEntry p entry = .ok index)
    (h : Context.create room handle p index stackSize memorySize depthLimit = .ok c) :
    c.machine.Reachable (allowed c.handle) .resting := by
  unfold Context.create at h
  split at h
  · cases h
  · rename_i m hlay
    split at h
    · cases h
    · cases h
    · rename_i n henter
      cases h
      exact .create hlay hfound henter

theorem tracked_startProgram (h : s.Tracked allowed) (p : Program) (entry : String)
    (memorySize stackSize : Nat) :
    (s.startProgram p entry memorySize stackSize).2.Tracked allowed := by
  unfold startProgram
  split
  · exact h
  · rename_i handle registry hregister
    unfold register at hregister
    obtain ⟨_, _, hregister⟩ := bind_eq_ok_iff.mp hregister
    obtain ⟨index, hfound, hregister⟩ := bind_eq_ok_iff.mp hregister
    obtain ⟨_, _, hregister⟩ := bind_eq_ok_iff.mp hregister
    unfold Registry.insertWith at hregister
    split at hregister
    · cases hregister
    · rename_i value hmake
      obtain ⟨context, hcreate, hvalue⟩ := bind_eq_ok_iff.mp hmake
      cases hvalue
      cases hregister
      refine ⟨fun c hc => ?_, h.active⟩
      rcases Registry.holds_of_insert hc with heq | hc
      · cases heq
        exact reachable_of_create hfound hcreate
      · exact h.idle c hc

theorem tracked_start (h : s.Tracked allowed) (bytecode : List UInt8) (entry : String)
    (memorySize stackSize : Nat) :
    (s.start bytecode entry memorySize stackSize).2.Tracked allowed := by
  unfold start
  split
  · exact h
  · exact tracked_startProgram h _ entry memorySize stackSize

theorem tracked_fork (h : s.Tracked allowed) (parent : Handle) (entry : String)
    (memorySize stackSize : Nat) :
    (s.fork parent entry memorySize stackSize).2.Tracked allowed := by
  unfold fork
  split
  · exact h
  · exact tracked_startProgram h _ entry memorySize stackSize

theorem tracked_run (h : s.Tracked allowed) (bytecode : List UInt8) (entry : String)
    (memorySize stackSize : Nat) :
    (s.run bytecode entry memorySize stackSize).2.Tracked allowed := by
  unfold run
  dsimp only
  split
  · exact h
  · rename_i context hcreated
    split at hcreated
    · cases hcreated
    · obtain ⟨_, _, hcreated⟩ := bind_eq_ok_iff.mp hcreated
      obtain ⟨index, hfound, hcreate⟩ := bind_eq_ok_iff.mp hcreated
      refine ⟨h.idle, fun a ha => ?_⟩
      rcases List.mem_cons.mp ha with rfl | ha
      · exact reachable_of_create hfound hcreate
      · exact h.active a ha

/-! ## Entering and leaving contexts -/

theorem holds_of_idle {handle : Handle} {c : Context} (h : s.idle handle = .ok c) :
    s.registry.Holds (.idle c) := by
  unfold idle at h
  split at h
  · cases h
  · cases h
  · rename_i c' hget
    cases h
    exact Registry.holds_of_get? hget

theorem tracked_checkOut {handle : Handle} {mode : Mode} {phase : Phase} {c : Context}
    (h : s.Tracked allowed) (hc : c.machine.Reachable (allowed c.handle) phase.stage) :
    (s.checkOut handle mode phase c).Tracked allowed := by
  refine ⟨fun x hx => ?_, fun a ha => ?_⟩
  · exact h.idle x ((Registry.holds_of_set hx).resolve_left fun heq => nomatch heq)
  · rcases List.mem_cons.mp ha with rfl | ha
    · exact hc
    · exact h.active a ha

theorem tracked_execute (h : s.Tracked allowed) (handle : Handle) (mode : Mode) :
    (s.execute handle mode).2.Tracked allowed := by
  unfold execute
  split
  · exact h
  · rename_i c hidle
    split
    · exact ⟨h.of_erase handle, h.active⟩
    · exact tracked_checkOut h (h.idle c (holds_of_idle hidle))

theorem tracked_inspect (h : s.Tracked allowed) (handle : Handle) :
    (s.inspect handle).2.Tracked allowed := by
  unfold inspect
  split
  · exact h
  · rename_i c hidle
    exact tracked_checkOut h (h.idle c (holds_of_idle hidle))

theorem tracked_leave (h : s.Tracked allowed) : s.leave.2.Tracked allowed := by
  unfold leave
  split
  · exact h
  · rename_i a rest hs
    split
    · rename_i hphase
      have ha := h.head hs
      rw [hphase] at ha
      split
      · exact h.close hs h.idle
      · exact h.close hs (h.of_set ha)
    · exact h

theorem tracked_cancel (h : s.Tracked allowed) (handle : Handle) :
    (s.cancel handle).2.Tracked allowed := by
  unfold cancel
  split
  · exact h
  · rename_i old registry hremove
    refine ⟨fun c hc => h.idle c (Registry.holds_of_remove hremove hc), fun b hb => ?_⟩
    obtain ⟨a, ha, rfl⟩ := List.mem_map.mp hb
    split
    · exact h.active a ha
    · exact h.active a ha

theorem tracked_status (h : s.Tracked allowed) (handle : Handle) :
    (s.status handle).2.Tracked allowed := by
  unfold status
  split
  · exact h
  · exact h

/-! ## Executing -/

theorem advance_eq_ok {settings : Settings} {spent : Nat} {m : Machine} {progress : Progress}
    (h : advance settings spent m = .ok progress) :
    ∃ k, m.settle = .ok k ∧
      match progress with
      | .finished => k.frames = []
      | .next n => k.frames ≠ [] ∧ k.step = .ok (.next n)
      | .dispatch n d => k.frames ≠ [] ∧ k.step = .ok (.dispatch n d) := by
  unfold advance at h
  obtain ⟨k, hsettle, h⟩ := bind_eq_ok_iff.mp h
  refine ⟨k, hsettle, ?_⟩
  split at h
  · rename_i hempty
    cases h
    exact List.isEmpty_iff.mp hempty
  · rename_i hmore
    have hne : k.frames ≠ [] := fun hnil => hmore (List.isEmpty_iff.mpr hnil)
    obtain ⟨_, _, h⟩ := bind_eq_ok_iff.mp h
    obtain ⟨e, hstep, h⟩ := bind_eq_ok_iff.mp h
    cases e with
    | next n =>
      cases h
      exact ⟨hne, hstep⟩
    | dispatch n d =>
      cases h
      exact ⟨hne, hstep⟩

theorem tracked_tick (h : s.Tracked allowed) : s.tick.2.Tracked allowed := by
  unfold tick
  split
  · exact h
  · rename_i a rest hs
    split
    · rename_i hphase
      have ha := h.head hs
      rw [hphase] at ha
      split
      · exact h.close hs (h.of_erase a.handle)
      · exact h.close hs (h.of_erase a.handle)
      · rename_i n hadvance
        obtain ⟨k, hsettle, hmore, hstep⟩ := advance_eq_ok hadvance
        refine h.replace hs ?_
        dsimp only
        rw [hphase]
        exact (ha.settle hsettle).next hmore hstep
      · rename_i n d hadvance
        obtain ⟨k, hsettle, hmore, hstep⟩ := advance_eq_ok hadvance
        exact h.replace hs ((ha.settle hsettle).dispatch hmore hstep)
    · exact h

theorem answered_eq_ok {m n : Machine} {d : Dispatch} {control : Control}
    {outcome : Except String Unit} (h : answered m d control outcome = .ok n) :
    ∃ k, m.complete d control = .ok k ∧ k.settle = .ok n := by
  unfold answered at h
  split at h
  · cases h
  · exact bind_eq_ok_iff.mp h

theorem tracked_finish (h : s.Tracked allowed) (outcome : Except String Unit) :
    (s.finish outcome).2.Tracked allowed := by
  unfold finish
  split
  · exact h
  · rename_i a rest hs
    split
    · rename_i d control paused hphase
      have ha := h.head hs
      rw [hphase] at ha
      split
      · exact h.close hs h.idle
      · split
        · exact h.close hs (h.of_erase a.handle)
        · rename_i n hanswered
          obtain ⟨k, hcomplete, hsettle⟩ := answered_eq_ok hanswered
          have hn : n.Reachable (allowed a.context.handle) .resting :=
            (ha.complete hcomplete).settle hsettle
          dsimp only
          split
          · exact h.close hs (h.of_set hn)
          · split
            · exact h.close hs (h.of_set hn)
            · exact h.replace hs hn
    · exact h

/-! ## What a host asks for -/

theorem current?_eq_some {a : Activation} {rest : List Activation} (hs : s.active = a :: rest)
    (hphase : a.phase ≠ .executing) : s.current? = some a.context := by
  unfold current?
  rw [hs]
  dsimp only
  split
  · rename_i hexecuting
    exact absurd hexecuting hphase
  · rfl

theorem tracked_perform {action : Arena.Action} (h : s.Tracked allowed)
    (hwish : s.Abides allowed (.perform action)) : (s.perform action).2.Tracked allowed := by
  unfold perform
  split
  · exact h
  · rename_i a rest hs
    split
    · exact h
    · rename_i hphase
      exact h.replace hs ((h.head hs).perform (hwish _ rfl _ (current?_eq_some hs hphase)))

/-- A host that changes what it has asked for leaves the machine as it is. -/
theorem tracked_request {change : Control → Bool → Control × Bool} (h : s.Tracked allowed)
    (hchange : ∀ a rest d control paused, s.active = a :: rest →
      a.phase = .handling d control paused →
      a.context.machine.Reachable (allowed a.context.handle)
        (.handling d (change control paused).1)) :
    (s.request change).2.Tracked allowed := by
  unfold request
  split
  · exact h
  · rename_i a rest hs
    split
    · rename_i d control paused hphase
      exact h.replace hs (hchange a rest d control paused hs hphase)
    · exact h

theorem handling_of_phase {a : Activation} {rest : List Activation} {d : Dispatch}
    {control : Control} {paused : Bool} (h : s.Tracked allowed) (hs : s.active = a :: rest)
    (hphase : a.phase = .handling d control paused) :
    a.context.machine.Reachable (allowed a.context.handle) (.handling d control) := by
  have ha := h.head hs
  rw [hphase] at ha
  exact ha

theorem labelPosition?_eq_some {c : Context} {label : String} {position : Nat}
    (h : c.labelPosition? label = some position) :
    ∃ f callers p, c.machine.frames = f :: callers ∧ c.machine.procedure? f = some p ∧
      p.labelPosition? label = some position := by
  unfold Context.labelPosition? at h
  obtain ⟨f, hf, h⟩ := Option.bind_eq_some_iff.mp h
  obtain ⟨p, hp, h⟩ := Option.bind_eq_some_iff.mp h
  obtain ⟨callers, hframes⟩ := List.head?_eq_some_iff.mp hf
  exact ⟨f, callers, p, hframes, hp, h⟩

theorem tracked_goTo {label : String} (h : s.Tracked allowed)
    (hwish : s.Abides allowed (.goTo label)) : (s.goTo label).2.Tracked allowed := by
  unfold goTo
  split
  · exact h
  · rename_i a rest hs
    split
    · rename_i d control paused hphase
      split
      · rename_i position hposition
        refine tracked_request h fun b rest' d' control' paused' hs' hphase' => ?_
        rw [hs] at hs'
        cases hs'
        obtain ⟨f, callers, p, hframes, hp, hlabel⟩ := labelPosition?_eq_some hposition
        have hcurrent := current?_eq_some hs (by rw [hphase]; exact fun heq => nomatch heq)
        exact (handling_of_phase h hs hphase').goTo (hwish _ rfl _ hcurrent) hframes hp hlabel
      · exact h
    · exact h

theorem tracked_forceReturn (h : s.Tracked allowed) (hwish : s.Abides allowed .forceReturn) :
    s.forceReturn.2.Tracked allowed := by
  refine tracked_request h fun a rest d control paused hs hphase => ?_
  have hcurrent := current?_eq_some hs (by rw [hphase]; exact fun heq => nomatch heq)
  exact (handling_of_phase h hs hphase).forceReturn (hwish _ rfl _ hcurrent)

theorem tracked_pause (h : s.Tracked allowed) : s.pause.2.Tracked allowed :=
  tracked_request h fun _ _ _ _ _ hs hphase => handling_of_phase h hs hphase

theorem tracked_isPaused (h : s.Tracked allowed) : s.isPaused.2.Tracked allowed := by
  unfold isPaused
  split
  · exact h
  · split
    · exact h
    · exact h

/-! ## Histories -/

/-- **One call.** -/
theorem tracked_call {c : Call} (h : s.Tracked allowed) (hwish : s.Abides allowed c) :
    (s.call c).2.Tracked allowed := by
  cases c with
  | start bytecode entry memorySize stackSize =>
    exact tracked_start h bytecode entry memorySize stackSize
  | startProgram p entry memorySize stackSize =>
    exact tracked_startProgram h p entry memorySize stackSize
  | fork parent entry memorySize stackSize =>
    exact tracked_fork h parent entry memorySize stackSize
  | cancel handle => exact tracked_cancel h handle
  | status handle => exact tracked_status h handle
  | contains _ | size | handles => exact h
  | resume handle | consume handle => exact tracked_execute h handle _
  | run bytecode entry memorySize stackSize =>
    exact tracked_run h bytecode entry memorySize stackSize
  | inspect handle => exact tracked_inspect h handle
  | tick => exact tracked_tick h
  | finish outcome => exact tracked_finish h outcome
  | leave => exact tracked_leave h
  | perform action => exact tracked_perform h hwish
  | goTo label => exact tracked_goTo h hwish
  | forceReturn => exact tracked_forceReturn h hwish
  | pause => exact tracked_pause h
  | isPaused => exact tracked_isPaused h

theorem tracked_callAll {calls : List Call} (h : s.Tracked allowed)
    (hwish : s.AbidesAll allowed calls) : (s.callAll calls).2.Tracked allowed := by
  induction calls generalizing s with
  | nil => exact h
  | cons c rest ih => exact ih (tracked_call h hwish.1) hwish.2

/-- **Histories.** Whatever calls are made of a new engine, in whatever order, the machine of
every context is reachable. -/
theorem tracked_history (settings : Settings) (room : Nat) {calls : List Call}
    (hwish : AbidesAll allowed { settings, room } calls) :
    (callAll { settings, room } calls).2.Tracked allowed := by
  refine tracked_callAll ⟨?_, ?_⟩ hwish
  · rintro c ⟨slot, hslot, _⟩
    exact absurd hslot (Array.not_mem_empty slot)
  · intro a ha
    cases ha

end Session

end Hostcall
