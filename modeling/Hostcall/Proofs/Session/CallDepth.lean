import Hostcall.Proofs.Session.Transitions

/-!
# How deep calls may go

A context takes its limit on calls from the settings of the engine when it is created, and nothing
that it executes or that a host does changes the limit (`Machine.SameSetup`). So all contexts of a
session have the same one at every time: `Allots` is what one call keeps (`allots_call`) and
therefore what holds of every history (`allots_history`).
-/

namespace Hostcall

open Attempt

namespace Session

/-- Every context of the session has `limit` as its limit on calls. -/
structure Allots (limit : Nat) (s : Session) : Prop where
  idle : ∀ c, s.registry.Holds (.idle c) → c.machine.depthLimit = limit
  active : ∀ a ∈ s.active, a.context.machine.depthLimit = limit

variable {s : Session} {limit : Nat} {a b : Activation} {rest : List Activation}

theorem Allots.head (h : s.Allots limit) (hs : s.active = a :: rest) :
    a.context.machine.depthLimit = limit :=
  h.active a (by rw [hs]; exact List.mem_cons_self)

theorem Allots.tail (h : s.Allots limit) (hs : s.active = a :: rest) :
    ∀ x ∈ rest, x.context.machine.depthLimit = limit :=
  fun x hx => h.active x (by rw [hs]; exact List.mem_cons_of_mem _ hx)

/-- The innermost call goes on. -/
theorem Allots.replace (h : s.Allots limit) (hs : s.active = a :: rest)
    (hb : b.context.machine.depthLimit = limit) : Allots limit { s with active := b :: rest } :=
  ⟨h.idle, List.forall_mem_cons.mpr ⟨hb, h.tail hs⟩⟩

/-- The innermost call ends with its context. -/
theorem Allots.close (h : s.Allots limit) (hs : s.active = a :: rest) (handle : Handle) :
    Allots limit { s with registry := s.registry.erase handle, active := rest } :=
  ⟨fun c hc => h.idle c (Registry.holds_of_erase hc), h.tail hs⟩

/-- The innermost call ends, and its context is idle again. -/
theorem Allots.checkIn (h : s.Allots limit) (hs : s.active = a :: rest) {c : Context}
    (hc : c.machine.depthLimit = limit) (reply : Reply) :
    (s.checkIn a rest c reply).2.Allots limit := by
  refine ⟨fun x hx => ?_, h.tail hs⟩
  rcases Registry.holds_of_set hx with heq | hx
  · cases heq
    exact hc
  · exact h.idle x hx

theorem Allots.checkOut (h : s.Allots limit) {c : Context} (hc : c.machine.depthLimit = limit)
    (handle : Handle) (mode : Mode) (phase : Phase) :
    (s.checkOut handle mode phase c).Allots limit := by
  refine ⟨fun x hx => ?_, List.forall_mem_cons.mpr ⟨hc, h.active⟩⟩
  exact h.idle x ((Registry.holds_of_set hx).resolve_left fun heq => nomatch heq)

theorem depthLimit_of_create {room index stackSize memorySize depthLimit : Nat} {handle : Handle}
    {p : Program} {c : Context}
    (h : Context.create room handle p index stackSize memorySize depthLimit = .ok c) :
    c.machine.depthLimit = depthLimit := by
  unfold Context.create at h
  split at h
  · cases h
  · rename_i m hlay
    split at h
    · cases h
    · cases h
    · rename_i n henter
      cases h
      have hlaid : m.depthLimit = depthLimit := by
        unfold Context.layProgram at hlay
        obtain ⟨_, _, hlay⟩ := bind_eq_ok_iff.mp hlay
        obtain ⟨_, _, hlay⟩ := bind_eq_ok_iff.mp hlay
        obtain ⟨_, _, hlay⟩ := bind_eq_ok_iff.mp hlay
        cases hlay
        rfl
      exact ((Machine.sameSetup_enter m _ _).ok henter).depthLimit.trans hlaid

/-! ## One call -/

theorem allots_startProgram (h : s.Allots s.settings.maxCallDepth) (p : Program) (entry : String)
    (memorySize stackSize : Nat) :
    (s.startProgram p entry memorySize stackSize).2.Allots s.settings.maxCallDepth := by
  rcases startProgram_cases s p entry memorySize stackSize with
    ⟨cause, heq⟩ | ⟨index, c, _, _, _, hcreate, heq⟩
  · rw [heq]
    exact h
  · rw [heq]
    refine ⟨fun x hx => ?_, h.active⟩
    rcases Registry.holds_of_insert hx with hnew | hx
    · cases hnew
      exact depthLimit_of_create hcreate
    · exact h.idle x hx

theorem allots_run (h : s.Allots s.settings.maxCallDepth) (bytecode : List UInt8) (entry : String)
    (memorySize stackSize : Nat) :
    (s.run bytecode entry memorySize stackSize).2.Allots s.settings.maxCallDepth := by
  unfold run
  dsimp only
  split
  · exact h
  · rename_i context hcreated
    split at hcreated
    · cases hcreated
    · obtain ⟨_, _, hcreated⟩ := bind_eq_ok_iff.mp hcreated
      obtain ⟨index, _, hcreate⟩ := bind_eq_ok_iff.mp hcreated
      exact ⟨h.idle, List.forall_mem_cons.mpr ⟨depthLimit_of_create hcreate, h.active⟩⟩

theorem allots_execute (h : s.Allots limit) (handle : Handle) (mode : Mode) :
    (s.execute handle mode).2.Allots limit := by
  rcases execute_cases s handle mode with ⟨cause, heq, _⟩ | ⟨c, _, heq⟩ | ⟨c, hidle, heq⟩
  · rw [heq]
    exact h
  · rw [heq]
    exact ⟨fun x hx => h.idle x (Registry.holds_of_erase hx), h.active⟩
  · have hc : c.machine.depthLimit = limit := h.idle c (Registry.holds_of_get? hidle)
    have hrunning : ({ c with status := .running } : Context).machine.depthLimit = limit := hc
    rw [heq]
    exact h.checkOut hrunning handle mode .executing

theorem allots_tick (h : s.Allots limit) : s.tick.2.Allots limit := by
  unfold tick
  split
  · exact h
  · rename_i a rest hs
    split
    · split
      · exact h.close hs a.handle
      · exact h.close hs a.handle
      · rename_i m hadvance
        obtain ⟨k, hsettle, _, hstep⟩ := advance_eq_ok hadvance
        have hsame := (Machine.sameSetup_settle hsettle).trans (Machine.sameSetup_step hstep)
        exact h.replace hs (hsame.depthLimit.trans (h.head hs))
      · rename_i m d hadvance
        obtain ⟨k, hsettle, _, hstep⟩ := advance_eq_ok hadvance
        have hsame := (Machine.sameSetup_settle hsettle).trans (Machine.sameSetup_step hstep)
        exact h.replace hs (hsame.depthLimit.trans (h.head hs))
    · exact h

theorem allots_finish (h : s.Allots limit) (outcome : Except String Unit) :
    (s.finish outcome).2.Allots limit := by
  unfold finish
  split
  · exact h
  · rename_i a rest hs
    split
    · split
      · exact ⟨h.idle, h.tail hs⟩
      · split
        · exact h.close hs a.handle
        · rename_i m hanswered
          obtain ⟨k, hcomplete, hsettle⟩ := answered_eq_ok hanswered
          have hsame := (Machine.sameSetup_complete hcomplete).trans
            (Machine.sameSetup_settle hsettle)
          have hm : m.depthLimit = limit := hsame.depthLimit.trans (h.head hs)
          dsimp only
          split
          · exact h.checkIn hs hm _
          · split
            · exact h.checkIn hs hm _
            · exact h.replace hs hm
    · exact h

theorem allots_leave (h : s.Allots limit) : s.leave.2.Allots limit := by
  unfold leave
  split
  · exact h
  · rename_i a rest hs
    split
    · split
      · exact ⟨h.idle, h.tail hs⟩
      · exact h.checkIn hs (h.head hs) _
    · exact h

theorem allots_perform (h : s.Allots limit) (action : Arena.Action) :
    (s.perform action).2.Allots limit := by
  unfold perform
  split
  · exact h
  · rename_i a rest hs
    have ha := h.head hs
    split
    · exact h
    · exact h.replace hs ha

theorem allots_request (h : s.Allots limit) (change : Control → Bool → Control × Bool) :
    (s.request change).2.Allots limit := by
  unfold request
  split
  · exact h
  · rename_i a rest hs
    have ha := h.head hs
    split
    · exact h.replace hs ha
    · exact h

theorem allots_goTo (h : s.Allots limit) (label : String) : (s.goTo label).2.Allots limit := by
  unfold goTo
  split
  · exact h
  · split
    · split
      · exact allots_request h _
      · exact h
    · exact h

theorem allots_cancel (h : s.Allots limit) (handle : Handle) :
    (s.cancel handle).2.Allots limit := by
  rcases cancel_cases s handle with ⟨_, heq⟩ | ⟨resident, _, heq⟩
  · rw [heq]
    exact h
  · rw [heq]
    refine ⟨fun x hx => h.idle x (Registry.holds_of_erase hx), fun b hb => ?_⟩
    obtain ⟨a, ha, rfl⟩ := List.mem_map.mp hb
    unfold Activation.mark
    split
    · exact h.active a ha
    · exact h.active a ha

/-- **One call.** -/
theorem allots_call (h : s.Allots s.settings.maxCallDepth) (c : Call) :
    (s.call c).2.Allots s.settings.maxCallDepth := by
  cases c with
  | start bytecode entry memorySize stackSize =>
    show (s.start bytecode entry memorySize stackSize).2.Allots _
    unfold start
    split
    · exact h
    · exact allots_startProgram h _ entry memorySize stackSize
  | startProgram p entry memorySize stackSize =>
    exact allots_startProgram h p entry memorySize stackSize
  | fork parent entry memorySize stackSize =>
    show (s.fork parent entry memorySize stackSize).2.Allots _
    unfold fork
    split
    · exact h
    · exact allots_startProgram h _ entry memorySize stackSize
  | cancel handle => exact allots_cancel h handle
  | status handle =>
    show (s.status handle).2.Allots _
    unfold status
    split
    · exact h
    · exact h
  | contains | size | handles => exact h
  | resume handle | consume handle => exact allots_execute h handle _
  | run bytecode entry memorySize stackSize =>
    exact allots_run h bytecode entry memorySize stackSize
  | inspect handle =>
    show (s.inspect handle).2.Allots _
    rcases inspect_cases s handle with ⟨cause, heq⟩ | ⟨c, hidle, heq⟩
    · rw [heq]
      exact h
    · rw [heq]
      exact h.checkOut (h.idle c (Registry.holds_of_get? hidle)) handle .inspect .inspecting
  | tick => exact allots_tick h
  | finish outcome => exact allots_finish h outcome
  | leave => exact allots_leave h
  | perform action => exact allots_perform h action
  | goTo label => exact allots_goTo h label
  | forceReturn | pause => exact allots_request h _
  | isPaused =>
    show s.isPaused.2.Allots _
    unfold isPaused
    split
    · exact h
    · split
      · exact h
      · exact h

/-! ## Histories -/

theorem allots_callAll (s : Session) (h : s.Allots s.settings.maxCallDepth) (calls : List Call) :
    (s.callAll calls).2.Allots s.settings.maxCallDepth := by
  induction calls generalizing s with
  | nil => exact h
  | cons c rest ih =>
    have hsettings := (transition_call s c).settings_eq
    have hc := allots_call h c
    rw [← hsettings] at hc ⊢
    exact ih _ hc

/-- **Histories.** Every context takes its limit on calls from the settings. -/
theorem allots_history (settings : Settings) (room : Nat) (calls : List Call) :
    (callAll { settings, room } calls).2.Allots settings.maxCallDepth := by
  have hnew : Allots settings.maxCallDepth { settings, room } := by
    refine ⟨?_, fun a ha => nomatch ha⟩
    rintro c ⟨slot, hslot, _⟩
    exact absurd hslot (Array.not_mem_empty slot)
  exact allots_callAll { settings, room } hnew calls

end Session

end Hostcall
