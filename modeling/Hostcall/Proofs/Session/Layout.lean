import Hostcall.Proofs.Machine.Layout
import Hostcall.Proofs.Session.Transitions

/-!
# The stacks of contexts in a session

A host that handles an operation or inspects a context may do what it likes to the stack, and may
call the engine again meanwhile. `noted` keeps a note of where each of the calls in progress let
the host find the top of its stack, and a host is `Considerate` if it never leaves the top below
that. With such a host the frames of every context lie one above the other at every time
(`live_frames_ascend`), and what an instruction reserves on the stack is above all of them.
-/

namespace Hostcall

open Attempt Machine

namespace Session

/-- The top of the stack that the host has before it. -/
def currentTop (s : Session) : Nat := (s.current?.map (·.arena.top)).getD 0

/-- Where calls in progress let the host find the top of the stack, by the number of calls down to
each of them. A reply that lets the host at a context adds a note. -/
def noted (found : Nat → Nat) : Reply × Session → Nat → Nat
  | (.operation _, t) | (.inspecting, t) => fun depth =>
    if depth = t.active.length then t.currentTop else found depth
  | _ => found

/-- The notes after all calls. -/
def notedAll (found : Nat → Nat) (s : Session) : List Call → Nat → Nat
  | [] => found
  | c :: rest => notedAll (noted found (s.call c)) (s.call c).2 rest

/-- A call with which a host is done with a context does not leave the top of the stack below where
the host found it. -/
def Restores (found : Nat → Nat) (s : Session) : Call → Prop
  | .finish _ | .leave => ∀ c ∈ s.current?, found s.active.length ≤ c.arena.top
  | _ => True

/-- The host never leaves the top of a stack below where it found it. -/
def Considerate (found : Nat → Nat) (s : Session) : List Call → Prop
  | [] => True
  | c :: rest => Restores found s c ∧ Considerate (noted found (s.call c)) (s.call c).2 rest

end Session

/-- The frames of a context lie one above the other and below `top`. -/
def Context.Laid (c : Context) (top : Nat) : Prop := Machine.Laid c.program top c.machine.frames

/-- The frames of a call in progress are laid out, where its host found the top at `found`. The host
may have moved the top since. -/
def Activation.Laid (found : Nat) (a : Activation) : Prop :=
  match a.phase with
  | .executing => a.context.Laid a.context.arena.top
  | .inspecting => a.context.Laid found
  | .handling d _ _ => a.context.Laid d.scratch ∧ d.scratch ≤ found

theorem Activation.Laid.mark {found : Nat} {a : Activation} (ha : a.Laid found) (h : Handle) :
    (a.mark h).Laid found := by
  unfold Activation.mark
  split
  · exact ha
  · exact ha

namespace Session

/-- The calls in progress are laid out. -/
def ActiveLaid (found : Nat → Nat) : List Activation → Prop
  | [] => True
  | a :: rest => a.Laid (found (rest.length + 1)) ∧ ActiveLaid found rest

/-- The contexts of a session are laid out. -/
structure Laid (found : Nat → Nat) (s : Session) : Prop where
  idle : ∀ c, s.registry.Holds (.idle c) → c.Laid c.arena.top
  active : ActiveLaid found s.active

/-- The session after a call is laid out, with the notes after the call. -/
abbrev LaidAfter (found : Nat → Nat) (after : Reply × Session) : Prop :=
  after.2.Laid (noted found after)

variable {found : Nat → Nat} {s : Session} {a b : Activation} {rest : List Activation}

theorem ActiveLaid.congr {active : List Activation} {later : Nat → Nat}
    (h : ActiveLaid found active) (hsame : ∀ depth ≤ active.length, later depth = found depth) :
    ActiveLaid later active := by
  induction active with
  | nil => trivial
  | cons a rest ih =>
    refine ⟨?_, ih h.2 fun depth hdepth => hsame depth (Nat.le_succ_of_le hdepth)⟩
    rw [hsame (rest.length + 1) (Nat.le_refl _)]
    exact h.1

theorem ActiveLaid.split {inner outer active : List Activation} (h : ActiveLaid found active)
    (hsplit : active = inner ++ a :: outer) : a.Laid (found (outer.length + 1)) := by
  induction inner generalizing active with
  | nil =>
    rw [hsplit] at h
    exact h.1
  | cons b inner ih =>
    rw [hsplit] at h
    exact ih h.2 rfl

theorem ActiveLaid.mark {active : List Activation} (h : ActiveLaid found active) (handle : Handle) :
    ActiveLaid found (active.map (Activation.mark handle)) := by
  induction active with
  | nil => trivial
  | cons a rest ih =>
    refine ⟨?_, ih h.2⟩
    rw [List.length_map]
    exact h.1.mark handle

theorem Laid.head (h : s.Laid found) (hs : s.active = a :: rest) :
    a.Laid (found (rest.length + 1)) := by
  have hactive := h.active
  rw [hs] at hactive
  exact hactive.1

/-- The innermost call goes on. -/
theorem Laid.replace (h : s.Laid found) (hs : s.active = a :: rest)
    (hb : b.Laid (found (rest.length + 1))) : Laid found { s with active := b :: rest } := by
  have hactive := h.active
  rw [hs] at hactive
  exact ⟨h.idle, hb, hactive.2⟩

/-- The innermost call ends. -/
theorem Laid.close {registry : Registry Resident} (h : s.Laid found) (hs : s.active = a :: rest)
    (hr : ∀ c, registry.Holds (.idle c) → c.Laid c.arena.top) :
    Laid found { s with registry, active := rest } := by
  have hactive := h.active
  rw [hs] at hactive
  exact ⟨hr, hactive.2⟩

theorem Laid.of_erase (h : s.Laid found) (handle : Handle) :
    ∀ c, (s.registry.erase handle).Holds (.idle c) → c.Laid c.arena.top :=
  fun c hc => h.idle c (Registry.holds_of_erase hc)

theorem Laid.of_set {handle : Handle} {context : Context} (h : s.Laid found)
    (hcontext : context.Laid context.arena.top) :
    ∀ c, (s.registry.set handle (.idle context)).Holds (.idle c) → c.Laid c.arena.top := by
  intro c hc
  rcases Registry.holds_of_set hc with heq | hc
  · cases heq
    exact hcontext
  · exact h.idle c hc

/-- A note about the innermost call. The notes about the others stay. -/
theorem ActiveLaid.note {top : Nat} (hrest : ActiveLaid found rest) (hb : b.Laid top) :
    ActiveLaid (fun depth => if depth = rest.length + 1 then top else found depth) (b :: rest) := by
  constructor
  · dsimp only
    rw [if_pos rfl]
    exact hb
  · refine hrest.congr fun depth hdepth => ?_
    rw [if_neg (by omega)]

/-! ## Starting contexts -/

theorem params_of_findEntry {p : Program} {entry : String} {index : Nat}
    (h : findEntry p entry = .ok index) :
    ∃ procedure, p.procedures[index]? = some procedure ∧ procedure.params = [] := by
  unfold findEntry at h
  split at h
  · cases h
  · split at h
    · rename_i procedure hprocedure
      split at h
      · rename_i hplain
        cases h
        rw [Bool.and_eq_true] at hplain
        exact ⟨procedure, hprocedure, List.isEmpty_iff.mp hplain.1⟩
      · cases h
    · cases h

theorem laid_of_create {room index stackSize memorySize depthLimit : Nat} {handle : Handle}
    {p : Program} {entry : String} {c : Context} (hfound : findEntry p entry = .ok index)
    (h : Context.create room handle p index stackSize memorySize depthLimit = .ok c) :
    c.Laid c.arena.top := by
  obtain ⟨procedure, hprocedure, hparams⟩ := params_of_findEntry hfound
  unfold Context.create at h
  split at h
  · cases h
  · rename_i m hlay
    split at h
    · cases h
    · cases h
    · rename_i n henter
      cases h
      unfold Context.layProgram at hlay
      obtain ⟨a, _, hlay⟩ := bind_eq_ok_iff.mp hlay
      obtain ⟨⟨dataBase, b⟩, _, hlay⟩ := bind_eq_ok_iff.mp hlay
      obtain ⟨⟨globalsBase, c⟩, _, hlay⟩ := bind_eq_ok_iff.mp hlay
      cases hlay
      refine laid_enter ?_ hprocedure ?_ henter
      · trivial
      · rw [hparams]
        rfl

theorem laid_startProgram (h : s.Laid found) (p : Program) (entry : String)
    (memorySize stackSize : Nat) :
    LaidAfter found (s.startProgram p entry memorySize stackSize) := by
  rcases startProgram_cases s p entry memorySize stackSize with
    ⟨cause, heq⟩ | ⟨index, context, _, hfound, _, hcreate, heq⟩
  · rw [heq]
    exact h
  · rw [heq]
    refine ⟨fun c hc => ?_, h.active⟩
    rcases Registry.holds_of_insert hc with hnew | hc
    · cases hnew
      exact laid_of_create hfound hcreate
    · exact h.idle c hc

theorem laid_start (h : s.Laid found) (bytecode : List UInt8) (entry : String)
    (memorySize stackSize : Nat) :
    LaidAfter found (s.start bytecode entry memorySize stackSize) := by
  unfold start
  split
  · exact h
  · exact laid_startProgram h _ entry memorySize stackSize

theorem laid_fork (h : s.Laid found) (parent : Handle) (entry : String)
    (memorySize stackSize : Nat) :
    LaidAfter found (s.fork parent entry memorySize stackSize) := by
  unfold fork
  split
  · exact h
  · exact laid_startProgram h _ entry memorySize stackSize

theorem laid_run (h : s.Laid found) (bytecode : List UInt8) (entry : String)
    (memorySize stackSize : Nat) :
    LaidAfter found (s.run bytecode entry memorySize stackSize) := by
  unfold run
  dsimp only
  split
  · exact h
  · rename_i context hcreated
    split at hcreated
    · cases hcreated
    · obtain ⟨_, _, hcreated⟩ := bind_eq_ok_iff.mp hcreated
      obtain ⟨index, hfound, hcreate⟩ := bind_eq_ok_iff.mp hcreated
      exact ⟨h.idle, laid_of_create hfound hcreate, h.active⟩

/-! ## Entering and leaving contexts -/

theorem Laid.of_checkOut (h : s.Laid found) (handle : Handle) (p : Program) :
    ∀ c, (s.registry.set handle (.away p)).Holds (.idle c) → c.Laid c.arena.top :=
  fun c hc => h.idle c ((Registry.holds_of_set hc).resolve_left fun heq => nomatch heq)

theorem laid_execute (h : s.Laid found) (handle : Handle) (mode : Mode) :
    LaidAfter found (s.execute handle mode) := by
  rcases execute_cases s handle mode with ⟨cause, heq, _⟩ | ⟨c, _, heq⟩ | ⟨c, hidle, heq⟩
  · rw [heq]
    exact h
  · rw [heq]
    exact ⟨h.of_erase handle, h.active⟩
  · rw [heq]
    exact ⟨h.of_checkOut handle _, h.idle c (Registry.holds_of_get? hidle), h.active⟩

theorem laid_inspect (h : s.Laid found) (handle : Handle) :
    LaidAfter found (s.inspect handle) := by
  rcases inspect_cases s handle with ⟨cause, heq⟩ | ⟨c, hidle, heq⟩
  · rw [heq]
    exact h
  · rw [heq]
    exact ⟨h.of_checkOut handle _, h.active.note (h.idle c (Registry.holds_of_get? hidle))⟩

/-- The host is done with the context of the innermost call. -/
theorem top_of_restores (hs : s.active = a :: rest) (hphase : a.phase ≠ .executing)
    (hrestores : ∀ c ∈ s.current?, found s.active.length ≤ c.arena.top) :
    found (rest.length + 1) ≤ a.context.arena.top := by
  have hle := hrestores _ (current?_eq_some hs hphase)
  rw [hs, List.length_cons] at hle
  exact hle

theorem laid_leave (h : s.Laid found) (hrestores : Restores found s .leave) :
    LaidAfter found s.leave := by
  unfold leave
  split
  · exact h
  · rename_i a rest hs
    split
    · rename_i hphase
      have ha := h.head hs
      split
      · exact h.close hs h.idle
      · refine h.close hs (h.of_set ?_)
        have hle := top_of_restores hs (by simp [hphase]) hrestores
        simp only [Activation.Laid, hphase] at ha
        exact ha.mono hle
    · exact h

theorem laid_cancel (h : s.Laid found) (handle : Handle) : LaidAfter found (s.cancel handle) := by
  rcases cancel_cases s handle with ⟨_, heq⟩ | ⟨resident, _, heq⟩
  · rw [heq]
    exact h
  · rw [heq]
    exact ⟨h.of_erase handle, h.active.mark handle⟩

theorem laid_status (h : s.Laid found) (handle : Handle) : LaidAfter found (s.status handle) := by
  unfold status
  split
  · exact h
  · exact h

/-! ## Executing -/

theorem laid_tick (h : s.Laid found) : LaidAfter found s.tick := by
  unfold tick
  split
  · exact h
  · rename_i a rest hs
    split
    · rename_i hphase
      have ha := h.head hs
      simp only [Activation.Laid, hphase] at ha
      split
      · exact h.close hs (h.of_erase a.handle)
      · exact h.close hs (h.of_erase a.handle)
      · rename_i n hadvance
        obtain ⟨k, hsettle, _, hstep⟩ := advance_eq_ok hadvance
        have hn := laid_step (laid_settle ha hsettle) hstep
        refine h.replace hs ?_
        simp only [Activation.Laid, hphase]
        exact hn
      · rename_i n d hadvance
        obtain ⟨k, hsettle, _, hstep⟩ := advance_eq_ok hadvance
        have hn := laid_step (laid_settle ha hsettle) hstep
        have hrest := h.active
        rw [hs] at hrest
        exact ⟨h.idle, hrest.2.note hn⟩
    · exact h

theorem laid_finish (h : s.Laid found) {outcome : Except String Unit}
    (hrestores : Restores found s (.finish outcome)) : LaidAfter found (s.finish outcome) := by
  unfold finish
  split
  · exact h
  · rename_i a rest hs
    split
    · rename_i d control paused hphase
      have ha := h.head hs
      simp only [Activation.Laid, hphase] at ha
      split
      · exact h.close hs h.idle
      · split
        · exact h.close hs (h.of_erase a.handle)
        · rename_i n hanswered
          obtain ⟨k, hcomplete, hsettle⟩ := answered_eq_ok hanswered
          -- the frames were laid out below where the host found the top, and it is not lower now
          have hle := top_of_restores hs (by simp [hphase]) hrestores
          have hn := laid_settle (laid_complete ha.1 (Nat.le_trans ha.2 hle) hcomplete) hsettle
          dsimp only
          split
          · exact h.close hs (h.of_set hn)
          · split
            · exact h.close hs (h.of_set hn)
            · exact h.replace hs hn
    · exact h

/-! ## What a host asks for -/

theorem laid_perform (h : s.Laid found) (action : Arena.Action) :
    LaidAfter found (s.perform action) := by
  unfold perform
  split
  · exact h
  · rename_i a rest hs
    split
    · exact h
    · rename_i hphase
      have ha := h.head hs
      refine h.replace hs ?_
      cases hp : a.phase with
      | executing => exact absurd hp hphase
      | inspecting =>
        simp only [Activation.Laid, hp] at ha ⊢
        exact ha
      | handling d control paused =>
        simp only [Activation.Laid, hp] at ha ⊢
        exact ha

theorem laid_request (h : s.Laid found) (change : Control → Bool → Control × Bool) :
    LaidAfter found (s.request change) := by
  unfold request
  split
  · exact h
  · rename_i a rest hs
    split
    · rename_i d control paused hphase
      have ha := h.head hs
      simp only [Activation.Laid, hphase] at ha
      exact h.replace hs ha
    · exact h

theorem laid_goTo (h : s.Laid found) (label : String) : LaidAfter found (s.goTo label) := by
  unfold goTo
  split
  · exact h
  · split
    · split
      · exact laid_request h _
      · exact h
    · exact h

theorem laid_isPaused (h : s.Laid found) : LaidAfter found s.isPaused := by
  unfold isPaused
  split
  · exact h
  · split
    · exact h
    · exact h

/-! ## Histories -/

/-- **One call.** -/
theorem laid_call {c : Call} (h : s.Laid found) (hrestores : Restores found s c) :
    LaidAfter found (s.call c) := by
  cases c with
  | start bytecode entry memorySize stackSize =>
    exact laid_start h bytecode entry memorySize stackSize
  | startProgram p entry memorySize stackSize =>
    exact laid_startProgram h p entry memorySize stackSize
  | fork parent entry memorySize stackSize => exact laid_fork h parent entry memorySize stackSize
  | cancel handle => exact laid_cancel h handle
  | status handle => exact laid_status h handle
  | contains _ | size | handles => exact h
  | resume handle | consume handle => exact laid_execute h handle _
  | run bytecode entry memorySize stackSize => exact laid_run h bytecode entry memorySize stackSize
  | inspect handle => exact laid_inspect h handle
  | tick => exact laid_tick h
  | finish outcome => exact laid_finish h hrestores
  | leave => exact laid_leave h hrestores
  | perform action => exact laid_perform h action
  | goTo label => exact laid_goTo h label
  | forceReturn => exact laid_request h fun _ paused => (.leave, paused)
  | pause => exact laid_request h fun control _ => (control, true)
  | isPaused => exact laid_isPaused h

theorem laid_callAll {calls : List Call} (h : s.Laid found) (hhost : Considerate found s calls) :
    (s.callAll calls).2.Laid (notedAll found s calls) := by
  induction calls generalizing s found with
  | nil => exact h
  | cons c rest ih => exact ih (laid_call h hhost.1) hhost.2

/-- **Live frames.** Whatever calls a considerate host makes, the frames of every context lie one
above the other: the parameters of each of them, its result slot, its locals and its open
operations, and then the next frame or the top of the stack. While a host has a context before it,
the top may be anywhere from where the host found it. So whatever an instruction reserves on the
stack lies above all that a live frame has there, and nothing else is written by it. -/
theorem live_frames_ascend (settings : Settings) (room : Nat) (calls : List Call)
    (hhost : Considerate (fun _ => 0) { settings, room } calls) :
    let s := (callAll { settings, room } calls).2
    let found := notedAll (fun _ => 0) { settings, room } calls
    (∀ h c, s.registry.get? h = some (.idle c) → c.machine.Ascends c.arena.top) ∧
    (∀ inner a outer, s.active = inner ++ a :: outer →
      match a.phase with
      | .executing => a.context.machine.Ascends a.context.arena.top
      | .handling _ _ _ | .inspecting =>
        ∀ top, found (outer.length + 1) ≤ top → a.context.machine.Ascends top) ∧
    ∀ a ∈ s.active, a.phase = .executing → ∀ m f callers p i e,
      a.context.machine.settle = .ok m → m.At f callers p i → allocates i = true →
      m.step = .ok e →
      (∀ mark ∈ m.marks, mark ≤ m.arena.top) ∧ m.arena.Extends e.machine.arena := by
  intro s found
  have hstart : Laid (fun _ => 0) { settings, room } := by
    refine ⟨?_, trivial⟩
    rintro c ⟨slot, hslot, _⟩
    exact absurd hslot (Array.not_mem_empty slot)
  have hs : s.Laid found := laid_callAll hstart hhost
  refine ⟨?_, ?_, ?_⟩
  · intro h c hidle
    exact (hs.idle c (Registry.holds_of_get? hidle)).ascends
  · intro inner a outer hsplit
    have ha := hs.active.split hsplit
    cases hphase : a.phase with
    | executing =>
      simp only [Activation.Laid, hphase] at ha
      exact ha.ascends
    | inspecting =>
      simp only [Activation.Laid, hphase] at ha
      exact fun top htop => (ha.mono htop).ascends
    | handling d control paused =>
      simp only [Activation.Laid, hphase] at ha
      exact fun top htop => (ha.1.mono (Nat.le_trans ha.2 htop)).ascends
  · intro a ha hphase m f callers p i e hsettle hat hallocates hstep
    obtain ⟨inner, outer, hsplit⟩ := List.append_of_mem ha
    have hlaid := hs.active.split hsplit
    simp only [Activation.Laid, hphase] at hlaid
    rw [hat.step_eq] at hstep
    exact ⟨(laid_settle hlaid hsettle).ascends.le_top, extends_execute hallocates hstep⟩

/-- A procedure with a parameter, a result and locals is called in the midst of an operation, and
hands over operations itself. -/
def nesting : Program where
  ops := #["ask"]
  procedures := #[
    { name := "main", exported := true, locals := [4]
      code := #[.opBegin, .localsAddress 0, .call 1, .param, .opEnd 0 0] },
    { name := "inner", params := [4], result := some 4, locals := [8]
      code := #[.opBegin, .opEnd 0 4, .opBegin, .opEnd 0 4] }]

/-- The host leaves eight bytes on the stack when it handles the first operation and four more when
it inspects the context. The second operation is then opened and ended. -/
def nestingCalls : List Call :=
  [.startProgram nesting "main" 0 64, .resume ⟨0, 1⟩, .tick, .tick, .tick, .tick, .tick,
    .perform (.allocStack 8), .finish (.ok ()), .inspect ⟨0, 1⟩, .perform (.allocStack 4), .leave,
    .consume ⟨0, 1⟩, .tick]

theorem nesting_frames_ascend :
    Considerate (fun _ => 0) { room := 64 } nestingCalls ∧
    ∃ a, (callAll { room := 64 } nestingCalls).2.active = [a] ∧ a.phase = .executing ∧
      a.context.machine.marks = [0, 0, 0, 4, 4, 4, 8, 12, 20, 36] ∧
      a.context.machine.Ascends 36 := by
  have hactive : (callAll { room := 64 } nestingCalls).2.active.map
      (fun a => (a.phase, a.context.machine.marks, a.context.arena.top)) =
      [(.executing, [0, 0, 0, 4, 4, 4, 8, 12, 20, 36], 36)] := by decide +kernel
  have hfinish : Restores (notedAll (fun _ => 0) { room := 64 } (nestingCalls.take 8))
      (callAll { room := 64 } (nestingCalls.take 8)).2 (.finish (.ok ())) := by
    unfold Restores
    decide +kernel
  have hleave : Restores (notedAll (fun _ => 0) { room := 64 } (nestingCalls.take 11))
      (callAll { room := 64 } (nestingCalls.take 11)).2 .leave := by
    unfold Restores
    decide +kernel
  have hhost : Considerate (fun _ => 0) { room := 64 } nestingCalls :=
    ⟨trivial, trivial, trivial, trivial, trivial, trivial, trivial, trivial, hfinish, trivial,
      trivial, hleave, trivial, trivial, trivial⟩
  obtain ⟨a, ha, heq⟩ := List.map_eq_singleton_iff.mp hactive
  obtain ⟨hphase, hmarks, htop⟩ : a.phase = .executing ∧ a.context.machine.marks = _ ∧
    a.context.arena.top = 36 := by simpa using heq
  obtain ⟨_, hascends, _⟩ := live_frames_ascend {} 64 nestingCalls hhost
  have hframes := hascends [] a [] ha
  rw [hphase, htop] at hframes
  exact ⟨hhost, a, ha, hphase, hmarks, hframes⟩

end Session

end Hostcall
