import Hostcall.Proofs.Machine.Bounds
import Hostcall.Proofs.Session.Bracketing
import Hostcall.Proofs.Session.CallDepth
import Hostcall.Proofs.Session.Labels

/-!
# Going back never fails

A context goes back on its stack when a call returns, when a host answers an operation and when it
sends the context elsewhere. Nothing of this can be refused, even if the code has not been checked
and the host has moved the top of the stack away: the places to go back to are noted in the frames,
and they lie inside the stack (`Machine.Bounded`).

The addresses that the frames have in hand form one stack, of which each frame owns what is above
the height at its entry. `Noted` follows these heights through a history, and `noted_iff` says that
they can be read off the frames: what lies below a frame does not change while the frame is there
(`Move.shift`).

* `Placed`: what is true of the frames of every context at every time.
* `GoesBack`: what therefore always succeeds.
* `going_back_never_fails`: both, for every context of every session.
-/

namespace Hostcall

open Attempt

namespace Machine

variable {m n : Machine} {stage : Stage}

/-! ## The addresses below a frame -/

/-- The number of addresses below each of the frames, the innermost first. -/
def basesOf : List Frame → List Nat
  | [] => []
  | _ :: callers => (callers.flatMap (·.addresses)).length :: basesOf callers

/-- The heights at which the frames of a machine begin on the stack of addresses. -/
def addressBases (m : Machine) : List Nat := basesOf m.frames

/-- The height of the stack of addresses is noted when a frame is put on top and forgotten when the
frame is gone. -/
def note (bases : List Nat) (m : Machine) : List Nat :=
  if bases.length < m.frames.length then m.addresses.length :: bases
  else bases.drop (bases.length - m.frames.length)

/-- The heights that have been noted in a history of a machine. -/
inductive Noted : Machine × Stage → List Nat → Prop where
  | entered {m : Machine} (entered : Entered m) : Noted (m, .resting) (note [] m)
  | move {s t : Machine × Stage} {bases : List Nat} (before : Noted s bases) (move : Move s t) :
      Noted t (note bases t.1)

/-- What a move does to the frames. -/
inductive Shift (fs : List Frame) : List Frame → Prop where
  | stay {gs : List Frame} (same : SameCalls fs gs) : Shift fs gs
  /-- A frame without addresses is put on top. -/
  | push {inner : Frame} {outer : List Frame} (same : SameCalls fs outer)
      (fresh : inner.addresses = []) : Shift fs (inner :: outer)
  | pop {g : Frame} {callers gs : List Frame} (same : SameCalls fs (g :: callers))
      (below : SameCalls callers gs) : Shift fs gs

theorem shift_leave {fs : List Frame} (hsame : SameCalls fs m.frames) (h : m.leave = .ok n) :
    Shift fs n.frames := by
  cases hframes : m.frames with
  | nil =>
    unfold leave at h
    rw [hframes] at h
    cases h
  | cons f callers =>
    obtain ⟨hn, -⟩ := leave_eq_ok hframes h
    rw [hframes] at hsame
    rw [hn]
    exact .pop hsame (sameCalls_handBack _ _)

theorem shift_step {e : Effect} (h : m.step = .ok e) : Shift m.frames e.machine.frames := by
  cases hframes : m.frames with
  | nil =>
    unfold step at h
    rw [hframes] at h
    cases h
  | cons f callers =>
    cases footing_step hframes h with
    | stays place => exact .stay (.cons place.call)
    | opens call scratches => exact .stay (.cons call)
    | hands call scratches => exact .stay (.cons call)
    | calls place depth procedure fits pending addresses ends =>
      exact .push (.cons place.call) addresses
    | returns place leave => exact shift_leave (.cons place.call) leave

theorem Move.shift {s t : Machine × Stage} (h : Move s t) : Shift s.1.frames t.1.frames := by
  cases h with
  | ended frames ended leave => exact shift_leave (.refl _) leave
  | next step | dispatch step => exact shift_step step
  | perform | request => exact .stay (.refl _)
  | @complete m n d control complete =>
    obtain ⟨k, hclose, h⟩ := bind_eq_ok_iff.mp complete
    obtain ⟨hsame, -⟩ := closeOperation_eq_ok hclose
    cases control with
    | proceed =>
      cases h
      exact .stay hsame
    | goTo position => exact .stay (hsame.trans (sameCalls_redirect h))
    | leave => exact shift_leave hsame h

@[simp] theorem length_basesOf (frames : List Frame) : (basesOf frames).length = frames.length := by
  induction frames with
  | nil => rfl
  | cons f callers ih => simp [basesOf, ih]

/-- The addresses of the innermost frame lie below none. -/
theorem basesOf_of_sameCalls {fs gs : List Frame} (h : SameCalls fs gs) :
    basesOf gs = basesOf fs := by
  cases h with
  | nil => rfl
  | cons same => rfl

theorem length_addresses (m : Machine) :
    m.addresses.length = (m.frames.flatMap (·.addresses)).length := by
  simp [addresses]

/-- **One move.** -/
theorem note_of_shift {fs : List Frame} (h : Shift fs n.frames) :
    note (basesOf fs) n = n.addressBases := by
  rw [note, length_basesOf, addressBases, length_addresses]
  generalize n.frames = gs at h
  cases h with
  | stay same =>
    rw [basesOf_of_sameCalls same]
    simp [same.length_eq]
  | push same fresh =>
    have hlength := same.length_eq
    rw [if_pos (by simp [hlength])]
    simp [basesOf, basesOf_of_sameCalls same, fresh]
  | pop same below =>
    have hlength := same.length_eq
    have hbelow := below.length_eq
    rw [List.length_cons] at hlength
    have hdrop : fs.length - gs.length = 1 := by omega
    rw [if_neg (by omega), hdrop, ← basesOf_of_sameCalls same, basesOf_of_sameCalls below]
    rfl

theorem note_of_entered (h : Entered m) : note [] m = m.addressBases := by
  obtain ⟨room, p, stackSize, memorySize, depthLimit, entry, index, k, hlay, hfound, henter⟩ := h
  obtain ⟨hprogram, hframes⟩ := Session.program_of_layProgram hlay
  obtain ⟨procedure, hprocedure, hparams⟩ := Session.params_of_findEntry hfound
  rw [← hprogram] at hprocedure
  obtain ⟨f, arena, hlaid, rfl⟩ := enter_eq_ok hprocedure henter
  have hlen : ([] : List Nat).length = procedure.params.length := by simp [hparams]
  obtain ⟨-, -, -, haddresses, -⟩ := layFrame_new hlaid hlen
  show note (basesOf []) _ = _
  apply note_of_shift
  show Shift [] (f :: k.frames)
  rw [hframes]
  exact .push .nil haddresses

theorem Noted.eq_addressBases {s : Machine × Stage} {bases : List Nat} (h : Noted s bases) :
    bases = s.1.addressBases := by
  induction h with
  | entered entered => exact note_of_entered entered
  | move before move ih =>
    subst ih
    exact note_of_shift move.shift

theorem exists_noted {s t : Machine × Stage} (h : Moves s t) (hs : ∃ bases, Noted s bases) :
    ∃ bases, Noted t bases := by
  induction h with
  | refl => exact hs
  | tail _ move ih =>
    obtain ⟨bases, hnoted⟩ := ih
    exact ⟨_, hnoted.move move⟩

/-- **Histories.** Every history notes the heights that can be read off the frames. -/
theorem noted_iff {allowed : Machine → Wish → Prop} (h : m.Reachable allowed stage)
    {bases : List Nat} : Noted (m, stage) bases ↔ bases = m.addressBases := by
  constructor
  · exact Noted.eq_addressBases
  · intro heq
    obtain ⟨k, hk, hmoves⟩ := h.exists_moves
    obtain ⟨noted, hnoted⟩ := exists_noted hmoves ⟨_, .entered hk⟩
    rw [heq, ← hnoted.eq_addressBases]
    exact hnoted

theorem basesOf_le {frames : List Frame} :
    ∀ base ∈ basesOf frames, base ≤ (frames.flatMap (·.addresses)).length := by
  induction frames with
  | nil => simp [basesOf]
  | cons f callers ih =>
    intro base hbase
    rw [List.flatMap_cons, List.length_append]
    rcases List.mem_cons.mp hbase with rfl | hbase
    · omega
    · have hle := ih base hbase
      omega

theorem basesOf_descend (frames : List Frame) : (basesOf frames).Pairwise (· ≥ ·) := by
  induction frames with
  | nil => exact .nil
  | cons f callers ih => exact List.pairwise_cons.mpr ⟨basesOf_le, ih⟩

/-! ## What is true at every time -/

/-- Where the frames of a machine with a limit on calls are, whatever its host has done to the
stack. The frame of the entry is there under any limit. -/
structure Placed (limit : Nat) (m : Machine) (stage : Stage) : Prop where
  depth : m.frames.length ≤ max 1 limit
  /-- What a frame has on the stack lies inside the stack. -/
  blocks : ∀ f ∈ m.frames, ∃ p, m.procedure? f = some p ∧
    f.paramsBase ≤ f.localsBase + p.localsSize ∧ f.localsBase + p.localsSize ≤ m.arena.stackSize
  /-- So does each place at which an operation was opened. -/
  scratches : ∀ f ∈ m.frames, ∀ op ∈ f.pending, op.scratch ≤ m.arena.stackSize
  handed : ∀ d control, stage = .handling d control → d.scratch ≤ m.arena.stackSize
  /-- The heights that the entries of the frames have noted are those of the addresses below. -/
  noted : ∀ bases, Noted (m, stage) bases ↔ bases = m.addressBases
  ascending : m.addressBases.Pairwise (· ≥ ·)
  inside : ∀ base ∈ m.addressBases, base ≤ m.addresses.length

/-- All returns that are due lead from `m` to `n`, which has an instruction to execute if it has a
frame. If the instruction is a return, it succeeds too. -/
structure SettlesTo (m n : Machine) : Prop where
  settle : m.settle = .ok n
  rests : n.AtRest
  ret : ∀ f callers p, n.At f callers p .ret → ∃ k, n.step = .ok (.next k)

/-- Everything with which a machine goes back on its stack succeeds. -/
structure GoesBack (m : Machine) (stage : Stage) : Prop where
  leave : m.frames ≠ [] → ∃ n, m.leave = .ok n
  settles : ∃ n, m.SettlesTo n
  /-- An operation can be answered however the host wants to go on. -/
  complete : ∀ d control, stage = .handling d control →
    ∀ wanted, ∃ n k, m.complete d wanted = .ok n ∧ n.SettlesTo k

variable {stackSize memorySize : Nat}

theorem Reachable.placed {allowed : Machine → Wish → Prop} (h : m.Reachable allowed stage) :
    m.Placed m.depthLimit stage := by
  obtain ⟨stackSize, memorySize, hm, hwaits⟩ := h.bounded
  have hsize := hm.sound.stackSize_eq
  refine ⟨hm.depth, ?_, ?_, ?_, fun bases => noted_iff h, basesOf_descend _, ?_⟩
  · intro f hf
    obtain ⟨p, hp, hinside⟩ := hm.frames f hf
    have hblock := hinside.block
    have hlocals := hinside.fits.locals
    exact ⟨p, hp, by omega, by omega⟩
  · intro f hf op hop
    obtain ⟨p, _, hinside⟩ := hm.frames f hf
    rw [hsize]
    exact hinside.scratches _ (List.mem_map_of_mem hop)
  · intro d control hstage
    subst hstage
    rw [hsize]
    exact hwaits.2
  · rw [length_addresses]
    exact basesOf_le

theorem Bounded.ret (hm : m.Bounded stackSize memorySize) {f : Frame} {callers : List Frame}
    {p : Procedure} (hat : m.At f callers p .ret) : ∃ n, m.step = .ok (.next n) := by
  obtain ⟨hf, _⟩ := hm.cons hat.frames
  have hmoved : Owns m.program stackSize { f with position := f.position + 1 } :=
    hf.samePlace (samePlace_with f _ _)
  obtain ⟨n, hn, _⟩ := (hm.replace hat.frames hm.sound hmoved).leave rfl
  rw [hat.step_eq]
  exact ⟨n, bind_eq_ok_iff.mpr ⟨n, hn, rfl⟩⟩

theorem Bounded.settlesTo (hm : m.Bounded stackSize memorySize) : ∃ n, m.SettlesTo n := by
  obtain ⟨n, hn, hrests, hbounded, _⟩ := hm.settle
  exact ⟨n, hn, hrests, fun f callers p hat => hbounded.ret hat⟩

theorem Reachable.goesBack {allowed : Machine → Wish → Prop} (h : m.Reachable allowed stage) :
    m.GoesBack stage := by
  obtain ⟨stackSize, memorySize, hm, hwaits⟩ := h.bounded
  refine ⟨fun hne => ?_, hm.settlesTo, ?_⟩
  · obtain ⟨f, callers, hframes⟩ := List.exists_cons_of_ne_nil hne
    obtain ⟨n, hn, _⟩ := hm.leave hframes
    exact ⟨n, hn⟩
  · intro d control hstage wanted
    subst hstage
    obtain ⟨hne, hscratch⟩ := hwaits
    obtain ⟨n, hn, hbounded⟩ := hm.complete hne hscratch wanted
    obtain ⟨k, hk⟩ := hbounded.settlesTo
    exact ⟨n, k, hn, hk⟩

end Machine

namespace Session

/-! ## Faults -/

/-- What the innermost call can fail of, if what it has to go back on succeeds. -/
theorem ne_callStackUnderflow_of_fails {settings : Settings} {a : Activation} {fault : Fault}
    (ha : a.context.machine.GoesBack a.phase.stage) (h : a.Fails settings fault) :
    fault ≠ .callStackUnderflow := by
  unfold Activation.Fails at h
  split at h
  · rcases advance_eq_error h with hsettle | ⟨k, _, hmore, ⟨limit, rfl⟩ | hstep⟩
    · obtain ⟨n, hn⟩ := ha.settles
      rw [hn.settle] at hsettle
      cases hsettle
    · exact fun heq => nomatch heq
    · have hmet := (Machine.met_step hmore).error hstep
      rintro rfl
      cases hmet
  · rename_i d control paused hphase
    obtain ⟨outcome, h⟩ := h
    rw [hphase] at ha
    obtain ⟨n, k, hn, hk⟩ := ha.complete d control rfl control
    rcases answered_eq_error h with ⟨message, rfl⟩ | hcomplete | ⟨n', hn', hsettle⟩
    · exact fun heq => nomatch heq
    · rw [hn] at hcomplete
      cases hcomplete
    · cases hn.symm.trans hn'
      rw [hk.settle] at hsettle
      cases hsettle
  · exact h.elim

/-! ## Sessions -/

/-- **Going back.** Take any history of an engine, with any programs and any hosts. In every
context there are no more calls than the settings allow, each of their frames lies inside the stack,
and so does each place at which an operation was opened; the heights at which frames begin on the
stack of addresses ascend and are no greater than the height of it. So returns, all returns that are
due and answers to operations succeed, and no call ever reports that there was no frame to return
from. -/
theorem going_back_never_fails (settings : Settings) (room : Nat) (calls : List Call) :
    let s := (callAll { settings, room } calls).2
    (∀ c, s.registry.Holds (.idle c) →
      c.machine.Placed settings.maxCallDepth .resting ∧ c.machine.GoesBack .resting) ∧
    (∀ a ∈ s.active,
      a.context.machine.Placed settings.maxCallDepth a.phase.stage ∧
        a.context.machine.GoesBack a.phase.stage) ∧
    ∀ call reported fault, (s.call call).1.fault? = some (reported, fault) →
      fault ≠ .callStackUnderflow := by
  intro s
  have hs : s.Tracked fun _ _ _ => True := tracked_history settings room (abidesAll_any _ _)
  have hallots : s.Allots settings.maxCallDepth := allots_history settings room calls
  refine ⟨fun c hc => ?_, fun a ha => ?_, ?_⟩
  · rw [← hallots.idle c hc]
    exact ⟨(hs.idle c hc).placed, (hs.idle c hc).goesBack⟩
  · rw [← hallots.active a ha]
    exact ⟨(hs.active a ha).placed, (hs.active a ha).goesBack⟩
  · intro call reported fault hfault
    obtain ⟨a, rest, hactive, _, hfails⟩ := fails_of_call hfault
    exact ne_callStackUnderflow_of_fails (hs.head hactive).goesBack hfails

/-- A program that calls with an address left over. -/
def leaning : Program where
  ops := #["fill"]
  procedures := #[
    { name := "main", exported := true, locals := [1],
      code := #[.localsAddress 0, .localsAddress 0, .call 1] },
    { name := "four", params := [1], result := some 4, code := #[.opBegin, .opEnd 0 0] }]

/-- The host gives up the whole stack while two frames are in use. -/
def leaningUndermined : List Call :=
  [.startProgram leaning "main" 0 8, .resume ⟨0, 1⟩, .tick, .tick, .tick, .tick, .tick,
    .perform (.resetStack 0)]

theorem leaningUndermined_goes_back :
    ∃ a, (callAll { room := 64 } leaningUndermined).2.active = [a] ∧
      a.context.arena.top = 0 ∧ a.context.machine.addressBases = [1, 0] ∧
      a.context.machine.Placed 256 a.phase.stage ∧
      a.context.machine.GoesBack a.phase.stage := by
  have hseen : (callAll { room := 64 } leaningUndermined).2.active.map
      (fun a => (a.context.arena.top, a.context.machine.addressBases)) = [(0, [1, 0])] := by
    decide +kernel
  obtain ⟨a, ha, hpair⟩ := List.map_eq_singleton_iff.mp hseen
  obtain ⟨-, hactive, -⟩ := going_back_never_fails {} 64 leaningUndermined
  obtain ⟨hplaced, hback⟩ := hactive a (by rw [ha]; exact List.mem_singleton_self a)
  exact ⟨a, ha, congrArg (·.1) hpair, congrArg (·.2) hpair, hplaced, hback⟩

end Session

end Hostcall
