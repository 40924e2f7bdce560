import Hostcall.Proofs.Arena.Access
import Hostcall.Proofs.Machine.Footing
import Hostcall.Proofs.Machine.Memory
import Hostcall.Proofs.Session.Layout
import Hostcall.Proofs.Session.Soundness

/-!
# What frames own lies inside the stack

A host may move the top of the stack wherever it likes, also below frames that are in use. What
frames note of the stack is nevertheless good for going back: every address in them was below the
end of the stack when it was noted, and neither the addresses nor the end of the stack ever change.
So `Bounded` says nothing of the top.

* `Bounded.leave`, `Bounded.settle`, `Bounded.complete`: returning from a frame, returning from all
  frames that have come to their end and answering an operation in whatever way succeed, and what
  they lead to is bounded again.
* `Bounded.step`: so is what an instruction leads to.
* `Reachable.bounded`: therefore all machines are bounded, whatever their code is and whatever their
  hosts do.
-/

namespace Hostcall

open Attempt

/-! ## Frames -/

/-- What a frame of a procedure notes of the stack lies inside a stack of so many bytes. -/
structure Frame.Inside (p : Procedure) (stackSize : Nat) (f : Frame) : Prop where
  fits : f.Fits p
  /-- Parameters, result and locals end before the stack does. -/
  block : f.localsBase + p.localsSize ≤ stackSize
  scratches : ∀ scratch ∈ f.scratches, scratch ≤ stackSize

namespace Machine

/-- The frame is of a procedure of the program and lies inside the stack. -/
def Owns (program : Program) (stackSize : Nat) (f : Frame) : Prop :=
  ∃ p, program.procedures[f.procedure]? = some p ∧ f.Inside p stackSize

variable {program : Program} {stackSize memorySize : Nat} {m : Machine} {f g : Frame}
  {callers : List Frame}

theorem Owns.sameCall (h : Owns program stackSize f) (hsame : f.SameCall g)
    (hscratches : ∀ scratch ∈ g.scratches, scratch ≤ stackSize) : Owns program stackSize g := by
  obtain ⟨p, hp, hinside⟩ := h
  refine ⟨p, ?_, hinside.fits.sameCall hsame, ?_, hscratches⟩
  · rw [hsame.procedure, hp]
  · rw [hsame.localsBase]
    exact hinside.block

theorem Owns.samePlace (h : Owns program stackSize f) (hsame : SamePlace f g) :
    Owns program stackSize g := by
  apply h.sameCall hsame.call
  rw [hsame.scratches]
  exact h.choose_spec.2.scratches

theorem forall_owns_handBack (h : ∀ f ∈ callers, Owns program stackSize f) (result : Option Nat) :
    ∀ f ∈ handBack result callers, Owns program stackSize f := by
  cases callers with
  | nil => exact h
  | cons g rest =>
    cases result with
    | none => exact h
    | some address =>
      obtain ⟨hg, hrest⟩ := List.forall_mem_cons.mp h
      exact List.forall_mem_cons.mpr ⟨hg.samePlace (samePlace_with g _ _), hrest⟩

/-- A machine whose arena is in order, with no more frames than allowed, all of them inside the
stack. -/
structure Bounded (stackSize memorySize : Nat) (m : Machine) : Prop where
  sound : m.Sound stackSize memorySize
  depth : m.frames.length ≤ max 1 m.depthLimit
  frames : ∀ f ∈ m.frames, Owns m.program stackSize f

theorem Bounded.cons (hm : m.Bounded stackSize memorySize) (hframes : m.frames = f :: callers) :
    Owns m.program stackSize f ∧ ∀ g ∈ callers, Owns m.program stackSize g := by
  have hall := hm.frames
  rw [hframes] at hall
  exact List.forall_mem_cons.mp hall

/-- The innermost frame goes on, with an arena that is in order. -/
theorem Bounded.replace (hm : m.Bounded stackSize memorySize) (hframes : m.frames = f :: callers)
    {arena : Arena} (harena : arena.WellFormed stackSize memorySize)
    (hg : Owns m.program stackSize g) :
    Bounded stackSize memorySize { m with arena, frames := g :: callers } := by
  refine ⟨harena, ?_, List.forall_mem_cons.mpr ⟨hg, (hm.cons hframes).2⟩⟩
  have hdepth := hm.depth
  rw [hframes] at hdepth
  exact hdepth

/-! ## Returning -/

/-- The bytes of a result and the place that it moves to are in the buffer. -/
theorem exists_clearFrame {a : Arena} {p : Procedure} (ha : a.WellFormed stackSize memorySize)
    (hf : f.Inside p stackSize) : ∃ r, clearFrame a f p.resultSize = .ok r := by
  have hblock := hf.block
  have hlocals := hf.fits.locals
  have hsize := ha.size_bytes
  unfold clearFrame
  rw [hf.fits.result]
  cases p.result with
  | none =>
    have hbase : f.paramsBase ≤ a.stackSize := by
      rw [ha.stackSize_eq]
      omega
    simp only [Option.map_none, Arena.resetStack_of_le hbase]
    exact ⟨_, rfl⟩
  | some size =>
    have hread : f.paramsBase + p.paramsSize + p.resultSize ≤ a.bytes.size := by omega
    have hwrite : f.paramsBase + p.resultSize ≤ a.bytes.size := by omega
    have htop : f.paramsBase + p.resultSize ≤ a.stackSize := by
      rw [ha.stackSize_eq]
      omega
    have hreset := Arena.resetStack_of_le (a := a.write f.paramsBase
      (Bytes.slice a.bytes (f.paramsBase + p.paramsSize) p.resultSize)) htop
    exact ⟨_, bind_eq_ok_iff.mpr ⟨_, Arena.copy_of_le hread hwrite,
      bind_eq_ok_iff.mpr ⟨_, hreset, rfl⟩⟩⟩

/-- **A return.** -/
theorem Bounded.leave (hm : m.Bounded stackSize memorySize) (hframes : m.frames = f :: callers) :
    ∃ n, m.leave = .ok n ∧ n.Bounded stackSize memorySize ∧
      n.frames.length = callers.length := by
  obtain ⟨⟨p, hp, hinside⟩, hcallers⟩ := hm.cons hframes
  have hsize : m.resultSize f = p.resultSize := by
    unfold resultSize procedure?
    rw [hp]
  obtain ⟨⟨result, arena⟩, hclear⟩ := exists_clearFrame hm.sound hinside
  have hleave : m.leave = .ok { m with arena, frames := handBack result callers } := by
    unfold Machine.leave
    rw [hframes]
    dsimp only
    rw [hsize, hclear]
    rfl
  have hlength := length_frames_leave hleave
  have hdepth := hm.depth
  rw [hframes, List.length_cons] at hlength hdepth
  refine ⟨_, hleave, ⟨(sound_leave hm.sound).ok hleave, ?_, ?_⟩, by omega⟩
  · dsimp only at hlength ⊢
    omega
  · exact forall_owns_handBack hcallers result

theorem Bounded.unwind (hm : m.Bounded stackSize memorySize) (outer : List Frame) :
    ∃ n, unwind outer m = .ok n ∧ n.Bounded stackSize memorySize ∧
      n.frames.length ≤ m.frames.length := by
  induction outer generalizing m with
  | nil => exact ⟨m, rfl, hm, Nat.le_refl _⟩
  | cons _ outer ih =>
    unfold Machine.unwind
    cases hframes : m.frames with
    | nil => exact ⟨m, rfl, hm, by simp [hframes]⟩
    | cons f callers =>
      dsimp only
      by_cases hmore : f.position < m.codeSize f
      · rw [if_pos hmore]
        exact ⟨m, rfl, hm, by simp [hframes]⟩
      · rw [if_neg hmore]
        obtain ⟨k, hleave, hk, hlength⟩ := hm.leave hframes
        obtain ⟨n, hn, hbounded, hle⟩ := ih hk
        refine ⟨n, bind_eq_ok_iff.mpr ⟨k, hleave, hn⟩, hbounded, ?_⟩
        rw [List.length_cons]
        omega

/-- The innermost frame, if there is one, has an instruction to execute. -/
def AtRest (m : Machine) : Prop :=
  ∀ f callers, m.frames = f :: callers → f.position < m.codeSize f

/-- **All returns that are due.** -/
theorem Bounded.settle (hm : m.Bounded stackSize memorySize) :
    ∃ n, m.settle = .ok n ∧ n.AtRest ∧ n.Bounded stackSize memorySize ∧
      n.frames.length ≤ m.frames.length := by
  obtain ⟨n, hn, hbounded, hle⟩ := hm.unwind m.frames
  refine ⟨n, hn, ?_, hbounded, hle⟩
  intro f callers hframes
  exact position_lt_of_unwind hn (Nat.le_refl _) hframes

/-! ## Instructions -/

/-- A machine that waits for the answer to an operation has a frame for it, and the stack can go
back to where the operation was opened. -/
def Waits (stackSize : Nat) (m : Machine) : Stage → Prop
  | .resting => True
  | .handling d _ => m.frames ≠ [] ∧ d.scratch ≤ stackSize

/-- What a machine waits for after an instruction. -/
def Effect.stage : Effect → Stage
  | .next _ => .resting
  | .dispatch _ d => .handling d .proceed

/-- **One step.** -/
theorem Bounded.step {e : Effect} (hm : m.Bounded stackSize memorySize)
    (h : m.step = .ok e) (hne : m.frames ≠ []) :
    e.machine.Bounded stackSize memorySize ∧ e.machine.Waits stackSize e.stage := by
  obtain ⟨f, callers, hframes⟩ := List.exists_cons_of_ne_nil hne
  obtain ⟨hf, hcallers⟩ := hm.cons hframes
  have hsound := sound_step hm.sound h
  cases footing_step hframes h with
  | stays place => exact ⟨hm.replace hframes hsound (hf.samePlace place), trivial⟩
  | opens call scratches =>
    refine ⟨hm.replace hframes hsound (hf.sameCall call ?_), trivial⟩
    rw [scratches]
    obtain ⟨p, _, hinside⟩ := hf
    exact List.forall_mem_cons.mpr ⟨hm.sound.top_le, hinside.scratches⟩
  | hands call scratches =>
    obtain ⟨p, _, hinside⟩ := id hf
    have hall := hinside.scratches
    rw [scratches] at hall
    obtain ⟨hscratch, houter⟩ := List.forall_mem_cons.mp hall
    exact ⟨hm.replace hframes hsound (hf.sameCall call houter), List.cons_ne_nil _ _, hscratch⟩
  | @calls g inner arena callee place depth procedure fits pending addresses ends =>
    refine ⟨⟨hsound, ?_, ?_⟩, trivial⟩
    · simp only [Effect.machine, List.length_cons]
      omega
    · have hg := hf.samePlace place
      refine List.forall_mem_cons.mpr ⟨⟨callee, procedure, fits, ?_, ?_⟩,
        List.forall_mem_cons.mpr ⟨hg, hcallers⟩⟩
      · rw [← ends]
        exact hsound.top_le
      · simp [Frame.scratches, pending]
  | returns place leave =>
    have hk := hm.replace hframes hm.sound (hf.samePlace place)
    obtain ⟨k, hk', hbounded, _⟩ := hk.leave rfl
    cases hk'.symm.trans leave
    exact ⟨hbounded, trivial⟩

/-! ## After an operation -/

theorem Bounded.closeOperation {d : Dispatch} (hm : m.Bounded stackSize memorySize)
    (hframes : m.frames = f :: callers) (hscratch : d.scratch ≤ stackSize) :
    ∃ n g, m.closeOperation d = .ok n ∧ n.Bounded stackSize memorySize ∧
      n.frames = g :: callers := by
  obtain ⟨hf, _⟩ := hm.cons hframes
  unfold Machine.closeOperation
  cases d.slot with
  | some slot =>
    simp only [hframes]
    have hpush : Owns m.program stackSize (f.push slot) := hf.samePlace (samePlace_with f _ _)
    exact ⟨_, _, rfl, hm.replace hframes hm.sound hpush, rfl⟩
  | none =>
    have hle : d.scratch ≤ m.arena.stackSize := by
      rw [hm.sound.stackSize_eq]
      exact hscratch
    simp only [Arena.resetStack_of_le hle]
    exact ⟨_, f, rfl, ⟨hm.sound.withTop hscratch, hm.depth, hm.frames⟩, hframes⟩

theorem Bounded.redirect {scratch : Nat} (hm : m.Bounded stackSize memorySize)
    (hframes : m.frames = f :: callers) (hscratch : scratch ≤ stackSize) (position : Nat) :
    ∃ n, m.redirect position scratch = .ok n ∧ n.Bounded stackSize memorySize := by
  obtain ⟨hf, _⟩ := hm.cons hframes
  have hreset : ∀ target ≤ stackSize,
      m.arena.resetStack target = .ok { m.arena with top := target } := by
    intro target hle
    apply Arena.resetStack_of_le
    rw [hm.sound.stackSize_eq]
    exact hle
  have hg : Owns m.program stackSize { f with position, addresses := [], pending := [] } :=
    hf.sameCall (f.sameCall_with _ _ _) (by simp [Frame.scratches])
  unfold Machine.redirect
  rw [hframes]
  dsimp only
  cases hlast : f.pending.getLast? with
  | none =>
    simp only [hreset scratch hscratch]
    exact ⟨_, rfl, hm.replace hframes (hm.sound.withTop hscratch) hg⟩
  | some outermost =>
    obtain ⟨p, _, hinside⟩ := hf
    have hle : outermost.scratch ≤ stackSize :=
      hinside.scratches _ (List.mem_map_of_mem (List.mem_of_getLast? hlast))
    simp only [hreset outermost.scratch hle]
    exact ⟨_, rfl, hm.replace hframes (hm.sound.withTop hle) hg⟩

/-- **The answer to an operation**, however the host wants to go on. -/
theorem Bounded.complete {d : Dispatch} (hm : m.Bounded stackSize memorySize)
    (hne : m.frames ≠ []) (hscratch : d.scratch ≤ stackSize) (control : Control) :
    ∃ n, m.complete d control = .ok n ∧ n.Bounded stackSize memorySize := by
  obtain ⟨f, callers, hframes⟩ := List.exists_cons_of_ne_nil hne
  obtain ⟨k, g, hclose, hk, hkframes⟩ := hm.closeOperation hframes hscratch
  cases control with
  | proceed => exact ⟨k, bind_eq_ok_iff.mpr ⟨k, hclose, rfl⟩, hk⟩
  | goTo position =>
    obtain ⟨n, hn, hbounded⟩ := hk.redirect hkframes hscratch position
    exact ⟨n, bind_eq_ok_iff.mpr ⟨k, hclose, hn⟩, hbounded⟩
  | leave =>
    obtain ⟨n, hn, hbounded, _⟩ := hk.leave hkframes
    exact ⟨n, bind_eq_ok_iff.mpr ⟨k, hclose, hn⟩, hbounded⟩

/-! ## Histories -/

theorem bounded_create {room depthLimit index : Nat} {p : Program} {entry : String} {m n : Machine}
    (hlay : Context.layProgram room p stackSize memorySize depthLimit = .ok m)
    (hfound : Session.findEntry p entry = .ok index) (henter : m.enter index [] = .ok n) :
    n.Bounded stackSize memorySize := by
  obtain ⟨hprogram, hframes⟩ := Session.program_of_layProgram hlay
  obtain ⟨procedure, hprocedure, hparams⟩ := Session.params_of_findEntry hfound
  rw [← hprogram] at hprocedure
  have hsound := (sound_enter (sound_layProgram hlay) _ _).ok henter
  obtain ⟨f, arena, hlaid, rfl⟩ := enter_eq_ok hprocedure henter
  have hlen : ([] : List Nat).length = procedure.params.length := by simp [hparams]
  obtain ⟨hindex, hfits, hpending, _, hends⟩ := layFrame_new hlaid hlen
  rw [hframes]
  refine ⟨hsound, Nat.le_max_left _ _, ?_⟩
  intro g hg
  cases List.mem_singleton.mp hg
  refine ⟨procedure, ?_, hfits, ?_, ?_⟩
  · rw [hindex]
    exact hprocedure
  · rw [← hends]
    exact hsound.top_le
  · simp [Frame.scratches, hpending]

/-- **Histories.** Whatever a host does, what the frames of a machine own lies inside the stack. -/
theorem Reachable.bounded {allowed : Machine → Wish → Prop} {stage : Stage}
    (h : m.Reachable allowed stage) :
    ∃ stackSize memorySize, m.Bounded stackSize memorySize ∧ m.Waits stackSize stage := by
  induction h with
  | create lay found enter => exact ⟨_, _, bounded_create lay found enter, trivial⟩
  | settle _ settle ih =>
    obtain ⟨stackSize, memorySize, hm, _⟩ := ih
    obtain ⟨k, hk, _, hbounded, _⟩ := hm.settle
    cases hk.symm.trans settle
    exact ⟨stackSize, memorySize, hbounded, trivial⟩
  | next _ more step ih | dispatch _ more step ih =>
    obtain ⟨stackSize, memorySize, hm, _⟩ := ih
    exact ⟨stackSize, memorySize, hm.step step more⟩
  | @perform m stage action _ _ ih =>
    obtain ⟨stackSize, memorySize, hm, hwaits⟩ := ih
    refine ⟨stackSize, memorySize, ⟨?_, hm.depth, hm.frames⟩, ?_⟩
    · exact Arena.wellFormed_perform hm.sound _
    · cases stage with
      | resting => trivial
      | handling d control => exact hwaits
  | goTo _ _ _ _ _ ih | forceReturn _ _ ih => exact ih
  | complete _ complete ih =>
    obtain ⟨stackSize, memorySize, hm, hne, hscratch⟩ := ih
    obtain ⟨k, hk, hbounded⟩ := hm.complete hne hscratch _
    cases hk.symm.trans complete
    exact ⟨stackSize, memorySize, hbounded, trivial⟩

end Machine

end Hostcall
