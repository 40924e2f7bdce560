import Hostcall.Proofs.Machine.Layout

/-!
# What one instruction does to the frames

`Footing` says for each instruction that has been executed what it has done to the frames, where
they stand and which operations are open in them. It is about the frames only and asks nothing of
the code or of the stack: the top may be anywhere.

* `footing_step`: a frame goes on where it stands, opens an operation at the top, hands one over,
  puts the frame of a call above itself or returns.
* `met_step`: a machine with a frame never meets a fault that only an empty stack of calls, a limit
  on steps or a host can be the cause of.
-/

namespace Hostcall

open Attempt

/-- Whether an instruction of a frame can be the cause of a fault. -/
def Fault.ofInstruction : Fault → Bool
  | .stepLimitExceeded _ | .callStackUnderflow | .host _ _ => false
  | _ => true

namespace Machine

/-- What an instruction of the frame `f` above `callers` does to the frames of `m`. -/
inductive Footing (m : Machine) (f : Frame) (callers : List Frame) : Effect → Prop where
  | stays {g : Frame} {arena : Arena} (place : SamePlace f g) :
      Footing m f callers (.next { m with arena, frames := g :: callers })
  /-- An operation is opened at the top of the stack. -/
  | opens {g : Frame} (call : f.SameCall g) (scratches : g.scratches = m.arena.top :: f.scratches) :
      Footing m f callers (.next { m with frames := g :: callers })
  /-- The operation that was opened last is handed over. -/
  | hands {g : Frame} {arena : Arena} {d : Dispatch} (call : f.SameCall g)
      (scratches : f.scratches = d.scratch :: g.scratches) :
      Footing m f callers (.dispatch { m with arena, frames := g :: callers } d)
  /-- The new frame ends where the stack ends and has nothing in hand. -/
  | calls {g inner : Frame} {arena : Arena} {callee : Procedure} (place : SamePlace f g)
      (depth : callers.length + 1 < m.depthLimit)
      (procedure : m.program.procedures[inner.procedure]? = some callee)
      (fits : inner.Fits callee) (pending : inner.pending = []) (addresses : inner.addresses = [])
      (ends : arena.top = inner.localsBase + callee.localsSize) :
      Footing m f callers (.next { m with arena, frames := inner :: g :: callers })
  | returns {g : Frame} {n : Machine} (place : SamePlace f g)
      (leave : { m with frames := g :: callers }.leave = .ok n) : Footing m f callers (.next n)

variable {m n : Machine} {f g : Frame} {callers : List Frame}

/-! ## Frames -/

theorem SamePlace.push (h : SamePlace f g) (address : Nat) : SamePlace f (g.push address) :=
  h.trans (samePlace_with g _ _)

/-- What a new frame has on the stack, and that it has nothing in hand. -/
theorem layFrame_new {a b : Arena} {index : Nat} {p : Procedure} {arguments : List Nat}
    (h : layFrame a index p arguments = .ok (f, b)) (hlen : arguments.length = p.params.length) :
    f.procedure = index ∧ f.Fits p ∧ f.pending = [] ∧ f.addresses = [] ∧
      b.top = f.localsBase + p.localsSize := by
  obtain ⟨hprocedure, hparams, hresult⟩ := layFrame_layout h hlen
  obtain ⟨hlocals, hpending, htop⟩ := layFrame_ends h hlen
  have haddresses : f.addresses = [] := by
    obtain ⟨_, _, h⟩ := bind_eq_ok_iff.mp h
    obtain ⟨_, _, h⟩ := bind_eq_ok_iff.mp h
    obtain ⟨_, _, h⟩ := bind_eq_ok_iff.mp h
    cases h
    rfl
  refine ⟨hprocedure, ⟨?_, ?_⟩, hpending, haddresses, htop⟩
  · rw [hresult, hparams]
  · rw [hlocals, hparams]

theorem footing_dispatch (hplace : SamePlace f g) (position op result : Nat) :
    Meets (Footing m f callers) (fun _ => True) (m.dispatch g callers position op result) := by
  unfold dispatch
  split
  · exact meets_error trivial
  · rename_i pending outer hpending
    split
    · exact meets_error trivial
    · refine meets_bind (meets_any _) fun _ _ => meets_pure (.hands ?_ ?_)
      · exact hplace.call.trans (g.sameCall_with _ _ _)
      · rw [← hplace.scratches, Frame.scratches, hpending]
        rfl

theorem footing_call (hplace : SamePlace f g) (position : Nat) {p : Procedure} (index : UInt32) :
    Meets (Footing m f callers) (fun _ => True)
      (m.execute p g callers position (.call index)) := by
  unfold execute
  dsimp only
  split
  · exact meets_error trivial
  · rename_i callee hcallee
    split
    · exact meets_error trivial
    · rename_i hdepth
      refine meets_bind (meets_samePlace_popMany hplace _ _) fun r hr => ?_
      refine meets_of ?_ fun _ _ => trivial
      intro e h
      obtain ⟨n, henter, h⟩ := bind_eq_ok_iff.mp h
      cases h
      obtain ⟨inner, arena, hlay, rfl⟩ :=
        enter_eq_ok (m := { m with frames := r.2 :: callers }) hcallee henter
      obtain ⟨hprocedure, hfits, hpending, haddresses, hends⟩ := layFrame_new hlay hr.2
      refine .calls hr.1 (Nat.lt_of_not_le hdepth) ?_ hfits hpending haddresses hends
      rw [hprocedure]
      exact hcallee

/-! ## Instructions -/

/-- **One instruction.** -/
theorem footing_execute (hplace : SamePlace f g) (p : Procedure) (position : Nat)
    (i : Instruction) :
    Meets (Footing m f callers) (fun _ => True) (m.execute p g callers position i) := by
  cases i with
  | dataAddress | resultAddress | localsAddress | globalsAddress =>
    unfold execute
    dsimp only
    split
    · exact meets_error trivial
    · exact meets_ok (.stays (hplace.push _))
  | paramsAddress => exact meets_ok (.stays (hplace.push _))
  | offset | reference | dereference =>
    exact meets_bind (meets_samePlace_pop hplace _) fun _ hk => meets_bind (meets_any _) fun _ _ =>
      meets_pure (.stays (hk.push _))
  | tuple =>
    exact meets_bind (meets_samePlace_popMany hplace _ _) fun _ hk =>
      meets_bind (meets_any _) fun _ _ => meets_pure (.stays (hk.1.push _))
  | copy =>
    exact meets_bind (meets_samePlace_pop hplace _) fun _ hk =>
      meets_bind (meets_samePlace_pop hk _) fun _ hk' => meets_bind (meets_any _) fun _ _ =>
        meets_pure (.stays hk')
  | opBegin =>
    refine meets_ok (.opens (hplace.call.trans (g.sameCall_with _ _ _)) ?_)
    rw [← hplace.scratches]
    rfl
  | param | target =>
    exact meets_bind (meets_samePlace_pop hplace _) fun _ hk =>
      meets_bind (meets_samePlace_amend hk _ fun _ => rfl) fun _ hk' => meets_pure (.stays hk')
  | opEnd => exact footing_dispatch hplace position _ _
  | call index => exact footing_call hplace position index
  | jump =>
    exact meets_bind (meets_samePlace_jump hplace p _) fun _ hk => meets_pure (.stays hk)
  | branchIf =>
    refine meets_bind (meets_samePlace_pop hplace _) fun _ hk => ?_
    refine meets_bind (meets_any _) fun _ _ => ?_
    dsimp only
    split
    · exact meets_pure (.stays hk)
    · exact meets_bind (meets_samePlace_jump hk p _) fun _ hk' => meets_pure (.stays hk')
  | ret =>
    refine meets_of ?_ fun _ _ => trivial
    intro e h
    obtain ⟨n, hleave, h⟩ := bind_eq_ok_iff.mp h
    cases h
    exact .returns hplace hleave

/-- **One step.** -/
theorem footing_step {e : Effect} (hm : m.frames = f :: callers) (h : m.step = .ok e) :
    Footing m f callers e := by
  unfold step at h
  rw [hm] at h
  dsimp only at h
  split at h
  · cases h
  · split at h
    · obtain ⟨n, hleave, h⟩ := bind_eq_ok_iff.mp h
      cases h
      refine .returns (g := f) (samePlace_with f _ _) ?_
      rw [← hm]
      exact hleave
    · exact (footing_execute (samePlace_with f _ _) _ _ _).ok h

/-! ## Faults -/

/-- An instruction can be the cause of the fault. -/
abbrev Met (fault : Fault) : Prop := fault.ofInstruction = true

theorem met_ofArena {α : Type} (x : Except ArenaError α) :
    Meets (fun _ => True) Met (Fault.ofArena x) := by
  cases x with
  | error e => exact meets_error rfl
  | ok a => exact meets_ok trivial

theorem met_pop (f : Frame) (position : Nat) :
    Meets (fun _ => True) Met (f.pop position) := by
  unfold Frame.pop
  split
  · exact meets_error rfl
  · exact meets_ok trivial

theorem met_popMany (f : Frame) (count position : Nat) :
    Meets (fun _ => True) Met (f.popMany count position) := by
  unfold Frame.popMany
  split
  · exact meets_ok trivial
  · exact meets_error rfl

theorem met_amend (f : Frame) (position : Nat) (change : Pending → Pending) :
    Meets (fun _ => True) Met (amend f position change) := by
  unfold amend
  split
  · exact meets_error rfl
  · exact meets_ok trivial

theorem met_jump (p : Procedure) (f : Frame) (target : Nat) :
    Meets (fun _ => True) Met (jump p f target) := by
  unfold jump
  split
  · exact meets_ok trivial
  · exact meets_error rfl

theorem met_displace (a : Arena) (address distance : Nat) :
    Meets (fun _ => True) Met (displace a address distance) := by
  unfold displace
  split
  · exact meets_ok trivial
  · exact meets_error rfl

/-- A return from a frame can only be refused by the arena. -/
theorem met_leave (hm : m.frames ≠ []) : Meets (fun _ => True) Met m.leave := by
  unfold leave
  split
  · rename_i hnil
    exact absurd hnil hm
  · exact meets_bind (met_ofArena _) fun _ _ => meets_pure trivial

theorem met_enter (m : Machine) (index : Nat) (arguments : List Nat) :
    Meets (fun _ => True) Met (m.enter index arguments) := by
  unfold enter
  split
  · exact meets_error rfl
  · exact meets_bind (met_ofArena _) fun _ _ => meets_pure trivial

theorem met_dispatch (m : Machine) (f : Frame) (callers : List Frame)
    (position op result : Nat) :
    Meets (fun _ => True) Met (m.dispatch f callers position op result) := by
  have hslot : Meets (fun _ => True) Met (allocSlot m.arena result) := by
    unfold allocSlot
    split
    · exact meets_bind (met_ofArena _) fun _ _ => meets_pure trivial
    · exact meets_ok trivial
  unfold dispatch
  split
  · exact meets_error rfl
  · split
    · exact meets_error rfl
    · exact meets_bind hslot fun _ _ => meets_pure trivial

/-- **One instruction.** -/
theorem met_execute (m : Machine) (p : Procedure) (f : Frame) (callers : List Frame)
    (position : Nat) (i : Instruction) :
    Meets (fun _ => True) Met (m.execute p f callers position i) := by
  cases i with
  | dataAddress | resultAddress | localsAddress | globalsAddress =>
    unfold execute
    dsimp only
    split
    · exact meets_error rfl
    · exact meets_ok trivial
  | paramsAddress | opBegin => exact meets_ok trivial
  | offset =>
    exact meets_bind (met_pop _ _) fun _ _ => meets_bind (met_displace _ _ _) fun _ _ =>
      meets_pure trivial
  | reference | dereference =>
    exact meets_bind (met_pop _ _) fun _ _ => meets_bind (met_ofArena _) fun _ _ =>
      meets_pure trivial
  | tuple =>
    exact meets_bind (met_popMany _ _ _) fun _ _ => meets_bind (met_ofArena _) fun _ _ =>
      meets_pure trivial
  | copy =>
    exact meets_bind (met_pop _ _) fun _ _ => meets_bind (met_pop _ _) fun _ _ =>
      meets_bind (met_ofArena _) fun _ _ => meets_pure trivial
  | param | target =>
    exact meets_bind (met_pop _ _) fun _ _ => meets_bind (met_amend _ _ _) fun _ _ =>
      meets_pure trivial
  | opEnd => exact met_dispatch m f callers position _ _
  | call index =>
    unfold execute
    dsimp only
    split
    · exact meets_error rfl
    · split
      · exact meets_error rfl
      · exact meets_bind (met_popMany _ _ _) fun _ _ => meets_bind (met_enter _ _ _) fun _ _ =>
          meets_pure trivial
  | jump => exact meets_bind (met_jump _ _ _) fun _ _ => meets_pure trivial
  | branchIf =>
    refine meets_bind (met_pop _ _) fun _ _ => meets_bind (met_ofArena _) fun _ _ => ?_
    dsimp only
    split
    · exact meets_pure trivial
    · exact meets_bind (met_jump _ _ _) fun _ _ => meets_pure trivial
  | ret =>
    have hne : ({ m with frames := f :: callers } : Machine).frames ≠ [] := List.cons_ne_nil _ _
    exact meets_bind (met_leave hne) fun _ _ => meets_pure trivial

/-- **One step.** -/
theorem met_step (hm : m.frames ≠ []) : Meets (fun _ => True) Met m.step := by
  unfold step
  split
  · rename_i hnil
    exact absurd hnil hm
  · split
    · exact meets_error rfl
    · split
      · exact meets_bind (met_leave hm) fun _ _ => meets_pure trivial
      · exact met_execute m _ _ _ _ _

end Machine

end Hostcall
