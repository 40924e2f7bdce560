import Hostcall.Machine.Step
import Hostcall.Proofs.Attempt

/-!
# What a machine keeps

The program of a machine, its limit on calls and the places of its data and globals are laid
down when a context is created. Nothing that a machine executes changes them: `sameSetup_settle`,
`sameSetup_step` and `sameSetup_complete`.
-/

namespace Hostcall.Machine

open Attempt

/-- Two machines run the same program in the same surroundings. -/
structure SameSetup (m n : Machine) : Prop where
  program : n.program = m.program
  depthLimit : n.depthLimit = m.depthLimit
  dataBase : n.dataBase = m.dataBase
  globalsBase : n.globalsBase = m.globalsBase

theorem SameSetup.refl (m : Machine) : SameSetup m m := ⟨rfl, rfl, rfl, rfl⟩

theorem sameSetup_with (m : Machine) (arena : Arena) (frames : List Frame) :
    SameSetup m { m with arena, frames } := ⟨rfl, rfl, rfl, rfl⟩

theorem SameSetup.trans {m n k : Machine} (h₁ : SameSetup m n) (h₂ : SameSetup n k) :
    SameSetup m k :=
  ⟨h₂.program.trans h₁.program, h₂.depthLimit.trans h₁.depthLimit,
    h₂.dataBase.trans h₁.dataBase, h₂.globalsBase.trans h₁.globalsBase⟩

/-- A success of `x` keeps the setup of `m`; nothing is said of a failure. -/
def Keeps (m : Machine) (x : Except Fault Machine) : Prop := Meets (SameSetup m) (fun _ => True) x

theorem meets_any {ε α : Type} (x : Except ε α) : Meets (fun _ => True) (fun _ => True) x := by
  cases x with
  | error e => exact trivial
  | ok a => exact trivial

theorem sameSetup_leave (m : Machine) : Keeps m m.leave := by
  unfold leave
  split
  · exact meets_error trivial
  · exact meets_bind (meets_any _) fun _ _ => meets_pure (sameSetup_with m _ _)

theorem sameSetup_unwind (outer : List Frame) (m : Machine) : Keeps m (unwind outer m) := by
  induction outer generalizing m with
  | nil => exact meets_ok (.refl m)
  | cons _ outer ih =>
    unfold unwind
    split
    · exact meets_ok (.refl m)
    · split
      · exact meets_ok (.refl m)
      · refine meets_bind (sameSetup_leave m) fun n hn => ?_
        exact (ih n).mono (fun _ hk => hn.trans hk) fun _ h => h

theorem sameSetup_settle {m n : Machine} (h : m.settle = .ok n) : SameSetup m n :=
  (sameSetup_unwind m.frames m).ok h

theorem sameSetup_enter (m : Machine) (index : Nat) (arguments : List Nat) :
    Keeps m (m.enter index arguments) := by
  unfold enter
  split
  · exact meets_error trivial
  · exact meets_bind (meets_any _) fun _ _ => meets_pure (sameSetup_with m _ _)

/-! ## Instructions -/

/-- The machine after an instruction. -/
def Effect.machine : Effect → Machine
  | .next m => m
  | .dispatch m _ => m

theorem sameSetup_dispatch (m : Machine) (f : Frame) (callers : List Frame)
    (position op result : Nat) :
    Meets (fun e => SameSetup m e.machine) (fun _ => True)
      (m.dispatch f callers position op result) := by
  unfold dispatch
  split
  · exact meets_error trivial
  · split
    · exact meets_error trivial
    · exact meets_bind (meets_any _) fun _ _ => meets_pure (sameSetup_with m _ _)

theorem sameSetup_execute (m : Machine) (p : Procedure) (f : Frame) (callers : List Frame)
    (position : Nat) (i : Instruction) :
    Meets (fun e => SameSetup m e.machine) (fun _ => True)
      (m.execute p f callers position i) := by
  cases i with
  | dataAddress | resultAddress | localsAddress | globalsAddress =>
    unfold execute
    dsimp only
    split
    · exact meets_error trivial
    · exact meets_ok (sameSetup_with m _ _)
  | paramsAddress | opBegin => exact meets_ok (sameSetup_with m _ _)
  | offset | reference | dereference | tuple | param | target =>
    exact meets_bind (meets_any _) fun _ _ => meets_bind (meets_any _) fun _ _ =>
      meets_pure (sameSetup_with m _ _)
  | copy =>
    exact meets_bind (meets_any _) fun _ _ => meets_bind (meets_any _) fun _ _ =>
      meets_bind (meets_any _) fun _ _ => meets_pure (sameSetup_with m _ _)
  | opEnd => exact sameSetup_dispatch m f callers position _ _
  | call index =>
    unfold execute
    dsimp only
    split
    · exact meets_error trivial
    · split
      · exact meets_error trivial
      · exact meets_bind (meets_any _) fun _ _ =>
          meets_bind (sameSetup_enter _ _ _) fun n hn => meets_pure ⟨hn.1, hn.2, hn.3, hn.4⟩
  | jump => exact meets_bind (meets_any _) fun _ _ => meets_pure (sameSetup_with m _ _)
  | branchIf =>
    refine meets_bind (meets_any _) fun _ _ => meets_bind (meets_any _) fun _ _ => ?_
    dsimp only
    split
    · exact meets_pure (sameSetup_with m _ _)
    · exact meets_bind (meets_any _) fun _ _ => meets_pure (sameSetup_with m _ _)
  | ret =>
    exact meets_bind (sameSetup_leave _) fun n hn => meets_pure ⟨hn.1, hn.2, hn.3, hn.4⟩

theorem sameSetup_step {m : Machine} {e : Effect} (h : m.step = .ok e) : SameSetup m e.machine := by
  unfold step at h
  split at h
  · cases h
  · split at h
    · cases h
    · split at h
      · obtain ⟨n, hn, h⟩ := bind_eq_ok_iff.mp h
        cases h
        exact (sameSetup_leave m).ok hn
      · exact (sameSetup_execute m _ _ _ _ _).ok h

/-! ## After an operation -/

theorem sameSetup_complete {m n : Machine} {d : Dispatch} {control : Control}
    (h : m.complete d control = .ok n) : SameSetup m n := by
  obtain ⟨k, hk, h⟩ := bind_eq_ok_iff.mp h
  have hclose : SameSetup m k := by
    unfold closeOperation at hk
    split at hk
    · split at hk
      · cases hk
      · cases hk
        exact sameSetup_with m _ _
    · obtain ⟨_, _, hk⟩ := bind_eq_ok_iff.mp hk
      cases hk
      exact sameSetup_with m _ _
  refine hclose.trans ?_
  cases control with
  | proceed =>
    cases h
    exact .refl _
  | goTo position =>
    change k.redirect position d.scratch = .ok n at h
    unfold redirect at h
    split at h
    · cases h
    · obtain ⟨_, _, h⟩ := bind_eq_ok_iff.mp h
      cases h
      exact sameSetup_with k _ _
  | leave => exact (sameSetup_leave k).ok h

end Hostcall.Machine
