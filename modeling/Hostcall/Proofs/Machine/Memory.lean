import Hostcall.Proofs.Machine.Calls
import Hostcall.Proofs.Machine.Setup
import Hostcall.Proofs.Session.Reachable

/-!
# The arena of a machine stays in order

Nothing that a machine executes, and nothing that a host asks for, takes the arena of a context out
of order: its buffer keeps the size that was asked for when the context was created, the top stays
inside the stack and the heap stays well formed (`Reachable.wellFormed_arena`).
-/

namespace Hostcall.Machine

open Attempt

variable {stackSize memorySize : Nat} {a : Arena} {m : Machine}

/-- The arena of a machine is in order. -/
abbrev Sound (stackSize memorySize : Nat) (m : Machine) : Prop :=
  m.arena.WellFormed stackSize memorySize

/-! ## Calls and returns -/

theorem meets_wellFormed_copyToStack (ha : a.WellFormed stackSize memorySize)
    (values : List (Nat × UInt32)) :
    Meets (Arena.WellFormed stackSize memorySize) (fun _ => True) (copyToStack a values) := by
  induction values generalizing a with
  | nil => exact meets_ok ha
  | cons value rest ih =>
    refine meets_of ?_ fun _ _ => trivial
    intro b h
    obtain ⟨⟨destination, c⟩, halloc, h⟩ := bind_eq_ok_iff.mp h
    obtain ⟨d, hcopy, h⟩ := bind_eq_ok_iff.mp h
    exact (ih ((ha.allocStack halloc).copy hcopy)).ok h

theorem meets_wellFormed_allocResult (ha : a.WellFormed stackSize memorySize)
    (size : Option UInt32) :
    Meets (fun r => r.2.WellFormed stackSize memorySize) (fun _ => True) (allocResult a size) := by
  cases size with
  | none => exact meets_ok ha
  | some size =>
    refine meets_of ?_ fun _ _ => trivial
    intro r h
    obtain ⟨⟨slot, b⟩, halloc, h⟩ := bind_eq_ok_iff.mp h
    cases h
    exact ha.allocStack halloc

theorem sound_enter (hm : m.Sound stackSize memorySize) (index : Nat) (arguments : List Nat) :
    Meets (Sound stackSize memorySize) (fun _ => True) (m.enter index arguments) := by
  unfold enter
  split
  · exact meets_error trivial
  · refine meets_of ?_ fun _ _ => trivial
    intro n h
    obtain ⟨⟨frame, arena⟩, hlay, h⟩ := bind_eq_ok_iff.mp h
    cases h
    obtain ⟨b, hcopy, hlay⟩ := bind_eq_ok_iff.mp (ofArena_eq_ok_iff.mp hlay)
    obtain ⟨⟨result, c⟩, hresult, hlay⟩ := bind_eq_ok_iff.mp hlay
    obtain ⟨⟨locals, d⟩, hlocals, hlay⟩ := bind_eq_ok_iff.mp hlay
    cases hlay
    have hb := (meets_wellFormed_copyToStack hm _).ok hcopy
    exact ((meets_wellFormed_allocResult hb _).ok hresult).allocStack hlocals

theorem sound_leave (hm : m.Sound stackSize memorySize) :
    Meets (Sound stackSize memorySize) (fun _ => True) m.leave := by
  unfold leave
  split
  · exact meets_error trivial
  · rename_i f callers hframes
    refine meets_of ?_ fun _ _ => trivial
    intro n h
    obtain ⟨⟨result, arena⟩, hclear, h⟩ := bind_eq_ok_iff.mp h
    cases h
    replace hclear := ofArena_eq_ok_iff.mp hclear
    unfold clearFrame at hclear
    split at hclear
    · obtain ⟨b, hcopy, hclear⟩ := bind_eq_ok_iff.mp hclear
      obtain ⟨c, hreset, hclear⟩ := bind_eq_ok_iff.mp hclear
      cases hclear
      exact (hm.copy hcopy).resetStack hreset
    · obtain ⟨c, hreset, hclear⟩ := bind_eq_ok_iff.mp hclear
      cases hclear
      exact hm.resetStack hreset

theorem sound_unwind (outer : List Frame) (hm : m.Sound stackSize memorySize) :
    Meets (Sound stackSize memorySize) (fun _ => True) (unwind outer m) := by
  induction outer generalizing m with
  | nil => exact meets_ok hm
  | cons _ outer ih =>
    unfold unwind
    split
    · exact meets_ok hm
    · split
      · exact meets_ok hm
      · exact meets_bind (sound_leave hm) fun n hn => ih hn

theorem sound_settle {n : Machine} (hm : m.Sound stackSize memorySize) (h : m.settle = .ok n) :
    n.Sound stackSize memorySize :=
  (sound_unwind m.frames hm).ok h

/-! ## Instructions -/

theorem sound_dispatch (hm : m.Sound stackSize memorySize) (f : Frame) (callers : List Frame)
    (position op result : Nat) :
    Meets (fun e => e.machine.Sound stackSize memorySize) (fun _ => True)
      (m.dispatch f callers position op result) := by
  unfold dispatch
  split
  · exact meets_error trivial
  · split
    · exact meets_error trivial
    · refine meets_of ?_ fun _ _ => trivial
      intro e h
      obtain ⟨⟨slot, arena⟩, hslot, h⟩ := bind_eq_ok_iff.mp h
      cases h
      unfold allocSlot at hslot
      split at hslot
      · obtain ⟨⟨address, b⟩, halloc, hslot⟩ := bind_eq_ok_iff.mp hslot
        cases hslot
        exact hm.allocStack (ofArena_eq_ok_iff.mp halloc)
      · cases hslot
        exact hm

/-- **One instruction.** -/
theorem sound_execute (hm : m.Sound stackSize memorySize) (p : Procedure) (f : Frame)
    (callers : List Frame) (position : Nat) (i : Instruction) :
    Meets (fun e => e.machine.Sound stackSize memorySize) (fun _ => True)
      (m.execute p f callers position i) := by
  cases i with
  | dataAddress | resultAddress | localsAddress | globalsAddress =>
    unfold execute
    dsimp only
    split
    · exact meets_error trivial
    · exact meets_ok hm
  | paramsAddress | opBegin => exact meets_ok hm
  | offset | dereference | param | target =>
    exact meets_bind (meets_any _) fun _ _ => meets_bind (meets_any _) fun _ _ => meets_pure hm
  | reference =>
    refine meets_bind (meets_any _) fun _ _ => meets_of ?_ fun _ _ => trivial
    intro e h
    obtain ⟨⟨cell, b⟩, hpush, h⟩ := bind_eq_ok_iff.mp h
    cases h
    exact hm.pushBytes (ofArena_eq_ok_iff.mp hpush)
  | tuple =>
    refine meets_bind (meets_any _) fun _ _ => meets_of ?_ fun _ _ => trivial
    intro e h
    obtain ⟨b, hcopy, h⟩ := bind_eq_ok_iff.mp h
    cases h
    exact (meets_wellFormed_copyToStack hm _).ok (ofArena_eq_ok_iff.mp hcopy)
  | copy =>
    refine meets_bind (meets_any _) fun _ _ => meets_bind (meets_any _) fun _ _ =>
      meets_of ?_ fun _ _ => trivial
    intro e h
    obtain ⟨b, hcopy, h⟩ := bind_eq_ok_iff.mp h
    cases h
    exact hm.copy (ofArena_eq_ok_iff.mp hcopy)
  | opEnd => exact sound_dispatch hm f callers position _ _
  | call index =>
    unfold execute
    dsimp only
    split
    · exact meets_error trivial
    · split
      · exact meets_error trivial
      · refine meets_bind (meets_any _) fun r _ => ?_
        exact meets_bind (sound_enter (m := { m with frames := r.2 :: callers }) hm _ _)
          fun n hn => meets_pure hn
  | jump => exact meets_bind (meets_any _) fun _ _ => meets_pure hm
  | branchIf =>
    refine meets_bind (meets_any _) fun _ _ => meets_bind (meets_any _) fun _ _ => ?_
    dsimp only
    split
    · exact meets_pure hm
    · exact meets_bind (meets_any _) fun _ _ => meets_pure hm
  | ret =>
    exact meets_bind (sound_leave (m := { m with frames := f :: callers }) hm)
      fun n hn => meets_pure hn

/-- **One step.** -/
theorem sound_step {e : Effect} (hm : m.Sound stackSize memorySize) (h : m.step = .ok e) :
    e.machine.Sound stackSize memorySize := by
  unfold step at h
  split at h
  · cases h
  · split at h
    · cases h
    · split at h
      · obtain ⟨n, hleave, h⟩ := bind_eq_ok_iff.mp h
        cases h
        exact (sound_leave hm).ok hleave
      · exact (sound_execute hm _ _ _ _ _).ok h

/-! ## After an operation -/

/-- **The answer to an operation.** -/
theorem sound_complete {n : Machine} {d : Dispatch} {control : Control}
    (hm : m.Sound stackSize memorySize) (h : m.complete d control = .ok n) :
    n.Sound stackSize memorySize := by
  obtain ⟨k, hclose, h⟩ := bind_eq_ok_iff.mp h
  have hk : k.Sound stackSize memorySize := by
    unfold closeOperation at hclose
    split at hclose
    · split at hclose
      · cases hclose
      · cases hclose
        exact hm
    · obtain ⟨b, hreset, hclose⟩ := bind_eq_ok_iff.mp hclose
      cases hclose
      exact hm.resetStack (ofArena_eq_ok_iff.mp hreset)
  cases control with
  | proceed =>
    cases h
    exact hk
  | goTo position =>
    change k.redirect position d.scratch = .ok n at h
    unfold redirect at h
    split at h
    · cases h
    · obtain ⟨b, hreset, h⟩ := bind_eq_ok_iff.mp h
      cases h
      exact hk.resetStack (ofArena_eq_ok_iff.mp hreset)
  | leave => exact (sound_leave hk).ok h

/-! ## Histories -/

theorem meets_wellFormed_storeItem (ha : a.WellFormed stackSize memorySize) (address : Nat)
    (item : DataItem) :
    Meets (Arena.WellFormed stackSize memorySize) (fun _ => True)
      (Context.storeItem a address item) := by
  refine meets_of ?_ fun _ _ => trivial
  intro b h
  cases item with
  | scalar s => exact ha.storeBytes h
  | bytes bs => exact ha.storeBytes h
  | text t =>
    obtain ⟨c, hcell, h⟩ := bind_eq_ok_iff.mp h
    obtain ⟨d, htext, h⟩ := bind_eq_ok_iff.mp h
    exact ((ha.storeBytes hcell).storeBytes htext).storeBytes h

theorem meets_wellFormed_storeItems (ha : a.WellFormed stackSize memorySize) (address : Nat)
    (items : List DataItem) :
    Meets (Arena.WellFormed stackSize memorySize) (fun _ => True)
      (Context.storeItems a address items) := by
  induction items generalizing a address with
  | nil => exact meets_ok ha
  | cons item rest ih =>
    exact meets_bind (meets_wellFormed_storeItem ha address item) fun _ hb => ih hb _

theorem wellFormed_layData {p : Program} {base : Option Nat} {b : Arena}
    (ha : a.WellFormed stackSize memorySize) (h : Context.layData a p = .ok (base, b)) :
    b.WellFormed stackSize memorySize := by
  unfold Context.layData at h
  split at h
  · obtain ⟨⟨base, d⟩, halloc, h⟩ := bind_eq_ok_iff.mp h
    obtain ⟨e, hstore, h⟩ := bind_eq_ok_iff.mp h
    cases h
    exact (meets_wellFormed_storeItems (ha.allocMemory halloc) _ _).ok hstore
  · cases h
    exact ha

theorem sound_layProgram {room depthLimit : Nat} {p : Program} {n : Machine}
    (h : Context.layProgram room p stackSize memorySize depthLimit = .ok n) :
    n.Sound stackSize memorySize := by
  unfold Context.layProgram at h
  obtain ⟨a, hcreate, h⟩ := bind_eq_ok_iff.mp h
  obtain ⟨⟨dataBase, b⟩, hdata, h⟩ := bind_eq_ok_iff.mp h
  obtain ⟨⟨globalsBase, c⟩, hglobals, h⟩ := bind_eq_ok_iff.mp h
  cases h
  have hb := wellFormed_layData (Arena.wellFormed_create hcreate) hdata
  unfold Context.layGlobals at hglobals
  split at hglobals
  · obtain ⟨⟨base, d⟩, halloc, hglobals⟩ := bind_eq_ok_iff.mp hglobals
    cases hglobals
    exact hb.allocMemory halloc
  · cases hglobals
    exact hb

/-- **Histories.** The arena of a context has the sizes that it was created with, and it is in
order. -/
theorem Reachable.wellFormed_arena {allowed : Machine → Wish → Prop} {stage : Stage}
    (h : m.Reachable allowed stage) :
    ∃ stackSize memorySize, m.arena.WellFormed stackSize memorySize := by
  induction h with
  | create lay _ enter => exact ⟨_, _, (sound_enter (sound_layProgram lay) _ _).ok enter⟩
  | settle _ settle ih =>
    obtain ⟨stackSize, memorySize, ih⟩ := ih
    exact ⟨stackSize, memorySize, sound_settle ih settle⟩
  | next _ _ step ih =>
    obtain ⟨stackSize, memorySize, ih⟩ := ih
    exact ⟨stackSize, memorySize, sound_step ih step⟩
  | dispatch _ _ step ih =>
    obtain ⟨stackSize, memorySize, ih⟩ := ih
    exact ⟨stackSize, memorySize, sound_step ih step⟩
  | perform _ _ ih =>
    obtain ⟨stackSize, memorySize, ih⟩ := ih
    exact ⟨stackSize, memorySize, Arena.wellFormed_perform ih _⟩
  | goTo _ _ _ _ _ ih | forceReturn _ _ ih => exact ih
  | complete _ complete ih =>
    obtain ⟨stackSize, memorySize, ih⟩ := ih
    exact ⟨stackSize, memorySize, sound_complete ih complete⟩

end Hostcall.Machine
