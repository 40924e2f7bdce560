import Hostcall.Proofs.Arena.Invariant
import Hostcall.Proofs.Machine.Shapes

/-!
# What a call lays out and what a return clears

A call puts its parameters, its result slot and its locals on top of the stack, in this order; the
address of the slot is therefore known from the top and the sizes of the parameters alone. A return
moves the result down to where the parameters were, also where the two overlap, and leaves nothing
else of the call behind.

* `At.call_eq_ok`: the frames and the layout after a call.
* `leave_eq_ok`: the frames, the top of the stack and the bytes of the result after a return.
-/

namespace Hostcall

open Attempt

/-- The frame of a caller while its callee is in progress: it has moved past the call, and the
arguments are gone. -/
def Frame.awaiting (f : Frame) (callee : Procedure) : Frame :=
  { f with position := f.position + 1, addresses := f.addresses.drop callee.params.length }

namespace Machine

theorem ofArena_eq_ok_iff {α : Type} {x : Except ArenaError α} {value : α} :
    Fault.ofArena x = .ok value ↔ x = .ok value := by
  cases x with
  | error e => exact iff_of_false (fun h => nomatch h) (fun h => nomatch h)
  | ok a =>
    constructor
    · intro h
      cases h
      rfl
    · intro h
      cases h
      rfl

/-! ## Calls -/

theorem top_of_copyToStack {a b : Arena} {values : List (Nat × UInt32)}
    (h : copyToStack a values = .ok b) : b.top = a.top + Procedure.total (values.map (·.2)) := by
  induction values generalizing a with
  | nil =>
    cases h
    rfl
  | cons value rest ih =>
    obtain ⟨⟨destination, c⟩, halloc, h⟩ := bind_eq_ok_iff.mp h
    obtain ⟨d, hcopy, h⟩ := bind_eq_ok_iff.mp h
    obtain ⟨_, _, rfl⟩ := Arena.allocStack_eq_ok halloc
    obtain ⟨_, _, rfl⟩ := Arena.copy_eq_ok hcopy
    have hb : b.top = a.top + value.2.toNat + Procedure.total (rest.map (·.2)) := ih h
    have htotal : Procedure.total ((value :: rest).map (·.2)) =
        value.2.toNat + Procedure.total (rest.map (·.2)) := rfl
    omega

theorem slot_of_allocResult {a b : Arena} {size : Option UInt32} {slot : Option Nat}
    (h : allocResult a size = .ok (slot, b)) : slot = size.map fun _ => a.top := by
  cases size with
  | none =>
    cases h
    rfl
  | some size =>
    obtain ⟨⟨address, c⟩, halloc, h⟩ := bind_eq_ok_iff.mp h
    obtain ⟨_, rfl, _⟩ := Arena.allocStack_eq_ok halloc
    cases h
    rfl

/-- The parameters begin at the old top of the stack, and the result slot stands behind them. -/
theorem layFrame_layout {a b : Arena} {index : Nat} {p : Procedure} {arguments : List Nat}
    {f : Frame} (h : layFrame a index p arguments = .ok (f, b))
    (hlen : arguments.length = p.params.length) :
    f.procedure = index ∧ f.paramsBase = a.top ∧
      f.result = p.result.map fun _ => a.top + p.paramsSize := by
  obtain ⟨c, hcopy, h⟩ := bind_eq_ok_iff.mp h
  obtain ⟨⟨result, d⟩, hresult, h⟩ := bind_eq_ok_iff.mp h
  obtain ⟨_, _, h⟩ := bind_eq_ok_iff.mp h
  cases h
  refine ⟨rfl, rfl, ?_⟩
  have hsizes : (arguments.zip p.params).map (·.2) = p.params :=
    List.map_snd_zip (Nat.le_of_eq hlen.symm)
  have htop := top_of_copyToStack hcopy
  rw [hsizes] at htop
  have hslot := slot_of_allocResult hresult
  rw [htop] at hslot
  exact hslot

theorem enter_eq_ok {m n : Machine} {index : Nat} {arguments : List Nat} {callee : Procedure}
    (hcallee : m.program.procedures[index]? = some callee)
    (h : m.enter index arguments = .ok n) :
    ∃ f arena, layFrame m.arena index callee arguments = .ok (f, arena) ∧
      n = { m with arena, frames := f :: m.frames } := by
  unfold enter at h
  rw [hcallee] at h
  obtain ⟨⟨f, arena⟩, hlay, h⟩ := bind_eq_ok_iff.mp h
  cases h
  exact ⟨f, arena, ofArena_eq_ok_iff.mp hlay, rfl⟩

/-- **A call.** The caller moves on and gives up its arguments, the frames below it are left alone,
and the frame of the callee is laid out from the top of the stack on. -/
theorem At.call_eq_ok {m n : Machine} {f : Frame} {callers : List Frame} {p : Procedure}
    {index : UInt32} (hat : m.At f callers p (.call index)) (h : m.step = .ok (.next n)) :
    ∃ callee inner, m.program.procedures[index.toNat]? = some callee ∧
      callee.params.length ≤ f.addresses.length ∧
      n.frames = inner :: f.awaiting callee :: callers ∧
      inner.procedure = index.toNat ∧ inner.paramsBase = m.arena.top ∧
      inner.result = callee.result.map fun _ => m.arena.top + callee.paramsSize := by
  rw [hat.step_eq] at h
  unfold execute at h
  dsimp only at h
  split at h
  · cases h
  · rename_i callee hcallee
    split at h
    · cases h
    · obtain ⟨⟨arguments, g⟩, hpop, h⟩ := bind_eq_ok_iff.mp h
      obtain ⟨k, henter, h⟩ := bind_eq_ok_iff.mp h
      cases h
      unfold Frame.popMany at hpop
      split at hpop
      · rename_i hcount
        cases hpop
        obtain ⟨inner, arena, hlay, rfl⟩ :=
          enter_eq_ok (m := { m with frames := f.awaiting callee :: callers }) hcallee henter
        have hlen : (f.addresses.take callee.params.length).reverse.length =
            callee.params.length := by
          rw [List.length_reverse, List.length_take]
          exact Nat.min_eq_left hcount
        exact ⟨callee, inner, hcallee, hcount, rfl, layFrame_layout hlay hlen⟩
      · cases hpop

/-! ## Returns -/

theorem clearFrame_eq_ok {a b : Arena} {f : Frame} {size : Nat} {result : Option Nat}
    (h : clearFrame a f size = .ok (result, b)) :
    result = (f.result.map fun _ => f.paramsBase) ∧
      b.top = f.paramsBase + (if f.result.isSome then size else 0) ∧
      ∀ slot ∈ f.result, Bytes.slice b.bytes f.paramsBase size = Bytes.slice a.bytes slot size := by
  unfold clearFrame at h
  split at h
  · rename_i slot hslot
    obtain ⟨c, hcopy, h⟩ := bind_eq_ok_iff.mp h
    obtain ⟨d, hreset, h⟩ := bind_eq_ok_iff.mp h
    cases h
    obtain ⟨_, rfl⟩ := Arena.resetStack_eq_ok hreset
    rw [hslot]
    refine ⟨rfl, rfl, ?_⟩
    intro slot' hmem
    cases hmem
    have hmoved := Arena.slice_of_copy hcopy
    exact hmoved
  · rename_i hnone
    obtain ⟨d, hreset, h⟩ := bind_eq_ok_iff.mp h
    cases h
    obtain ⟨_, rfl⟩ := Arena.resetStack_eq_ok hreset
    rw [hnone]
    exact ⟨rfl, rfl, fun _ hmem => nomatch hmem⟩

/-- **A return.** The result stands where the parameters were and ends the stack, and the caller is
given its address. -/
theorem leave_eq_ok {m n : Machine} {f : Frame} {callers : List Frame}
    (hm : m.frames = f :: callers) (h : m.leave = .ok n) :
    n.frames = handBack (f.result.map fun _ => f.paramsBase) callers ∧
      n.arena.top = f.paramsBase + (if f.result.isSome then m.resultSize f else 0) ∧
      ∀ slot ∈ f.result, Bytes.slice n.arena.bytes f.paramsBase (m.resultSize f) =
        Bytes.slice m.arena.bytes slot (m.resultSize f) := by
  unfold leave at h
  rw [hm] at h
  obtain ⟨⟨result, arena⟩, hclear, h⟩ := bind_eq_ok_iff.mp h
  cases h
  obtain ⟨rfl, htop, hbytes⟩ := clearFrame_eq_ok (ofArena_eq_ok_iff.mp hclear)
  exact ⟨rfl, htop, hbytes⟩

end Machine

end Hostcall
