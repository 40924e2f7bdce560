import Hostcall.Proofs.Machine.Shapes

/-!
# Shortages

The rules of the instructions are exact. An instruction that fits does not meet a fault for want
of an address or of an open operation, and one that does not fit meets such a fault at once
(`execute_of_not_fits`). The one exception is a call that is refused because too many calls are
in progress, which is found out before the arguments are taken.

* `fits_of_step_eq_ok`: an instruction that has been executed did fit.
* `step_shortage_iff`: both directions for the next instruction of a machine.
-/

namespace Hostcall

open Attempt

/-- A fault for want of an address or of an open operation. -/
def Fault.isShortage : Fault → Bool
  | .addressUnderflow _ | .notInOperation _ | .unbalancedOperation _ => true
  | _ => false

theorem Fault.isStructural_of_isShortage {fault : Fault} (h : fault.isShortage = true) :
    fault.isStructural = true := by
  cases fault <;> first | rfl | cases h

namespace Machine

variable {R : Procedure → Nat → Shape → Prop}

theorem pop_of_nil {f : Frame} {position : Nat} (h : ¬ 1 ≤ f.addresses.length) :
    f.pop position = .error (.addressUnderflow position) := by
  unfold Frame.pop
  split
  · rfl
  · rename_i hcons
    simp [hcons] at h

theorem popMany_of_lt {f : Frame} {count position : Nat} (h : ¬ count ≤ f.addresses.length) :
    f.popMany count position = .error (.addressUnderflow position) := by
  unfold Frame.popMany
  rw [if_neg h]

theorem pop_eq_of_pos {f : Frame} (position : Nat) (h : 1 ≤ f.addresses.length) :
    ∃ address, f.pop position = .ok (address, { f with addresses := f.addresses.tail }) := by
  unfold Frame.pop
  split
  · rename_i hnil
    simp [hnil] at h
  · rename_i address rest hcons
    exact ⟨address, by simp [hcons]⟩

theorem amend_of_nil {f : Frame} {position : Nat} {change : Pending → Pending}
    (h : ¬ 1 ≤ f.pending.length) :
    amend f position change = .error (.notInOperation position) := by
  unfold amend
  split
  · rfl
  · rename_i hcons
    simp [hcons] at h

/-- A call that is refused because too many calls are in progress. -/
def Refuses (m : Machine) (callers : List Frame) (i : Instruction) : Prop :=
  (∃ index, i = .call index) ∧ m.depthLimit ≤ callers.length + 1

/-- An instruction that lacks an address or an open operation says so, unless it is a call that
is refused before its arguments are taken. -/
theorem execute_of_not_fits {m : Machine} {p : Procedure} {f : Frame} {callers : List Frame}
    {position : Nat} {i : Instruction} (hres : i.Resolves m.program p.code.size)
    (hlack : ¬ i.Fits m.program f.shape) :
    ∃ fault, m.execute p f callers position i = .error fault ∧
      (fault.isShortage = true ∨ m.Refuses callers i) := by
  -- an instruction that takes nothing and stands alone cannot lack anything
  have hnothing : i.pops m.program = 0 → i.needsOperation = false → False := by
    intro hpops hneeds
    refine hlack (Instruction.fits_iff.mpr ⟨by omega, ?_⟩)
    rw [hneeds]
    exact fun h => nomatch h
  have hshort : i.needsOperation = false → ¬ i.pops m.program ≤ f.addresses.length := by
    intro hneeds hpops
    refine hlack (Instruction.fits_iff.mpr ⟨hpops, ?_⟩)
    rw [hneeds]
    exact fun h => nomatch h
  cases i with
  | dataAddress | paramsAddress | resultAddress | localsAddress | globalsAddress | opBegin | jump
  | ret => exact (hnothing rfl rfl).elim
  | offset | reference | dereference | branchIf =>
    refine ⟨.addressUnderflow position, ?_, .inl rfl⟩
    unfold execute
    dsimp only
    rw [pop_of_nil (hshort rfl)]
    rfl
  | tuple sizes =>
    refine ⟨.addressUnderflow position, ?_, .inl rfl⟩
    have hmany : ¬ sizes.length ≤ f.addresses.length := hshort rfl
    unfold execute
    dsimp only
    rw [popMany_of_lt hmany]
    rfl
  | copy size =>
    refine ⟨.addressUnderflow position, ?_, .inl rfl⟩
    have htwo : ¬ 2 ≤ f.addresses.length := hshort rfl
    unfold execute
    dsimp only
    by_cases hone : 1 ≤ f.addresses.length
    · obtain ⟨address, hpop⟩ := pop_eq_of_pos position hone
      rw [hpop]
      change (Frame.pop _ position >>= _) = _
      rw [pop_of_nil (by simp; omega)]
      rfl
    · rw [pop_of_nil hone]
      rfl
  | param | target =>
    by_cases hone : 1 ≤ f.addresses.length
    · refine ⟨.notInOperation position, ?_, .inl rfl⟩
      have hclosed : ¬ 1 ≤ f.pending.length := fun hopen => hlack ⟨hone, hopen⟩
      obtain ⟨address, hpop⟩ := pop_eq_of_pos position hone
      unfold execute
      dsimp only
      rw [hpop]
      change (amend _ position _ >>= _) = _
      rw [amend_of_nil (f := { f with addresses := f.addresses.tail }) hclosed]
      rfl
    · refine ⟨.addressUnderflow position, ?_, .inl rfl⟩
      unfold execute
      dsimp only
      rw [pop_of_nil hone]
      rfl
  | opEnd op result =>
    refine ⟨.unbalancedOperation position, ?_, .inl rfl⟩
    have hclosed : ¬ 1 ≤ f.pending.length := fun hopen => hlack ⟨Nat.zero_le _, hopen⟩
    have hnil : f.pending = [] := List.length_eq_zero_iff.mp (by omega)
    simp only [execute, dispatch, hnil]
  | call index =>
    have hindex : index.toNat < m.program.procedures.size := hres
    have hargs := hshort rfl
    unfold Instruction.pops at hargs
    simp only [Array.getElem?_eq_getElem hindex] at hargs
    unfold execute
    dsimp only
    rw [Array.getElem?_eq_getElem hindex]
    dsimp only
    split
    · rename_i hdeep
      exact ⟨_, rfl, .inr ⟨⟨index, rfl⟩, hdeep⟩⟩
    · refine ⟨.addressUnderflow position, ?_, .inl rfl⟩
      rw [popMany_of_lt hargs]
      rfl

theorem execute_of_refuses {m : Machine} {p : Procedure} {f : Frame} {callers : List Frame}
    {position : Nat} {i : Instruction} (hres : i.Resolves m.program p.code.size)
    (hrefuses : m.Refuses callers i) :
    m.execute p f callers position i = .error (.callDepthExceeded m.depthLimit) := by
  obtain ⟨⟨index, rfl⟩, hdeep⟩ := hrefuses
  have hindex : index.toNat < m.program.procedures.size := hres
  unfold execute
  dsimp only
  rw [Array.getElem?_eq_getElem hindex]
  dsimp only
  rw [if_pos hdeep]

theorem At.resolves {m : Machine} (hc : Closed m.program R) {f : Frame} {callers : List Frame}
    {p : Procedure} {i : Instruction} (hat : m.At f callers p i) :
    i.Resolves m.program p.code.size :=
  hc.resolves p (Array.mem_of_getElem? hat.procedure) i (Array.mem_of_getElem? hat.instruction)

theorem fits_of_step_eq_ok {m : Machine} (hc : Closed m.program R) {e : Effect}
    (hstep : m.step = .ok e) {f : Frame} {callers : List Frame} {p : Procedure} {i : Instruction}
    (hat : m.At f callers p i) : i.Fits m.program f.shape := by
  refine Classical.byContradiction fun hlack => ?_
  obtain ⟨fault, hfault, _⟩ := execute_of_not_fits (m := m) (p := p) (i := i)
    (f := { f with position := f.position + 1 }) (hat.resolves hc) hlack
  rw [hat.step_eq, hfault] at hstep
  cases hstep

/-- **Shortages.** An instruction of a frame in order meets a fault for want of an address or an
open operation exactly when the rules say that it does not fit, calls that are refused apart. -/
theorem step_shortage_iff {m : Machine} (hc : Closed m.program R)
    (h : Stacked m.program R 0 m.frames) {f : Frame} {callers : List Frame} {p : Procedure}
    {i : Instruction} (hat : m.At f callers p i) :
    (∃ fault, m.step = .error fault ∧ fault.isShortage = true) ↔
      ¬ i.Fits m.program f.shape ∧ ¬ m.Refuses callers i := by
  have hres := hat.resolves hc
  rw [hat.step_eq]
  constructor
  · rintro ⟨fault, hfault, hshort⟩
    refine ⟨fun hfits => ?_, fun hrefuses => ?_⟩
    · rw [← hat.step_eq] at hfault
      have hordinary := (hat.step_keeps hc h hfits).error hfault
      rw [Fault.Ordinary, Fault.isStructural_of_isShortage hshort] at hordinary
      cases hordinary
    · rw [execute_of_refuses hres hrefuses] at hfault
      cases hfault
      cases hshort
  · rintro ⟨hlack, hrefuses⟩
    obtain ⟨fault, hfault, hkind⟩ := execute_of_not_fits (m := m) (p := p) (i := i)
      (f := { f with position := f.position + 1 }) hres hlack
    exact ⟨fault, hfault, hkind.resolve_right hrefuses⟩

end Machine

end Hostcall
