import Hostcall.Machine.Step
import Hostcall.Proofs.Check.Rules

/-!
# Frames keep to the shapes of their code

Let `R p q s` say that a frame of the procedure `p` may come to the position `q` with the shape
`s`. If `R` is `Closed` under the rules of the instructions, then frames that satisfy it go on to
do so, and an instruction that fits meets no structural fault: one that says that the code is not
in order.

A frame that waits for a callee does not have its shape yet. It is still to be given the address
of the result, so `Stacked` counts the addresses that are due to each frame of a stack: those of
a callee with a result slot, or of an operation with one.

* `leave_keeps`, `settle_keeps`: returning pays what is due to the caller.
* `execute_keeps`, `step_keeps`: an instruction does what the rules say of it.
* `complete_keeps`: after an operation the frame goes on in its shape, at a position that `R`
  allows with an empty frame, or not at all.
-/

namespace Hostcall

open Attempt

/-- A fault that says that the code is not in order: an address, an open operation or something
that an instruction refers to is missing. -/
def Fault.isStructural : Fault → Bool
  | .addressUnderflow _ | .notInOperation _ | .unbalancedOperation _ | .invalidJump _ _
  | .unknownProcedure _ | .unknownOperation _ | .callStackUnderflow => true
  | _ => false

/-- A fault that well-formed code may still meet. -/
def Fault.Ordinary (fault : Fault) : Prop := fault.isStructural = false

/-- What a frame has in hand. -/
def Frame.shape (f : Frame) : Shape := ⟨f.addresses.length, f.pending.length⟩

/-- Shapes that frames may have at the positions of procedures: nothing is in hand at the start,
and an instruction that finds what it needs leaves a shape that is allowed at its successors. -/
structure Closed (program : Program) (R : Procedure → Nat → Shape → Prop) : Prop where
  resolves : ∀ p ∈ program.procedures, ∀ i ∈ p.code, i.Resolves program p.code.size
  start : ∀ p ∈ program.procedures, R p 0 ⟨0, 0⟩
  follows : ∀ p ∈ program.procedures, ∀ {q i s}, p.code[q]? = some i → R p q s →
    i.Fits program s → ∀ r ∈ i.successors q, R p r (i.outcome program s)

namespace Machine

/-- The number of addresses that a slot is worth. -/
def due (slot : Option Nat) : Nat := if slot.isSome then 1 else 0

/-- Every frame of a stack has an allowed shape once it has been given what is due to it: the
innermost one `owed` addresses, each other one what its callee hands back. -/
def Stacked (program : Program) (R : Procedure → Nat → Shape → Prop) : Nat → List Frame → Prop
  | _, [] => True
  | owed, f :: callers =>
    (∃ p, program.procedures[f.procedure]? = some p ∧
      R p f.position ⟨f.addresses.length + owed, f.pending.length⟩) ∧
    Stacked program R (due f.result) callers

variable {program : Program} {R : Procedure → Nat → Shape → Prop}

theorem meets_ofArena {α : Type} {P : α → Prop} {x : Except ArenaError α}
    (h : ∀ a, x = .ok a → P a) : Meets P Fault.Ordinary (Fault.ofArena x) := by
  cases x with
  | error e => rfl
  | ok a => exact h a rfl

/-! ## Calls and returns -/

theorem isSome_of_clearFrame {a b : Arena} {f : Frame} {size : Nat} {result : Option Nat}
    (h : clearFrame a f size = .ok (result, b)) : result.isSome = f.result.isSome := by
  unfold clearFrame at h
  split at h
  · rename_i slot hslot
    obtain ⟨_, _, h⟩ := bind_eq_ok_iff.mp h
    obtain ⟨_, _, h⟩ := bind_eq_ok_iff.mp h
    cases h
    rw [hslot]
    rfl
  · rename_i hnone
    obtain ⟨_, _, h⟩ := bind_eq_ok_iff.mp h
    cases h
    rw [hnone]

theorem stacked_push {owed : Nat} {f : Frame} {callers : List Frame}
    (h : Stacked program R (owed + 1) (f :: callers)) (address : Nat) :
    Stacked program R owed (f.push address :: callers) := by
  obtain ⟨⟨p, hp, hR⟩, hcallers⟩ := h
  refine ⟨⟨p, hp, ?_⟩, hcallers⟩
  have hlen : (f.push address).addresses.length + owed = f.addresses.length + (owed + 1) := by
    simp only [Frame.push, List.length_cons]
    omega
  rw [hlen]
  exact hR

theorem stacked_handBack {result : Option Nat} {callers : List Frame}
    (h : Stacked program R (due result) callers) :
    Stacked program R 0 (handBack result callers) := by
  cases callers with
  | nil => exact trivial
  | cons f rest =>
    cases result with
    | none => exact h
    | some address => exact stacked_push h address

/-- Whatever the shape of a frame that returns, its caller gets what is due to it. -/
theorem leave_keeps {m : Machine} {f : Frame} {callers : List Frame} (hm : m.frames = f :: callers)
    (h : Stacked program R (due f.result) callers) :
    Meets (fun n => Stacked program R 0 n.frames) Fault.Ordinary m.leave := by
  unfold leave
  rw [hm]
  refine meets_bind (P := fun r => due r.1 = due f.result) (meets_ofArena ?_) ?_
  · rintro ⟨result, arena⟩ hclear
    simp only [due, isSome_of_clearFrame hclear]
  · rintro ⟨result, arena⟩ hdue
    refine meets_pure (stacked_handBack ?_)
    simp only at hdue
    rw [hdue]
    exact h

theorem unwind_keeps {outer : List Frame} {m : Machine} (h : Stacked program R 0 m.frames) :
    Meets (fun n => Stacked program R 0 n.frames) Fault.Ordinary (unwind outer m) := by
  induction outer generalizing m with
  | nil => exact meets_ok h
  | cons _ outer ih =>
    unfold unwind
    split
    · exact meets_ok h
    · rename_i f callers hm
      split
      · exact meets_ok h
      · rw [hm] at h
        exact meets_bind (leave_keeps hm h.2) fun n hn => ih hn

theorem settle_keeps {m : Machine} (h : Stacked program R 0 m.frames) :
    Meets (fun n => Stacked program R 0 n.frames) Fault.Ordinary m.settle :=
  unwind_keeps h

theorem isSome_of_allocResult {a b : Arena} {size : Option UInt32} {result : Option Nat}
    (h : allocResult a size = .ok (result, b)) : result.isSome = size.isSome := by
  cases size with
  | none =>
    cases h
    rfl
  | some size =>
    obtain ⟨_, _, h⟩ := bind_eq_ok_iff.mp h
    cases h
    rfl

theorem layFrame_spec {a b : Arena} {index : Nat} {p : Procedure} {arguments : List Nat}
    {f : Frame} (h : layFrame a index p arguments = .ok (f, b)) :
    f.procedure = index ∧ f.position = 0 ∧ f.shape = ⟨0, 0⟩ ∧
      f.result.isSome = p.result.isSome := by
  obtain ⟨_, _, h⟩ := bind_eq_ok_iff.mp h
  obtain ⟨⟨result, _⟩, hresult, h⟩ := bind_eq_ok_iff.mp h
  obtain ⟨_, _, h⟩ := bind_eq_ok_iff.mp h
  cases h
  exact ⟨rfl, rfl, rfl, isSome_of_allocResult hresult⟩

/-- A call of a known procedure begins with an empty frame. The result that its caller will be
given is due from then on. -/
theorem enter_keeps {m : Machine} (hc : Closed m.program R) {index : Nat} {callee : Procedure}
    {arguments : List Nat} (hcallee : m.program.procedures[index]? = some callee)
    (h : Stacked m.program R (if callee.result.isSome then 1 else 0) m.frames) :
    Meets (fun n => Stacked m.program R 0 n.frames) Fault.Ordinary (m.enter index arguments) := by
  unfold enter
  rw [hcallee]
  refine meets_bind (meets_ofArena fun r hr => hr) ?_
  rintro ⟨f, arena⟩ hlay
  obtain ⟨hindex, hposition, hshape, hresult⟩ := layFrame_spec hlay
  have hstart : R callee f.position ⟨f.addresses.length + 0, f.pending.length⟩ := by
    have hstart := hc.start callee (Array.mem_of_getElem? hcallee)
    rw [← hshape] at hstart
    rw [hposition]
    exact hstart
  refine meets_pure ⟨⟨callee, by rw [hindex]; exact hcallee, hstart⟩, ?_⟩
  simp only [due, hresult]
  exact h

/-! ## What an instruction takes -/

theorem meets_pop {f : Frame} {position : Nat} (h : 1 ≤ f.addresses.length) :
    Meets (fun r => r.2 = { f with addresses := f.addresses.tail }) Fault.Ordinary
      (f.pop position) := by
  unfold Frame.pop
  split
  · rename_i hnil
    simp [hnil] at h
  · rename_i address rest hcons
    simp [Meets, hcons]

theorem meets_popMany {f : Frame} {count position : Nat} (h : count ≤ f.addresses.length) :
    Meets (fun r => r.2 = { f with addresses := f.addresses.drop count }) Fault.Ordinary
      (f.popMany count position) := by
  unfold Frame.popMany
  rw [if_pos h]
  exact meets_ok rfl

theorem meets_amend {f : Frame} {position : Nat} {change : Pending → Pending}
    (h : 1 ≤ f.pending.length) :
    Meets (fun g => ∃ pending, g = { f with pending } ∧ pending.length = f.pending.length)
      Fault.Ordinary (amend f position change) := by
  unfold amend
  split
  · rename_i hnil
    simp [hnil] at h
  · rename_i op outer hcons
    exact meets_ok ⟨change op :: outer, rfl, by simp [hcons]⟩

theorem meets_displace (a : Arena) (address distance : Nat) :
    Meets (fun _ => True) Fault.Ordinary (displace a address distance) := by
  unfold displace
  split
  · exact meets_ok trivial
  · exact meets_error rfl

theorem meets_jump {p : Procedure} {f : Frame} {target : Nat} (h : target ≤ p.code.size) :
    Meets (fun g => g = { f with position := target }) Fault.Ordinary (jump p f target) := by
  unfold jump
  rw [if_pos h]
  exact meets_ok rfl

theorem meets_allocSlot (a : Arena) (size : Nat) :
    Meets (fun r => due r.1 = if size > 0 then 1 else 0) Fault.Ordinary (allocSlot a size) := by
  unfold allocSlot
  split
  · exact meets_bind (meets_ofArena fun _ _ => trivial) fun r _ => meets_pure rfl
  · exact meets_ok rfl

/-! ## Instructions -/

/-- What comes of an instruction is stacked: the slot of an operation that has been handed over
is due to the frame that issued it. -/
def Effect.Stacked (program : Program) (R : Procedure → Nat → Shape → Prop) : Effect → Prop
  | .next n => Machine.Stacked program R 0 n.frames
  | .dispatch n d => n.frames ≠ [] ∧ Machine.Stacked program R (due d.slot) n.frames

/-- The frame `f` of procedure `p` has been moved past the instruction `i`, which stood at
`position` and was allowed there, it has what `i` needs, and the calls below it are in order. -/
structure Ready (program : Program) (R : Procedure → Nat → Shape → Prop) (p : Procedure)
    (f : Frame) (callers : List Frame) (position : Nat) (i : Instruction) : Prop where
  closed : Closed program R
  procedure : program.procedures[f.procedure]? = some p
  instruction : p.code[position]? = some i
  allowed : R p position f.shape
  fits : i.Fits program f.shape
  moved : f.position = position + 1
  callers : Machine.Stacked program R (due f.result) callers

section

variable {p : Procedure} {f : Frame} {callers : List Frame} {position : Nat} {i : Instruction}

theorem Ready.mem (h : Ready program R p f callers position i) : p ∈ program.procedures :=
  Array.mem_of_getElem? h.procedure

theorem Ready.resolves (h : Ready program R p f callers position i) :
    i.Resolves program p.code.size :=
  h.closed.resolves p h.mem i (Array.mem_of_getElem? h.instruction)

/-- A frame that stands at a successor with what the instruction leaves, less what is due to it,
is in order. -/
theorem Ready.stacked (h : Ready program R p f callers position i) {g : Frame} {owed : Nat}
    (hprocedure : g.procedure = f.procedure) (hresult : g.result = f.result)
    (hsucc : g.position ∈ i.successors position)
    (hheight : g.addresses.length + owed = (i.outcome program f.shape).height)
    (hopened : g.pending.length = (i.outcome program f.shape).opened) :
    Machine.Stacked program R owed (g :: callers) := by
  refine ⟨⟨p, by rw [hprocedure]; exact h.procedure, ?_⟩, by rw [hresult]; exact h.callers⟩
  rw [hheight, hopened]
  exact h.closed.follows p h.mem h.instruction h.allowed h.fits _ hsucc

/-- `Ready.stacked` for an instruction that is followed by the next one. -/
theorem Ready.stacked_next (h : Ready program R p f callers position i) {g : Frame} {owed : Nat}
    (hsucc : i.successors position = [position + 1])
    (hprocedure : g.procedure = f.procedure) (hresult : g.result = f.result)
    (hposition : g.position = f.position)
    (hheight : g.addresses.length + owed =
      f.addresses.length - i.pops program + i.pushes program)
    (hopened : g.pending.length = i.openedAfter f.pending.length) :
    Machine.Stacked program R owed (g :: callers) := by
  refine h.stacked hprocedure hresult ?_ hheight ?_
  · rw [hsucc, hposition, h.moved]
    exact List.mem_singleton_self _
  · rw [hopened, Instruction.outcome_eq]
    rfl

theorem dispatch_keeps {m : Machine} {op result : UInt32}
    (h : Ready m.program R p f callers position (.opEnd op result)) :
    Meets (Effect.Stacked m.program R) Fault.Ordinary
      (m.dispatch f callers position op.toNat result.toNat) := by
  have hop : op.toNat < m.program.ops.size := h.resolves
  have hopen : 1 ≤ f.pending.length := h.fits.2
  unfold dispatch
  split
  · rename_i hnil
    simp [hnil] at hopen
  · rename_i pending outer hcons
    rw [Array.getElem?_eq_getElem hop]
    refine meets_bind (meets_allocSlot _ _) ?_
    rintro ⟨slot, arena⟩ hdue
    refine meets_pure ⟨List.cons_ne_nil _ _, h.stacked_next rfl rfl rfl rfl ?_ ?_⟩
    · exact congrArg (f.addresses.length + ·) hdue
    · simp [hcons, Instruction.openedAfter]

theorem call_keeps {m : Machine} {index : UInt32}
    (h : Ready m.program R p f callers position (.call index)) :
    Meets (Effect.Stacked m.program R) Fault.Ordinary
      (m.execute p f callers position (.call index)) := by
  have hindex : index.toNat < m.program.procedures.size := h.resolves
  obtain ⟨callee, hcallee⟩ : ∃ callee, m.program.procedures[index.toNat]? = some callee :=
    ⟨_, Array.getElem?_eq_getElem hindex⟩
  have hpops : (Instruction.call index).pops m.program = callee.params.length := by
    unfold Instruction.pops
    simp only [hcallee]
  have hpushes : (Instruction.call index).pushes m.program =
      if callee.result.isSome then 1 else 0 := by
    unfold Instruction.pushes
    simp only [hcallee]
  have hfits := h.fits.1
  rw [hpops] at hfits
  unfold execute
  dsimp only
  rw [hcallee]
  dsimp only
  split
  · exact meets_error rfl
  · refine meets_bind (meets_popMany hfits) ?_
    rintro ⟨arguments, g⟩ rfl
    -- the result of the callee is due to the caller while the call is in progress
    let g : Frame := { f with addresses := f.addresses.drop callee.params.length }
    have hcaller : Machine.Stacked m.program R (if callee.result.isSome then 1 else 0)
        (g :: callers) := by
      refine h.stacked_next rfl rfl rfl rfl ?_ rfl
      rw [hpops, hpushes, List.length_drop]
    exact meets_bind (enter_keeps (m := { m with frames := g :: callers }) h.closed hcallee hcaller)
      fun n hn => meets_pure hn

/-- **One instruction.** It finds what it needs, and the frames that it leaves are in order. -/
theorem execute_keeps {m : Machine} (h : Ready m.program R p f callers position i) :
    Meets (Effect.Stacked m.program R) Fault.Ordinary (m.execute p f callers position i) := by
  have hpops : i.pops m.program ≤ f.addresses.length := h.fits.1
  cases i with
  | dataAddress offset =>
    unfold execute
    dsimp only
    split
    · exact meets_error rfl
    · exact meets_ok (h.stacked_next rfl rfl rfl rfl rfl rfl)
  | paramsAddress offset => exact meets_ok (h.stacked_next rfl rfl rfl rfl rfl rfl)
  | resultAddress =>
    unfold execute
    dsimp only
    split
    · exact meets_error rfl
    · exact meets_ok (h.stacked_next rfl rfl rfl rfl rfl rfl)
  | localsAddress offset =>
    unfold execute
    dsimp only
    split
    · exact meets_error rfl
    · exact meets_ok (h.stacked_next rfl rfl rfl rfl rfl rfl)
  | globalsAddress offset =>
    unfold execute
    dsimp only
    split
    · exact meets_error rfl
    · exact meets_ok (h.stacked_next rfl rfl rfl rfl rfl rfl)
  | offset distance =>
    refine meets_bind (meets_pop hpops) ?_
    rintro ⟨address, g⟩ rfl
    refine meets_bind (meets_displace _ _ _) fun displaced _ => meets_pure ?_
    refine h.stacked_next rfl rfl rfl rfl ?_ rfl
    change f.addresses.tail.length + 1 = f.addresses.length - 1 + 1
    rw [List.length_tail]
  | reference =>
    refine meets_bind (meets_pop hpops) ?_
    rintro ⟨address, g⟩ rfl
    refine meets_bind (meets_ofArena fun _ _ => trivial) ?_
    rintro ⟨cell, arena⟩ _
    refine meets_pure ?_
    refine h.stacked_next rfl rfl rfl rfl ?_ rfl
    change f.addresses.tail.length + 1 = f.addresses.length - 1 + 1
    rw [List.length_tail]
  | dereference =>
    refine meets_bind (meets_pop hpops) ?_
    rintro ⟨cell, g⟩ rfl
    refine meets_bind (meets_ofArena fun _ _ => trivial) fun address _ => meets_pure ?_
    refine h.stacked_next rfl rfl rfl rfl ?_ rfl
    change f.addresses.tail.length + 1 = f.addresses.length - 1 + 1
    rw [List.length_tail]
  | tuple sizes =>
    refine meets_bind (meets_popMany hpops) ?_
    rintro ⟨sources, g⟩ rfl
    refine meets_bind (meets_ofArena fun _ _ => trivial) fun arena _ => meets_pure ?_
    refine h.stacked_next rfl rfl rfl rfl ?_ rfl
    change (f.addresses.drop sizes.length).length + 1 = f.addresses.length - sizes.length + 1
    rw [List.length_drop]
  | copy size =>
    have htwo : 2 ≤ f.addresses.length := hpops
    refine meets_bind (meets_pop (by omega)) ?_
    rintro ⟨destination, g⟩ rfl
    refine meets_bind (meets_pop (by simp; omega)) ?_
    rintro ⟨source, g⟩ rfl
    refine meets_bind (meets_ofArena fun _ _ => trivial) fun arena _ => meets_pure ?_
    refine h.stacked_next rfl rfl rfl rfl ?_ rfl
    change f.addresses.tail.tail.length = f.addresses.length - 2
    rw [List.length_tail, List.length_tail]
    omega
  | opBegin => exact meets_ok (h.stacked_next rfl rfl rfl rfl rfl rfl)
  | param =>
    refine meets_bind (meets_pop hpops) ?_
    rintro ⟨address, g⟩ rfl
    refine meets_bind (meets_amend (h.fits.2)) ?_
    rintro _ ⟨pending, rfl, hlen⟩
    refine meets_pure (h.stacked_next rfl rfl rfl rfl ?_ hlen)
    exact List.length_tail
  | target =>
    refine meets_bind (meets_pop hpops) ?_
    rintro ⟨address, g⟩ rfl
    refine meets_bind (meets_amend (h.fits.2)) ?_
    rintro _ ⟨pending, rfl, hlen⟩
    refine meets_pure (h.stacked_next rfl rfl rfl rfl ?_ hlen)
    exact List.length_tail
  | opEnd op result => exact dispatch_keeps h
  | call index => exact call_keeps h
  | jump target =>
    refine meets_bind (meets_jump h.resolves) ?_
    rintro _ rfl
    exact meets_pure (h.stacked rfl rfl (List.mem_singleton_self _) rfl rfl)
  | branchIf target =>
    refine meets_bind (meets_pop hpops) ?_
    rintro ⟨condition, g⟩ rfl
    refine meets_bind (meets_ofArena fun _ _ => trivial) fun flag _ => ?_
    have hheight : f.addresses.tail.length + 0 =
        ((Instruction.branchIf target).outcome m.program f.shape).height := List.length_tail
    dsimp only
    split
    · exact meets_pure (h.stacked rfl rfl (by simp [Instruction.successors, h.moved]) hheight rfl)
    · refine meets_bind (meets_jump h.resolves) ?_
      rintro _ rfl
      exact meets_pure (h.stacked rfl rfl (by simp [Instruction.successors]) hheight rfl)
  | ret =>
    exact meets_bind (leave_keeps (m := { m with frames := f :: callers }) rfl h.callers)
      fun n hn => meets_pure hn

end

/-- The innermost frame, the calls below it, its procedure and its next instruction. -/
structure At (m : Machine) (f : Frame) (callers : List Frame) (p : Procedure)
    (i : Instruction) : Prop where
  frames : m.frames = f :: callers
  procedure : m.procedure? f = some p
  instruction : p.code[f.position]? = some i

theorem At.step_eq {m : Machine} {f : Frame} {callers : List Frame} {p : Procedure}
    {i : Instruction} (h : m.At f callers p i) :
    m.step = m.execute p { f with position := f.position + 1 } callers f.position i := by
  unfold step
  rw [h.frames]
  dsimp only
  rw [h.procedure]
  dsimp only
  rw [h.instruction]

theorem At.allowed {m : Machine} {f : Frame} {callers : List Frame} {p : Procedure}
    {i : Instruction} (hat : m.At f callers p i) (h : Stacked m.program R 0 m.frames) :
    R p f.position f.shape := by
  rw [hat.frames] at h
  obtain ⟨⟨q, hq, hR⟩, _⟩ := h
  have hp : m.program.procedures[f.procedure]? = some p := hat.procedure
  rw [hp] at hq
  cases hq
  exact hR

theorem At.step_keeps {m : Machine} (hc : Closed m.program R) (h : Stacked m.program R 0 m.frames)
    {f : Frame} {callers : List Frame} {p : Procedure} {i : Instruction}
    (hat : m.At f callers p i) (hfits : i.Fits m.program f.shape) :
    Meets (Effect.Stacked m.program R) Fault.Ordinary m.step := by
  have hR := hat.allowed h
  rw [hat.frames] at h
  rw [hat.step_eq]
  exact execute_keeps ⟨hc, hat.procedure, hat.instruction, hR, hfits, rfl, h.2⟩

/-- **One step.** The frames stay in order unless the next instruction lacks what it needs. -/
theorem step_keeps {m : Machine} (hc : Closed m.program R) (hne : m.frames ≠ [])
    (h : Stacked m.program R 0 m.frames)
    (hfits : ∀ {f callers p i}, m.At f callers p i → i.Fits m.program f.shape) :
    Meets (Effect.Stacked m.program R) Fault.Ordinary m.step := by
  obtain ⟨f, callers, hm⟩ := List.exists_cons_of_ne_nil hne
  have hstacked := h
  rw [hm] at hstacked
  obtain ⟨⟨p, hp, _⟩, hcallers⟩ := hstacked
  cases hi : p.code[f.position]? with
  | none =>
    unfold step
    rw [hm]
    dsimp only
    rw [procedure?, hp]
    dsimp only
    rw [hi]
    exact meets_bind (leave_keeps hm hcallers) fun n hn => meets_pure hn
  | some i =>
    have hat : m.At f callers p i := ⟨hm, hp, hi⟩
    exact hat.step_keeps hc h (hfits hat)

/-! ## After an operation -/

/-- A frame of the innermost procedure may stand at a position with nothing in hand. -/
def Permits (R : Procedure → Nat → Shape → Prop) (m : Machine) (position : Nat) : Prop :=
  ∀ f callers p, m.frames = f :: callers → m.procedure? f = some p → R p position ⟨0, 0⟩

/-- What a host has asked for leaves the frame in order. -/
def PermitsControl (R : Procedure → Nat → Shape → Prop) (m : Machine) : Control → Prop
  | .goTo position => m.Permits R position
  | .proceed | .leave => True

theorem closeOperation_keeps {m : Machine} {d : Dispatch} {f : Frame} {callers : List Frame}
    (hm : m.frames = f :: callers) (h : Stacked program R (due d.slot) m.frames) :
    Meets (fun n => n.program = m.program ∧ Stacked program R 0 n.frames ∧
        ∃ g, n.frames = g :: callers ∧ g.procedure = f.procedure)
      Fault.Ordinary (m.closeOperation d) := by
  rw [hm] at h
  unfold closeOperation
  split
  · rename_i slot hslot
    rw [hslot] at h
    rw [hm]
    exact meets_ok ⟨rfl, stacked_push h slot, _, rfl, rfl⟩
  · rename_i hslot
    rw [hslot] at h
    refine meets_bind (meets_ofArena fun _ _ => trivial) fun arena _ => meets_pure ?_
    refine ⟨rfl, ?_, f, hm, rfl⟩
    simp only [hm]
    exact h

/-- A frame that is sent to a position gets there with nothing in hand. -/
theorem redirect_eq_ok {m n : Machine} {position scratch : Nat}
    (h : m.redirect position scratch = .ok n) :
    ∃ f g callers, m.frames = f :: callers ∧ n.frames = g :: callers ∧ n.program = m.program ∧
      g.procedure = f.procedure ∧ g.result = f.result ∧ g.position = position ∧
      g.shape = ⟨0, 0⟩ := by
  unfold redirect at h
  split at h
  · cases h
  · rename_i f callers hm
    obtain ⟨arena, _, h⟩ := bind_eq_ok_iff.mp h
    cases h
    exact ⟨f, _, callers, hm, rfl, rfl, rfl, rfl, rfl, rfl⟩

theorem redirect_keeps {m : Machine} {position scratch : Nat} (hne : m.frames ≠ [])
    (hpermits : m.Permits R position) (h : Stacked m.program R 0 m.frames) :
    Meets (fun n => Stacked m.program R 0 n.frames) Fault.Ordinary
      (m.redirect position scratch) := by
  refine meets_of ?_ ?_
  · intro n hn
    obtain ⟨f, g, callers, hm, hn', _, hprocedure, hresult, hposition, hshape⟩ := redirect_eq_ok hn
    rw [hm] at h
    obtain ⟨⟨p, hp, _⟩, hcallers⟩ := h
    rw [hn']
    refine ⟨⟨p, by rw [hprocedure]; exact hp, ?_⟩, by rw [hresult]; exact hcallers⟩
    have hR := hpermits f callers p hm hp
    rw [← hshape] at hR
    rw [hposition]
    exact hR
  · intro e he
    unfold redirect at he
    split at he
    · rename_i hnil
      exact absurd hnil hne
    · exact (meets_bind (P := fun _ => True) (R := fun _ => True) (meets_ofArena fun _ _ => trivial)
        fun _ _ => meets_pure trivial).error he

/-- **After an operation.** The slot is paid, and then the frame goes on, is sent to a position
where it may have nothing in hand, or returns. -/
theorem complete_keeps {m : Machine} {d : Dispatch} {control : Control} (hne : m.frames ≠ [])
    (h : Stacked m.program R (due d.slot) m.frames) (hcontrol : m.PermitsControl R control) :
    Meets (fun n => Stacked m.program R 0 n.frames) Fault.Ordinary (m.complete d control) := by
  obtain ⟨f, callers, hm⟩ := List.exists_cons_of_ne_nil hne
  refine meets_bind (closeOperation_keeps hm h) ?_
  rintro n ⟨hprogram, hstacked, g, hn, hprocedure⟩
  cases control with
  | proceed => exact meets_pure hstacked
  | leave =>
    rw [hn] at hstacked
    exact leave_keeps hn hstacked.2
  | goTo position =>
    have hpermits : n.Permits R position := by
      intro g' callers' p hn' hp
      rw [hn] at hn'
      cases hn'
      refine hcontrol f callers p hm ?_
      rw [procedure?, ← hprocedure, ← hprogram]
      exact hp
    rw [← hprogram] at hstacked ⊢
    exact redirect_keeps (by rw [hn]; exact List.cons_ne_nil _ _) hpermits hstacked

end Machine

end Hostcall
