import Hostcall.Proofs.Machine.Turns

/-!
# Where frames lie on the stack

A frame takes a stretch of the stack: its parameters, its result slot and its locals, one behind the
other. Above them lie the operations that it has opened, each from the top at which it was opened,
and then the frame of the callee. The top of the stack is above all of them. `Ascends` says so as a
list of addresses that ascends; `Laid` says the same frame by frame, so that it can be followed
through a run.

Entering a procedure builds on the top (`laid_enter`), and returning from one takes the stack back
to where its parameters began (`laid_leave`), so every instruction keeps frames laid out
(`laid_step`), and so does the answer to an operation if the host has left the top where it was or
above (`laid_complete`).

What an instruction reserves on the stack lies above the top (`extends_execute`), and therefore
above everything that a live frame owns.
-/

namespace Hostcall

open Attempt

/-! ## What is reserved on the stack -/

namespace Arena

/-- The stack has grown, and at most what it has grown by has been written. -/
structure Extends (a b : Arena) : Prop where
  top_le : a.top ≤ b.top
  bytes : ∀ i, i < a.top ∨ b.top ≤ i → b.bytes.data[i]? = a.bytes.data[i]?

variable {a b c : Arena}

theorem Extends.refl (a : Arena) : a.Extends a := ⟨Nat.le_refl _, fun _ _ => rfl⟩

theorem Extends.trans (hab : a.Extends b) (hbc : b.Extends c) : a.Extends c := by
  have hab_le := hab.top_le
  have hbc_le := hbc.top_le
  refine ⟨Nat.le_trans hab_le hbc_le, ?_⟩
  intro i hi
  rw [hbc.bytes i (by omega), hab.bytes i (by omega)]

/-- What has been reserved may be written. -/
theorem Extends.write {address : Nat} {bs : List UInt8} (h : a.Extends b) (hlow : a.top ≤ address)
    (hhigh : address + bs.length ≤ b.top) : a.Extends (b.write address bs) := by
  refine ⟨h.top_le, ?_⟩
  intro i hi
  have houtside : ¬(address ≤ i ∧ i < address + bs.length ∧ i < b.bytes.size) := by
    change i < a.top ∨ b.top ≤ i at hi
    omega
  rw [← h.bytes i hi]
  exact (Bytes.getElem?_overwrite ..).trans (if_neg houtside)

theorem extends_allocStack {size address : Nat} (h : a.allocStack size = .ok (address, b)) :
    a.Extends b := by
  obtain ⟨_, _, rfl⟩ := allocStack_eq_ok h
  refine ⟨Nat.le_add_right .., ?_⟩
  intro i hi
  have houtside : ¬(a.top ≤ i ∧ i < a.top + (List.replicate size (0 : UInt8)).length ∧
      i < a.bytes.size) := by
    change i < a.top ∨ a.top + size ≤ i at hi
    rw [List.length_replicate]
    omega
  change (Bytes.clear a.bytes a.top size).data[i]? = a.bytes.data[i]?
  rw [Bytes.clear_eq_overwrite, Bytes.getElem?_overwrite, if_neg houtside]

end Arena

namespace Machine

theorem extends_pushAddress {a b : Arena} {value cell : Nat}
    (h : a.pushAddress value = .ok (cell, b)) : a.Extends b := by
  obtain ⟨⟨address, c⟩, halloc, h⟩ := bind_eq_ok_iff.mp h
  have hgrown := Arena.extends_allocStack halloc
  obtain ⟨_, rfl, rfl⟩ := Arena.allocStack_eq_ok halloc
  cases h
  exact hgrown.write (Nat.le_refl _) (Nat.le_refl _)

theorem extends_copyToStack {a b : Arena} {values : List (Nat × UInt32)}
    (h : copyToStack a values = .ok b) : a.Extends b := by
  induction values generalizing a with
  | nil =>
    cases h
    exact .refl _
  | cons value rest ih =>
    obtain ⟨⟨destination, c⟩, halloc, h⟩ := bind_eq_ok_iff.mp h
    obtain ⟨d, hcopy, h⟩ := bind_eq_ok_iff.mp h
    have hgrown := Arena.extends_allocStack halloc
    obtain ⟨_, rfl, rfl⟩ := Arena.allocStack_eq_ok halloc
    obtain ⟨hsource, _, rfl⟩ := Arena.copy_eq_ok hcopy
    have hlength := congrArg (a.top + ·) (Bytes.length_slice hsource)
    exact (hgrown.write (Nat.le_refl _) (Nat.le_of_eq hlength)).trans (ih h)

theorem extends_allocResult {a b : Arena} {size : Option UInt32} {slot : Option Nat}
    (h : allocResult a size = .ok (slot, b)) : a.Extends b := by
  cases size with
  | none =>
    cases h
    exact .refl _
  | some size =>
    obtain ⟨⟨address, c⟩, halloc, h⟩ := bind_eq_ok_iff.mp h
    cases h
    exact Arena.extends_allocStack halloc

theorem extends_enter {m n : Machine} {index : Nat} {arguments : List Nat} {callee : Procedure}
    (hcallee : m.program.procedures[index]? = some callee)
    (h : m.enter index arguments = .ok n) : m.arena.Extends n.arena := by
  obtain ⟨f, arena, hlay, rfl⟩ := enter_eq_ok hcallee h
  obtain ⟨b, hcopy, hlay⟩ := bind_eq_ok_iff.mp hlay
  obtain ⟨⟨result, c⟩, hresult, hlay⟩ := bind_eq_ok_iff.mp hlay
  obtain ⟨⟨locals, d⟩, hlocals, hlay⟩ := bind_eq_ok_iff.mp hlay
  cases hlay
  have hframe := (extends_copyToStack hcopy).trans (extends_allocResult hresult)
  exact hframe.trans (Arena.extends_allocStack hlocals)

theorem extends_allocSlot {a b : Arena} {size : Nat} {slot : Option Nat}
    (h : allocSlot a size = .ok (slot, b)) : a.Extends b := by
  unfold allocSlot at h
  split at h
  · obtain ⟨⟨address, c⟩, halloc, h⟩ := bind_eq_ok_iff.mp h
    cases h
    exact Arena.extends_allocStack (ofArena_eq_ok_iff.mp halloc)
  · cases h
    exact .refl a

/-- Whether an instruction reserves space on the stack. -/
def allocates : Instruction → Bool
  | .reference | .tuple _ | .call _ | .opEnd _ _ => true
  | _ => false

theorem extends_execute {m : Machine} {p : Procedure} {f : Frame} {callers : List Frame}
    {position : Nat} {i : Instruction} {e : Effect} (hi : allocates i = true)
    (h : m.execute p f callers position i = .ok e) : m.arena.Extends e.machine.arena := by
  cases i with
  | reference =>
    obtain ⟨r, _, h⟩ := bind_eq_ok_iff.mp h
    obtain ⟨⟨cell, b⟩, hcell, h⟩ := bind_eq_ok_iff.mp h
    cases h
    exact extends_pushAddress (ofArena_eq_ok_iff.mp hcell)
  | tuple sizes =>
    obtain ⟨r, _, h⟩ := bind_eq_ok_iff.mp h
    obtain ⟨b, hcopy, h⟩ := bind_eq_ok_iff.mp h
    cases h
    exact extends_copyToStack (ofArena_eq_ok_iff.mp hcopy)
  | call index =>
    unfold execute at h
    dsimp only at h
    split at h
    · cases h
    · rename_i callee hcallee
      split at h
      · cases h
      · obtain ⟨r, _, h⟩ := bind_eq_ok_iff.mp h
        obtain ⟨n, henter, h⟩ := bind_eq_ok_iff.mp h
        cases h
        exact extends_enter (m := { m with frames := r.2 :: callers }) hcallee henter
  | opEnd op result =>
    change m.dispatch f callers position op.toNat result.toNat = .ok e at h
    unfold dispatch at h
    split at h
    · cases h
    · split at h
      · cases h
      · obtain ⟨⟨slot, b⟩, hslot, h⟩ := bind_eq_ok_iff.mp h
        cases h
        exact extends_allocSlot hslot
  | dataAddress | paramsAddress | resultAddress | localsAddress | globalsAddress | offset
    | dereference | copy | opBegin | param | target | jump | branchIf | ret => cases hi

end Machine

/-! ## Frames -/

/-- The tops at which the open operations of a frame were opened, the last one first. -/
def Frame.scratches (f : Frame) : List Nat := f.pending.map (·.scratch)

/-- The borders of what a frame has on the stack, from the bottom to the top. -/
def Frame.marks (p : Procedure) (f : Frame) : List Nat :=
  [f.paramsBase, f.paramsBase + p.paramsSize, f.localsBase, f.localsBase + p.localsSize] ++
    f.scratches.reverse

/-- The result slot stands behind the parameters and the locals behind the slot. -/
structure Frame.Fits (p : Procedure) (f : Frame) : Prop where
  result : f.result = p.result.map fun _ => f.paramsBase + p.paramsSize
  locals : f.localsBase = f.paramsBase + p.paramsSize + p.resultSize

theorem Frame.Fits.sameCall {p : Procedure} {f g : Frame} (h : f.Fits p) (hsame : f.SameCall g) :
    g.Fits p where
  result := by rw [hsame.result, hsame.paramsBase, h.result]
  locals := by rw [hsame.localsBase, hsame.paramsBase, h.locals]

namespace Machine

/-- The borders of what the frames of a program have on the stack, from the bottom to the top. -/
def marksOf (program : Program) (frames : List Frame) : List Nat :=
  frames.reverse.flatMap fun f =>
    match program.procedures[f.procedure]? with
    | some p => f.marks p
    | none => []

/-- The borders of what the frames of a machine have on the stack, from the bottom to the top. -/
def marks (m : Machine) : List Nat := marksOf m.program m.frames

/-- Every frame has the layout of its procedure, and the frames lie one above the other and below
`top`. -/
structure Ascends (m : Machine) (top : Nat) : Prop where
  fits : ∀ f ∈ m.frames, ∃ p, m.procedure? f = some p ∧ f.Fits p
  ascending : (m.marks ++ [top]).Pairwise (· ≤ ·)

/-- Scratch positions, the last one first, descend from `top` to `base`. -/
def Descends (base : Nat) : Nat → List Nat → Prop
  | top, [] => base ≤ top
  | top, scratch :: outer => scratch ≤ top ∧ Descends base scratch outer

/-- The frames, the innermost first, lie one above the other and below `top`. -/
def Laid (program : Program) : Nat → List Frame → Prop
  | _, [] => True
  | top, f :: callers =>
    (∃ p, program.procedures[f.procedure]? = some p ∧ f.Fits p ∧
      Descends (f.localsBase + p.localsSize) top f.scratches) ∧ Laid program f.paramsBase callers

variable {program : Program} {m n : Machine} {f g : Frame} {callers frames : List Frame}
  {base top high : Nat} {scratches : List Nat}

theorem Descends.mono (h : Descends base top scratches) (hle : top ≤ high) :
    Descends base high scratches := by
  cases scratches with
  | nil => exact Nat.le_trans h hle
  | cons scratch outer => exact ⟨Nat.le_trans h.1 hle, h.2⟩

/-- The base lies below the position that was noted first, or below the top if there is none. -/
theorem Descends.base_le (h : Descends base top scratches) :
    base ≤ scratches.getLast?.getD top := by
  induction scratches generalizing top with
  | nil => exact h
  | cons scratch outer ih =>
    have houter := ih h.2
    cases outer with
    | nil => exact houter
    | cons next outer => exact houter

theorem Laid.mono (h : Laid program top frames) (hle : top ≤ high) : Laid program high frames := by
  cases frames with
  | nil => trivial
  | cons f callers =>
    obtain ⟨⟨p, hp, hfits, hdescends⟩, hcallers⟩ := h
    exact ⟨⟨p, hp, hfits, hdescends.mono hle⟩, hcallers⟩

/-! ## Frames that stay where they are -/

/-- The two frames are of the same call, and the same operations are open in them. -/
structure SamePlace (f g : Frame) : Prop where
  call : f.SameCall g
  scratches : g.scratches = f.scratches

theorem SamePlace.trans {h : Frame} (h₁ : SamePlace f g) (h₂ : SamePlace g h) : SamePlace f h :=
  ⟨h₁.call.trans h₂.call, h₂.scratches.trans h₁.scratches⟩

theorem samePlace_with (f : Frame) (position : Nat) (addresses : List Nat) :
    SamePlace f { f with position, addresses } :=
  ⟨⟨rfl, rfl, rfl, rfl⟩, rfl⟩

theorem Laid.cons_of_descends {p : Procedure} (h : Laid program top (f :: callers))
    (hsame : f.SameCall g) (hp : program.procedures[f.procedure]? = some p)
    (hdescends : Descends (f.localsBase + p.localsSize) high g.scratches) :
    Laid program high (g :: callers) := by
  obtain ⟨⟨q, hq, hfits, _⟩, hcallers⟩ := h
  rw [hp] at hq
  cases hq
  refine ⟨⟨p, by rw [hsame.procedure, hp], hfits.sameCall hsame, ?_⟩, ?_⟩
  · rw [hsame.localsBase]
    exact hdescends
  · rw [hsame.paramsBase]
    exact hcallers

theorem Laid.samePlace (h : Laid program top (f :: callers)) (hsame : SamePlace f g) :
    Laid program top (g :: callers) := by
  obtain ⟨p, hp, _, hdescends⟩ := h.1
  refine h.cons_of_descends hsame.call hp ?_
  rw [hsame.scratches]
  exact hdescends

theorem Laid.handBack (h : Laid program top frames) (result : Option Nat) :
    Laid program top (handBack result frames) := by
  cases frames with
  | nil => trivial
  | cons f callers =>
    cases result with
    | none => exact h
    | some address => exact h.samePlace (samePlace_with f _ _)

theorem meets_samePlace_pop (hplace : SamePlace f g) (position : Nat) :
    Meets (fun r => SamePlace f r.2) (fun _ => True) (g.pop position) := by
  unfold Frame.pop
  split
  · exact meets_error trivial
  · exact meets_ok (hplace.trans (samePlace_with g _ _))

theorem meets_samePlace_popMany (hplace : SamePlace f g) (count position : Nat) :
    Meets (fun r => SamePlace f r.2 ∧ r.1.length = count) (fun _ => True)
      (g.popMany count position) := by
  unfold Frame.popMany
  split
  · rename_i hcount
    refine meets_ok ⟨hplace.trans (samePlace_with g _ _), ?_⟩
    rw [List.length_reverse, List.length_take]
    exact Nat.min_eq_left hcount
  · exact meets_error trivial

theorem meets_samePlace_amend (hplace : SamePlace f g) (position : Nat) {change : Pending → Pending}
    (hchange : ∀ op, (change op).scratch = op.scratch) :
    Meets (SamePlace f) (fun _ => True) (amend g position change) := by
  unfold amend
  split
  · exact meets_error trivial
  · rename_i op outer hpending
    refine meets_ok (hplace.trans ⟨g.sameCall_with _ _ _, ?_⟩)
    simp [Frame.scratches, hpending, hchange]

theorem meets_samePlace_jump (hplace : SamePlace f g) (p : Procedure) (target : Nat) :
    Meets (SamePlace f) (fun _ => True) (jump p g target) := by
  unfold jump
  split
  · exact meets_ok (hplace.trans (samePlace_with g _ _))
  · exact meets_error trivial

/-! ## Calls and returns -/

theorem top_of_allocResult {a b : Arena} {p : Procedure} {slot : Option Nat}
    (h : allocResult a p.result = .ok (slot, b)) : b.top = a.top + p.resultSize := by
  unfold Procedure.resultSize
  cases hresult : p.result with
  | none =>
    rw [hresult] at h
    cases h
    rfl
  | some size =>
    rw [hresult] at h
    obtain ⟨⟨address, c⟩, halloc, h⟩ := bind_eq_ok_iff.mp h
    obtain ⟨_, _, rfl⟩ := Arena.allocStack_eq_ok halloc
    cases h
    rfl

/-- A new frame stands between the old top of the stack and the new one. -/
theorem layFrame_ends {a b : Arena} {index : Nat} {p : Procedure} {arguments : List Nat}
    (h : layFrame a index p arguments = .ok (f, b)) (hlen : arguments.length = p.params.length) :
    f.localsBase = a.top + p.paramsSize + p.resultSize ∧ f.pending = [] ∧
      b.top = f.localsBase + p.localsSize := by
  obtain ⟨c, hcopy, h⟩ := bind_eq_ok_iff.mp h
  obtain ⟨⟨result, d⟩, hresult, h⟩ := bind_eq_ok_iff.mp h
  obtain ⟨⟨localsBase, e⟩, hlocals, h⟩ := bind_eq_ok_iff.mp h
  obtain ⟨_, rfl, rfl⟩ := Arena.allocStack_eq_ok hlocals
  cases h
  have hsizes : (arguments.zip p.params).map (·.2) = p.params :=
    List.map_snd_zip (Nat.le_of_eq hlen.symm)
  have hparams := top_of_copyToStack hcopy
  rw [hsizes] at hparams
  have hslot := top_of_allocResult hresult
  refine ⟨?_, rfl, rfl⟩
  dsimp only
  rw [hslot, hparams]
  rfl

/-- **A call.** -/
theorem laid_enter {index : Nat} {arguments : List Nat} {callee : Procedure}
    (hm : Laid m.program m.arena.top m.frames)
    (hcallee : m.program.procedures[index]? = some callee)
    (hlen : arguments.length = callee.params.length) (h : m.enter index arguments = .ok n) :
    Laid n.program n.arena.top n.frames := by
  obtain ⟨f, arena, hlay, rfl⟩ := enter_eq_ok hcallee h
  obtain ⟨hprocedure, hparams, hresult⟩ := layFrame_layout hlay hlen
  obtain ⟨hlocals, hpending, htop⟩ := layFrame_ends hlay hlen
  refine ⟨⟨callee, ?_, ⟨?_, ?_⟩, ?_⟩, ?_⟩
  · rw [hprocedure]
    exact hcallee
  · rw [hresult, hparams]
  · rw [hlocals, hparams]
  · simp only [Frame.scratches, hpending, List.map_nil]
    exact Nat.le_of_eq htop.symm
  · rw [hparams]
    exact hm

/-- **A return.** It does not matter where the top has been. -/
theorem laid_leave (hm : Laid m.program top m.frames) (h : m.leave = .ok n) :
    Laid n.program n.arena.top n.frames := by
  have hprogram := ((sameSetup_leave m).ok h).program
  cases hframes : m.frames with
  | nil =>
    unfold leave at h
    rw [hframes] at h
    cases h
  | cons f callers =>
    obtain ⟨hcallers, htop, _⟩ := leave_eq_ok hframes h
    rw [hframes] at hm
    rw [hprogram, hcallers, htop]
    exact (hm.2.mono (Nat.le_add_right ..)).handBack _

theorem laid_unwind (outer : List Frame) (hm : Laid m.program m.arena.top m.frames)
    (h : unwind outer m = .ok n) : Laid n.program n.arena.top n.frames := by
  induction outer generalizing m with
  | nil =>
    cases h
    exact hm
  | cons _ outer ih =>
    unfold unwind at h
    split at h
    · cases h
      exact hm
    · split at h
      · cases h
        exact hm
      · obtain ⟨k, hleave, h⟩ := bind_eq_ok_iff.mp h
        exact ih (laid_leave hm hleave) h

theorem laid_settle (hm : Laid m.program m.arena.top m.frames) (h : m.settle = .ok n) :
    Laid n.program n.arena.top n.frames :=
  laid_unwind m.frames hm h

/-! ## Instructions -/

/-- Frames are laid out below the top. An operation that is handed over was opened above them, and
the host finds the top where it was opened or above. -/
def Effect.Laid : Effect → Prop
  | .next n => Machine.Laid n.program n.arena.top n.frames
  | .dispatch n d => Machine.Laid n.program d.scratch n.frames ∧ d.scratch ≤ n.arena.top

theorem laid_dispatch (hm : Laid m.program m.arena.top (f :: callers)) (hplace : SamePlace f g)
    (position op result : Nat) :
    Meets Effect.Laid (fun _ => True) (m.dispatch g callers position op result) := by
  unfold dispatch
  split
  · exact meets_error trivial
  · rename_i pending outer hpending
    split
    · exact meets_error trivial
    · refine meets_of ?_ fun _ _ => trivial
      intro e h
      obtain ⟨⟨slot, arena⟩, hslot, h⟩ := bind_eq_ok_iff.mp h
      cases h
      obtain ⟨p, hp, _, hdescends⟩ := hm.1
      have hscratches : f.scratches = pending.scratch :: outer.map (·.scratch) := by
        rw [← hplace.scratches, Frame.scratches, hpending, List.map_cons]
      rw [hscratches] at hdescends
      refine ⟨?_, Nat.le_trans hdescends.1 (extends_allocSlot hslot).top_le⟩
      exact hm.cons_of_descends (hplace.call.trans (g.sameCall_with _ _ _)) hp hdescends.2

/-- **One instruction.** -/
theorem laid_execute (hm : Laid m.program m.arena.top (f :: callers)) (hplace : SamePlace f g)
    (p : Procedure) (position : Nat) (i : Instruction) :
    Meets Effect.Laid (fun _ => True) (m.execute p g callers position i) := by
  -- the frame has only had addresses pushed and popped, and the top has not sunk
  have hpush : ∀ {k : Frame} {arena : Arena} (address : Nat), SamePlace f k →
      m.arena.top ≤ arena.top →
      Effect.Laid (.next { m with arena, frames := k.push address :: callers }) := by
    intro k arena address hk htop
    exact (hm.samePlace (hk.trans (samePlace_with k _ _))).mono htop
  cases i with
  | dataAddress | resultAddress | localsAddress | globalsAddress =>
    unfold execute
    dsimp only
    split
    · exact meets_error trivial
    · exact meets_ok (hpush _ hplace (Nat.le_refl _))
  | paramsAddress => exact meets_ok (hpush _ hplace (Nat.le_refl _))
  | offset | dereference =>
    exact meets_bind (meets_samePlace_pop hplace _) fun _ hk => meets_bind (meets_any _) fun _ _ =>
      meets_pure (hpush _ hk (Nat.le_refl _))
  | reference =>
    refine meets_bind (meets_samePlace_pop hplace _) fun _ hk => meets_of ?_ fun _ _ => trivial
    intro e h
    obtain ⟨⟨cell, b⟩, hcell, h⟩ := bind_eq_ok_iff.mp h
    cases h
    exact hpush _ hk (extends_pushAddress (ofArena_eq_ok_iff.mp hcell)).top_le
  | tuple =>
    refine meets_bind (meets_samePlace_popMany hplace _ _) fun _ hk =>
      meets_of ?_ fun _ _ => trivial
    intro e h
    obtain ⟨b, hcopy, h⟩ := bind_eq_ok_iff.mp h
    cases h
    exact hpush _ hk.1 (extends_copyToStack (ofArena_eq_ok_iff.mp hcopy)).top_le
  | copy =>
    refine meets_bind (meets_samePlace_pop hplace _) fun _ hk =>
      meets_bind (meets_samePlace_pop hk _) fun _ hk' => meets_of ?_ fun _ _ => trivial
    intro e h
    obtain ⟨b, hcopy, h⟩ := bind_eq_ok_iff.mp h
    cases h
    obtain ⟨_, _, rfl⟩ := Arena.copy_eq_ok (ofArena_eq_ok_iff.mp hcopy)
    exact hm.samePlace hk'
  | opBegin =>
    obtain ⟨q, hq, _, hdescends⟩ := hm.1
    have hscratches := hplace.scratches
    refine meets_ok (hm.cons_of_descends (hplace.call.trans (g.sameCall_with _ _ _)) hq ?_)
    refine ⟨Nat.le_refl _, ?_⟩
    change Descends _ _ g.scratches
    rw [hscratches]
    exact hdescends
  | param | target =>
    exact meets_bind (meets_samePlace_pop hplace _) fun _ hk =>
      meets_bind (meets_samePlace_amend hk _ fun _ => rfl) fun _ hk' =>
        meets_pure (hm.samePlace hk')
  | opEnd => exact laid_dispatch hm hplace position _ _
  | call index =>
    unfold execute
    dsimp only
    split
    · exact meets_error trivial
    · rename_i callee hcallee
      split
      · exact meets_error trivial
      · refine meets_bind (meets_samePlace_popMany hplace _ _) fun r hk =>
          meets_of ?_ fun _ _ => trivial
        intro e h
        obtain ⟨n, henter, h⟩ := bind_eq_ok_iff.mp h
        cases h
        exact laid_enter (m := { m with frames := r.2 :: callers }) (hm.samePlace hk.1) hcallee
          hk.2 henter
  | jump =>
    exact meets_bind (meets_samePlace_jump hplace p _) fun _ hk => meets_pure (hm.samePlace hk)
  | branchIf =>
    refine meets_bind (meets_samePlace_pop hplace _) fun _ hk =>
      meets_bind (meets_any _) fun _ _ => ?_
    dsimp only
    split
    · exact meets_pure (hm.samePlace hk)
    · exact meets_bind (meets_samePlace_jump hk p _) fun _ hk' => meets_pure (hm.samePlace hk')
  | ret =>
    refine meets_of ?_ fun _ _ => trivial
    intro e h
    obtain ⟨n, hleave, h⟩ := bind_eq_ok_iff.mp h
    cases h
    exact laid_leave (m := { m with frames := g :: callers }) (hm.samePlace hplace) hleave

/-- **One step.** -/
theorem laid_step {e : Effect} (hm : Laid m.program m.arena.top m.frames) (h : m.step = .ok e) :
    e.Laid := by
  unfold step at h
  split at h
  · cases h
  · rename_i f callers hframes
    split at h
    · cases h
    · split at h
      · obtain ⟨n, hleave, h⟩ := bind_eq_ok_iff.mp h
        cases h
        exact laid_leave hm hleave
      · rw [hframes] at hm
        exact (laid_execute hm (samePlace_with f _ _) _ _ _).ok h

/-! ## After an operation -/

theorem laid_closeOperation {d : Dispatch} (hm : Laid m.program d.scratch m.frames)
    (htop : d.scratch ≤ m.arena.top) (h : m.closeOperation d = .ok n) :
    Laid n.program d.scratch n.frames ∧ d.scratch ≤ n.arena.top := by
  unfold closeOperation at h
  split at h
  · split at h
    · cases h
    · rename_i f callers hframes
      cases h
      rw [hframes] at hm
      exact ⟨hm.samePlace (samePlace_with f _ _), htop⟩
  · obtain ⟨arena, hreset, h⟩ := bind_eq_ok_iff.mp h
    cases h
    -- the stack sinks to the scratch position, and not below it
    obtain ⟨_, rfl⟩ := Arena.resetStack_eq_ok (ofArena_eq_ok_iff.mp hreset)
    exact ⟨hm, Nat.le_refl _⟩

/-- The innermost frame gives up its operations, so the stack may sink to where the first of them
was opened. -/
theorem laid_redirect {position scratch : Nat} (hm : Laid m.program scratch m.frames)
    (h : m.redirect position scratch = .ok n) : Laid n.program n.arena.top n.frames := by
  unfold redirect at h
  split at h
  · cases h
  · rename_i f callers hframes
    obtain ⟨arena, hreset, h⟩ := bind_eq_ok_iff.mp h
    cases h
    obtain ⟨_, rfl⟩ := Arena.resetStack_eq_ok (ofArena_eq_ok_iff.mp hreset)
    rw [hframes] at hm
    obtain ⟨p, hp, _, hdescends⟩ := hm.1
    refine hm.cons_of_descends (f.sameCall_with _ _ _) hp ?_
    -- no operation is open any more, so only the locals have to lie below the top
    have hbase := hdescends.base_le
    rw [Frame.scratches, List.getLast?_map] at hbase
    dsimp only
    cases hlast : f.pending.getLast? with
    | none =>
      rw [hlast] at hbase
      exact hbase
    | some outermost =>
      rw [hlast] at hbase
      exact hbase

/-- **The answer to an operation.** -/
theorem laid_complete {d : Dispatch} {control : Control} (hm : Laid m.program d.scratch m.frames)
    (htop : d.scratch ≤ m.arena.top) (h : m.complete d control = .ok n) :
    Laid n.program n.arena.top n.frames := by
  obtain ⟨k, hclose, h⟩ := bind_eq_ok_iff.mp h
  obtain ⟨hk, hktop⟩ := laid_closeOperation hm htop hclose
  cases control with
  | proceed =>
    cases h
    exact hk.mono hktop
  | goTo position => exact laid_redirect hk h
  | leave => exact laid_leave hk h

/-! ## The borders ascend -/

theorem pairwise_append_cons {xs ys : List Nat} {x : Nat} (hxs : (xs ++ [x]).Pairwise (· ≤ ·))
    (hys : (x :: ys).Pairwise (· ≤ ·)) : (xs ++ x :: ys).Pairwise (· ≤ ·) := by
  rw [List.pairwise_append] at hxs ⊢
  refine ⟨hxs.1, hys, ?_⟩
  intro a ha b hb
  have hax : a ≤ x := hxs.2.2 a ha x List.mem_cons_self
  rcases List.mem_cons.mp hb with rfl | hb
  · exact hax
  · exact Nat.le_trans hax ((List.pairwise_cons.mp hys).1 b hb)

theorem Descends.ascending (h : Descends base top scratches) :
    (base :: scratches.reverse ++ [top]).Pairwise (· ≤ ·) := by
  induction scratches generalizing top with
  | nil =>
    have hle : base ≤ top := h
    simpa using hle
  | cons scratch outer ih =>
    have houter := ih h.2
    have hlast : [scratch, top].Pairwise (· ≤ ·) := by simpa using h.1
    rw [List.reverse_cons, ← List.cons_append, List.append_assoc]
    exact pairwise_append_cons houter hlast

theorem ascending_frame {p : Procedure} (hfits : f.Fits p)
    (h : Descends (f.localsBase + p.localsSize) top f.scratches) :
    (f.marks p ++ [top]).Pairwise (· ≤ ·) := by
  have hlocals := hfits.locals
  have hlow : ([f.paramsBase, f.paramsBase + p.paramsSize, f.localsBase] ++
      [f.localsBase + p.localsSize]).Pairwise (· ≤ ·) := by
    simp
    omega
  have hall := pairwise_append_cons hlow h.ascending
  exact hall

theorem Laid.ascending (h : Laid program top frames) :
    (marksOf program frames ++ [top]).Pairwise (· ≤ ·) := by
  induction frames generalizing top with
  | nil => exact List.pairwise_singleton ..
  | cons f callers ih =>
    obtain ⟨⟨p, hp, hfits, hdescends⟩, hcallers⟩ := h
    have hmarks : marksOf program (f :: callers) = marksOf program callers ++ f.marks p := by
      simp [marksOf, List.flatMap_append, hp]
    rw [hmarks, List.append_assoc]
    exact pairwise_append_cons (ih hcallers) (ascending_frame hfits hdescends)

theorem Laid.fits (h : Laid program top frames) :
    ∀ f ∈ frames, ∃ p, program.procedures[f.procedure]? = some p ∧ f.Fits p := by
  induction frames generalizing top with
  | nil =>
    intro f hf
    cases hf
  | cons g callers ih =>
    intro f hf
    rcases List.mem_cons.mp hf with rfl | hf
    · obtain ⟨p, hp, hfits, _⟩ := h.1
      exact ⟨p, hp, hfits⟩
    · exact ih h.2 f hf

theorem Laid.ascends (hm : Laid m.program top m.frames) : m.Ascends top :=
  ⟨hm.fits, hm.ascending⟩

theorem Ascends.le_top (hm : m.Ascends top) : ∀ mark ∈ m.marks, mark ≤ top :=
  fun mark hmark => (List.pairwise_append.mp hm.ascending).2.2 mark hmark top List.mem_cons_self

end Machine

end Hostcall
