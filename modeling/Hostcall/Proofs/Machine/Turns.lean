import Hostcall.Proofs.Machine.Calls
import Hostcall.Proofs.Machine.Setup

/-!
# What one change of a machine does to its frames

Whatever a machine executes, only the innermost frame is touched: it goes on, a frame is put above
it, or it returns. `Turn` says this once, and `turn_step`, `turn_complete` and `turn_leave` show it
for the ways in which a machine changes.

A call is `InProgress` as long as its frame is on the stack. What it was laid out with and all that
lies below it stay the same until then (`Turn.inProgress`), and the change that takes its frame off
the stack is its own return (`Turn.returns`).
-/

namespace Hostcall

open Attempt

/-- The two frames are of the same call, at two times of it. -/
structure Frame.SameCall (f g : Frame) : Prop where
  procedure : g.procedure = f.procedure
  paramsBase : g.paramsBase = f.paramsBase
  result : g.result = f.result
  localsBase : g.localsBase = f.localsBase

theorem Frame.sameCall_with (f : Frame) (position : Nat) (addresses : List Nat)
    (pending : List Pending) : f.SameCall { f with position, addresses, pending } :=
  ⟨rfl, rfl, rfl, rfl⟩

theorem Frame.SameCall.refl (f : Frame) : f.SameCall f := ⟨rfl, rfl, rfl, rfl⟩

theorem Frame.SameCall.trans {f g h : Frame} (h₁ : f.SameCall g) (h₂ : g.SameCall h) :
    f.SameCall h :=
  ⟨h₂.procedure.trans h₁.procedure, h₂.paramsBase.trans h₁.paramsBase,
    h₂.result.trans h₁.result, h₂.localsBase.trans h₁.localsBase⟩

namespace Machine

/-- The same calls are in progress, and only the innermost one may have gone on. -/
inductive SameCalls : List Frame → List Frame → Prop where
  | nil : SameCalls [] []
  | cons {f g : Frame} {callers : List Frame} (same : f.SameCall g) :
      SameCalls (f :: callers) (g :: callers)

theorem SameCalls.refl (frames : List Frame) : SameCalls frames frames := by
  cases frames with
  | nil => exact .nil
  | cons f callers => exact .cons (.refl f)

theorem SameCalls.trans {fs gs hs : List Frame} (h₁ : SameCalls fs gs) (h₂ : SameCalls gs hs) :
    SameCalls fs hs := by
  cases h₁ with
  | nil => exact h₂
  | cons same₁ =>
    cases h₂ with
    | cons same₂ => exact .cons (same₁.trans same₂)

theorem SameCalls.length_eq {fs gs : List Frame} (h : SameCalls fs gs) :
    gs.length = fs.length := by
  cases h with
  | nil => rfl
  | cons _ => rfl

theorem sameCalls_handBack (result : Option Nat) (frames : List Frame) :
    SameCalls frames (handBack result frames) := by
  cases frames with
  | nil => exact .nil
  | cons f callers =>
    cases result with
    | none => exact .refl _
    | some address => exact .cons (f.sameCall_with _ _ _)

/-- What can become of the frames of `m`. A return starts from a machine `k` that differs from `m`
only in how far the innermost call has gone and in where the stack ends. -/
inductive Turn (m n : Machine) : Prop where
  | stay (same : SameCalls m.frames n.frames)
  | call {inner : Frame} {outer : List Frame} (same : SameCalls m.frames outer)
      (frames : n.frames = inner :: outer)
  | back {k : Machine} (same : SameCalls m.frames k.frames) (program : k.program = m.program)
      (bytes : k.arena.bytes = m.arena.bytes) (leave : k.leave = .ok n)

variable {m n : Machine} {f : Frame} {callers : List Frame}

theorem turn_leave (h : m.leave = .ok n) : Turn m n := .back (.refl _) rfl rfl h

/-! ## Instructions -/

theorem meets_sameCall_pop {g : Frame} (h : f.SameCall g) (position : Nat) :
    Meets (fun r => f.SameCall r.2) (fun _ => True) (g.pop position) := by
  unfold Frame.pop
  split
  · exact meets_error trivial
  · exact meets_ok (h.trans (g.sameCall_with _ _ _))

theorem meets_sameCall_popMany {g : Frame} (h : f.SameCall g) (count position : Nat) :
    Meets (fun r => f.SameCall r.2) (fun _ => True) (g.popMany count position) := by
  unfold Frame.popMany
  split
  · exact meets_ok (h.trans (g.sameCall_with _ _ _))
  · exact meets_error trivial

theorem meets_sameCall_amend {g : Frame} (h : f.SameCall g) (position : Nat)
    (change : Pending → Pending) :
    Meets f.SameCall (fun _ => True) (amend g position change) := by
  unfold amend
  split
  · exact meets_error trivial
  · exact meets_ok (h.trans (g.sameCall_with _ _ _))

theorem meets_sameCall_jump {g : Frame} (h : f.SameCall g) (p : Procedure) (target : Nat) :
    Meets f.SameCall (fun _ => True) (jump p g target) := by
  unfold jump
  split
  · exact meets_ok (h.trans (g.sameCall_with _ _ _))
  · exact meets_error trivial

/-- The innermost frame goes on; the arena may be another one. -/
theorem turn_stay (hm : m.frames = f :: callers) {g : Frame} (h : f.SameCall g)
    {n : Machine} (hn : n.frames = g :: callers) : Turn m n := by
  refine .stay ?_
  rw [hm, hn]
  exact .cons h

theorem turn_push (hm : m.frames = f :: callers) {g : Frame} (h : f.SameCall g) (address : Nat)
    {n : Machine} (hn : n.frames = g.push address :: callers) : Turn m n :=
  turn_stay hm (h.trans (g.sameCall_with _ _ _)) hn

theorem turn_dispatch (hm : m.frames = f :: callers) {g : Frame} (h : f.SameCall g)
    (position op result : Nat) :
    Meets (fun e => Turn m e.machine) (fun _ => True) (m.dispatch g callers position op result) := by
  unfold dispatch
  split
  · exact meets_error trivial
  · split
    · exact meets_error trivial
    · exact meets_bind (meets_any _) fun _ _ =>
        meets_pure (turn_stay hm (h.trans (g.sameCall_with _ _ _)) rfl)

theorem turn_enter {k : Machine} (h : SameCalls m.frames k.frames) (index : Nat)
    (arguments : List Nat) : Meets (Turn m) (fun _ => True) (k.enter index arguments) := by
  unfold enter
  split
  · exact meets_error trivial
  · exact meets_bind (meets_any _) fun _ _ => meets_pure (.call h rfl)

/-- **One instruction.** -/
theorem turn_execute (hm : m.frames = f :: callers) {g : Frame} (h : f.SameCall g) (p : Procedure)
    (position : Nat) (i : Instruction) :
    Meets (fun e => Turn m e.machine) (fun _ => True) (m.execute p g callers position i) := by
  cases i with
  | dataAddress | resultAddress | localsAddress | globalsAddress =>
    unfold execute
    dsimp only
    split
    · exact meets_error trivial
    · exact meets_ok (turn_push hm h _ rfl)
  | paramsAddress => exact meets_ok (turn_push hm h _ rfl)
  | offset | reference | dereference =>
    exact meets_bind (meets_sameCall_pop h _) fun _ hg => meets_bind (meets_any _) fun _ _ =>
      meets_pure (turn_push hm hg _ rfl)
  | tuple =>
    exact meets_bind (meets_sameCall_popMany h _ _) fun _ hg => meets_bind (meets_any _) fun _ _ =>
      meets_pure (turn_push hm hg _ rfl)
  | copy =>
    exact meets_bind (meets_sameCall_pop h _) fun _ hg =>
      meets_bind (meets_sameCall_pop hg _) fun _ hg' => meets_bind (meets_any _) fun _ _ =>
        meets_pure (turn_stay hm hg' rfl)
  | opBegin => exact meets_ok (turn_stay hm (h.trans (g.sameCall_with _ _ _)) rfl)
  | param | target =>
    exact meets_bind (meets_sameCall_pop h _) fun _ hg =>
      meets_bind (meets_sameCall_amend hg _ _) fun _ hg' => meets_pure (turn_stay hm hg' rfl)
  | opEnd => exact turn_dispatch hm h position _ _
  | call index =>
    unfold execute
    dsimp only
    split
    · exact meets_error trivial
    · split
      · exact meets_error trivial
      · refine meets_bind (meets_sameCall_popMany h _ _) fun r hg => ?_
        have hcaller : SameCalls m.frames (r.2 :: callers) := by
          rw [hm]
          exact .cons hg
        exact meets_bind (turn_enter (k := { m with frames := r.2 :: callers }) hcaller _ _)
          fun _ hn => meets_pure hn
  | jump =>
    exact meets_bind (meets_sameCall_jump h p _) fun _ hg => meets_pure (turn_stay hm hg rfl)
  | branchIf =>
    refine meets_bind (meets_sameCall_pop h _) fun _ hg => meets_bind (meets_any _) fun _ _ => ?_
    dsimp only
    split
    · exact meets_pure (turn_stay hm hg rfl)
    · exact meets_bind (meets_sameCall_jump hg p _) fun _ hg' => meets_pure (turn_stay hm hg' rfl)
  | ret =>
    have hsame : SameCalls m.frames (g :: callers) := by
      rw [hm]
      exact .cons h
    refine meets_of ?_ fun _ _ => trivial
    intro e he
    obtain ⟨n, hleave, he⟩ := bind_eq_ok_iff.mp he
    cases he
    exact .back (k := { m with frames := g :: callers }) hsame rfl rfl hleave

/-- **One step.** -/
theorem turn_step {e : Effect} (h : m.step = .ok e) : Turn m e.machine := by
  unfold step at h
  split at h
  · cases h
  · rename_i f callers hm
    split at h
    · cases h
    · split at h
      · obtain ⟨n, hleave, h⟩ := bind_eq_ok_iff.mp h
        cases h
        exact turn_leave hleave
      · exact (turn_execute hm (f.sameCall_with _ _ _) _ _ _).ok h

/-! ## After an operation -/

theorem closeOperation_eq_ok {d : Dispatch} (h : m.closeOperation d = .ok n) :
    SameCalls m.frames n.frames ∧ n.program = m.program ∧ n.arena.bytes = m.arena.bytes := by
  unfold closeOperation at h
  split at h
  · split at h
    · cases h
    · rename_i f callers hm
      cases h
      rw [hm]
      exact ⟨.cons (f.sameCall_with _ _ _), rfl, rfl⟩
  · obtain ⟨arena, hreset, h⟩ := bind_eq_ok_iff.mp h
    cases h
    obtain ⟨_, rfl⟩ := Arena.resetStack_eq_ok (ofArena_eq_ok_iff.mp hreset)
    exact ⟨.refl _, rfl, rfl⟩

theorem sameCalls_redirect {position scratch : Nat} (h : m.redirect position scratch = .ok n) :
    SameCalls m.frames n.frames := by
  unfold redirect at h
  split at h
  · cases h
  · rename_i f callers hm
    obtain ⟨arena, _, h⟩ := bind_eq_ok_iff.mp h
    cases h
    rw [hm]
    exact .cons (f.sameCall_with _ _ _)

/-- **The answer to an operation.** -/
theorem turn_complete {d : Dispatch} {control : Control} (h : m.complete d control = .ok n) :
    Turn m n := by
  obtain ⟨k, hclose, h⟩ := bind_eq_ok_iff.mp h
  obtain ⟨hsame, hprogram, hbytes⟩ := closeOperation_eq_ok hclose
  cases control with
  | proceed =>
    cases h
    exact .stay hsame
  | goTo position => exact .stay (hsame.trans (sameCalls_redirect h))
  | leave => exact .back hsame hprogram hbytes h

/-! ## Calls in progress -/

/-- The call that began with the frame `f` above `callers` has a frame on the stack, and below it
nothing has changed. -/
def InProgress (f : Frame) (callers frames : List Frame) : Prop :=
  ∃ inner g, frames = inner ++ g :: callers ∧ f.SameCall g

theorem InProgress.length_lt {frames : List Frame} (h : InProgress f callers frames) :
    callers.length < frames.length := by
  obtain ⟨inner, g, rfl, _⟩ := h
  simp only [List.length_append, List.length_cons]
  omega

theorem InProgress.cons {frames : List Frame} (h : InProgress f callers frames) (x : Frame) :
    InProgress f callers (x :: frames) := by
  obtain ⟨inner, g, rfl, hg⟩ := h
  exact ⟨x :: inner, g, rfl, hg⟩

/-- The innermost frame is that of the call, or it is one that the call waits for. -/
theorem inProgress_cons_iff {x : Frame} {frames : List Frame} :
    InProgress f callers (x :: frames) ↔
      (frames = callers ∧ f.SameCall x) ∨ InProgress f callers frames := by
  constructor
  · rintro ⟨inner, g, heq, hg⟩
    cases inner with
    | nil =>
      cases heq
      exact .inl ⟨rfl, hg⟩
    | cons y inner =>
      cases heq
      exact .inr ⟨inner, g, rfl, hg⟩
  · rintro (⟨rfl, hx⟩ | h)
    · exact ⟨[], x, rfl, hx⟩
    · exact h.cons x

theorem InProgress.sameCalls {fs gs : List Frame} (h : InProgress f callers fs)
    (hsame : SameCalls fs gs) : InProgress f callers gs := by
  cases hsame with
  | nil => exact h
  | cons same =>
    rcases inProgress_cons_iff.mp h with ⟨rfl, hf⟩ | h
    · exact inProgress_cons_iff.mpr (.inl ⟨rfl, hf.trans same⟩)
    · exact h.cons _

/-- A return is that of the call in question, or the call is still in progress after it. -/
theorem InProgress.leave (h : InProgress f callers m.frames) (hleave : m.leave = .ok n) :
    (∃ g, m.frames = g :: callers ∧ f.SameCall g ∧ n.frames.length = callers.length) ∨
      InProgress f callers n.frames := by
  cases hm : m.frames with
  | nil =>
    rw [hm] at h
    exact absurd h.length_lt (Nat.not_lt_zero _)
  | cons g rest =>
    rw [hm] at h
    obtain ⟨hframes, _, _⟩ := leave_eq_ok hm hleave
    have hhand := sameCalls_handBack (g.result.map fun _ => g.paramsBase) rest
    rw [← hframes] at hhand
    rcases inProgress_cons_iff.mp h with ⟨rfl, hg⟩ | h
    · exact .inl ⟨g, rfl, hg, hhand.length_eq⟩
    · exact .inr (h.sameCalls hhand)

/-- **A call stays in progress** as long as the stack does not get lower than its frame. -/
theorem Turn.inProgress (h : Turn m n) (hm : InProgress f callers m.frames)
    (hdeep : callers.length < n.frames.length) : InProgress f callers n.frames := by
  cases h with
  | stay same => exact hm.sameCalls same
  | call same frames =>
    rw [frames]
    exact (hm.sameCalls same).cons _
  | back same program bytes leave =>
    rcases (hm.sameCalls same).leave leave with ⟨g, _, _, hlength⟩ | h
    · omega
    · exact h

/-- **A call ends with its own return**: no other change takes its frame off the stack. -/
theorem Turn.returns (h : Turn m n) (hm : InProgress f callers m.frames)
    (hlow : n.frames.length ≤ callers.length) :
    ∃ (k : Machine) (g : Frame), k.frames = g :: callers ∧ f.SameCall g ∧ k.program = m.program ∧
      k.arena.bytes = m.arena.bytes ∧ k.leave = .ok n := by
  cases h with
  | stay same => exact absurd (hm.sameCalls same).length_lt (by omega)
  | call same frames =>
    have hn : InProgress f callers n.frames := by
      rw [frames]
      exact (hm.sameCalls same).cons _
    exact absurd hn.length_lt (by omega)
  | @back k same program bytes leave =>
    rcases (hm.sameCalls same).leave leave with ⟨g, hk, hg, _⟩ | hn
    · exact ⟨k, g, hk, hg, program, bytes, leave⟩
    · exact absurd hn.length_lt (by omega)

end Machine

end Hostcall
