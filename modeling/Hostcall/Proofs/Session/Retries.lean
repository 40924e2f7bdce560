import Hostcall.Proofs.Machine.Bounds
import Hostcall.Proofs.Session.Bracketing

/-!
# Going back to try again

A host may answer an operation by sending its frame back to a position that the frame has been at
before, as often as it likes. What the frame has put on the stack meanwhile is then given up, for
the stack goes back to where the outermost of the frame's open operations was opened. So it ends
where it ended at first, unless the frame has put something on it with no operation open.

* `Tries`: a move of a frame that does not do that, or of what it has called.
* `Anchored`, `Steady`: what the frames and the operation that is being handled show of where the
  stack will end. A frame either has an operation open and knows it from there, or waits for a call
  and the frame of that call knows it, or the stack ends there now.
* `Steady.tries`: one move keeps this, and `retries_keep_the_stack` draws the conclusion for any
  number of retries.
-/

namespace Hostcall.Machine

open Attempt

variable {m n : Machine} {f g : Frame} {callers rest : List Frame} {top : Nat}

/-! ## Moves of an attempt -/

/-- The instruction puts nothing on the stack that is there when its frame goes on. -/
def Modest (program : Program) : Instruction → Prop
  | .tuple _ | .reference => False
  | .call index => ∀ callee, program.procedures[index.toNat]? = some callee → callee.result = none
  | _ => True

/-- A move while the frame above `callers` tries something. The frame is modest as long as no
operation of it is open, and it does not go on with the result of an operation that was the only one
open. The host leaves the stack alone unless it handles an operation. -/
inductive Tries (callers : List Frame) : Machine × Stage → Machine × Stage → Prop where
  | ended {m n : Machine} {f : Frame} {rest : List Frame} (frames : m.frames = f :: rest)
      (ended : m.codeSize f ≤ f.position) (leave : m.leave = .ok n) :
      Tries callers (m, .resting) (n, .resting)
  | next {m n : Machine} (step : m.step = .ok (.next n))
      (modest : ∀ f p i, m.At f callers p i → f.pending = [] → Modest m.program i) :
      Tries callers (m, .resting) (n, .resting)
  | dispatch {m n : Machine} {d : Dispatch} (step : m.step = .ok (.dispatch n d)) :
      Tries callers (m, .resting) (n, .handling d .proceed)
  | inspect (m : Machine) (action : Arena.Action)
      (top : (m.arena.perform action).2.top = m.arena.top) :
      Tries callers (m, .resting) ({ m with arena := (m.arena.perform action).2 }, .resting)
  | handle (m : Machine) (d : Dispatch) (control : Control) (action : Arena.Action) :
      Tries callers (m, .handling d control)
        ({ m with arena := (m.arena.perform action).2 }, .handling d control)
  | request (m : Machine) (d : Dispatch) (control wanted : Control) :
      Tries callers (m, .handling d control) (m, .handling d wanted)
  | complete {m n : Machine} {d : Dispatch} {control : Control}
      (complete : m.complete d control = .ok n)
      (given_up : ∀ f, m.frames = f :: callers → f.pending = [] → d.slot.isSome = true →
        control ≠ .proceed) :
      Tries callers (m, .handling d control) (n, .resting)

theorem Tries.move {s t : Machine × Stage} (h : Tries callers s t) : Move s t := by
  cases h with
  | ended frames ended leave => exact .ended frames ended leave
  | next step => exact .next step
  | dispatch step => exact .dispatch step
  | inspect m action => exact .perform m _ action
  | handle m d control action => exact .perform m _ action
  | request m d control wanted => exact .request m d control wanted
  | complete complete => exact .complete complete

/-- Any number of moves, none of which takes the frame above `callers` off the stack. -/
def Trial (callers : List Frame) : Machine × Stage → Machine × Stage → Prop :=
  Relation.ReflTransGen fun s t => Tries callers s t ∧ callers.length < t.1.frames.length

/-- A trial that ends with an operation of the frame itself, and the host sends it to a position. -/
def Retry (callers : List Frame) (position : Nat) (m n : Machine) : Prop :=
  ∃ k d g, Trial callers (m, .resting) (k, .handling d (.goTo position)) ∧
    k.frames = g :: callers ∧ k.complete d (.goTo position) = .ok n

/-! ## Where the stack will end -/

/-- The frames show that the stack will end at `top` when the frame of the call `f` above `callers`
goes on with no operation open. -/
inductive Anchored (f : Frame) (callers : List Frame) (top : Nat) : List Frame → Prop where
  /-- The outermost of the operations that it has open was opened there. -/
  | opened {g : Frame} (call : f.SameCall g) (outermost : g.scratches.getLast? = some top) :
      Anchored f callers top (g :: callers)
  /-- It waits for a call that was made from there and that has no result. -/
  | called {g inner : Frame} (call : f.SameCall g) (pending : g.pending = [])
      (base : inner.paramsBase = top) (result : inner.result = none) :
      Anchored f callers top (inner :: g :: callers)
  | above {inner : Frame} {frames : List Frame} (below : Anchored f callers top frames) :
      Anchored f callers top (inner :: frames)

/-- The stack will end at `top`, or it does now, or the operation that is being handled was opened
there. -/
inductive Steady (f : Frame) (callers : List Frame) (top : Nat) : Machine × Stage → Prop where
  | anchored {m : Machine} {stage : Stage} (frames : Anchored f callers top m.frames) :
      Steady f callers top (m, stage)
  | resting {m : Machine} {g : Frame} (frames : m.frames = g :: callers) (call : f.SameCall g)
      (pending : g.pending = []) (ends : m.arena.top = top) : Steady f callers top (m, .resting)
  | handling {m : Machine} {g : Frame} {d : Dispatch} {control : Control}
      (frames : m.frames = g :: callers) (call : f.SameCall g) (pending : g.pending = [])
      (scratch : d.scratch = top) : Steady f callers top (m, .handling d control)

theorem scratches_eq_nil_iff : g.scratches = [] ↔ g.pending = [] := List.map_eq_nil_iff

theorem Anchored.exists_cons {frames : List Frame} (h : Anchored f callers top frames) :
    ∃ x rest, frames = x :: rest := by
  cases h with
  | opened | called | above => exact ⟨_, _, rfl⟩

/-- The innermost frame goes on. -/
theorem Anchored.replace {x y : Frame} (h : Anchored f callers top (x :: rest))
    (hsame : x.SameCall y)
    (hlast : x.scratches.getLast? = some top → y.scratches.getLast? = some top) :
    Anchored f callers top (y :: rest) := by
  cases h with
  | opened call outermost => exact .opened (call.trans hsame) (hlast outermost)
  | called call pending base result =>
    exact .called call pending (hsame.paramsBase.trans base) (hsame.result.trans result)
  | above below => exact .above below

theorem Anchored.samePlace {x y : Frame} (h : Anchored f callers top (x :: rest))
    (hsame : SamePlace x y) : Anchored f callers top (y :: rest) := by
  apply h.replace hsame.call
  rw [hsame.scratches]
  exact id

theorem Anchored.handBack {frames : List Frame} (h : Anchored f callers top frames)
    (result : Option Nat) : Anchored f callers top (handBack result frames) := by
  cases frames with
  | nil => exact h
  | cons x frames =>
    cases result with
    | none => exact h
    | some address => exact h.samePlace (samePlace_with x _ _)

/-! ## Returns -/

/-- **A return** of a frame above the one in question. -/
theorem Anchored.leave (h : Anchored f callers top m.frames) (hleave : m.leave = .ok n)
    (hdeep : callers.length < n.frames.length) : Steady f callers top (n, .resting) := by
  have hlength := length_frames_leave hleave
  obtain ⟨x, rest, hm⟩ := h.exists_cons
  rw [hm] at h hlength
  obtain ⟨hframes, htop, -⟩ := leave_eq_ok hm hleave
  cases h with
  | opened call outermost =>
    rw [List.length_cons] at hlength
    omega
  | called call pending base result =>
    rw [result] at hframes htop
    exact .resting hframes call pending (htop.trans base)
  | above below =>
    apply Steady.anchored
    rw [hframes]
    exact below.handBack _

/-- The frame in question does not return. -/
theorem not_leave (hframes : m.frames = g :: callers) (hdeep : callers.length < n.frames.length) :
    m.leave ≠ .ok n := by
  intro hleave
  have hlength := length_frames_leave hleave
  rw [hframes, List.length_cons] at hlength
  omega

/-! ## Instructions -/

theorem Anchored.step {e : Effect} (h : Anchored f callers top m.frames) (hstep : m.step = .ok e)
    (hdeep : callers.length < e.machine.frames.length) :
    Steady f callers top (e.machine, e.stage) := by
  obtain ⟨x, rest, hm⟩ := h.exists_cons
  rw [hm] at h
  cases footing_step hm hstep with
  | stays place => exact .anchored (h.samePlace place)
  | opens call scratches =>
    refine .anchored (h.replace call fun houtermost => ?_)
    rw [scratches, List.getLast?_cons, houtermost]
    rfl
  | @hands y arena d call scratches =>
    cases hy : y.scratches with
    | nil =>
      -- the operation is the only one that was open in its frame
      cases h with
      | opened same outermost =>
        rw [scratches, hy] at outermost
        exact .handling rfl (same.trans call) (scratches_eq_nil_iff.mp hy)
          (Option.some.inj outermost)
      | called same pending base result =>
        exact .anchored (.called same pending (call.paramsBase.trans base)
          (call.result.trans result))
      | above below => exact .anchored (.above below)
    | cons scratch outer =>
      refine .anchored (h.replace call fun houtermost => ?_)
      rw [scratches, hy, List.getLast?_cons_cons] at houtermost
      rw [hy]
      exact houtermost
  | calls place => exact .anchored (.above (h.samePlace place))
  | @returns y k place leave =>
    exact (h.samePlace place).leave (m := { m with frames := y :: rest }) leave hdeep

/-- An instruction that reserves nothing and does not return leaves the top where it is, and as many
calls are in progress as before. -/
theorem top_execute {p : Procedure} {position : Nat} {i : Instruction} (hi : allocates i = false)
    (hret : i ≠ .ret) :
    Meets (fun e => e.machine.arena.top = m.arena.top ∧
      e.machine.frames.length = callers.length + 1) (fun _ => True)
      (m.execute p f callers position i) := by
  cases i with
  | dataAddress | resultAddress | localsAddress | globalsAddress =>
    unfold execute
    dsimp only
    split
    · exact meets_error trivial
    · exact meets_ok ⟨rfl, rfl⟩
  | paramsAddress | opBegin => exact meets_ok ⟨rfl, rfl⟩
  | offset | dereference | param | target =>
    exact meets_bind (meets_any _) fun _ _ => meets_bind (meets_any _) fun _ _ =>
      meets_pure ⟨rfl, rfl⟩
  | copy =>
    refine meets_bind (meets_any _) fun _ _ => meets_bind (meets_any _) fun _ _ =>
      meets_of ?_ fun _ _ => trivial
    intro e h
    obtain ⟨arena, hcopy, h⟩ := bind_eq_ok_iff.mp h
    cases h
    obtain ⟨_, _, rfl⟩ := Arena.copy_eq_ok (ofArena_eq_ok_iff.mp hcopy)
    exact ⟨rfl, rfl⟩
  | jump => exact meets_bind (meets_any _) fun _ _ => meets_pure ⟨rfl, rfl⟩
  | branchIf =>
    refine meets_bind (meets_any _) fun _ _ => meets_bind (meets_any _) fun _ _ => ?_
    dsimp only
    split
    · exact meets_pure ⟨rfl, rfl⟩
    · exact meets_bind (meets_any _) fun _ _ => meets_pure ⟨rfl, rfl⟩
  | reference | tuple | call | opEnd => cases hi
  | ret => exact absurd rfl hret

/-- A frame that has executed something was at an instruction, or it has returned. -/
theorem exists_at_of_step {e : Effect} (hframes : m.frames = g :: callers)
    (h : m.step = .ok e) : (∃ p i, m.At g callers p i) ∨ ∃ n, m.leave = .ok n ∧ e = .next n := by
  unfold step at h
  rw [hframes] at h
  dsimp only at h
  split at h
  · cases h
  · rename_i p hprocedure
    split at h
    · obtain ⟨n, hleave, h⟩ := bind_eq_ok_iff.mp h
      cases h
      exact .inr ⟨n, hleave, rfl⟩
    · rename_i i hi
      exact .inl ⟨p, i, hframes, hprocedure, hi⟩

theorem At.plain_steady {p : Procedure} {i : Instruction} (hat : m.At g callers p i)
    (hi : allocates i = false) (hret : i ≠ .ret) (hcall : f.SameCall g) (hpending : g.pending = [])
    (hends : m.arena.top = top) (hstep : m.step = .ok (.next n)) :
    Steady f callers top (n, .resting) := by
  have hfooting := footing_step hat.frames hstep
  rw [hat.step_eq] at hstep
  obtain ⟨htop, hlength⟩ := (top_execute hi hret).ok hstep
  have hnone : g.scratches = [] := scratches_eq_nil_iff.mpr hpending
  cases hfooting with
  | stays place =>
    refine .resting rfl (hcall.trans place.call) ?_ (htop.trans hends)
    rw [← scratches_eq_nil_iff, place.scratches]
    exact hnone
  | opens call scratches =>
    refine .anchored (.opened (hcall.trans call) ?_)
    rw [scratches, hnone, hends]
    rfl
  | calls =>
    simp only [Effect.machine, List.length_cons] at hlength
    omega
  | returns place leave =>
    have hshorter := length_frames_leave leave
    simp only [Effect.machine, List.length_cons] at hlength hshorter
    omega

/-- **A modest instruction** of the frame itself, with no operation open. -/
theorem steady_next (hframes : m.frames = g :: callers) (hcall : f.SameCall g)
    (hpending : g.pending = []) (hends : m.arena.top = top) (hstep : m.step = .ok (.next n))
    (hmodest : ∀ f p i, m.At f callers p i → f.pending = [] → Modest m.program i)
    (hdeep : callers.length < n.frames.length) : Steady f callers top (n, .resting) := by
  rcases exists_at_of_step hframes hstep with ⟨p, i, hat⟩ | ⟨k, hleave, heq⟩
  · have hi := hmodest g p i hat hpending
    cases i with
    | tuple | reference => exact hi.elim
    | call index =>
      obtain ⟨callee, inner, hcallee, -, hnframes, -, hbase, hresult⟩ := hat.call_eq_ok hstep
      rw [hi callee hcallee] at hresult
      apply Steady.anchored
      rw [hnframes]
      exact .called (hcall.trans (g.sameCall_with _ _ _)) hpending (hbase.trans hends) hresult
    | opEnd op result =>
      rw [hat.step_eq] at hstep
      change m.dispatch _ callers g.position op.toNat result.toNat = _ at hstep
      unfold dispatch at hstep
      simp only [hpending] at hstep
      cases hstep
    | ret =>
      rw [hat.step_eq] at hstep
      obtain ⟨k, hleave, heq⟩ := bind_eq_ok_iff.mp hstep
      cases heq
      exact absurd hleave (not_leave rfl hdeep)
    | _ => exact hat.plain_steady rfl nofun hcall hpending hends hstep
  · cases heq
    exact absurd hleave (not_leave hframes hdeep)

/-! ## Answers -/

/-- What comes of closing an operation. -/
theorem closeOperation_cases {d : Dispatch} (hframes : m.frames = g :: rest)
    (h : m.closeOperation d = .ok n) :
    ∃ y, n.frames = y :: rest ∧ SamePlace g y ∧ (d.slot = none → n.arena.top = d.scratch) := by
  unfold closeOperation at h
  split at h
  · rename_i slot hslot
    rw [hframes] at h
    cases h
    exact ⟨_, rfl, samePlace_with g _ _, fun hnone => by rw [hslot] at hnone; cases hnone⟩
  · obtain ⟨arena, hreset, h⟩ := bind_eq_ok_iff.mp h
    cases h
    obtain ⟨_, rfl⟩ := Arena.resetStack_eq_ok (ofArena_eq_ok_iff.mp hreset)
    exact ⟨g, hframes, samePlace_with g _ _, fun _ => rfl⟩

/-- The stack goes back to the outermost of the open operations or else to the one that is being
handled, and the frame has nothing in hand. -/
theorem eq_of_redirect {position scratch : Nat} (hframes : m.frames = g :: rest)
    (h : m.redirect position scratch = .ok n) :
    n = { m with
      arena := { m.arena with top := g.scratches.getLast?.getD scratch }
      frames := { g with position, addresses := [], pending := [] } :: rest } := by
  unfold redirect at h
  rw [hframes] at h
  obtain ⟨arena, hreset, h⟩ := bind_eq_ok_iff.mp h
  cases h
  have houtermost : m.arena.resetStack (g.scratches.getLast?.getD scratch) = .ok arena := by
    rw [← ofArena_eq_ok_iff.mp hreset, Frame.scratches, List.getLast?_map]
    cases g.pending.getLast? with
    | none => rfl
    | some outermost => rfl
  obtain ⟨_, rfl⟩ := Arena.resetStack_eq_ok houtermost
  rfl

theorem redirect_cases {position scratch : Nat} (hframes : m.frames = g :: rest)
    (h : m.redirect position scratch = .ok n) :
    n.frames = { g with position, addresses := [], pending := [] } :: rest ∧
      n.arena.top = g.scratches.getLast?.getD scratch := by
  rw [eq_of_redirect hframes h]
  exact ⟨rfl, rfl⟩

/-- **The answer to an operation** of a frame above the one in question, or of that frame while an
outer operation of it is open. -/
theorem Anchored.complete {d : Dispatch} {control : Control}
    (h : Anchored f callers top m.frames) (hcomplete : m.complete d control = .ok n)
    (hdeep : callers.length < n.frames.length) : Steady f callers top (n, .resting) := by
  obtain ⟨x, rest, hm⟩ := h.exists_cons
  rw [hm] at h
  obtain ⟨k, hclose, hcontrol⟩ := bind_eq_ok_iff.mp hcomplete
  obtain ⟨y, hk, hplace, -⟩ := closeOperation_cases hm hclose
  have hy := h.samePlace hplace
  cases control with
  | proceed =>
    cases hcontrol
    apply Steady.anchored
    rw [hk]
    exact hy
  | goTo position =>
    obtain ⟨hframes, htop⟩ := redirect_cases hk hcontrol
    cases hy with
    | opened call outermost =>
      rw [outermost] at htop
      exact .resting hframes (call.trans (y.sameCall_with _ _ _)) rfl htop
    | called call pending base result =>
      apply Steady.anchored
      rw [hframes]
      exact .called call pending base result
    | above below =>
      apply Steady.anchored
      rw [hframes]
      exact .above below
  | leave =>
    rw [← hk] at hy
    exact hy.leave hcontrol hdeep

/-- **The answer to an operation** of the frame in question, with no other operation open. -/
theorem steady_complete {d : Dispatch} {control : Control} (hframes : m.frames = g :: callers)
    (hcall : f.SameCall g) (hpending : g.pending = []) (hscratch : d.scratch = top)
    (hgiven : d.slot.isSome = true → control ≠ .proceed)
    (hcomplete : m.complete d control = .ok n) (hdeep : callers.length < n.frames.length) :
    Steady f callers top (n, .resting) := by
  obtain ⟨k, hclose, hcontrol⟩ := bind_eq_ok_iff.mp hcomplete
  obtain ⟨y, hk, hplace, hreset⟩ := closeOperation_cases hframes hclose
  have hnone : y.scratches = [] := by
    rw [hplace.scratches, scratches_eq_nil_iff]
    exact hpending
  cases control with
  | proceed =>
    cases hcontrol
    have hslot : d.slot = none := by
      rw [← Option.not_isSome_iff_eq_none]
      exact fun hsome => hgiven hsome rfl
    exact .resting hk (hcall.trans hplace.call) (scratches_eq_nil_iff.mp hnone)
      ((hreset hslot).trans hscratch)
  | goTo position =>
    obtain ⟨hnframes, htop⟩ := redirect_cases hk hcontrol
    rw [hnone] at htop
    exact .resting hnframes ((hcall.trans hplace.call).trans (y.sameCall_with _ _ _)) rfl
      (htop.trans hscratch)
  | leave => exact absurd hcontrol (not_leave hk hdeep)

/-! ## Trials -/

/-- **One move.** -/
theorem Steady.tries {s t : Machine × Stage} (hs : Steady f callers top s) (h : Tries callers s t)
    (hdeep : callers.length < t.1.frames.length) : Steady f callers top t := by
  cases h with
  | ended frames ended leave =>
    cases hs with
    | anchored hanchored => exact hanchored.leave leave hdeep
    | resting hframes => exact absurd leave (not_leave hframes hdeep)
  | next step modest =>
    cases hs with
    | anchored hanchored => exact hanchored.step step hdeep
    | resting hframes hcall hpending hends =>
      exact steady_next hframes hcall hpending hends step modest hdeep
  | dispatch step =>
    cases hs with
    | anchored hanchored =>
      have hsteady := hanchored.step step hdeep
      exact hsteady
    | resting hframes hcall hpending hends =>
      have hfooting := footing_step hframes step
      cases hfooting with
      | hands call scratches =>
        rw [scratches_eq_nil_iff.mpr hpending] at scratches
        cases scratches
  | inspect m action htop =>
    cases hs with
    | anchored hanchored => exact .anchored hanchored
    | resting hframes hcall hpending hends =>
      exact .resting hframes hcall hpending (htop.trans hends)
  | handle m d control action =>
    cases hs with
    | anchored hanchored => exact .anchored hanchored
    | handling hframes hcall hpending hscratch => exact .handling hframes hcall hpending hscratch
  | request m d control wanted =>
    cases hs with
    | anchored hanchored => exact .anchored hanchored
    | handling hframes hcall hpending hscratch => exact .handling hframes hcall hpending hscratch
  | complete complete given_up =>
    cases hs with
    | anchored hanchored => exact hanchored.complete complete hdeep
    | handling hframes hcall hpending hscratch =>
      exact steady_complete hframes hcall hpending hscratch (given_up _ hframes hpending) complete
        hdeep

/-- **A whole trial.** -/
theorem Trial.steady {s t : Machine × Stage} (h : Trial callers s t)
    (hs : Steady f callers top s) : Steady f callers top t := by
  induction h with
  | refl => exact hs
  | tail _ move ih => exact ih.tries move.1 move.2

theorem Anchored.length_lt {frames : List Frame} (h : Anchored f callers top frames) :
    callers.length < frames.length := by
  induction h with
  | opened => exact Nat.lt_succ_self _
  | called => exact Nat.lt_succ_of_lt (Nat.lt_succ_self _)
  | above _ ih => exact Nat.lt_succ_of_lt ih

/-- With no operation open and no call above it, the frame is where the stack ends as it should. -/
theorem Steady.top_eq (h : Steady f callers top (n, .resting)) (hframes : n.frames = g :: callers)
    (hpending : g.pending = []) : f.SameCall g ∧ n.arena.top = top := by
  cases h with
  | anchored hanchored =>
    rw [hframes] at hanchored
    cases hanchored with
    | opened call outermost =>
      rw [scratches_eq_nil_iff.mpr hpending] at outermost
      cases outermost
    | above below => exact absurd below.length_lt (Nat.lt_irrefl _)
  | resting hown hcall _ hends =>
    cases hframes.symm.trans hown
    exact ⟨hcall, hends⟩

/-! ## Moves that can be made -/

variable {stackSize memorySize : Nat}

theorem frames_ne_nil_of_step {e : Effect} (h : m.step = .ok e) : m.frames ≠ [] := by
  intro hnil
  unfold step at h
  rw [hnil] at h
  cases h

/-- What the frames own stays inside the stack. -/
theorem Move.bounded {s t : Machine × Stage} (h : Move s t)
    (hs : s.1.Bounded stackSize memorySize ∧ s.1.Waits stackSize s.2) :
    t.1.Bounded stackSize memorySize ∧ t.1.Waits stackSize t.2 := by
  obtain ⟨hbounded, hwaits⟩ := hs
  cases h with
  | ended frames _ leave =>
    obtain ⟨n, hn, hnext, _⟩ := hbounded.leave frames
    cases hn.symm.trans leave
    exact ⟨hnext, trivial⟩
  | next step | dispatch step => exact hbounded.step step (frames_ne_nil_of_step step)
  | perform m stage action =>
    refine ⟨⟨Arena.wellFormed_perform hbounded.sound _, hbounded.depth, hbounded.frames⟩, ?_⟩
    cases stage with
    | resting => trivial
    | handling d control => exact hwaits
  | request => exact ⟨hbounded, hwaits⟩
  | complete complete =>
    obtain ⟨n, hn, hnext⟩ := hbounded.complete hwaits.1 hwaits.2 _
    cases hn.symm.trans complete
    exact ⟨hnext, trivial⟩

theorem Trial.bounded {s t : Machine × Stage} (h : Trial callers s t)
    (hs : s.1.Bounded stackSize memorySize ∧ s.1.Waits stackSize s.2) :
    t.1.Bounded stackSize memorySize ∧ t.1.Waits stackSize t.2 := by
  induction h with
  | refl => exact hs
  | tail _ move ih => exact move.1.move.bounded ih

/-! ## Retries -/

theorem reset_eq_of_sameCall (h : f.SameCall g) (position : Nat) :
    { g with position, addresses := [], pending := [] } =
      { f with position, addresses := [], pending := [] } := by
  rw [Frame.mk.injEq]
  exact ⟨h.procedure, rfl, h.paramsBase, h.result, h.localsBase, rfl, rfl⟩

theorem frames_of_goTo {d : Dispatch} {position : Nat} (hframes : m.frames = g :: rest)
    (h : m.complete d (.goTo position) = .ok n) :
    n.frames = { g with position, addresses := [], pending := [] } :: rest := by
  obtain ⟨k, hclose, hredirect⟩ := bind_eq_ok_iff.mp h
  obtain ⟨y, hk, hplace, -⟩ := closeOperation_cases hframes hclose
  rw [← reset_eq_of_sameCall hplace.call]
  exact (redirect_cases hk hredirect).1

/-- The frame of the call `f` is at a position with no operation open, and the stack ends at
`top`. -/
structure BackAt (f : Frame) (callers : List Frame) (position top : Nat) (n : Machine) : Prop where
  frame : ∃ g, n.frames = g :: callers ∧ f.SameCall g ∧ g.position = position ∧ g.pending = []
  ends : n.arena.top = top

/-- **One retry.** -/
theorem BackAt.retry {k : Machine} {d : Dispatch} {position : Nat}
    (hm : BackAt f callers position top m) (hbounded : m.Bounded stackSize memorySize)
    (htrial : Trial callers (m, .resting) (k, .handling d (.goTo position)))
    (hk : k.frames = g :: callers) :
    ∃ n, k.complete d (.goTo position) = .ok n ∧ n.Bounded stackSize memorySize ∧
      n.frames = { g with position, addresses := [], pending := [] } :: callers ∧
      BackAt f callers position top n := by
  obtain ⟨x, hx, hcall, -, hpending⟩ := hm.frame
  obtain ⟨hkbounded, hwaits⟩ := htrial.bounded ⟨hbounded, trivial⟩
  obtain ⟨n, hcomplete, hnbounded⟩ := hkbounded.complete hwaits.1 hwaits.2 (.goTo position)
  have hframes := frames_of_goTo hk hcomplete
  have hsteady := htrial.steady (Steady.resting hx hcall hpending hm.ends)
  have hdeep : callers.length < n.frames.length := by
    rw [hframes]
    exact Nat.lt_succ_self _
  have hafter := hsteady.tries (.complete hcomplete fun _ _ _ _ => nofun) hdeep
  obtain ⟨hsame, hends⟩ := hafter.top_eq hframes rfl
  exact ⟨n, hcomplete, hnbounded, hframes, ⟨_, hframes, hsame, rfl, rfl⟩, hends⟩

/-- **Any number of retries.** After the first of them the frame has no address in hand. -/
theorem BackAt.retries {position : Nat} (hm : BackAt f callers position top m)
    (hbounded : m.Bounded stackSize memorySize)
    (h : Relation.ReflTransGen (Retry callers position) m n) :
    BackAt f callers position top n ∧ n.Bounded stackSize memorySize ∧
      (n = m ∨ ∃ g, n.frames = g :: callers ∧ g.addresses = []) := by
  induction h with
  | refl => exact ⟨hm, hbounded, .inl rfl⟩
  | tail _ retry ih =>
    obtain ⟨hbefore, hbounded, -⟩ := ih
    obtain ⟨k, d, g, htrial, hk, hcomplete⟩ := retry
    obtain ⟨after, hafter, hbounded, hframes, hback⟩ := hbefore.retry hbounded htrial hk
    cases hafter.symm.trans hcomplete
    exact ⟨hback, hbounded, .inr ⟨_, hframes, rfl⟩⟩

/-- **Retries.** Take any machine of any history whose innermost frame is at a position with no
operation open, and let the frame try something until the host answers an operation of it by sending
it back to that position. The frame may open and nest operations, make calls and loop as it likes,
and so may what it calls; only while no operation of it is open, it puts together no tuple, makes no
reference, calls no procedure with a result and does not go on with the result of an operation. The
host may do to the arena what it likes while it handles an operation, and otherwise leaves the stack
alone. Then the answer can be carried out. The frame is back at the position with no operation open
and no address in hand, and the stack ends exactly where it ended at first. So it does after any
number of retries. -/
theorem retries_keep_the_stack {allowed : Machine → Wish → Prop} {position : Nat}
    (hm : m.Reachable allowed .resting) (hframes : m.frames = f :: callers)
    (hposition : f.position = position) (hpending : f.pending = []) :
    ∀ n, Relation.ReflTransGen (Retry callers position) m n →
      (∃ g, n.frames = g :: callers ∧ f.SameCall g ∧ g.position = position ∧ g.pending = [] ∧
        (n = m ∨ g.addresses = [])) ∧
      n.arena.top = m.arena.top ∧
      ∀ k d g, Trial callers (n, .resting) (k, .handling d (.goTo position)) →
        k.frames = g :: callers →
        ∃ after, k.complete d (.goTo position) = .ok after ∧
          after.frames = { g with position, addresses := [], pending := [] } :: callers ∧
          after.arena.top = m.arena.top := by
  intro n hretries
  obtain ⟨stackSize, memorySize, hbounded, -⟩ := hm.bounded
  have hplaced : BackAt f callers position m.arena.top m :=
    ⟨⟨f, hframes, .refl f, hposition, hpending⟩, rfl⟩
  obtain ⟨hback, hbounded, haddresses⟩ := hplaced.retries hbounded hretries
  refine ⟨?_, hback.ends, ?_⟩
  · obtain ⟨g, hg, hcall, hat, hnone⟩ := hback.frame
    refine ⟨g, hg, hcall, hat, hnone, haddresses.imp_right ?_⟩
    rintro ⟨_, hown, hempty⟩
    cases hg.symm.trans hown
    exact hempty
  · intro k d g htrial hk
    obtain ⟨after, hcomplete, -, hafter, hplaced⟩ := hback.retry hbounded htrial hk
    exact ⟨after, hcomplete, hafter, hplaced.ends⟩

theorem At.modest {p : Procedure} {i : Instruction} (hat : m.At g callers p i)
    (hi : Modest m.program i) :
    ∀ f q j, m.At f callers q j → f.pending = [] → Modest m.program j := by
  intro f q j hother _
  cases hat.frames.symm.trans hother.frames
  cases hat.procedure.symm.trans hother.procedure
  cases hat.instruction.symm.trans hother.instruction
  exact hi

/-- A program that calls a procedure and then asks something while it prepares another question. -/
def urging : Program where
  ops := #["ask"]
  procedures := #[
    { name := "main", exported := true, locals := [2], labels := [("again", 0)],
      code := #[.call 1, .opBegin, .opBegin, .opEnd 0 4] },
    { name := "note", locals := [3] }]

/-- The context at the label, with the frame of `main`. -/
def urgingFrame : Frame := ⟨0, 0, 0, none, 0, [], []⟩

def urgingBefore : Machine where
  program := urging
  depthLimit := 4
  arena := ⟨16, 0, ⟨Array.replicate 16 0⟩, 2, ⟨[], []⟩⟩
  frames := [urgingFrame]
  dataBase := none
  globalsBase := none

/-- The question has a slot of four bytes at the old top of the stack. -/
def urgingOp : Dispatch := ⟨⟨"ask", [], [2]⟩, some 2, 2⟩

/-- The host has taken eight more bytes of the stack while it handles the inner question. -/
def urgingAsked : Machine :=
  { urgingBefore with
    arena := { urgingBefore.arena with top := 14 }
    frames := [{ urgingFrame with position := 4, pending := [{ scratch := 2 }] }] }

theorem reachable_urgingBefore (allowed : Machine → Wish → Prop) :
    urgingBefore.Reachable allowed .resting := by
  have hfound : Session.findEntry urging "main" = .ok 0 := by
    simp [Session.findEntry, Program.findExported?, urging, List.findIdx?_cons]
  obtain ⟨m, hlay, henter⟩ : ∃ m, Context.layProgram 64 urging 16 0 4 = .ok m ∧
      m.enter 0 [] = .ok urgingBefore := ⟨_, rfl, rfl⟩
  exact .create hlay hfound henter

theorem urging_trial :
    Trial [] (urgingBefore, .resting) (urgingAsked, .handling urgingOp (.goTo 0)) := by
  have hcall : urgingBefore.At urgingFrame [] urging.procedures[0] (.call 1) :=
    ⟨rfl, rfl, rfl⟩
  refine .head ⟨.next rfl (hcall.modest ?_), by decide⟩ ?_
  · intro callee hcallee
    cases hcallee
    rfl
  refine .head ⟨.ended rfl (Nat.le_refl 0) rfl, by decide⟩ ?_
  refine .head ⟨.next rfl (At.modest ⟨rfl, rfl, rfl⟩ trivial), by decide⟩ ?_
  refine .head ⟨.next rfl (At.modest ⟨rfl, rfl, rfl⟩ trivial), by decide⟩ ?_
  refine .head ⟨.dispatch rfl, by decide⟩ ?_
  refine .head ⟨.handle _ _ _ (.allocStack 8), by decide⟩ ?_
  exact .single ⟨.request _ _ _ _, by decide⟩

/-- A call and an operation later, with eight bytes of the host on the stack, the frame is back
where it was. -/
theorem urging_keeps_the_stack :
    ∃ after, urgingAsked.complete urgingOp (.goTo 0) = .ok after ∧
      after.frames = [urgingFrame] ∧ urgingAsked.arena.top = 14 ∧ after.arena.top = 2 := by
  obtain ⟨_, _, hback⟩ := retries_keep_the_stack (reachable_urgingBefore fun _ _ => False) rfl
    rfl rfl urgingBefore .refl
  obtain ⟨after, hcomplete, hframes, htop⟩ := hback _ _ _ urging_trial rfl
  exact ⟨after, hcomplete, hframes, rfl, htop⟩

end Hostcall.Machine
