import Mathlib.Logic.Relation
import Hostcall.Proofs.Machine.Turns
import Hostcall.Proofs.Session.Reachable

/-!
# Calls are well bracketed

A machine changes by `Move`s: it executes, returns from code that has come to its end, and has its
operations answered; at any time its host may do to the arena what it likes, and while an operation
is open it may ask for any continuation. A pause changes nothing of a machine. Every history of a
context is made of moves (`Reachable.exists_moves`).

`Lasts depth` are the histories in which the stack never gets lower than `depth`. With the depth of
the frame that a call has pushed, these are the histories during the call. Nothing is assumed of the
code, which may use addresses and open operations as it likes, nor of the machine that makes the
call (`call_is_bracketed`).
-/

namespace Hostcall.Machine

open Attempt

/-- One change of a machine and of what it waits for. -/
inductive Move : Machine × Stage → Machine × Stage → Prop where
  /-- The code of the innermost call has come to its end. -/
  | ended {m n : Machine} {f : Frame} {callers : List Frame} (frames : m.frames = f :: callers)
      (ended : m.codeSize f ≤ f.position) (leave : m.leave = .ok n) :
      Move (m, .resting) (n, .resting)
  | next {m n : Machine} (step : m.step = .ok (.next n)) : Move (m, .resting) (n, .resting)
  | dispatch {m n : Machine} {d : Dispatch} (step : m.step = .ok (.dispatch n d)) :
      Move (m, .resting) (n, .handling d .proceed)
  /-- The host uses the arena. -/
  | perform (m : Machine) (stage : Stage) (action : Arena.Action) :
      Move (m, stage) ({ m with arena := (m.arena.perform action).2 }, stage)
  /-- The host asks to go on elsewhere or to return. -/
  | request (m : Machine) (d : Dispatch) (control wanted : Control) :
      Move (m, .handling d control) (m, .handling d wanted)
  | complete {m n : Machine} {d : Dispatch} {control : Control}
      (complete : m.complete d control = .ok n) : Move (m, .handling d control) (n, .resting)

/-- Any number of moves. -/
abbrev Moves : Machine × Stage → Machine × Stage → Prop := Relation.ReflTransGen Move

/-- Any number of moves after each of which at least `depth` calls are in progress. -/
def Lasts (depth : Nat) : Machine × Stage → Machine × Stage → Prop :=
  Relation.ReflTransGen fun s t => Move s t ∧ depth ≤ t.1.frames.length

/-! ## Histories are moves -/

theorem moves_unwind {outer : List Frame} {m n : Machine} (h : unwind outer m = .ok n) :
    Moves (m, .resting) (n, .resting) := by
  induction outer generalizing m with
  | nil =>
    cases h
    exact .refl
  | cons _ outer ih =>
    unfold unwind at h
    split at h
    · cases h
      exact .refl
    · rename_i f callers hm
      split at h
      · cases h
        exact .refl
      · rename_i hended
        obtain ⟨k, hleave, h⟩ := bind_eq_ok_iff.mp h
        exact .head (.ended hm (Nat.not_lt.mp hended) hleave) (ih h)

/-- A machine that is about to execute its first instruction. -/
def Entered (n : Machine) : Prop :=
  ∃ room p stackSize memorySize depthLimit entry index m,
    Context.layProgram room p stackSize memorySize depthLimit = .ok m ∧
    Session.findEntry p entry = .ok index ∧ m.enter index [] = .ok n

/-- **Every history is made of moves**, whatever its host is allowed. -/
theorem Reachable.exists_moves {allowed : Machine → Wish → Prop} {m : Machine} {stage : Stage}
    (h : m.Reachable allowed stage) : ∃ n, Entered n ∧ Moves (n, .resting) (m, stage) := by
  induction h with
  | @create room stackSize memorySize depthLimit index p entry m n lay found enter =>
    exact ⟨n, ⟨room, p, stackSize, memorySize, depthLimit, entry, index, m, lay, found, enter⟩,
      .refl⟩
  | settle _ settle ih =>
    obtain ⟨n, hn, hmoves⟩ := ih
    exact ⟨n, hn, hmoves.trans (moves_unwind settle)⟩
  | next _ _ step ih =>
    obtain ⟨n, hn, hmoves⟩ := ih
    exact ⟨n, hn, hmoves.tail (.next step)⟩
  | dispatch _ _ step ih =>
    obtain ⟨n, hn, hmoves⟩ := ih
    exact ⟨n, hn, hmoves.tail (.dispatch step)⟩
  | perform _ _ ih =>
    obtain ⟨n, hn, hmoves⟩ := ih
    exact ⟨n, hn, hmoves.tail (.perform _ _ _)⟩
  | goTo _ _ _ _ _ ih | forceReturn _ _ ih =>
    obtain ⟨n, hn, hmoves⟩ := ih
    exact ⟨n, hn, hmoves.tail (.request _ _ _ _)⟩
  | complete _ complete ih =>
    obtain ⟨n, hn, hmoves⟩ := ih
    exact ⟨n, hn, hmoves.tail (.complete complete)⟩

/-! ## During a call -/

theorem Move.turn {s t : Machine × Stage} (h : Move s t) : Turn s.1 t.1 := by
  cases h with
  | ended _ _ leave => exact turn_leave leave
  | next step => exact turn_step step
  | dispatch step => exact turn_step step
  | perform m stage action => exact .stay (.refl _)
  | request m d control wanted => exact .stay (.refl _)
  | complete complete => exact turn_complete complete

theorem Move.program_eq {s t : Machine × Stage} (h : Move s t) : t.1.program = s.1.program := by
  cases h with
  | @ended m _ _ _ _ _ leave => exact ((sameSetup_leave m).ok leave).program
  | next step => exact (sameSetup_step step).program
  | dispatch step => exact (sameSetup_step step).program
  | perform | request => rfl
  | complete complete => exact (sameSetup_complete complete).program

/-- **A whole history during a call.** The call stays in progress, and below it nothing changes. -/
theorem Lasts.inProgress {s t : Machine × Stage} {f : Frame} {callers : List Frame}
    (h : Lasts (callers.length + 1) s t) (hs : InProgress f callers s.1.frames) :
    InProgress f callers t.1.frames ∧ t.1.program = s.1.program := by
  induction h with
  | refl => exact ⟨hs, rfl⟩
  | tail _ move ih =>
    obtain ⟨hprogress, hprogram⟩ := ih
    exact ⟨move.1.turn.inProgress hprogress move.2, move.1.program_eq.trans hprogram⟩

/-! ## The end of a call -/

/-- How `n` relates to `m` if in `m` the frame `f` above `callers` has called `callee` and in `n`
that call has just returned. In `k`, right before it, the call is still in progress. -/
structure Returned (m : Machine) (f : Frame) (callers : List Frame) (callee : Procedure)
    (k n : Machine) : Prop where
  /-- The caller has moved past the call, and everything else that it had is still there. -/
  frames : n.frames = { f with
    position := f.position + 1
    addresses := (if callee.result.isSome then [m.arena.top] else []) ++
      f.addresses.drop callee.params.length } :: callers
  /-- The arguments have been exchanged for the result. -/
  addresses : n.addresses = m.addresses.take (m.addresses.length - callee.params.length) ++
    if callee.result.isSome then [m.arena.top] else []
  top : n.arena.top = m.arena.top + callee.resultSize
  /-- The result is what stood in the slot. -/
  result : Bytes.slice n.arena.bytes m.arena.top callee.resultSize =
    Bytes.slice k.arena.bytes (m.arena.top + callee.paramsSize) callee.resultSize

theorem addresses_eq {m : Machine} {f : Frame} {callers : List Frame}
    (hm : m.frames = f :: callers) :
    m.addresses = (f.addresses ++ callers.flatMap (·.addresses)).reverse := by
  rw [addresses, hm, List.flatMap_cons]

/-- The address stack only changes at its end, where the caller has its addresses. -/
theorem addresses_exchanged {m n : Machine} {f g : Frame} {callers : List Frame}
    {given : List Nat} {count : Nat} (hm : m.frames = f :: callers) (hn : n.frames = g :: callers)
    (hcount : count ≤ f.addresses.length) (hg : g.addresses = given ++ f.addresses.drop count) :
    n.addresses = m.addresses.take (m.addresses.length - count) ++ given.reverse := by
  rw [addresses_eq hm, addresses_eq hn, hg, List.length_reverse, ← List.reverse_drop,
    List.drop_append_of_le_length hcount, List.append_assoc, List.reverse_append]

theorem handBack_awaiting {f : Frame} {callers : List Frame} {callee : Procedure} {base : Nat} :
    handBack (callee.result.map fun _ => base) (f.awaiting callee :: callers) =
      { f with
        position := f.position + 1
        addresses := (if callee.result.isSome then [base] else []) ++
          f.addresses.drop callee.params.length } :: callers := by
  cases callee.result with
  | none => rfl
  | some size => rfl

theorem resultSize_eq {m : Machine} {f : Frame} {p : Procedure} (h : m.procedure? f = some p) :
    m.resultSize f = p.resultSize := by
  unfold resultSize
  rw [h]

/-- A frame that is laid out as its call has left it returns as the caller expects. -/
theorem returned_of_leave {m k n : Machine} {f g : Frame} {callers : List Frame}
    {callee : Procedure} (hm : m.frames = f :: callers)
    (hcount : callee.params.length ≤ f.addresses.length)
    (hk : k.frames = g :: f.awaiting callee :: callers) (hcallee : k.procedure? g = some callee)
    (hbase : g.paramsBase = m.arena.top)
    (hslot : g.result = callee.result.map fun _ => m.arena.top + callee.paramsSize)
    (hleave : k.leave = .ok n) : Returned m f callers callee k n := by
  obtain ⟨hframes, htop, hbytes⟩ := leave_eq_ok hk hleave
  have hsome : g.result.isSome = callee.result.isSome := by rw [hslot, Option.isSome_map]
  rw [hslot, hbase, Option.map_map] at hframes
  replace hframes := hframes.trans handBack_awaiting
  rw [resultSize_eq hcallee, hbase] at htop hbytes
  refine ⟨hframes, ?_, ?_, ?_⟩
  · rw [addresses_exchanged hm hframes hcount rfl]
    split
    · rfl
    · rfl
  · rw [htop, hsome]
    unfold Procedure.resultSize
    cases callee.result with
    | none => rfl
    | some size => rfl
  · cases hresult : callee.result with
    | none =>
      have hzero : callee.resultSize = 0 := by
        unfold Procedure.resultSize
        rw [hresult]
      rw [hzero]
      simp [Bytes.slice_eq]
    | some size =>
      refine hbytes _ ?_
      rw [hslot, hresult]
      rfl

/-- **Calls are well bracketed.** A call has succeeded in `m`, which may be any machine, and its
frame has been on the stack ever since. Then the frames below are those of the time of the call, the
frame stands as it was laid out, and if the next move takes it off the stack, whether by a return,
at the end of the code or because the host has asked for it, then the caller gets its result and
nothing else has changed for it. -/
theorem call_is_bracketed {m n k : Machine} {f : Frame} {callers : List Frame} {p : Procedure}
    {index : UInt32} {stage : Stage} (hat : m.At f callers p (.call index))
    (hcall : m.step = .ok (.next n))
    (hlasts : Lasts (callers.length + 2) (n, .resting) (k, stage)) :
    ∃ callee, m.program.procedures[index.toNat]? = some callee ∧
      (∃ inner g, k.frames = inner ++ g :: f.awaiting callee :: callers ∧
        g.procedure = index.toNat ∧ g.paramsBase = m.arena.top ∧
        g.result = callee.result.map fun _ => m.arena.top + callee.paramsSize) ∧
      ∀ k' stage', Move (k, stage) (k', stage') → k'.frames.length < callers.length + 2 →
        Returned m f callers callee k k' := by
  obtain ⟨callee, new, hcallee, hcount, hnew, hprocedure, hbase, hslot⟩ := hat.call_eq_ok hcall
  have hbegin : InProgress new (f.awaiting callee :: callers) n.frames :=
    ⟨[], new, hnew, .refl new⟩
  have hduring : Lasts ((f.awaiting callee :: callers).length + 1) (n, .resting) (k, stage) :=
    hlasts
  obtain ⟨hk, hprogram⟩ := hduring.inProgress hbegin
  have hsame : n.program = m.program := (sameSetup_step hcall).program
  refine ⟨callee, hcallee, ?_, ?_⟩
  · obtain ⟨inner, g, hframes, hg⟩ := hk
    exact ⟨inner, g, hframes, hg.procedure.trans hprocedure, hg.paramsBase.trans hbase,
      hg.result.trans hslot⟩
  · intro k' stage' hmove hlow
    -- the machine that returns may differ from `k` in its stack and addresses, not in its bytes
    obtain ⟨r, g, hr, hg, hrprogram, hrbytes, hleave⟩ :=
      hmove.turn.returns hk (Nat.le_of_lt_succ hlow)
    have hrcallee : r.procedure? g = some callee := by
      rw [procedure?, hrprogram, hprogram, hsame, hg.procedure, hprocedure]
      exact hcallee
    have hreturned := returned_of_leave hat.frames hcount hr hrcallee
      (hg.paramsBase.trans hbase) (hg.result.trans hslot) hleave
    refine ⟨hreturned.frames, hreturned.addresses, hreturned.top, ?_⟩
    rw [hreturned.result, hrbytes]

/-- A program whose second procedure leaves its result to the host. The result is longer than the
parameter. -/
def delegating : Program where
  ops := #["fill"]
  procedures := #[
    { name := "main", exported := true, locals := [1], code := #[.localsAddress 0, .call 1] },
    { name := "four", params := [1], result := some 4, code := #[.opBegin, .opEnd 0 0] }]

/-- The frame of `main` before the call. -/
def delegatingMain : Frame where
  procedure := 0
  position := 1
  paramsBase := 0
  result := none
  localsBase := 0
  addresses := [0]

/-- The context before the call. -/
def delegatingBefore : Machine where
  program := delegating
  depthLimit := 8
  arena := ⟨8, 0, ⟨#[7, 0, 0, 0, 0, 0, 0, 0]⟩, 1, ⟨[], []⟩⟩
  frames := [delegatingMain]
  dataBase := none
  globalsBase := none

def delegatingOp : Dispatch where
  operation := ⟨"fill", [], []⟩
  slot := none
  scratch := 6

/-- The host has put four bytes into the slot and has asked to return. In between it has given up
the whole stack. -/
def delegatingFilled : Machine :=
  { delegatingBefore with
    arena := ⟨8, 0, ⟨#[7, 7, 1, 2, 3, 4, 0, 0]⟩, 0, ⟨[], []⟩⟩
    frames := [⟨1, 2, 1, some 2, 6, [], []⟩, { delegatingMain with position := 2, addresses := [] }] }

/-- The context after the return: the result has moved down over a part of itself. -/
def delegatingAfter : Machine :=
  { delegatingBefore with
    arena := ⟨8, 0, ⟨#[7, 1, 2, 3, 4, 4, 0, 0]⟩, 5, ⟨[], []⟩⟩
    frames := [{ delegatingMain with position := 2, addresses := [1] }] }

theorem delegating_is_bracketed :
    ∃ p n callee, delegatingBefore.At delegatingMain [] p (.call 1) ∧
      delegatingBefore.step = .ok (.next n) ∧
      Lasts 2 (n, .resting) (delegatingFilled, .handling delegatingOp .leave) ∧
      Move (delegatingFilled, .handling delegatingOp .leave) (delegatingAfter, .resting) ∧
      delegating.procedures[1]? = some callee ∧
      Returned delegatingBefore delegatingMain [] callee delegatingFilled delegatingAfter := by
  have hat : delegatingBefore.At delegatingMain [] delegating.procedures[0] (.call 1) :=
    ⟨rfl, rfl, rfl⟩
  obtain ⟨n, hcall, hlasts⟩ : ∃ n, delegatingBefore.step = .ok (.next n) ∧
      Lasts 2 (n, .resting) (delegatingFilled, .handling delegatingOp .leave) := by
    refine ⟨_, rfl, ?_⟩
    refine .head ⟨.next rfl, by decide⟩ (.head ⟨.dispatch rfl, by decide⟩ ?_)
    refine .head ⟨.perform _ _ (.storeBytes 2 [1, 2, 3, 4]), by decide⟩ ?_
    refine .head ⟨.perform _ _ (.resetStack 0), by decide⟩ ?_
    exact .single ⟨.request _ _ _ _, by decide⟩
  have hmove : Move (delegatingFilled, .handling delegatingOp .leave)
      (delegatingAfter, .resting) := .complete rfl
  obtain ⟨callee, hcallee, _, hreturned⟩ := call_is_bracketed hat hcall hlasts
  exact ⟨_, n, callee, hat, hcall, hlasts, hmove, hcallee, hreturned _ _ hmove (by decide)⟩

end Hostcall.Machine
