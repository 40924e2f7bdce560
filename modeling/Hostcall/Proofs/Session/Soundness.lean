import Hostcall.Proofs.Check.Acceptance
import Hostcall.Proofs.Machine.Setup
import Hostcall.Proofs.Machine.Shortage
import Hostcall.Proofs.Session.Faults

/-!
# Checked programs run as the check has foreseen

Shapes that are closed under the rules of the instructions are kept by every history of a session
(`inOrder_of_reachable`), as long as hosts send a frame only to where it may have nothing in
hand. If they are also enough for every instruction, no structural fault is ever met
(`ordinary_of_fails`).

The shapes that the check has found are an instance (`closed_foreseen`), which is the soundness
of the check: `checked_history_has_foreseen_shapes`.
-/

namespace Hostcall

open Attempt

theorem Procedure.exists_of_labelPosition? {p : Procedure} {label : String} {position : Nat}
    (h : p.labelPosition? label = some position) : ∃ l ∈ p.labels, l.2.toNat = position := by
  obtain ⟨l, hl, hposition⟩ := Option.map_eq_some_iff.mp h
  exact ⟨l, List.mem_of_find?_eq_some hl, hposition⟩

namespace Machine

variable {R : Procedure → Nat → Shape → Prop} {program : Program}

/-! ## Settled machines -/

theorem length_frames_leave {m n : Machine} (h : m.leave = .ok n) :
    n.frames.length + 1 = m.frames.length := by
  unfold leave at h
  split at h
  · cases h
  · rename_i f callers hm
    obtain ⟨⟨result, arena⟩, _, h⟩ := bind_eq_ok_iff.mp h
    cases h
    rw [hm]
    cases callers with
    | nil => rfl
    | cons g rest =>
      cases result with
      | none => rfl
      | some address => rfl

theorem position_lt_of_unwind {outer : List Frame} {m n : Machine} {f : Frame}
    {callers : List Frame} (h : unwind outer m = .ok n)
    (hlen : m.frames.length ≤ outer.length) (hn : n.frames = f :: callers) :
    f.position < n.codeSize f := by
  induction outer generalizing m with
  | nil =>
    cases h
    rw [hn] at hlen
    cases hlen
  | cons _ outer ih =>
    unfold unwind at h
    split at h
    · rename_i hm
      cases h
      rw [hm] at hn
      cases hn
    · rename_i g rest hm
      split at h
      · rename_i hlt
        cases h
        rw [hm] at hn
        cases hn
        exact hlt
      · obtain ⟨k, hk, h⟩ := bind_eq_ok_iff.mp h
        have hleave := length_frames_leave hk
        exact ih h (by simp only [List.length_cons] at hlen; omega)

/-- A machine that has been settled has an instruction to execute, unless all calls have
returned. -/
theorem exists_at_of_settle {m n : Machine} {f : Frame} {callers : List Frame}
    (h : m.settle = .ok n) (hn : n.frames = f :: callers) : ∃ p i, n.At f callers p i := by
  have hlt := position_lt_of_unwind h (Nat.le_refl _) hn
  unfold codeSize at hlt
  split at hlt
  · rename_i p hp
    exact ⟨p, p.code[f.position], hn, hp, Array.getElem?_eq_getElem hlt⟩
  · cases hlt

/-! ## Histories keep the frames in order -/

/-- The frames of a machine have allowed shapes, and what a host has asked for leaves them so. -/
def InOrder (R : Procedure → Nat → Shape → Prop) (m : Machine) : Stage → Prop
  | .resting => Stacked m.program R 0 m.frames
  | .handling d control =>
    m.frames ≠ [] ∧ Stacked m.program R (due d.slot) m.frames ∧ m.PermitsControl R control

/-- Hosts that keep to `allowed` send frames of a program only to where they may have nothing in
hand. -/
def GoesTo (program : Program) (R : Procedure → Nat → Shape → Prop)
    (allowed : Machine → Wish → Prop) : Prop :=
  ∀ {m : Machine} {f callers p label position}, m.program = program → allowed m (.goTo label) →
    m.frames = f :: callers → m.procedure? f = some p → p.labelPosition? label = some position →
    R p position ⟨0, 0⟩

theorem InOrder.settle {m n : Machine} (h : m.InOrder R .resting) (hsettle : m.settle = .ok n) :
    n.InOrder R .resting := by
  rw [InOrder, (sameSetup_settle hsettle).program]
  exact (settle_keeps h).ok hsettle

/-- An instruction that has been executed did fit, so the frames are in order after it. -/
theorem InOrder.step {m : Machine} {e : Effect} (hc : Closed m.program R)
    (h : m.InOrder R .resting) (hmore : m.frames ≠ []) (hstep : m.step = .ok e) :
    e.Stacked m.program R :=
  (step_keeps hc hmore h fun hat => fits_of_step_eq_ok hc hstep hat).ok hstep

theorem inOrder_create {room stackSize memorySize depthLimit index : Nat} {p : Program}
    {entry : String} {m n : Machine} (hc : Closed n.program R)
    (hlay : Context.layProgram room p stackSize memorySize depthLimit = .ok m)
    (hfound : Session.findEntry p entry = .ok index) (henter : m.enter index [] = .ok n) :
    n.InOrder R .resting := by
  obtain ⟨hprogram, hframes⟩ := Session.program_of_layProgram hlay
  obtain ⟨procedure, hprocedure⟩ := (Session.meets_findEntry p entry).ok hfound
  have hsame := ((sameSetup_enter m index []).ok henter).program
  rw [← hprogram] at hprocedure
  rw [hsame] at hc
  have hstacked := (enter_keeps hc hprocedure (by rw [hframes]; exact trivial)).ok henter
  rw [← hsame] at hstacked
  exact hstacked

/-- **Histories.** The frames of every reachable machine of a program are in order. -/
theorem inOrder_of_reachable {allowed : Machine → Wish → Prop} (hc : Closed program R)
    (hgoes : GoesTo program R allowed) {m : Machine} {stage : Stage}
    (h : m.Reachable allowed stage) (hprogram : m.program = program) : m.InOrder R stage := by
  -- no change of a machine touches its program, so the hypothesis on it goes back to the start
  induction h with
  | create hlay hfound henter =>
    rw [← hprogram] at hc
    exact inOrder_create hc hlay hfound henter
  | @settle m n _ hsettle ih =>
    have hsame := (sameSetup_settle hsettle).program
    exact (ih (hsame.symm.trans hprogram)).settle hsettle
  | @next m n _ hmore hstep ih =>
    have hsame : n.program = m.program := (sameSetup_step hstep).program
    have hm := ih (hsame.symm.trans hprogram)
    rw [← hprogram, hsame] at hc
    rw [InOrder, hsame]
    exact hm.step hc hmore hstep
  | @dispatch m n d _ hmore hstep ih =>
    have hsame : n.program = m.program := (sameSetup_step hstep).program
    have hm := ih (hsame.symm.trans hprogram)
    rw [← hprogram, hsame] at hc
    obtain ⟨hne, hstacked⟩ := hm.step hc hmore hstep
    rw [InOrder, hsame]
    exact ⟨hne, hstacked, trivial⟩
  | @perform m stage _ _ _ ih =>
    cases stage with
    | resting => exact ih hprogram
    | handling d control =>
      obtain ⟨hne, hstacked, hcontrol⟩ := ih hprogram
      refine ⟨hne, hstacked, ?_⟩
      cases control with
      | proceed => exact trivial
      | leave => exact trivial
      | goTo position => exact hcontrol
  | @goTo m d control f callers p label position _ hwish hframes hp hlabel ih =>
    obtain ⟨hne, hstacked, _⟩ := ih hprogram
    refine ⟨hne, hstacked, ?_⟩
    intro g rest q hframes' hq
    rw [hframes] at hframes'
    cases hframes'
    exact hgoes hprogram hwish hframes hq (by rw [hp] at hq; cases hq; exact hlabel)
  | forceReturn _ _ ih =>
    obtain ⟨hne, hstacked, _⟩ := ih hprogram
    exact ⟨hne, hstacked, trivial⟩
  | @complete m n d control _ hcomplete ih =>
    have hsame := (sameSetup_complete hcomplete).program
    obtain ⟨hne, hstacked, hcontrol⟩ := ih (hsame.symm.trans hprogram)
    rw [InOrder, hsame]
    exact (complete_keeps hne hstacked hcontrol).ok hcomplete

end Machine

/-! ## Faults -/

/-- The shapes that are allowed at a position are enough for its instruction. -/
def Enough (program : Program) (R : Procedure → Nat → Shape → Prop) : Prop :=
  ∀ p ∈ program.procedures, ∀ {q i s}, p.code[q]? = some i → R p q s → i.Fits program s

section

open Machine

variable {R : Procedure → Nat → Shape → Prop}

theorem ordinary_of_advance {settings : Settings} {spent : Nat} {m : Machine} {fault : Fault}
    (hc : Closed m.program R) (henough : Enough m.program R) (hm : m.InOrder R .resting)
    (h : Session.advance settings spent m = .error fault) : fault.Ordinary := by
  rcases Session.advance_eq_error h with hsettle | ⟨k, hsettle, hmore, ⟨limit, rfl⟩ | hstep⟩
  · exact (settle_keeps hm).error hsettle
  · rfl
  · have hsame := (sameSetup_settle hsettle).program
    have hk : Stacked k.program R 0 k.frames := hm.settle hsettle
    rw [← hsame] at hc henough
    refine (step_keeps hc hmore hk fun {f callers p i} hat => ?_).error hstep
    exact henough p (Array.mem_of_getElem? hat.procedure) hat.instruction (hat.allowed hk)

theorem ordinary_of_answered {m : Machine} {d : Dispatch} {control : Control}
    {outcome : Except String Unit} {fault : Fault} (hm : m.InOrder R (.handling d control))
    (h : Session.answered m d control outcome = .error fault) : fault.Ordinary := by
  obtain ⟨hne, hstacked, hcontrol⟩ := hm
  have hcomplete := complete_keeps hne hstacked hcontrol
  rcases Session.answered_eq_error h with ⟨message, rfl⟩ | herror | ⟨k, hk, hsettle⟩
  · rfl
  · exact hcomplete.error herror
  · exact (settle_keeps (hcomplete.ok hk)).error hsettle

theorem ordinary_of_fails {settings : Settings} {a : Activation} {fault : Fault}
    (hc : Closed a.context.program R) (henough : Enough a.context.program R)
    (ha : a.context.machine.InOrder R a.phase.stage) (h : a.Fails settings fault) :
    fault.Ordinary := by
  unfold Activation.Fails at h
  split at h
  · rename_i hphase
    rw [hphase] at ha
    exact ordinary_of_advance hc henough ha h
  · rename_i d control paused hphase
    rw [hphase] at ha
    obtain ⟨outcome, h⟩ := h
    exact ordinary_of_answered ha h
  · exact h.elim

end

/-! ## Checked programs -/

/-- What the check has found at a position. Nothing is said of the end of the code, where no
instruction follows. -/
def Program.Foreseen (program : Program) (p : Procedure) (position : Nat) (s : Shape) : Prop :=
  position = p.code.size ∨ program.shapeAt? p position = some s

/-- A wish about a machine of a checked program sends its frame only to the end of the code or
to where the check has found that a frame has nothing in hand. -/
def Wish.Foreseen (m : Machine) : Wish → Prop
  | .goTo label => m.program.check = .ok () → ∀ f callers p position, m.frames = f :: callers →
    m.procedure? f = some p → p.labelPosition? label = some position →
    m.program.Foreseen p position ⟨0, 0⟩
  | _ => True

namespace Program

variable {program : Program}

theorem Foreseen.shapeAt? {p : Procedure} {q : Nat} {i : Instruction} {s : Shape}
    (h : program.Foreseen p q s) (hi : p.code[q]? = some i) : program.shapeAt? p q = some s := by
  refine h.resolve_left fun hend => ?_
  have hlt := (Array.getElem?_eq_some_iff.mp hi).1
  omega

theorem closed_foreseen (h : program.check = .ok ()) : Closed program program.Foreseen := by
  have hprocedures := (Check.check_eq_ok_iff.mp h).2
  refine ⟨?_, ?_, ?_⟩
  · intro p hp
    exact (Check.wellFormed_of_procedure_eq_ok (hprocedures p hp)).resolves
  · intro p hp
    exact .inr (Check.assignment_shapeAt? (hprocedures p hp)).start
  · intro p hp q i s hi hs _ r hr
    have hnext := Instruction.mem_successors_iff.mp hr
    exact .inr ((Check.assignment_shapeAt? (hprocedures p hp)).follows hi (hs.shapeAt? hi) r hnext)

theorem enough_foreseen (h : program.check = .ok ()) : Enough program program.Foreseen := by
  intro p hp q i s hi hs
  have hprocedure := (Check.check_eq_ok_iff.mp h).2 p hp
  exact (Check.assignment_shapeAt? hprocedure).fits hi (hs.shapeAt? hi)

end Program

namespace Session

theorem inOrder_of_tracked {s : Session} {handle : Handle} {a : Activation}
    (hs : s.Tracked fun h m wish => h = handle → wish.Foreseen m) (ha : a ∈ s.active)
    (hhandle : a.context.handle = handle) (hcheck : a.context.program.check = .ok ()) :
    a.context.machine.InOrder a.context.program.Foreseen a.phase.stage := by
  refine Machine.inOrder_of_reachable (Program.closed_foreseen hcheck) ?_ (hs.active a ha) rfl
  intro m f callers p label position hprogram hwish hframes hp hlabel
  rw [← hprogram] at hcheck ⊢
  exact hwish hhandle hcheck f callers p position hframes hp hlabel

/-- **Soundness of the check.** In every history of an engine, a context of a checked program
whose host sends frames only to where the check has found nothing in hand meets no structural
fault, and before each instruction its innermost frame has the shape that the check has found
for the position of the instruction. -/
theorem checked_history_has_foreseen_shapes (settings : Settings) (room : Nat) (handle : Handle)
    (calls : List Call)
    (hcalls : AbidesAll (fun h m wish => h = handle → wish.Foreseen m) { settings, room } calls) :
    let s := (callAll { settings, room } calls).2
    (∀ call reported fault, (s.call call).1.fault? = some (reported, fault) →
      ∃ a rest, s.active = a :: rest ∧ a.handle = reported ∧
        (a.context.handle = handle → a.context.program.check = .ok () →
          fault.isStructural = false)) ∧
    ∀ a ∈ s.active, a.context.handle = handle → a.context.program.check = .ok () →
      a.phase = .executing → ∀ m f callers, a.context.machine.settle = .ok m →
        m.frames = f :: callers →
        ∃ p i, m.At f callers p i ∧ m.program.shapeAt? p f.position = some f.shape := by
  intro s
  have hs : s.Tracked fun h m wish => h = handle → wish.Foreseen m :=
    tracked_history settings room hcalls
  refine ⟨?_, ?_⟩
  · intro call reported fault hfault
    obtain ⟨a, rest, hactive, hreported, hfails⟩ := fails_of_call hfault
    refine ⟨a, rest, hactive, hreported, fun hhandle hcheck => ?_⟩
    have ha : a ∈ s.active := by
      rw [hactive]
      exact List.mem_cons_self
    exact ordinary_of_fails (Program.closed_foreseen hcheck) (Program.enough_foreseen hcheck)
      (inOrder_of_tracked hs ha hhandle hcheck) hfails
  · intro a ha hhandle hcheck hphase m f callers hsettle hframes
    have hsame : m.program = a.context.program := (Machine.sameSetup_settle hsettle).program
    have horder := inOrder_of_tracked hs ha hhandle hcheck
    rw [hphase, ← hsame] at horder
    obtain ⟨p, i, hat⟩ := Machine.exists_at_of_settle hsettle hframes
    exact ⟨p, i, hat, (hat.allowed (horder.settle hsettle)).shapeAt? hat.instruction⟩

/-- A program that asks something and can be sent back to ask it again. -/
def retrying : Program where
  ops := #["ask"]
  procedures := #[{
    name := "main"
    exported := true
    labels := [("again", 0)]
    code := #[.opBegin, .opEnd 0 0] }]

/-- A host sends the context back once. The question is then open for the second time. -/
def retryingOnce : List Call :=
  [.startProgram retrying "main" 0 4, .resume ⟨0, 1⟩, .tick, .tick, .goTo "again",
    .finish (.ok ()), .resume ⟨0, 1⟩, .tick]

/-- The label of the program stands where the check has found nothing in hand. -/
theorem foreseen_retrying : ∀ p ∈ retrying.procedures, ∀ l ∈ p.labels,
    retrying.Foreseen p l.2.toNat ⟨0, 0⟩ := by
  intro p hp l hl
  have hmain : p = retrying.procedures[0] := by simpa [retrying] using hp
  subst hmain
  cases List.mem_singleton.mp hl
  right
  decide +kernel

theorem check_retrying : retrying.check = .ok () := eq_ok_of_isOk (by decide +kernel)

theorem active_retryingOnce : ∃ a, (callAll { room := 64 } retryingOnce).2.active = [a] ∧
    a.phase = .executing ∧ a.context.handle = ⟨0, 1⟩ ∧ a.context.program = retrying := by
  have hactive : (callAll { room := 64 } retryingOnce).2.active.map
      (fun a => (a.phase, a.context.handle, a.context.program)) =
      [(.executing, ⟨0, 1⟩, retrying)] := by decide +kernel
  obtain ⟨a, ha, heq⟩ := List.map_eq_singleton_iff.mp hactive
  exact ⟨a, ha, by simpa using heq⟩

theorem retrying_has_foreseen_shapes :
    retrying.check = .ok () ∧
    AbidesAll (fun h m wish => h = ⟨0, 1⟩ → wish.Foreseen m) { room := 64 } retryingOnce ∧
    ∃ a, (callAll { room := 64 } retryingOnce).2.active = [a] ∧ a.phase = .executing ∧
      ∀ m f callers, a.context.machine.settle = .ok m → m.frames = f :: callers →
        ∃ p i, m.At f callers p i ∧ m.program.shapeAt? p f.position = some f.shape := by
  have hasking : ((callAll { room := 64 } (retryingOnce.take 4)).2.current?.map (·.program)) =
      some retrying := by decide +kernel
  have habides : AbidesAll (fun h m wish => h = ⟨0, 1⟩ → wish.Foreseen m) { room := 64 }
      retryingOnce := by
    refine ⟨nofun, nofun, nofun, nofun, ?_, nofun, nofun, nofun, trivial⟩
    rintro _ ⟨⟩ c hc _
    obtain ⟨c', hc', hprogram⟩ := Option.map_eq_some_iff.mp hasking
    cases hc.symm.trans hc'
    intro _ f callers p position _ hp hlabel
    obtain ⟨l, hl, rfl⟩ := Procedure.exists_of_labelPosition? hlabel
    replace hprogram : c.machine.program = retrying := hprogram
    rw [Machine.procedure?, hprogram] at hp
    rw [hprogram]
    exact foreseen_retrying p (Array.mem_of_getElem? hp) l hl
  obtain ⟨a, ha, hphase, hhandle, hprogram⟩ := active_retryingOnce
  obtain ⟨_, hshapes⟩ := checked_history_has_foreseen_shapes {} 64 ⟨0, 1⟩ retryingOnce habides
  refine ⟨check_retrying, habides, a, ha, hphase, ?_⟩
  exact hshapes a (by rw [ha]; exact List.mem_cons_self) hhandle
    (by rw [hprogram]; exact check_retrying) hphase

end Session

end Hostcall
