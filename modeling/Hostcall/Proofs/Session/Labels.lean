import Hostcall.Proofs.Session.Soundness

/-!
# Labels as entries

A host may send a frame to any label of its procedure, and the frame gets there with nothing in
hand. The check asks of a label only that it stands in the code or at its end; it does not follow
the code from there. So a checked program may meet a shortage after all: `midway` does.

* `Leads program p origin q s`: the rules lead from `origin`, with nothing in hand, to the shape
  `s` at `q`. Every frame of a checked program stands where the start of its procedure or one of
  the labels leads (`closed_arrives`).
* `Procedure.SafeAt`: wherever a position leads, the instruction fits. Positions where the check
  has found nothing in hand are safe (`safeAt_of_foreseen`), the start among them.
* `label_shortage_iff_misfit`: an instruction meets a shortage exactly when it does not fit where
  the start or a label leads, and never if all labels are safe.
-/

namespace Hostcall

open Attempt

/-- The rules lead a frame that stands at `origin` with nothing in hand to a position and the
shape that it has there. -/
inductive Leads (program : Program) (p : Procedure) (origin : Nat) : Nat → Shape → Prop where
  | here : Leads program p origin origin ⟨0, 0⟩
  | next {q r : Nat} {i : Instruction} {s : Shape} (before : Leads program p origin q s)
      (instruction : p.code[q]? = some i) (fits : i.Fits program s)
      (successor : r ∈ i.successors q) : Leads program p origin r (i.outcome program s)

/-- Where frames of a procedure start or can be sent to. -/
def Procedure.Entry (p : Procedure) (origin : Nat) : Prop :=
  origin = 0 ∨ ∃ l ∈ p.labels, l.2.toNat = origin

/-- The start of a procedure or one of its labels leads to a position and a shape. -/
def Program.Arrives (program : Program) (p : Procedure) (q : Nat) (s : Shape) : Prop :=
  ∃ origin, p.Entry origin ∧ Leads program p origin q s

/-- Wherever a position leads with nothing in hand, the instruction fits. -/
def Procedure.SafeAt (program : Program) (p : Procedure) (origin : Nat) : Prop :=
  ∀ q s i, Leads program p origin q s → p.code[q]? = some i → i.Fits program s

/-- All labels of a program are safe. -/
def Program.LabelsSafe (program : Program) : Prop :=
  ∀ p ∈ program.procedures, ∀ l ∈ p.labels, p.SafeAt program l.2.toNat

namespace Program

variable {program : Program}

theorem closed_arrives (h : program.check = .ok ()) : Closed program program.Arrives := by
  refine ⟨(closed_foreseen h).resolves, ?_, ?_⟩
  · intro p _
    exact ⟨0, .inl rfl, .here⟩
  · intro p _ q i s hi hs hfits r hr
    obtain ⟨origin, hentry, hleads⟩ := hs
    exact ⟨origin, hentry, hleads.next hi hfits hr⟩

/-- A position where the check has found nothing in hand leads only to what it has found. -/
theorem foreseen_of_leads (h : program.check = .ok ()) {p : Procedure}
    (hp : p ∈ program.procedures) {origin q : Nat} {s : Shape}
    (horigin : program.Foreseen p origin ⟨0, 0⟩) (hleads : Leads program p origin q s) :
    program.Foreseen p q s := by
  induction hleads with
  | here => exact horigin
  | next _ hi hfits hr ih => exact (closed_foreseen h).follows p hp hi ih hfits _ hr

theorem safeAt_of_foreseen (h : program.check = .ok ()) {p : Procedure}
    (hp : p ∈ program.procedures) {origin : Nat} (horigin : program.Foreseen p origin ⟨0, 0⟩) :
    p.SafeAt program origin := by
  intro q s i hleads hi
  exact enough_foreseen h p hp hi (foreseen_of_leads h hp horigin hleads)

theorem enough_arrives (h : program.check = .ok ()) (hsafe : program.LabelsSafe) :
    Enough program program.Arrives := by
  intro p hp q i s hi hs
  obtain ⟨origin, rfl | ⟨l, hl, rfl⟩, hleads⟩ := hs
  · exact safeAt_of_foreseen h hp ((closed_foreseen h).start p hp) q s i hleads hi
  · exact hsafe p hp l hl q s i hleads hi

end Program

namespace Session

theorem abidesAll_any (s : Session) (calls : List Call) :
    s.AbidesAll (fun _ _ _ => True) calls := by
  induction calls generalizing s with
  | nil => exact trivial
  | cons c rest ih => exact ⟨fun _ _ _ _ => trivial, ih _⟩

theorem inOrder_arrives {s : Session} {a : Activation} (hs : s.Tracked fun _ _ _ => True)
    (ha : a ∈ s.active) (hcheck : a.context.program.check = .ok ()) :
    a.context.machine.InOrder a.context.program.Arrives a.phase.stage := by
  refine Machine.inOrder_of_reachable (Program.closed_arrives hcheck) ?_ (hs.active a ha) rfl
  intro m f callers p label position _ _ _ _ hlabel
  exact ⟨position, .inr (Procedure.exists_of_labelPosition? hlabel), .here⟩

/-- **Labels.** Take any history of an engine, whatever labels hosts have sent frames to, and a
context of a checked program. A frame that is sent to a label gets there with nothing in hand.
The next instruction then stands where the start or a label leads, and it meets a shortage
exactly when it does not fit there. If all labels of the program are safe, no call reports a
shortage. -/
theorem label_shortage_iff_misfit (settings : Settings) (room : Nat) (calls : List Call) :
    let s := (callAll { settings, room } calls).2
    (∀ a ∈ s.active, ∀ d position paused, a.phase = .handling d (.goTo position) paused →
      ∀ m, a.context.machine.complete d (.goTo position) = .ok m →
        ∃ f callers, m.frames = f :: callers ∧ f.position = position ∧ f.shape = ⟨0, 0⟩) ∧
    (∀ a ∈ s.active, a.context.program.check = .ok () → a.phase = .executing →
      ∀ m f callers, a.context.machine.settle = .ok m → m.frames = f :: callers →
        ∃ p i, m.At f callers p i ∧ m.program.Arrives p f.position f.shape ∧
          ((∃ fault, m.step = .error fault ∧ fault.isShortage = true) ↔
            ¬ i.Fits m.program f.shape ∧ ¬ m.Refuses callers i)) ∧
    ∀ call reported fault, (s.call call).1.fault? = some (reported, fault) →
      ∃ a rest, s.active = a :: rest ∧ a.handle = reported ∧
        (a.context.program.check = .ok () → a.context.program.LabelsSafe →
          fault.isShortage = false) := by
  intro s
  have hs : s.Tracked fun _ _ _ => True := tracked_history settings room (abidesAll_any _ _)
  refine ⟨?_, ?_, ?_⟩
  · intro a _ d position paused _ m hcomplete
    obtain ⟨k, _, hredirect⟩ := bind_eq_ok_iff.mp hcomplete
    obtain ⟨f, g, callers, _, hframes, _, _, _, hposition, hshape⟩ :=
      Machine.redirect_eq_ok hredirect
    exact ⟨g, callers, hframes, hposition, hshape⟩
  · intro a ha hcheck hphase m f callers hsettle hframes
    have hsame : m.program = a.context.program := (Machine.sameSetup_settle hsettle).program
    have horder := inOrder_arrives hs ha hcheck
    rw [hphase, ← hsame] at horder
    rw [← hsame] at hcheck
    have hstacked : Machine.Stacked m.program m.program.Arrives 0 m.frames :=
      horder.settle hsettle
    obtain ⟨p, i, hat⟩ := Machine.exists_at_of_settle hsettle hframes
    exact ⟨p, i, hat, hat.allowed hstacked,
      Machine.step_shortage_iff (Program.closed_arrives hcheck) hstacked hat⟩
  · intro call reported fault hfault
    obtain ⟨a, rest, hactive, hreported, hfails⟩ := fails_of_call hfault
    refine ⟨a, rest, hactive, hreported, fun hcheck hsafe => ?_⟩
    have ha : a ∈ s.active := by
      rw [hactive]
      exact List.mem_cons_self
    have hordinary := ordinary_of_fails (Program.closed_arrives hcheck)
      (Program.enough_arrives hcheck hsafe) (inOrder_arrives hs ha hcheck) hfails
    cases hshort : fault.isShortage with
    | false => rfl
    | true =>
      rw [Fault.Ordinary, Fault.isStructural_of_isShortage hshort] at hordinary
      cases hordinary

/-- The one label of `retrying` is safe, so its contexts meet no shortage. -/
theorem retrying_meets_no_shortage :
    retrying.check = .ok () ∧ retrying.LabelsSafe ∧
    ∀ call reported fault,
      ((callAll { room := 64 } retryingOnce).2.call call).1.fault? = some (reported, fault) →
      fault.isShortage = false := by
  have hsafe : retrying.LabelsSafe := fun p hp l hl =>
    Program.safeAt_of_foreseen check_retrying hp (foreseen_retrying p hp l hl)
  refine ⟨check_retrying, hsafe, ?_⟩
  intro call reported fault hfault
  obtain ⟨_, _, hnone⟩ := label_shortage_iff_misfit {} 64 retryingOnce
  obtain ⟨a, rest, hactive, _, hordinary⟩ := hnone call reported fault hfault
  obtain ⟨b, hb, _, _, hprogram⟩ := active_retryingOnce
  cases hactive.symm.trans hb
  rw [hprogram] at hordinary
  exact hordinary check_retrying hsafe

/-- A program with a label inside an operation. -/
def midway : Program where
  ops := #["first", "second"]
  procedures := #[{
    name := "main"
    exported := true
    labels := [("inside", 3)]
    code := #[.opBegin, .opEnd 0 0, .opBegin, .opEnd 1 0] }]

/-- A host answers the first operation and sends the context to the label. -/
def midwayInside : List Call :=
  [.startProgram midway "main" 0 4, .resume ⟨0, 1⟩, .tick, .tick, .goTo "inside",
    .finish (.ok ()), .resume ⟨0, 1⟩, .tick]

/-- The check accepts the program, and the operation at the label has not been opened. -/
theorem midway_meets_shortage :
    midway.check = .ok () ∧
    ((callAll { room := 64 } midwayInside).1.getLast?.bind Reply.fault?) =
      some (⟨0, 1⟩, .unbalancedOperation 3) := by
  refine ⟨eq_ok_of_isOk ?_, ?_⟩
  · decide +kernel
  · decide +kernel

end Session

end Hostcall
