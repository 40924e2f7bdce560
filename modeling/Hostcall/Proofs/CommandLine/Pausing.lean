import Hostcall.Proofs.Arena.Access
import Hostcall.Proofs.CommandLine.Trails

/-!
# Pausing a run does not change it

A run with pauses prints what the run without them prints, and a line for each pause, right after
the operation at which it was due. The last pause is left out if the context has finished with that
operation, and this can be told from the run without pauses (`Run.FinishedWith`).

`Trails.step` is about one step. The run without pauses takes each step of the course
(`Trails.advance`); the one with pauses passes by the same points (`Trails.exists_advance`), so both
come to the same end, and what they have printed there is compared line by line
(`Trails.lines_of_ending?`). `pausing_is_transparent` puts this together for runs that are started
from the command line.
-/

namespace Hostcall.CommandLine

open Attempt Registry

/-! ## Whole runs -/

namespace Run

/-- A run that has ended stays as it is. -/
theorem step_of_ending? {r : Run} (h : r.ending?.isSome) : r.step = r := by
  obtain ⟨handle, every, reply, trace, s⟩ := r
  cases reply with
  | ended more =>
    cases more with
    | false => rfl
    | true => cases h
  | refused cause => rfl
  | done | flag | count | handle | handles | status | answer | working | operation | inspecting
    | misplaced => cases h

theorem advance_eq_iterate (k : Nat) (r : Run) : r.advance k = step^[k] r := by
  induction k generalizing r with
  | zero => rfl
  | succ k ih =>
    rw [advance, Function.iterate_succ_apply]
    split
    · rename_i hends
      rw [step_of_ending? hends]
      exact (Function.iterate_fixed (step_of_ending? hends) k).symm
    · exact ih r.step

theorem advance_succ (k : Nat) (r : Run) : r.advance (k + 1) = (r.advance k).step := by
  rw [advance_eq_iterate, advance_eq_iterate, Function.iterate_succ_apply']

/-- The context of a run has finished with the operation of a number: when the operation has been
answered, nothing is left to execute. -/
def FinishedWith (r : Run) (number : Nat) : Prop :=
  ∃ i op a rest, (r.advance i).service.reply = .operation op ∧
    (r.advance i).trace.count + 1 = number ∧
    (r.advance (i + 1)).service.session.active = a :: rest ∧ a.context.status = .finished

/-- The last line of a run that has ended. A failure is not reported in a line. -/
def finishLines (count : Nat) : Except String Unit → List String
  | .ok () => [s!"-- finished after {count} operations --"]
  | .error _ => []

theorem lines_of_ending? {r : Run} {ending : Except String Unit} (h : r.ending? = some ending) :
    r.lines = r.trace.lines.reverse ++ finishLines r.trace.count ending := by
  unfold lines
  rw [h]
  cases ending <;> rfl

end Run

section Whole

variable {every : Nat} {handle : Handle} {x : Course Trace × Bool} {r : Run}

/-- A run without pauses takes each step of its course. -/
theorem Trails.advance (hkept : Kept x.1) (h : Trails 0 handle x r) (k : Nat) :
    Trails 0 handle (stride^[k] x) (r.advance k) := by
  induction k with
  | zero => exact h
  | succ k ih =>
    rw [Function.iterate_succ_apply', Run.advance_succ]
    rcases ih.step (kept_iterate hkept k) with hnext | ⟨hne, _⟩
    · exact hnext
    · exact absurd rfl hne

/-- **A run with pauses** passes by each point of its course, and is always at one of them. -/
theorem Trails.exists_advance (hkept : Kept x.1) (h : Trails every handle x r) :
    (∀ k, ∃ n, Trails every handle (stride^[k] x) (r.advance n)) ∧
      ∀ n, ∃ k, Trails every handle (stride^[k] x) (r.advance n) := by
  have hstep : ∀ y q, Kept y.1 ∧ Trails every handle y q →
      (Kept (stride y).1 ∧ Trails every handle (stride y) q.step) ∨
        (Kept y.1 ∧ Trails every handle y q.step) ∧
          Kept (stride y).1 ∧ Trails every handle (stride y) q.step.step := by
    intro y q ⟨hy, hq⟩
    have hnext : Kept (stride y).1 := by
      rw [stride_fst]
      exact hy.step
    rcases hq.step hy with hlock | ⟨_, hsame, hlater⟩
    · exact .inl ⟨hnext, hlock⟩
    · exact .inr ⟨⟨hy, hsame⟩, hnext, hlater⟩
  obtain ⟨hforth, hback⟩ := Way.exists_iterate hstep ⟨hkept, h⟩
  refine ⟨fun k => ?_, fun n => ?_⟩
  · obtain ⟨n, _, hn⟩ := hforth k
    exact ⟨n, by rw [Run.advance_eq_iterate]; exact hn⟩
  · obtain ⟨k, _, hk⟩ := hback n
    exact ⟨k, by rw [Run.advance_eq_iterate]; exact hk⟩

/-- How a run ends whose course is over. -/
def endingOf (handle : Handle) : Course Trace → Option (Except String Unit)
  | .over none _ => some (.ok ())
  | .over (some fault) _ => some (.error (EngineError.runtimeFault handle fault).message)
  | _ => none

theorem Trails.ending?_eq (h : Trails every handle x r) : r.ending? = endingOf handle x.1 := by
  cases h with
  | executing | asking | between | completed | faulted => rfl

/-- What a run has printed when it is at its end. -/
theorem Trails.woven (h : Trails every handle x r) (hends : r.ending?.isSome) :
    Woven every (pausesOf every x.1.report.1.count x.2) x.1.report.1 r.trace := by
  cases h with
  | executing | asking | between => cases hends
  | completed woven | faulted woven => exact woven

/-- A course that is over stays as it is. -/
theorem iterate_stride_of_endingOf (hends : (endingOf handle x.1).isSome) (k : Nat) :
    stride^[k] x = x := by
  refine Function.iterate_fixed ?_ k
  obtain ⟨c, finished⟩ := x
  cases c with
  | executing | asking => cases hends
  | _ fault? t => rfl

/-- While a run without pauses executes, the flag is the status of its context. -/
theorem Trails.of_executing {m : Machine} {t : Trace} {finished : Bool}
    (h : Trails 0 handle (.executing m t, finished) r) :
    ∃ a rest, r.service.session.active = a :: rest ∧ r.trace.count = t.count ∧
      (a.context.status = .finished ↔ finished) ∧ (finished → m.frames = []) := by
  cases h with
  | executing underway phase status frames woven =>
    exact ⟨_, _, underway.active, woven.count, status, frames⟩
  | between repeats => exact absurd rfl repeats

theorem Trails.of_operation {op : Operation} (h : Trails every handle x r)
    (hreply : r.service.reply = .operation op) :
    ∃ m d t, x = (.asking m d t, false) ∧ r.trace.count = t.count := by
  cases h with
  | asking underway phase woven => exact ⟨_, _, _, rfl, woven.count⟩
  | executing | between | completed | faulted => cases hreply

/-- If the flag of the course is set, the context has finished with the last operation. -/
theorem Trails.finishedWith_of_flag (hkept : Kept x.1) (hx : x.2 = false) (h : Trails 0 handle x r)
    {k : Nat} (hflag : (stride^[k] x).2 = true) : r.FinishedWith (r.advance k).trace.count := by
  induction k with
  | zero =>
    rw [Function.iterate_zero, id, hx] at hflag
    cases hflag
  | succ k ih =>
    have hnow := h.advance hkept k
    have hnext := h.advance hkept (k + 1)
    have hstays := kept_iterate hkept k
    rw [Function.iterate_succ_apply'] at hflag hnext
    have hsucc := Run.advance_succ k r
    generalize stride^[k] x = y at hflag hnow hnext hstays ih
    generalize hq : r.advance k = q at hnow hsucc ih
    cases hnow with
    | executing underway phase status frames woven =>
      rw [hsucc]
      exact ih hflag
    | @asking t trace s a rest d underway phase woven =>
      obtain ⟨n, hanswered, -⟩ := answered_of_reachable hstays.1
      rw [stride_asking t false hanswered] at hflag hnext
      obtain ⟨b, others, hactive, hcount, hstatus, -⟩ := hnext.of_executing
      refine ⟨k, d.operation, b, others, by rw [hq], ?_, hactive, hstatus.mpr hflag⟩
      rw [hcount, hq]
      exact congrArg (· + 1) woven.count
    | between repeats => exact absurd rfl repeats
    | completed | faulted =>
      rw [hsucc]
      exact ih hflag

/-- If the context has finished with an operation, the run comes to its end with the flag set. -/
theorem Trails.flag_of_finishedWith (hkept : Kept x.1) (h : Trails 0 handle x r) {k number : Nat}
    (hends : (r.advance k).ending?.isSome) (hfinished : r.FinishedWith number) :
    (stride^[k] x).2 = true := by
  obtain ⟨i, op, a, rest, hreply, -, hactive, hstatus⟩ := hfinished
  obtain ⟨m, d, t, hasking, -⟩ := (h.advance hkept i).of_operation hreply
  have hstays := kept_iterate hkept i
  rw [hasking] at hstays
  obtain ⟨n, hanswered, -⟩ := answered_of_reachable hstays.1
  have hexecuting : stride^[i + 1] x =
      (.executing n (t.handled d.operation m.arena), n.frames.isEmpty) := by
    rw [Function.iterate_succ_apply', hasking, stride_asking t false hanswered]
  have hnext := h.advance hkept (i + 1)
  rw [hexecuting] at hnext
  obtain ⟨b, others, hactive', -, hflag, hframes⟩ := hnext.of_executing
  rw [hactive] at hactive'
  cases hactive'
  have hempty : n.frames.isEmpty = true := hflag.mp hstatus
  -- after the operation there is one step left, which ends the run
  have hover : stride^[i + 2] x = (.over none (t.handled d.operation m.arena), true) := by
    rw [Function.iterate_succ_apply', hexecuting, hempty, stride_executing,
      Course.step_of_frames_eq_nil _ (hframes hempty)]
  rw [(h.advance hkept k).ending?_eq] at hends
  rcases Nat.lt_or_ge (i + 1) k with hlt | hge
  · obtain ⟨j, rfl⟩ := Nat.exists_eq_add_of_le' hlt
    rw [Function.iterate_add_apply, hover]
    exact congrArg Prod.snd (Function.iterate_fixed (stride_over _ _ _) j)
  · obtain ⟨j, hj⟩ := Nat.exists_eq_add_of_le' hge
    rw [hj, Function.iterate_add_apply, iterate_stride_of_endingOf hends] at hexecuting
    rw [hexecuting] at hends
    cases hends

/-- What is printed by two runs of one course, one without pauses and one with them. -/
theorem Trails.lines_of_ending? {q : Run} {k n : Nat} {ending : Except String Unit}
    (hkept : Kept x.1) (h : Trails 0 handle x r)
    (hq : Trails every handle (stride^[k] x) (q.advance n))
    (hends : (r.advance k).ending? = some ending) :
    (q.advance n).ending? = some ending ∧
      let count := (r.advance k).trace.count
      let operations := (r.advance k).trace.lines.reverse
      operations.length = count ∧
      (q.advance n).lines =
        weave every (pausesOf every count (stride^[k] x).2) operations ++
          Run.finishLines count ending := by
  have hr := h.advance hkept k
  have hsame : (q.advance n).ending? = some ending := by
    rw [hq.ending?_eq, ← hr.ending?_eq, hends]
  have hplain := hr.woven (by rw [hends]; rfl)
  have hpaused := hq.woven (by rw [hsame]; rfl)
  have hlines := hplain.lines
  rw [pausesOf_zero, weave_zero] at hlines
  have hkeptLines : (stride^[k] x).1.report.1.lines.length = (stride^[k] x).1.report.1.count :=
    (kept_iterate hkept k).length_lines
  refine ⟨hsame, ?_, ?_⟩
  · rw [hlines, List.length_reverse, hkeptLines, hplain.count]
  · rw [Run.lines_of_ending? hsame, hpaused.lines, hpaused.count, hlines, hplain.count]

/-- An operation never ends a run. -/
theorem Trails.ending?_step (hkept : Kept x.1) (h : Trails every handle x r) {op : Operation}
    (hreply : r.service.reply = .operation op) : r.step.ending? = none := by
  obtain ⟨m, d, t, rfl, -⟩ := h.of_operation hreply
  rcases h.step hkept with hnext | ⟨_, hsame, _⟩
  · obtain ⟨n, hanswered, -⟩ := answered_of_reachable hkept.1
    rw [stride_asking t false hanswered] at hnext
    exact hnext.ending?_eq
  · exact hsame.ending?_eq

end Whole

/-! ## Starting -/

namespace Run

/-- What is started does not depend on the pauses. -/
theorem ofOptions_pausing (system : System) (options : RunOptions) (pauseEvery : Option Nat) :
    ofOptions system { options with pauseEvery } =
      (ofOptions system { options with pauseEvery := none }).map fun r =>
        { r with pauseEvery := pauseEvery.getD 0 } := by
  unfold ofOptions
  cases readSettings system options.settings with
  | error cause => rfl
  | ok settings =>
    cases readFile system options.file with
    | error cause => rfl
    | ok bytecode =>
      simp only [bind, Except.bind]
      cases Except.mapError EngineError.message (start system.room settings bytecode options.entry
        (options.memorySize.getD settings.memorySize)
        (options.stackSize.getD settings.stackSize)) with
      | error cause => rfl
      | ok started => rfl

theorem mapError_eq_ok {ε δ α : Type} {f : ε → δ} {x : Except ε α} {y : α}
    (h : x.mapError f = .ok y) : x = .ok y := by
  cases x with
  | error e => cases h
  | ok z => exact congrArg Except.ok (Except.ok.inj h)

/-- A run begins at the beginning of a course, whatever its pauses. -/
theorem trails_ofOptions {system : System} {options : RunOptions} {pauseEvery : Option Nat}
    {r : Run} (hlimit : ∀ settings, readSettings system options.settings = .ok settings →
      settings.stepLimit = none) (h : ofOptions system { options with pauseEvery } = .ok r) :
    r.pauseEvery = pauseEvery.getD 0 ∧ ∃ m, Kept (.executing m {}) ∧
      ∀ every, Trails every r.handle (.executing m {}, false) { r with pauseEvery := every } := by
  unfold ofOptions at h
  obtain ⟨settings, hsettings, h⟩ := bind_eq_ok_iff.mp h
  obtain ⟨bytecode, -, h⟩ := bind_eq_ok_iff.mp h
  obtain ⟨⟨handle, s⟩, hstart, h⟩ := bind_eq_ok_iff.mp h
  cases h
  have hstart := mapError_eq_ok hstart
  unfold start at hstart
  obtain ⟨p, -, hstart⟩ := bind_eq_ok_iff.mp hstart
  obtain ⟨⟨handle', registry⟩, hregister, hstart⟩ := bind_eq_ok_iff.mp hstart
  cases hstart
  obtain ⟨index, c, -, hfound, -, hcreate, rfl, rfl⟩ := Session.register_eq_ok hregister
  obtain ⟨-, hrunning, -⟩ := Session.settled_of_create hcreate
  have hreachable : c.machine.Reachable anyHost .resting :=
    @Session.reachable_of_create (fun _ => anyHost) _ _ _ _ _ _ _ _ _ hfound hcreate
  let s : Session :=
    { settings, room := system.room, registry := Registry.empty.insert (.idle c) }
  have hidle : s.registry.get? Registry.empty.nextHandle = some (.idle c) :=
    get?_insert_nextHandle wellFormed_empty (by decide) _
  obtain ⟨next, a, rest, hconsume, hnext, hphase, hstatus, hmachine⟩ :=
    Trails.consume_eq (s := s) (hlimit settings hsettings) hidle (by simp [hrunning])
  refine ⟨rfl, c.machine, ⟨hreachable, rfl⟩, fun every => ?_⟩
  rw [hconsume, ← hmachine]
  have hwoven : Woven every (pausesOf every 0 false) {} {} := by
    have hzero : pausesOf every 0 false = 0 := by simp [pausesOf]
    rw [hzero]
    exact ⟨rfl, (weave_zero _ _).symm, Nat.le_refl _⟩
  have hframes : false = true → a.context.machine.frames = [] := fun h =>
    absurd h Bool.false_ne_true
  exact .executing hnext hphase (by simp [hstatus]) hframes hwoven

end Run

/-! ## The tracer -/

/-- What is shown of a parameter: the bytes of the arena from its address on, as many as there are
and at most eight, each as two hexadecimal digits. An address behind the arena is out of bounds. -/
structure Shows (a : Arena) (address : Nat) : Prop where
  inside : address ≤ a.capacity → ∃ bytes : List UInt8,
    bytes.length = min 8 (a.capacity - address) ∧ a.loadBytes address bytes.length = .ok bytes ∧
    parameterText a address = s!"@{address}: " ++ " ".intercalate (bytes.map fun b =>
      String.ofList [(b.toNat / 16).digitChar, (b.toNat % 16).digitChar])
  outside : a.capacity < address → parameterText a address = s!"@{address}: <out of bounds>"

/-- A byte is written with the usual digits, the greater one first. -/
theorem hexPair_eq (b : UInt8) :
    Bytes.hexPair b = String.ofList [(b.toNat / 16).digitChar, (b.toNat % 16).digitChar] := by
  have hdigit : ∀ n < 16, Bytes.hexDigit n = n.digitChar := by decide
  have hb : b.toNat < 256 := b.toNat_lt
  rw [Bytes.hexPair, hdigit _ (by omega), hdigit _ (by omega)]

theorem shows_parameter (a : Arena) (address : Nat) : Shows a address where
  inside h := by
    have hroom : address + min 8 (a.capacity - address) ≤ a.capacity := by omega
    have hload : a.loadBytes address (min 8 (a.capacity - address)) =
        .ok (Bytes.slice a.bytes address (min 8 (a.capacity - address))) :=
      Arena.loadBytes_eq_ok_iff.mpr ⟨hroom, rfl⟩
    have hlength := Bytes.length_slice hroom
    refine ⟨_, hlength, by rw [hlength]; exact hload, ?_⟩
    rw [parameterText, show shownBytes = 8 from rfl, hload, ← funext hexPair_eq]
    rfl
  outside h := by
    have hshort : min shownBytes (a.capacity - address) = 0 := by omega
    have hload : a.loadBytes address 0 = .error (.outOfBounds address 0 a.capacity) := by
      rw [Arena.loadBytes, Arena.checkRange, if_neg (by omega)]
      rfl
    rw [parameterText, hshort, hload]

/-! ## Pausing -/

/-- What pauses after every so many operations make of a run. -/
structure Transparent (every : Nat) (plain paused : Except String Run) : Prop where
  /-- What cannot be started without pauses cannot be started with them, for the same cause. -/
  refused : ∀ cause, plain = .error cause → paused = .error cause
  /-- A run that ends without pauses ends in the same way with them. -/
  ends : ∀ r k ending, plain = .ok r → (r.advance k).ending? = some ending →
    ∃ q n pauses, paused = .ok q ∧ (q.advance n).ending? = some ending ∧
      let count := (r.advance k).trace.count
      let operations := (r.advance k).trace.lines.reverse
      operations.length = count ∧
      (r.advance k).lines = operations ++ Run.finishLines count ending ∧
      (q.advance n).lines = weave every pauses operations ++ Run.finishLines count ending ∧
      (0 < count ∧ every ∣ count ∧ r.FinishedWith count → pauses + 1 = count / every) ∧
      (¬ (0 < count ∧ every ∣ count ∧ r.FinishedWith count) → pauses = count / every)
  /-- An operation ends neither of them. -/
  operations : ∀ r i op, plain = .ok r ∨ paused = .ok r →
    (r.advance i).service.reply = .operation op → (r.advance (i + 1)).ending? = none

/-- **Pausing is transparent.** Take a file, a procedure, sizes and settings without a limit on
instructions. The run with pauses after every so many operations starts if the run without them
does, and ends if it does, in the same way. It prints the same lines in the same order, and pause
lines right after the operations at which a pause is due, with the number of operations so far.
There is one for each of these, except that the last is left out if the context has finished with
the last operation. The tracer fails no operation, whatever its parameters are, and prints a line
for it. -/
theorem pausing_is_transparent (system : System) (options : RunOptions) (every : Nat)
    (hevery : 1 ≤ every)
    (hlimit : ∀ settings, readSettings system options.settings = .ok settings →
      settings.stepLimit = none) :
    Transparent every (Run.ofOptions system { options with pauseEvery := none })
      (Run.ofOptions system { options with pauseEvery := some every }) ∧
    ∀ often t op a, ((tracer often).respond t op a).1.outcome = .ok () ∧
      ((tracer often).respond t op a).2.lines =
        (op.name ++ " params=[" ++ ", ".intercalate (op.params.map (parameterText a)) ++
          "] targets=[" ++ ", ".intercalate (op.targets.map fun address => s!"@{address}") ++
          "]") :: t.lines ∧
      ∀ address ∈ op.params, Shows a address := by
  refine ⟨?_, fun often t op a => ⟨rfl, rfl, fun address _ => shows_parameter a address⟩⟩
  rw [Run.ofOptions_pausing system options (some every)]
  cases hplain : Run.ofOptions system { options with pauseEvery := none } with
  | error cause =>
    refine ⟨fun _ h => h, fun _ _ _ h => ?_, fun _ _ _ h => ?_⟩
    · cases h
    · cases h with
      | inl h | inr h => cases h
  | ok r =>
    obtain ⟨hnever, m, hkept, htrails⟩ := Run.trails_ofOptions hlimit hplain
    have hnever : r.pauseEvery = 0 := hnever
    have hr : Trails r.pauseEvery r.handle (.executing m {}, false) r := htrails r.pauseEvery
    rw [hnever] at hr
    let q : Run := { r with pauseEvery := every }
    have hq : Trails every r.handle (.executing m {}, false) q := htrails every
    obtain ⟨hforth, hback⟩ := hq.exists_advance hkept
    refine ⟨fun _ h => ?_, ?_, ?_⟩
    · cases h
    · intro r' k ending heq hends
      cases heq
      have hover : (r.advance k).ending?.isSome := by
        rw [hends]
        rfl
      obtain ⟨n, hn⟩ := hforth k
      obtain ⟨hsame, hlength, hlines⟩ := hr.lines_of_ending? hkept hn hends
      refine ⟨q, n, _, rfl, hsame, hlength, Run.lines_of_ending? hends, hlines, ?_, ?_⟩
      · intro hlast
        have hflag := hr.flag_of_finishedWith hkept hover hlast.2.2
        have hpos : 0 < (r.advance k).trace.count / every :=
          Nat.div_pos (Nat.le_of_dvd hlast.1 hlast.2.1) hevery
        rw [pausesOf, if_pos ⟨hflag, hlast.1, hlast.2.1⟩]
        omega
      · intro hlast
        rw [pausesOf, if_neg]
        rintro ⟨hflag, hpos, hdvd⟩
        exact hlast ⟨hpos, hdvd, hr.finishedWith_of_flag hkept rfl hflag⟩
    · intro r' i op heq hreply
      rw [Run.advance_succ]
      cases heq with
      | inl heq =>
        cases heq
        exact (hr.advance hkept i).ending?_step (kept_iterate hkept i) hreply
      | inr heq =>
        cases heq
        obtain ⟨k, hk⟩ := hback i
        exact hk.ending?_step (kept_iterate hkept k) hreply

/-- A program with six operations, the first four of them inside of calls. It ends with the last
one, which shows the four bytes of its data. -/
def asking : Program where
  ops := #["ask"]
  data := [.bytes [42, 255, 0, 7]]
  procedures := #[
    { name := "main", exported := true,
      code := #[.call 1, .call 1, .opBegin, .opEnd 0 0,
        .opBegin, .dataAddress 0, .param, .dataAddress 2, .target, .opEnd 0 0] },
    { name := "twice", code := #[.opBegin, .opEnd 0 0, .opBegin, .opEnd 0 0] }]

/-- A system with the program in each of its files. -/
def askingSystem : System where
  read _ := .ok asking.encode
  room := 64

def askingOptions : RunOptions where
  file := "asking"
  stackSize := some 4
  memorySize := some 4

/-- What can be seen of a run. -/
structure Glimpse where
  trace : Trace
  /-- Whether there is more to come, if the call has ended. -/
  ended? : Option Bool := none
  operation? : Option Operation := none
  /-- The status of the context that is executed. -/
  status? : Option Status := none
  deriving DecidableEq

def Run.glimpse (r : Run) : Glimpse where
  trace := r.trace
  ended? := r.service.reply.ended?
  operation? := r.service.reply.operation?
  status? := r.service.session.active.head?.map (·.context.status)

/-- The program pauses after its second operation and after its fourth one, but not after its
last. -/
theorem asking_with_pauses :
    ∃ q n, Run.ofOptions askingSystem { askingOptions with pauseEvery := some 2 } = .ok q ∧
      (q.advance n).ending? = some (.ok ()) ∧
      (q.advance n).lines =
        ["ask params=[] targets=[]", "ask params=[] targets=[]", "-- paused after 2 operations --",
          "ask params=[] targets=[]", "ask params=[] targets=[]", "-- paused after 4 operations --",
          "ask params=[] targets=[]", "ask params=[@4: 2a ff 00 07] targets=[@6]",
          "-- finished after 6 operations --"] := by
  have hseen : (Run.ofOptions askingSystem askingOptions).toOption.map
      (fun r => ((r.advance 23).glimpse, (r.advance 24).glimpse, (r.advance 25).glimpse)) =
      let earlier := List.replicate 5 "ask params=[] targets=[]"
      let last := "ask params=[@4: 2a ff 00 07] targets=[@6]"
      some (
        { trace := ⟨5, earlier⟩, operation? := some ⟨"ask", [4], [6]⟩, status? := some .suspended },
        { trace := ⟨6, last :: earlier⟩, status? := some .finished },
        { trace := ⟨6, last :: earlier⟩, ended? := some false }) := by decide +kernel
  have hlimit : ∀ settings, readSettings askingSystem askingOptions.settings = .ok settings →
      settings.stepLimit = none := by
    intro settings hsettings
    cases hsettings
    rfl
  cases hplain : Run.ofOptions askingSystem askingOptions with
  | error cause =>
    rw [hplain] at hseen
    cases hseen
  | ok r =>
    rw [hplain] at hseen
    obtain ⟨hasks, hglimpses⟩ := Prod.mk.inj (Option.some.inj hseen)
    obtain ⟨hanswers, hends⟩ := Prod.mk.inj hglimpses
    have hending : (r.advance 25).ending? = some (.ok ()) := by
      rw [Run.ending?, Reply.eq_ended (congrArg Glimpse.ended? hends)]
    have hfinished : r.FinishedWith 6 := by
      obtain ⟨a, hactive, hstatus⟩ :=
        Option.map_eq_some_iff.mp (congrArg Glimpse.status? hanswers)
      obtain ⟨rest, hactive⟩ := List.head?_eq_some_iff.mp hactive
      refine ⟨23, ⟨"ask", [4], [6]⟩, a, rest, ?_, ?_, hactive, hstatus⟩
      · exact Reply.eq_operation (congrArg Glimpse.operation? hasks)
      · exact congrArg (·.trace.count + 1) hasks
    obtain ⟨⟨-, hpaused, -⟩, -⟩ :=
      pausing_is_transparent askingSystem askingOptions 2 (by decide) hlimit
    obtain ⟨q, n, pauses, hq, hsame, hrest⟩ := hpaused r 25 (.ok ()) hplain hending
    have htrace : (r.advance 25).trace = _ := congrArg Glimpse.trace hends
    rw [htrace] at hrest
    obtain ⟨-, -, hlines, hlast, -⟩ := hrest
    have hthree : pauses + 1 = 3 := hlast ⟨by decide, by decide, hfinished⟩
    obtain rfl : pauses = 2 := by omega
    exact ⟨q, n, hq, hsame, hlines.trans (by decide)⟩

end Hostcall.CommandLine
