import Mathlib.Data.List.Basic
import Hostcall.CommandLine.Run
import Hostcall.Proofs.Session.Agreement
import Hostcall.Proofs.Session.Returns

/-!
# Runs with pauses follow the course of runs without them

The tracer asks for a pause after every so many operations, and a run that has paused goes on at
once. So a run does what its program and the quiet tracer do together (`Course.step`), but takes a
step more for each pause, and has a line more in its trace.

* `weave`: lines with pauses, and `pausesOf`: how many pauses there are. A pause that is due is
  passed over if the context has finished with the operation, so the course is followed together
  with a flag that says so (`stride`).
* `Kept`: the machine of a course is one of a context, so what the tracer answers is never refused
  (`answered_of_reachable`).
* `Trails`: a run has come to a point of a course. `Trails.step`: it goes on as the course does.
-/

namespace Hostcall.CommandLine

open Attempt Registry

/-! ## Lines with pauses -/

/-- Lines with a pause after every so many of them, so many times. A pause names the number of lines
before it, other pauses apart. -/
def weave (every pauses : Nat) (lines : List String) : List String :=
  ((List.range pauses).flatMap fun i =>
    (lines.drop (every * i)).take every ++ [s!"-- paused after {every * (i + 1)} operations --"]) ++
  lines.drop (every * pauses)

section Weaving

variable {every pauses : Nat} {lines : List String}

theorem weave_zero (every : Nat) (lines : List String) : weave every 0 lines = lines := by
  simp [weave]

/-- A line that follows all pauses stays the last one. -/
theorem weave_append (h : every * pauses ≤ lines.length) (line : String) :
    weave every pauses (lines ++ [line]) = weave every pauses lines ++ [line] := by
  have hchunks : ∀ i ∈ List.range pauses,
      ((lines ++ [line]).drop (every * i)).take every ++
          [s!"-- paused after {every * (i + 1)} operations --"] =
        (lines.drop (every * i)).take every ++
          [s!"-- paused after {every * (i + 1)} operations --"] := by
    intro i hi
    have hnext : every * (i + 1) ≤ every * pauses :=
      Nat.mul_le_mul_left every (List.mem_range.mp hi)
    rw [Nat.mul_succ] at hnext
    rw [List.drop_append_of_le_length (by omega), List.take_append_of_le_length]
    rw [List.length_drop]
    omega
  unfold weave
  rw [List.flatMap_congr hchunks, List.drop_append_of_le_length h, List.append_assoc]

/-- A pause after all lines is the last line. -/
theorem weave_succ (h : every * (pauses + 1) = lines.length) :
    weave every (pauses + 1) lines = weave every pauses lines ++ [pauseText lines.length] := by
  have hlast : (lines.drop (every * pauses)).take every = lines.drop (every * pauses) := by
    apply List.take_of_length_le
    rw [List.length_drop, ← h, Nat.mul_succ]
    omega
  unfold weave
  rw [List.range_succ, List.flatMap_append, List.flatMap_singleton, hlast, h, List.drop_length,
    List.append_nil, List.append_assoc]
  rfl

/-- A pause is due after so many operations. -/
def Due (every count : Nat) : Prop := every ≠ 0 ∧ count % every = 0

instance : Decidable (Due every pauses) := inferInstanceAs (Decidable (_ ∧ _))

/-- The number of pauses in a run of so many operations. The last one is left out if the context has
finished with the last operation. -/
def pausesOf (every count : Nat) (finished : Bool) : Nat :=
  if finished ∧ 0 < count ∧ every ∣ count then count / every - 1 else count / every

/-- An operation after which no pause is due, or with which the context finishes, brings no further
pause. -/
theorem pausesOf_succ {count : Nat} {finished : Bool} (h : Due every (count + 1) → finished) :
    pausesOf every (count + 1) finished = pausesOf every count false := by
  simp only [pausesOf, Bool.false_eq_true, false_and, if_false, Nat.succ_div]
  by_cases hdvd : every ∣ count + 1
  · have hne : every ≠ 0 := by
      intro hzero
      simp [hzero] at hdvd
    have hfinished : finished := h ⟨hne, Nat.mod_eq_zero_of_dvd hdvd⟩
    simp [hdvd, hfinished]
  · simp [hdvd]

/-- A pause that is due is one more than there have been. -/
theorem mul_pausesOf_succ {count : Nat} (h : Due every (count + 1)) :
    every * (pausesOf every count false + 1) = count + 1 := by
  have hdvd : every ∣ count + 1 := Nat.dvd_of_mod_eq_zero h.2
  have hsucc : (count + 1) / every = count / every + 1 := by
    rw [Nat.succ_div, if_pos hdvd]
  simp only [pausesOf, Bool.false_eq_true, false_and, if_false]
  rw [← hsucc, Nat.mul_div_cancel' hdvd]

/-- Without pauses there are none. -/
theorem pausesOf_zero (count : Nat) (finished : Bool) : pausesOf 0 count finished = 0 := by
  simp [pausesOf]

/-- A trace is another one with pauses woven in. -/
structure Woven (every pauses : Nat) (plain t : Trace) : Prop where
  count : t.count = plain.count
  lines : t.lines.reverse = weave every pauses plain.lines.reverse
  enough : every * pauses ≤ plain.lines.length

/-- The trace after an operation. -/
def Trace.handled (t : Trace) (op : Operation) (a : Arena) : Trace where
  count := t.count + 1
  lines := operationText op a :: t.lines

theorem Woven.handled {plain t : Trace} (h : Woven every pauses plain t) (op : Operation)
    (a : Arena) : Woven every pauses (plain.handled op a) (t.handled op a) where
  count := by simp [Trace.handled, h.count]
  lines := by
    have henough : every * pauses ≤ plain.lines.reverse.length := by simpa using h.enough
    simp only [Trace.handled, List.reverse_cons, h.lines, weave_append henough]
  enough := by
    have henough := h.enough
    simp only [Trace.handled, List.length_cons]
    omega

theorem Woven.print {plain t : Trace} (h : Woven every pauses plain t)
    (hlines : plain.lines.length = plain.count) (hcount : every * (pauses + 1) = plain.count) :
    Woven every (pauses + 1) plain (t.print (pauseText t.count)) where
  count := h.count
  lines := by
    have hlength : every * (pauses + 1) = plain.lines.reverse.length := by simp [hlines, hcount]
    rw [weave_succ hlength]
    simp [Trace.print, h.lines, h.count, hlines]
  enough := Nat.le_of_eq (hcount.trans hlines.symm)

end Weaving

/-! ## The course of a run -/

/-- A host that asks for nothing but what it is granted, which is everything. -/
abbrev anyHost : Machine → Wish → Prop := fun _ _ => True

/-- What is true of the course of a run: its machine is one of a context, and there is a line for
each operation. -/
def Kept : Course Trace → Prop
  | .executing m t => m.Reachable anyHost .resting ∧ t.lines.length = t.count
  | .asking m d t => m.Reachable anyHost (.handling d .proceed) ∧ t.lines.length = t.count
  | .over _ t => t.lines.length = t.count

theorem Kept.length_lines {c : Course Trace} (h : Kept c) :
    c.report.1.lines.length = c.report.1.count := by
  cases c with
  | executing | asking => exact h.2
  | _ fault? =>
    cases fault? with
    | none | some => exact h

theorem respond_tracer (every : Nat) (t : Trace) (op : Operation) (a : Arena) :
    (tracer every).respond t op a =
      ({ wishes := if Due every (t.count + 1) then [.pause] else [] }, t.handled op a) := rfl

/-- What the tracer answers is never refused. -/
theorem answered_of_reachable {m : Machine} {d : Dispatch}
    (h : m.Reachable anyHost (.handling d .proceed)) :
    ∃ n, Session.answered m d .proceed (.ok ()) = .ok n ∧ n.Reachable anyHost .resting := by
  obtain ⟨k, n, hcomplete, hsettles⟩ := h.goesBack.complete d .proceed rfl .proceed
  refine ⟨n, ?_, (h.complete hcomplete).settle hsettles.settle⟩
  exact bind_eq_ok_iff.mpr ⟨k, hcomplete, hsettles.settle⟩

theorem step_asking {m : Machine} {d : Dispatch} (t : Trace) {n : Machine}
    (h : Session.answered m d .proceed (.ok ()) = .ok n) :
    Course.step (tracer 0) (.asking m d t) = .executing n (t.handled d.operation m.arena) := by
  rw [Course.step_asking, respond_tracer]
  simp [Due, h, Course.after]

/-- **One step of the course.** -/
theorem Kept.step {c : Course Trace} (h : Kept c) : Kept (c.step (tracer 0)) := by
  cases c with
  | executing m t =>
    obtain ⟨hm, hlines⟩ := h
    cases hadvance : Session.advance {} 0 m with
    | error fault =>
      simp only [Course.step, hadvance]
      exact hlines
    | ok progress =>
      simp only [Course.step, hadvance]
      obtain ⟨k, hsettle, hprogress⟩ := Session.advance_eq_ok hadvance
      have hk := hm.settle hsettle
      cases progress with
      | finished => exact hlines
      | next n => exact ⟨hk.next hprogress.1 hprogress.2, hlines⟩
      | dispatch n d => exact ⟨hk.dispatch hprogress.1 hprogress.2, hlines⟩
  | asking m d t =>
    obtain ⟨hm, hlines⟩ := h
    obtain ⟨n, hn, hreachable⟩ := answered_of_reachable hm
    rw [step_asking t hn]
    exact ⟨hreachable, by simp [Trace.handled, hlines]⟩
  | _ fault? t => exact h

/-- One step of a course, and whether the context has finished with the last operation. -/
def stride (x : Course Trace × Bool) : Course Trace × Bool :=
  match x.1, x.1.step (tracer 0) with
  | .asking _ _ _, .executing m t => (.executing m t, m.frames.isEmpty)
  | _, c => (c, x.2)

theorem stride_fst (x : Course Trace × Bool) : (stride x).1 = x.1.step (tracer 0) := by
  unfold stride
  split
  · rename_i heq
    exact heq.symm
  · rfl

theorem stride_executing (m : Machine) (t : Trace) (finished : Bool) :
    stride (.executing m t, finished) = (Course.step (tracer 0) (.executing m t), finished) := rfl

theorem stride_over (fault? : Option Fault) (t : Trace) (finished : Bool) :
    stride (.over fault? t, finished) = (.over fault? t, finished) := rfl

theorem stride_asking {m n : Machine} {d : Dispatch} (t : Trace) (finished : Bool)
    (h : Session.answered m d .proceed (.ok ()) = .ok n) :
    stride (.asking m d t, finished) =
      (.executing n (t.handled d.operation m.arena), n.frames.isEmpty) := by
  simp only [stride, step_asking t h]

theorem kept_iterate {x : Course Trace × Bool} (h : Kept x.1) (k : Nat) :
    Kept (stride^[k] x).1 := by
  induction k with
  | zero => exact h
  | succ k ih =>
    rw [Function.iterate_succ_apply', stride_fst]
    exact ih.step

/-! ## Runs that follow the course -/

/-- A run consumes its context again after each pause. -/
def way (handle : Handle) : Way := ⟨handle, .consume, true⟩

/-- A run has come to a point of a course. Its trace is that of the course with a pause after every
so many operations. -/
inductive Trails (every : Nat) (handle : Handle) : Course Trace × Bool → Run → Prop where
  | executing {t trace : Trace} {s : Session} {a : Activation} {rest : List Activation}
      {finished : Bool} (underway : (way handle).Underway .empty s a rest)
      (phase : a.phase = .executing) (status : a.context.status = .finished ↔ finished)
      (frames : finished → a.context.machine.frames = [])
      (woven : Woven every (pausesOf every t.count finished) t trace) :
      Trails every handle (.executing a.context.machine t, finished)
        ⟨handle, every, ⟨.working, trace, s⟩⟩
  | asking {t trace : Trace} {s : Session} {a : Activation} {rest : List Activation}
      {d : Dispatch} (underway : (way handle).Underway .empty s a rest)
      (phase : a.phase = .handling d .proceed false)
      (woven : Woven every (pausesOf every t.count false) t trace) :
      Trails every handle (.asking a.context.machine d t, false)
        ⟨handle, every, ⟨.operation d.operation, trace, s⟩⟩
  /-- The run has paused, and the line that says so is still to be printed. -/
  | between {pauses : Nat} {t trace : Trace} {s : Session} {c : Context} (repeats : every ≠ 0)
      (unlimited : s.settings.stepLimit = none) (idle : s.registry.get? handle = some (.idle c))
      (status : c.status ≠ .finished) (due : every * (pauses + 1) = t.count)
      (woven : Woven every pauses t trace) :
      Trails every handle (.executing c.machine t, false)
        ⟨handle, every, ⟨.ended true, trace, s⟩⟩
  | completed {t trace : Trace} {s : Session} {finished : Bool}
      (woven : Woven every (pausesOf every t.count finished) t trace) :
      Trails every handle (.over none t, finished) ⟨handle, every, ⟨.ended false, trace, s⟩⟩
  | faulted {t trace : Trace} {s : Session} {fault : Fault} {finished : Bool}
      (woven : Woven every (pausesOf every t.count finished) t trace) :
      Trails every handle (.over (some fault) t, finished)
        ⟨handle, every, ⟨.refused (.runtimeFault handle fault), trace, s⟩⟩

namespace Trails

variable {every : Nat} {handle : Handle} {x : Course Trace × Bool} {r : Run} {s : Session}
  {a : Activation} {rest : List Activation} {t trace : Trace}

/-- One instruction. -/
theorem tick {finished : Bool} (underway : (way handle).Underway .empty s a rest)
    (phase : a.phase = .executing) (status : a.context.status = .finished ↔ finished)
    (frames : finished → a.context.machine.frames = [])
    (woven : Woven every (pausesOf every t.count finished) t trace) :
    Trails every handle (stride (.executing a.context.machine t, finished))
      ⟨handle, every, .ofCall trace s.tick⟩ := by
  have hadvance := Session.advance_of_unlimited underway.unlimited a.spent a.context.machine
  have hnothing := fun h => Course.step_of_frames_eq_nil (tracer 0) (frames h) t
  rw [stride_executing]
  simp only [Session.tick, underway.active, phase, hadvance, Course.step] at hnothing ⊢
  generalize Session.advance {} 0 a.context.machine = advanced at hnothing ⊢
  cases advanced with
  | error fault =>
    simp only [Service.ofCall, Session.fail, underway.handle]
    exact .faulted woven
  | ok progress =>
    cases progress with
    | finished => exact .completed woven
    | next m =>
      let b : Activation := { a with
        context := { a.context with machine := m }, spent := a.spent + 1, phase := .executing }
      refine .executing (a := b) (underway.goesOn rfl rfl rfl) rfl status ?_ woven
      intro hfinished
      cases hnothing hfinished
    | dispatch m d =>
      cases finished with
      | true => cases hnothing rfl
      | false =>
        let b : Activation := { a with
          context := { a.context with machine := m, status := .suspended }
          spent := a.spent + 1
          phase := .handling d .proceed false }
        exact .asking (a := b) (underway.goesOn rfl rfl rfl) rfl woven

/-- A consumed context goes on after an operation, unless the host pauses it before it has
finished. -/
theorem finish_eq {d : Dispatch} {control : Control} {paused : Bool} {n : Machine}
    (underway : (way handle).Underway .empty s a rest)
    (phase : a.phase = .handling d control paused)
    (answered : Session.answered a.context.machine d control (.ok ()) = .ok n) :
    s.finish (.ok ()) =
      if paused ∧ n.frames ≠ [] then
        s.checkIn a rest (a.context.withMachine n .suspended) (.ended true)
      else (.working, { s with active :=
        { a with context := a.context.withMachine n .running, phase := .executing } :: rest }) := by
  have hmode : a.mode = .consume := underway.mode
  have hstatus : (a.context.withMachine n .suspended).status ≠ .finished ↔ n.frames ≠ [] :=
    not_congr (Session.settled_withMachine _ _ (by decide))
  simp [Session.finish, underway.active, phase, underway.uncancelled, hmode, answered, hstatus]

/-- What the answer of the tracer comes to: it asks for a pause if one is due, and for nothing
else. -/
theorem accept_eq {d : Dispatch} {n : Machine} (underway : (way handle).Underway .empty s a rest)
    (phase : a.phase = .handling d .proceed false)
    (answered : Session.answered a.context.machine d .proceed (.ok ()) = .ok n) :
    let b := Session.heeding a d (a.context.machine, .proceed)
      (decide (Due every (trace.count + 1)))
    s.accept ((tracer every).respond trace d.operation a.context.arena).1 =
      if Due every (trace.count + 1) ∧ n.frames ≠ [] then
        Session.checkIn { s with active := b :: rest } b rest (b.context.withMachine n .suspended)
          (.ended true)
      else (.working, { s with active :=
        { b with context := b.context.withMachine n .running, phase := .executing } :: rest }) := by
  intro b
  have hb : (way handle).Underway .empty { s with active := b :: rest } b rest :=
    underway.goesOn rfl rfl rfl
  have hheeded : ((if Due every (trace.count + 1) then [.pause] else [] : List Wish).foldl
      Machine.heed (a.context.machine, .proceed)) = (a.context.machine, .proceed) := by
    split <;> rfl
  have hpaused : (false ||
      decide (.pause ∈ (if Due every (trace.count + 1) then [.pause] else [] : List Wish))) =
        decide (Due every (trace.count + 1)) := by
    by_cases hdue : Due every (trace.count + 1) <;> simp [hdue]
  rw [respond_tracer, Session.accept, Session.foldl_grant underway.active phase, hheeded, hpaused,
    finish_eq hb rfl answered]
  simp only [decide_eq_true_eq]

/-- The answer to an operation. The run pauses if a pause is due, unless the context has
finished. -/
theorem accept {d : Dispatch} (underway : (way handle).Underway .empty s a rest)
    (phase : a.phase = .handling d .proceed false)
    (reachable : a.context.machine.Reachable anyHost (.handling d .proceed))
    (woven : Woven every (pausesOf every t.count false) t trace) :
    Trails every handle (stride (.asking a.context.machine d t, false))
      ⟨handle, every, .ofCall (trace.handled d.operation a.context.arena)
        (s.accept ((tracer every).respond trace d.operation a.context.arena).1)⟩ := by
  obtain ⟨n, hanswered, -⟩ := answered_of_reachable reachable
  have hwoven := woven.handled d.operation a.context.arena
  rw [stride_asking t false hanswered, accept_eq underway phase hanswered, woven.count]
  split
  · rename_i hpauses
    obtain ⟨hdue, hframes⟩ := hpauses
    obtain ⟨resident, hget⟩ := contains_iff.mp (show s.registry.contains handle from underway.holds)
    have hsettled : (a.context.withMachine n .suspended).Settled :=
      Session.settled_withMachine _ _ (by decide)
    have hmore : n.frames.isEmpty = false := by simpa using hframes
    let after : Session :=
      { s with
        registry := s.registry.set handle (.idle (a.context.withMachine n .suspended))
        active := rest }
    have hafter : after.settings.stepLimit = none := underway.unlimited
    have hhandle : a.handle = handle := underway.handle
    rw [hmore]
    simp only [Session.checkIn, Session.heeding, hhandle]
    exact .between hdue.1 hafter (get?_set_self hget _)
      (fun hstatus => hframes (hsettled.mp hstatus)) (mul_pausesOf_succ hdue) hwoven
  · rename_i hgoes
    have hfinished : Due every (t.count + 1) → n.frames.isEmpty := by
      intro hdue
      simpa [hdue] using hgoes
    let c : Activation := { a with
      context := a.context.withMachine n .running
      phase := .executing }
    have hc : (way handle).Underway .empty { s with active := c :: rest } c rest :=
      underway.goesOn rfl rfl rfl
    have hsettled : c.context.Settled := Session.settled_withMachine _ _ (by decide)
    refine .executing hc rfl (hsettled.trans List.isEmpty_iff.symm) List.isEmpty_iff.mp ?_
    rw [← pausesOf_succ hfinished] at hwoven
    exact hwoven

/-- A context that has not finished is consumed from where it is. -/
theorem consume_eq {c : Context} (unlimited : s.settings.stepLimit = none)
    (idle : s.registry.get? handle = some (.idle c)) (status : c.status ≠ .finished) :
    ∃ next a rest, s.consume handle = (.working, next) ∧
      (way handle).Underway .empty next a rest ∧ a.phase = .executing ∧
      a.context.status = .running ∧ a.context.machine = c.machine := by
  have hconsume : s.consume handle =
      (.working, s.checkOut handle .consume .executing { c with status := .running }) := by
    simp only [Session.consume, Session.execute, Session.idle_eq_ok_iff.mpr idle, if_neg status]
  refine ⟨_, _, _, hconsume, ⟨unlimited, rfl, rfl, rfl, rfl, ?_⟩, rfl, rfl, rfl⟩
  exact (contains_set _).trans (contains_iff.mpr ⟨_, idle⟩)

/-- **One step.** A run goes on as the course does, unless it first has to say that it has
paused. -/
theorem step (hkept : Kept x.1) (h : Trails every handle x r) :
    Trails every handle (stride x) r.step ∨
      every ≠ 0 ∧ Trails every handle x r.step ∧ Trails every handle (stride x) r.step.step := by
  cases h with
  | executing underway phase status frames woven =>
    exact .inl (tick underway phase status frames woven)
  | @asking t trace s a rest d underway phase woven =>
    left
    have hcurrent : s.current? = some a.context :=
      Session.current?_eq_some underway.active (by simp [phase])
    have hstep : Run.step ⟨handle, every, ⟨.operation d.operation, trace, s⟩⟩ =
        ⟨handle, every, .ofCall (trace.handled d.operation a.context.arena)
          (s.accept ((tracer every).respond trace d.operation a.context.arena).1)⟩ := by
      simp only [Run.step, Service.step, hcurrent]
      rfl
    rw [hstep]
    exact accept underway phase hkept.1 woven
  | @between pauses t trace s c repeats unlimited idle status due woven =>
    right
    have hpauses : pausesOf every t.count false = pauses + 1 := by
      simp only [pausesOf, Bool.false_eq_true, false_and, if_false, ← due]
      exact Nat.mul_div_cancel_left _ (Nat.pos_of_ne_zero repeats)
    have hwoven : Woven every (pausesOf every t.count false) t
        (trace.print (pauseText trace.count)) := by
      rw [hpauses]
      exact woven.print hkept.2 due
    obtain ⟨next, a, rest, hconsume, hnext, hphase, hrunning, hmachine⟩ :=
      consume_eq unlimited idle status
    have hstep : Run.step ⟨handle, every, ⟨.ended true, trace, s⟩⟩ =
        ⟨handle, every, ⟨.working, trace.print (pauseText trace.count), next⟩⟩ := by
      simp only [Run.step, Run.trace, hconsume]
      rfl
    have hstatus : a.context.status = .finished ↔ false = true := by simp [hrunning]
    have hframes : false = true → a.context.machine.frames = [] := fun h =>
      absurd h Bool.false_ne_true
    rw [hstep, ← hmachine]
    exact ⟨repeats, .executing hnext hphase hstatus hframes hwoven,
      tick hnext hphase hstatus hframes hwoven⟩
  | completed woven => exact .inl (.completed woven)
  | faulted woven => exact .inl (.faulted woven)

end Trails

end Hostcall.CommandLine
