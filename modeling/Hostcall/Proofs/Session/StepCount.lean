import Hostcall.Proofs.Session.Strides

/-!
# Counting the instructions of a call

A call of the engine that executes a context is counted in instructions. Its host may make any other
calls before it answers an operation, and these have counts of their own.

* `executed depth s calls`: the instructions that the call above `depth` others executes.
* `Engaged.call`: under a limit, one call of the host leaves the call aside, takes it one
  instruction or one answer further (`Stride`), or ends it. How it ends decides whether the limit is
  what has ended it (`Ends.limit`).
* `Engaged.callAll`: as long as the call is in progress, the number of instructions is what it has
  counted itself, which is within the limit.
* `length_dispatched_le`: no more operations are handed over than instructions are executed.
-/

namespace Hostcall

/-- Whether a call is in progress after the reply. -/
def Reply.goesOn : Reply → Bool
  | .working | .operation _ => true
  | _ => false

/-- Whether a call has ended with a fault other than a limit on steps. -/
def Reply.failsOtherwise : Reply → Bool
  | .refused (.runtimeFault _ fault) => !fault.isLimit
  | _ => false

/-- Whether the call ends with another fault, after the operation of `resume` or with a pause of
`consume`. -/
def Activation.endsOtherwise (a : Activation) (reply : Reply) : Bool :=
  reply.failsOtherwise || a.stops

namespace Session

/-! ## Counting -/

/-- The number of instructions that the call above `depth` others executes when a host makes one
call, which is one or none. -/
def steps (depth : Nat) (s : Session) (c : Call) : Nat :=
  if s.active.length = depth + 1 ∧ c.isTick = true ∧ (s.call c).1.isStep = true then 1 else 0

/-- The number of instructions that the call above `depth` others executes. -/
def executed (depth : Nat) : Session → List Call → Nat
  | _, [] => 0
  | s, c :: rest => s.steps depth c + (s.call c).2.executed depth rest

/-- More than `depth` calls are in progress whenever a host makes one of the calls. -/
def Spans (depth : Nat) : Session → List Call → Prop
  | _, [] => True
  | s, c :: rest => depth < s.active.length ∧ (s.call c).2.Spans depth rest

/-- The call above `depth` others is taken further. -/
def Proceeds (depth : Nat) (s : Session) (c : Call) : Prop :=
  ∃ a rest, s.active = a :: rest ∧ rest.length = depth ∧ a.phase.furthers c = true

variable {s t : Session} {a b : Activation} {rest : List Activation} {n depth : Nat} {c : Call}
  {calls : List Call}

theorem executed_append (s : Session) (calls more : List Call) :
    s.executed depth (calls ++ more) =
      s.executed depth calls + (s.callAll calls).2.executed depth more := by
  induction calls generalizing s with
  | nil => simp [executed, callAll]
  | cons c rest ih =>
    show s.steps depth c + (s.call c).2.executed depth (rest ++ more) = _
    rw [ih, ← Nat.add_assoc]
    rfl

theorem spans_of_closes (s : Session) (c : Call) (h : s.Closes depth (calls ++ [c])) :
    s.Spans depth calls ∧ depth < (s.callAll calls).2.active.length ∧
      ((s.callAll calls).2.call c).2.active.length ≤ depth := by
  induction calls generalizing s with
  | nil => exact ⟨trivial, h.1, h.2⟩
  | cons d rest ih =>
    obtain ⟨hspans, hends⟩ := ih (s.call d).2 h.2
    exact ⟨⟨h.1, hspans⟩, hends⟩

/-! ## One call of the host -/

/-- The call above `depth` others is in progress under a limit of `n` instructions, and `a` is what
it is doing. -/
structure Engaged (n depth : Nat) (s : Session) (a : Activation) : Prop where
  tracked : s.Tracked fun _ _ _ => True
  limit : s.settings.stepLimit = some n
  place : ∃ inner base, s.active = inner ++ a :: base ∧ base.length = depth
  phase : a.phase ≠ .inspecting
  spent : a.spent ≤ n

/-- The call above `depth` others is in progress and the innermost one, and its host has been told
so. -/
structure Foremost (n depth : Nat) (called : Reply × Session) (a : Activation) : Prop where
  engaged : Engaged n depth called.2 a
  active : ∃ rest, called.2.active = a :: rest ∧ rest.length = depth
  tells : a.Tells called.1

/-- A call of the host after which the call is still in progress. -/
inductive Stride (depth : Nat) (s : Session) (c : Call) (a b : Activation) : Prop where
  | aside (like : a.Like b) (waits : ¬s.Proceeds depth c) (none : s.steps depth c = 0)
  | instruct (phase : a.phase = .executing) (counted : b.spent = a.spent + 1)
      (one : s.steps depth c = 1)
  | answer (before : a.phase ≠ .executing) (phase : b.phase = .executing)
      (same : b.spent = a.spent) (none : s.steps depth c = 0)

/-- A call of the host that ends the call. -/
structure Ends (n depth : Nat) (s : Session) (c : Call) (a : Activation) : Prop where
  active : ∃ rest, s.active = a :: rest ∧ rest.length = depth ∧ (s.call c).2.active = rest
  closed : (s.call c).1.goesOn = false
  bill : a.spent + s.steps depth c ≤ n
  /-- Unless the context has been cancelled, the limit is what ends the call if and only if so many
  instructions have been executed, a frame is left, and nothing else has ended it. -/
  limit : a.cancelled = false →
    ((s.call c).1.fault? = some (a.handle, .stepLimitExceeded n) ↔
      a.spent + s.steps depth c = n ∧ a.context.machine.Unfinished ∧
        a.endsOtherwise (s.call c).1 = false)

theorem Engaged.innermost (h : Engaged n depth s a) (hs : s.active = b :: rest)
    (hrest : rest.length = depth) : b = a := by
  obtain ⟨inner, base, hplace, hbase⟩ := h.place
  rw [hs] at hplace
  cases inner with
  | nil =>
    cases hplace
    rfl
  | cons x inner =>
    have hlength := congrArg List.length hplace
    simp only [List.cons_append, List.length_cons, List.length_append] at hlength
    omega

theorem Engaged.lt_length (h : Engaged n depth s a) : depth < s.active.length := by
  obtain ⟨inner, base, hplace, hbase⟩ := h.place
  rw [hplace, List.length_append, List.length_cons]
  omega

/-- The session goes on, with the call still in progress. -/
theorem Engaged.next (h : Engaged n depth s a) (c : Call) {inner base : List Activation}
    (hplace : (s.call c).2.active = inner ++ b :: base) (hbase : base.length = depth)
    (hphase : b.phase ≠ .inspecting) (hspent : b.spent ≤ n) :
    Engaged n depth (s.call c).2 b where
  tracked := tracked_call h.tracked fun _ _ _ _ => trivial
  limit := by rw [(transition_call s c).settings_eq, h.limit]
  place := ⟨inner, base, hplace, hbase⟩
  phase := hphase
  spent := hspent

theorem steps_of_length_ne (hlength : s.active.length ≠ depth + 1) : s.steps depth c = 0 :=
  if_neg fun h => hlength h.1

theorem steps_of_isTick (htick : c.isTick = false) : s.steps depth c = 0 := by
  simp [steps, htick]

theorem steps_of_isStep (hstep : (s.call c).1.isStep = false) : s.steps depth c = 0 := by
  simp [steps, hstep]

theorem steps_of_furthers (hs : s.active = a :: rest) (h : a.phase.furthers c = false) :
    s.steps depth c = 0 := by
  cases htick : c.isTick with
  | false => exact steps_of_isTick htick
  | true =>
    cases c <;> cases htick
    apply steps_of_isStep
    rw [call_tick_of_furthers hs h]
    rfl

/-- The call is left aside. -/
theorem Engaged.aside (h : Engaged n depth s a) (c : Call) (hwaits : ¬s.Proceeds depth c) :
    ∃ b, Engaged n depth (s.call c).2 b ∧ Stride depth s c a b := by
  obtain ⟨inner, base, hplace, hbase⟩ := h.place
  obtain ⟨⟨inner', b, base', hplace', hbase', hlike⟩, hnone⟩ :
      (∃ inner' b base', (s.call c).2.active = inner' ++ b :: base' ∧
        base'.length = base.length ∧ a.Like b) ∧ s.steps depth c = 0 := by
    cases inner with
    | nil =>
      have hfurthers : a.phase.furthers c = false := by
        apply Bool.eq_false_iff.mpr
        intro hfurthers
        exact hwaits ⟨a, base, hplace, hbase, hfurthers⟩
      exact ⟨(aside_of_furthers hplace hfurthers).innermost hplace h.phase,
        steps_of_furthers hplace hfurthers⟩
    | cons x inner =>
      refine ⟨(transition_call s c).outer hplace, steps_of_length_ne ?_⟩
      rw [hplace]
      simp only [List.cons_append, List.length_cons, List.length_append]
      omega
  have hphase := mt hlike.inspecting.mp h.phase
  have hspent : b.spent ≤ n := by
    rw [hlike.spent]
    exact h.spent
  exact ⟨b, h.next c hplace' (hbase'.trans hbase) hphase hspent, .aside hlike hwaits hnone⟩

/-- The call goes on, and its host is told so. -/
theorem Engaged.foremost (h : Engaged n depth s a) {reply : Reply}
    (heq : s.call c = (reply, { s with active := b :: rest })) (hrest : rest.length = depth)
    (htells : b.Tells reply) (hspent : b.spent ≤ n) : Foremost n depth (s.call c) b := by
  have hplace : (s.call c).2.active = [] ++ b :: rest := by
    rw [heq]
    rfl
  refine ⟨h.next c hplace hrest htells.phase_ne_inspecting hspent, ⟨rest, hplace, hrest⟩, ?_⟩
  rw [heq]
  exact htells

/-- A fault other than the limit ends the call. -/
theorem ends_of_fail (hs : s.active = a :: rest) (hrest : rest.length = depth) {fault : Fault}
    (heq : s.call c = s.fail a rest fault) (hother : fault.isLimit = false)
    (hbill : a.spent + s.steps depth c ≤ n) : Ends n depth s c a := by
  refine ⟨⟨rest, hs, hrest, by rw [heq]; rfl⟩, by rw [heq]; rfl, hbill, fun _ => ?_⟩
  rw [heq]
  refine iff_of_false (fun hfault => ?_) fun hright => ?_
  · cases hfault
    cases hother
  · have hends := hright.2.2
    simp [fail, Activation.endsOtherwise, Reply.failsOtherwise, hother] at hends

/-- An instruction of the call. -/
theorem Engaged.tick (h : Engaged n depth s a) (hs : s.active = a :: rest)
    (hrest : rest.length = depth) (hphase : a.phase = .executing) :
    (∃ b, Foremost n depth (s.call .tick) b ∧ Stride depth s .tick a b) ∨
      Ends n depth s .tick a := by
  have hback := (h.tracked.head hs).goesBack
  have hlength : s.active.length = depth + 1 := by rw [hs, List.length_cons, hrest]
  have hspent := h.spent
  obtain ⟨result, heq⟩ : ∃ result, s.call .tick = result := ⟨_, rfl⟩
  have hsteps : s.steps depth .tick = if result.1.isStep = true then 1 else 0 := by
    simp [steps, hlength, heq, Call.isTick]
  have hticked : Ticked n s a rest (s.call .tick) := ticked hs hphase hback.settles h.limit
  rw [heq] at hticked
  cases hticked with
  | finished done =>
    have hnone : s.steps depth .tick = 0 := hsteps
    refine .inr ⟨⟨rest, hs, hrest, by rw [heq]; rfl⟩, by rw [heq]; rfl, by omega, fun _ => ?_⟩
    rw [heq]
    exact iff_of_false (fun hfault => nomatch hfault) fun hright => done hright.2.1
  | limited more spent =>
    have hnone : s.steps depth .tick = 0 := hsteps
    have hstops : a.stops = false := by simp [Activation.stops, hphase]
    refine .inr ⟨⟨rest, hs, hrest, by rw [heq]; rfl⟩, by rw [heq]; rfl, by omega, fun _ => ?_⟩
    rw [heq]
    exact iff_of_true rfl ⟨by omega, more, hstops⟩
  | failed more spent met =>
    have hother := Fault.isLimit_of_ofInstruction met
    have hone : s.steps depth .tick = 1 := by
      rw [hsteps]
      simp [fail, Reply.isStep, hother]
    exact .inr (ends_of_fail hs hrest heq hother (by omega))
  | onward more spent counted tells =>
    have hone : s.steps depth .tick = 1 := by rw [hsteps, if_pos tells.isStep]
    exact .inl ⟨_, h.foremost heq hrest tells (by omega), .instruct hphase counted hone⟩

/-- An answer to the operation of the call. -/
theorem Engaged.finish (h : Engaged n depth s a) (hs : s.active = a :: rest)
    (hrest : rest.length = depth) {d : Dispatch} {control : Control} {paused : Bool}
    (hphase : a.phase = .handling d control paused) (outcome : Except String Unit) :
    (∃ b, Foremost n depth (s.call (.finish outcome)) b ∧ Stride depth s (.finish outcome) a b) ∨
      Ends n depth s (.finish outcome) a := by
  have hback := (h.tracked.head hs).goesBack
  have hnone : s.steps depth (.finish outcome) = 0 := steps_of_isTick rfl
  have hspent := h.spent
  obtain ⟨result, heq⟩ : ∃ result, s.call (.finish outcome) = result := ⟨_, rfl⟩
  have hconcluded : Concluded s a rest (s.call (.finish outcome)) :=
    concluded hs hphase hback outcome
  rw [heq] at hconcluded
  cases hconcluded with
  | dropped cancelled =>
    refine .inr ⟨⟨rest, hs, hrest, by rw [heq]; rfl⟩, by rw [heq]; rfl, by omega, ?_⟩
    intro huncancelled
    rw [cancelled] at huncancelled
    cases huncancelled
  | failed other => exact .inr (ends_of_fail hs hrest heq other (by omega))
  | stopped active stops =>
    refine .inr ⟨⟨rest, hs, hrest, by rw [heq]; exact active⟩, by rw [heq]; rfl, by omega, ?_⟩
    intro _
    rw [heq]
    refine iff_of_false (fun hfault => nomatch hfault) fun hright => ?_
    have hends := hright.2.2
    simp [Activation.endsOtherwise, stops] at hends
  | onward same phase =>
    have hexecuting : a.phase ≠ .executing := by
      rw [hphase]
      exact fun heq => nomatch heq
    exact .inl ⟨_, h.foremost heq hrest (.working phase) (by omega),
      .answer hexecuting phase same hnone⟩

/-- **One call of the host.** -/
theorem Engaged.call (h : Engaged n depth s a) (c : Call) :
    (∃ b, Engaged n depth (s.call c).2 b ∧ Stride depth s c a b) ∨ Ends n depth s c a := by
  by_cases hproceeds : s.Proceeds depth c
  · obtain ⟨b, rest, hs, hrest, hfurthers⟩ := hproceeds
    cases h.innermost hs hrest
    cases hphase : a.phase with
    | executing =>
      rw [hphase] at hfurthers
      cases c <;> cases hfurthers
      exact (h.tick hs hrest hphase).imp_left fun ⟨b, hb, hstride⟩ => ⟨b, hb.engaged, hstride⟩
    | handling d control paused =>
      rw [hphase] at hfurthers
      cases c <;> cases hfurthers
      exact (h.finish hs hrest hphase _).imp_left
        fun ⟨b, hb, hstride⟩ => ⟨b, hb.engaged, hstride⟩
    | inspecting => exact absurd hphase h.phase
  · exact .inl (h.aside c hproceeds)

/-! ## Any number of calls -/

theorem Stride.spent_eq (h : Stride depth s c a b) : b.spent = a.spent + s.steps depth c := by
  cases h with
  | aside like waits none => rw [like.spent, none, Nat.add_zero]
  | instruct phase counted one => rw [counted, one]
  | answer before phase same none => rw [same, none, Nat.add_zero]

theorem Ends.length_le (h : Ends n depth s c a) : (s.call c).2.active.length ≤ depth := by
  obtain ⟨rest, _, hrest, hover⟩ := h.active
  rw [hover]
  exact Nat.le_of_eq hrest

/-- **Run.** Instructions are counted as long as the call is in progress, and there are no more of
them than the limit allows. -/
theorem Engaged.callAll (h : Engaged n depth s a) (hspans : s.Spans depth calls) :
    a.spent + s.executed depth calls ≤ n ∧
      (depth < (s.callAll calls).2.active.length →
        ∃ b, Engaged n depth (s.callAll calls).2 b ∧
          b.spent = a.spent + s.executed depth calls) := by
  induction calls generalizing s a with
  | nil => exact ⟨h.spent, fun _ => ⟨a, h, rfl⟩⟩
  | cons c calls ih =>
    show a.spent + (s.steps depth c + (s.call c).2.executed depth calls) ≤ n ∧ _
    rcases h.call c with ⟨b, hb, hstride⟩ | hends
    · obtain ⟨hle, hgoes⟩ := ih hb hspans.2
      have hspent := hstride.spent_eq
      refine ⟨by omega, fun hdepth => ?_⟩
      obtain ⟨x, hx, hxspent⟩ := hgoes hdepth
      refine ⟨x, hx, ?_⟩
      show x.spent = a.spent + (s.steps depth c + (s.call c).2.executed depth calls)
      omega
    · have hover := hends.length_le
      -- the call is over, so the host has made no further call in it
      have hnil : calls = [] := by
        cases calls with
        | nil => rfl
        | cons d calls => exact absurd hspans.2.1 (Nat.not_lt.mpr hover)
      subst hnil
      exact ⟨hends.bill, fun hdepth => absurd hdepth (Nat.not_lt.mpr hover)⟩

/-! ## Operations -/

/-- An operation is handed over by the innermost call, which stops executing with it. -/
theorem Transition.phase_of_operation {reply : Reply} {op : Operation}
    (h : s.Transition reply t) (hop : reply.operation? = some op) :
    ∃ a b rest, s.active = a :: rest ∧ t.active = b :: rest ∧ a.phase = .executing ∧
      b.phase ≠ .executing := by
  have hlast : ∀ (phase : Phase) more, (phase.lastReply more).operation? = none := by
    intro phase more
    cases phase with
    | executing | handling | inspecting => rfl
  cases h with
  | stay _ operation =>
    rw [operation] at hop
    cases hop
  | issue | launch | discard | execute | inspect | cancel => cases hop
  | onward active onward =>
    cases onward with
    | dispatch phase same => exact ⟨_, _, _, active, rfl, phase, fun heq => nomatch heq⟩
    | instruct | use | request | answered => cases hop
  | checkIn | drop =>
    rw [hlast] at hop
    cases hop
  | close active phase handling ends =>
    rcases ends with rfl | ⟨fault, rfl⟩
    · cases hop
    · cases hop

theorem isTick_of_operation {op : Operation} (hop : (s.call c).1.operation? = some op) :
    c.isTick = true := by
  obtain ⟨a, b, rest, hs, ht, ha, hb⟩ := (transition_call s c).phase_of_operation hop
  cases htick : c.isTick with
  | true => rfl
  | false =>
    have hfurthers : a.phase.furthers c = false := by
      rw [ha]
      exact htick
    exact absurd (((aside_of_furthers hs hfurthers).like hs ht).executing.mpr ha) hb

/-- An operation is handed over by an instruction. -/
theorem length_dispatched_le (depth : Nat) (s : Session) (calls : List Call) :
    (s.dispatched depth calls).length ≤ s.executed depth calls := by
  induction calls generalizing s with
  | nil => exact Nat.le_refl _
  | cons c calls ih =>
    have hrest := ih (s.call c).2
    have hone : (if s.active.length = depth + 1 then (s.call c).1.operation?.toList
        else []).length ≤ s.steps depth c := by
      by_cases hlength : s.active.length = depth + 1
      · rw [if_pos hlength]
        cases hop : (s.call c).1.operation? with
        | none => exact Nat.zero_le _
        | some op =>
          have hstep : (s.call c).1.isStep = true := by
            generalize (s.call c).1 = reply at hop
            cases reply <;> first | rfl | cases hop
          simp [steps, hlength, isTick_of_operation hop, hstep]
      · rw [if_neg hlength]
        exact Nat.zero_le _
    rw [dispatched, executed, List.length_append]
    omega

end Session

end Hostcall
