import Hostcall.Proofs.Session.Courses
import Hostcall.Proofs.Session.StepCount

/-!
# A limit on steps bounds every call

With a limit of `n` instructions a call gets no further than `n` instructions and as many
operations, whatever else its host does meanwhile.

* `rank`: what the call has left. Everything that takes the call further makes it less, so that a
  call ends if only its host answers in the end (`Engaged.ends`). A host that makes no further calls
  needs no more instructions and answers than that (`Foremost.advance`).
* `step_limit_bounds_call`: the bounds, the end of every call, and when the limit is what ends it.
-/

namespace Hostcall

/-- Whether the call executes a context. -/
def Call.executes : Call → Bool
  | .resume _ | .consume _ | .run _ _ _ _ => true
  | _ => false

theorem Service.advance_of_not_isOpen {σ : Type} {v : Service σ} (host : Host σ)
    (hv : v.isOpen = false) (steps : Nat) : v.advance host steps = v := by
  cases steps with
  | zero => rfl
  | succ steps => simp [Service.advance, hv]

namespace Session

variable {s : Session} {a b : Activation} {rest : List Activation} {n depth : Nat} {c : Call}
  {calls : List Call}

/-! ## Calls that go on -/

/-- The session after so many calls of a host that goes on forever. -/
def sessionAt (s : Session) (stream : Nat → Call) : Nat → Session
  | 0 => s
  | k + 1 => ((s.sessionAt stream k).call (stream k)).2

/-- As long as the call above `depth` others is in progress, it is taken further in the end. -/
def Served (depth : Nat) (s : Session) (stream : Nat → Call) : Prop :=
  ∀ k, ∃ j, k ≤ j ∧ ((s.sessionAt stream j).active.length ≤ depth ∨
    (s.sessionAt stream j).Proceeds depth (stream j))

/-- How often the call can still be taken further. -/
def rank (n : Nat) (a : Activation) : Nat :=
  2 * (n - a.spent) + if a.phase = .executing then 0 else 1

theorem Stride.rank_le (h : Stride depth s c a b) (hspent : b.spent ≤ n) : rank n b ≤ rank n a := by
  unfold rank
  cases h with
  | aside like waits none => simp only [like.spent, like.executing, Nat.le_refl]
  | instruct phase counted one =>
    rw [if_pos phase]
    split <;> omega
  | answer before phase same none =>
    rw [if_pos phase]
    omega

theorem Stride.rank_lt (h : Stride depth s c a b) (hspent : b.spent ≤ n)
    (hproceeds : s.Proceeds depth c) : rank n b < rank n a := by
  unfold rank
  cases h with
  | aside like waits none => exact absurd hproceeds waits
  | instruct phase counted one =>
    rw [if_pos phase]
    split <;> omega
  | answer before phase same none =>
    rw [if_pos phase, if_neg before]
    omega

section

variable {stream : Nat → Call}

/-- While a host goes on, the call ends or is in progress, with no more left than before. -/
theorem Engaged.sessionAt {k : Nat} (h : Engaged n depth (s.sessionAt stream k) a) (j : Nat) :
    (∃ i, (s.sessionAt stream i).active.length ≤ depth) ∨
      ∃ b, Engaged n depth (s.sessionAt stream (k + j)) b ∧ rank n b ≤ rank n a := by
  induction j with
  | zero => exact .inr ⟨a, h, Nat.le_refl _⟩
  | succ j ih =>
    rcases ih with hended | ⟨b, hb, hle⟩
    · exact .inl hended
    · rcases hb.call (stream (k + j)) with ⟨x, hx, hstride⟩ | hends
      · exact .inr ⟨x, hx, Nat.le_trans (hstride.rank_le hx.spent) hle⟩
      · exact .inl ⟨k + j + 1, hends.length_le⟩

/-- **Termination.** A call that is taken further again and again has ended at some time. -/
theorem Engaged.ends {k : Nat} (h : Engaged n depth (s.sessionAt stream k) a)
    (hserved : s.Served depth stream) : ∃ j, (s.sessionAt stream j).active.length ≤ depth := by
  induction hrank : rank n a using Nat.strongRecOn generalizing k a with
  | ind r ih =>
    obtain ⟨j, hkj, hover | hproceeds⟩ := hserved k
    · exact ⟨j, hover⟩
    · obtain ⟨i, rfl⟩ := Nat.exists_eq_add_of_le hkj
      rcases h.sessionAt i with hended | ⟨b, hb, hle⟩
      · exact hended
      · rcases hb.call (stream (k + i)) with ⟨x, hx, hstride⟩ | hends
        · have hlt := hstride.rank_lt hx.spent hproceeds
          exact ih (rank n x) (by omega) (k := k + i + 1) hx rfl
        · exact ⟨k + i + 1, hends.length_le⟩

end

/-! ## Hosts that make no further calls -/

/-- The wishes of a host leave the operation before it. -/
theorem Engaged.foldl_grant (h : Engaged n depth s a) (hs : s.active = a :: rest)
    (hrest : rest.length = depth) {d : Dispatch} {control : Control} {paused : Bool}
    (hphase : a.phase = .handling d control paused) (wishes : List Wish) :
    ∃ b control' paused', Engaged n depth (wishes.foldl grant s) b ∧
      (wishes.foldl grant s).active = b :: rest ∧ b.phase = .handling d control' paused' ∧
      b.spent = a.spent := by
  induction wishes generalizing s a control paused with
  | nil => exact ⟨a, control, paused, h, hs, hphase, rfl⟩
  | cons wish wishes ih =>
    have hcall : ∃ c, s.grant wish = (s.call c).2 := by
      cases wish with
      | perform action => exact ⟨.perform action, rfl⟩
      | goTo label => exact ⟨.goTo label, rfl⟩
      | forceReturn => exact ⟨.forceReturn, rfl⟩
      | pause => exact ⟨.pause, rfl⟩
    obtain ⟨c, hc⟩ := hcall
    let b := heeding a d (Machine.heed (a.context.machine, control) wish)
      (paused || wish = .pause)
    have hactive : (s.grant wish).active = b :: rest := by rw [grant_eq hs hphase]
    have hb : Engaged n depth (s.grant wish) b := by
      have hplace : (s.call c).2.active = [] ++ b :: rest := by rw [← hc, hactive, List.nil_append]
      rw [hc]
      exact h.next c hplace hrest (fun heq => nomatch heq) h.spent
    obtain ⟨x, control', paused', hx⟩ := ih hb hactive rfl
    exact ⟨x, control', paused', hx⟩

section

variable {σ : Type} {v : Service σ}

theorem Foremost.isOpen (h : Foremost n depth (v.reply, v.session) a) : v.isOpen = true := by
  have htells := h.tells
  dsimp only at htells
  unfold Service.isOpen
  generalize v.reply = reply at htells
  cases htells with
  | working | operation => rfl

theorem Ends.isOpen (h : Ends n depth s c a) (state : σ) :
    (Service.ofCall state (s.call c)).isOpen = false := h.closed

/-- **One step** of a host that serves the call takes it further. -/
theorem Foremost.step (h : Foremost n depth (v.reply, v.session) a) (host : Host σ) :
    (v.step host).isOpen = false ∨
      ∃ b, Foremost n depth ((v.step host).reply, (v.step host).session) b ∧
        rank n b < rank n a := by
  obtain ⟨reply, state, s⟩ := v
  obtain ⟨rest, hs, hrest⟩ := h.active
  have htells := h.tells
  dsimp only at hs htells
  cases htells with
  | working phase =>
    have hstep : Service.step host ⟨.working, state, s⟩ = .ofCall state (s.call .tick) := rfl
    have hproceeds : s.Proceeds depth .tick := ⟨a, rest, hs, hrest, by rw [phase]; rfl⟩
    rw [hstep]
    rcases h.engaged.tick hs hrest phase with ⟨b, hb, hstride⟩ | hends
    · exact .inr ⟨b, hb, hstride.rank_lt hb.engaged.spent hproceeds⟩
    · exact .inl (hends.isOpen state)
  | @operation d control paused phase =>
    have hcurrent : s.current? = some a.context :=
      current?_eq_some hs (by rw [phase]; exact fun heq => nomatch heq)
    generalize hanswer : host.respond state d.operation a.context.arena = answer
    obtain ⟨x, control', paused', hx, hactive, hphase, hspent⟩ :=
      h.engaged.foldl_grant hs hrest phase answer.1.wishes
    have hstep : Service.step host ⟨.operation d.operation, state, s⟩ =
        .ofCall answer.2 ((answer.1.wishes.foldl grant s).call (.finish answer.1.outcome)) := by
      simp only [Service.step, hcurrent, hanswer]
      rfl
    have hproceeds : (answer.1.wishes.foldl grant s).Proceeds depth (.finish answer.1.outcome) :=
      ⟨x, rest, hactive, hrest, by rw [hphase]; rfl⟩
    have hrank : rank n x = rank n a := by
      unfold rank
      rw [hspent, hphase, phase]
      rfl
    rw [hstep, ← hrank]
    rcases hx.finish hactive hrest hphase answer.1.outcome with ⟨b, hb, hstride⟩ | hends
    · exact .inr ⟨b, hb, hstride.rank_lt hb.engaged.spent hproceeds⟩
    · exact .inl (hends.isOpen answer.2)

/-- **Run.** The host is done after as many steps as the call has left. -/
theorem Foremost.advance (host : Host σ) {steps : Nat}
    (h : Foremost n depth (v.reply, v.session) a) (hsteps : rank n a < steps) :
    (v.advance host steps).isOpen = false := by
  induction steps generalizing v a with
  | zero => exact absurd hsteps (Nat.not_lt_zero _)
  | succ steps ih =>
    rw [Service.advance, if_pos h.isOpen]
    rcases h.step host with hover | ⟨b, hb, hlt⟩
    · rw [Service.advance_of_not_isOpen host hover]
      exact hover
    · exact ih hb (by omega)

end

/-! ## Every call -/

/-- What a limit of `n` instructions makes of a call above `depth` others that begins in a session,
whatever calls its host makes. -/
structure Limited (n depth : Nat) (s : Session) : Prop where
  executed_le : ∀ calls, s.Spans depth calls → s.executed depth calls ≤ n
  dispatched_le : ∀ calls, s.Spans depth calls → (s.dispatched depth calls).length ≤ n
  /-- The next instruction exceeds the limit if and only if it has been used up and a frame is
  left. -/
  exceeds_iff : ∀ calls a rest, s.Spans depth calls →
    (s.callAll calls).2.active = a :: rest → rest.length = depth → a.phase = .executing →
    ((s.callAll calls).2.tick.1.fault? = some (a.handle, .stepLimitExceeded n) ↔
      s.executed depth calls = n ∧ a.context.machine.Unfinished)
  /-- Unless the context has been cancelled, the call ends with the limit if and only if that has
  been used up, a frame is left and nothing else has ended the call. -/
  ends_iff : ∀ calls c, s.Closes depth (calls ++ [c]) →
    ∃ a rest, (s.callAll calls).2.active = a :: rest ∧ rest.length = depth ∧
      (a.cancelled = false →
        (((s.callAll calls).2.call c).1.fault? = some (a.handle, .stepLimitExceeded n) ↔
          s.executed depth (calls ++ [c]) = n ∧ a.context.machine.Unfinished ∧
            a.endsOtherwise ((s.callAll calls).2.call c).1 = false))
  /-- The call ends if it is taken further in the end. -/
  ends : ∀ stream, s.Served depth stream → ∃ k, (s.sessionAt stream k).active.length ≤ depth

/-- A call that is over at once. -/
theorem limited_of_length_le (h : s.active.length ≤ depth) : Limited n depth s := by
  have hnil : ∀ calls, s.Spans depth calls → calls = [] := by
    intro calls hspans
    cases calls with
    | nil => rfl
    | cons c calls => exact absurd hspans.1 (Nat.not_lt.mpr h)
  refine ⟨fun calls hspans => ?_, fun calls hspans => ?_, ?_, ?_, fun _ _ => ⟨0, h⟩⟩
  · rw [hnil calls hspans]
    exact Nat.zero_le _
  · rw [hnil calls hspans]
    exact Nat.zero_le _
  · intro calls a rest hspans hactive hrest
    rw [hnil calls hspans] at hactive
    have hlength := congrArg List.length hactive
    simp only [callAll, List.length_cons] at hlength
    omega
  · intro calls c hcloses
    obtain ⟨hspans, hlt, _⟩ := spans_of_closes s c hcloses
    rw [hnil calls hspans] at hlt
    exact absurd hlt (Nat.not_lt.mpr h)

/-- A call that begins to execute. -/
theorem Engaged.limited (h : Engaged n depth s a) (hnew : a.spent = 0) : Limited n depth s := by
  have hrun : ∀ {calls}, s.Spans depth calls → s.executed depth calls ≤ n ∧
      (depth < (s.callAll calls).2.active.length →
        ∃ b, Engaged n depth (s.callAll calls).2 b ∧ b.spent = s.executed depth calls) := by
    intro calls hspans
    have hrun := h.callAll hspans
    rw [hnew, Nat.zero_add] at hrun
    exact hrun
  refine ⟨fun calls hspans => (hrun hspans).1, fun calls hspans => ?_, ?_, ?_, fun stream => ?_⟩
  · exact Nat.le_trans (length_dispatched_le depth s calls) (hrun hspans).1
  · intro calls b rest hspans hactive hrest hphase
    have hdepth : depth < (s.callAll calls).2.active.length := by
      rw [hactive, List.length_cons, hrest]
      exact Nat.lt_succ_self _
    obtain ⟨x, hx, hspent⟩ := (hrun hspans).2 hdepth
    cases hx.innermost hactive hrest
    rw [← hspent]
    have hback := (hx.tracked.head hactive).goesBack
    have hticked := ticked hactive hphase hback.settles hx.limit
    have hle := hx.spent
    generalize (s.callAll calls).2.tick = result at hticked
    cases hticked with
    | finished done => exact iff_of_false (fun hfault => nomatch hfault) fun hright => done hright.2
    | limited more spent => exact iff_of_true rfl ⟨by omega, more⟩
    | failed more spent met =>
      refine iff_of_false (fun hfault => ?_) fun hright => by omega
      cases hfault
      cases met
    | onward more spent counted tells =>
      refine iff_of_false (fun hfault => ?_) fun hright => by omega
      rw [tells.fault?_eq_none] at hfault
      cases hfault
  · intro calls c hcloses
    obtain ⟨hspans, hdepth, hover⟩ := spans_of_closes s c hcloses
    obtain ⟨x, hx, hspent⟩ := (hrun hspans).2 hdepth
    rcases hx.call c with ⟨b, hb, _⟩ | hends
    · exact absurd hb.lt_length (Nat.not_lt.mpr hover)
    · obtain ⟨rest, hactive, hrest, _⟩ := hends.active
      refine ⟨x, rest, hactive, hrest, fun huncancelled => ?_⟩
      have hexecuted : s.executed depth (calls ++ [c]) =
          x.spent + (s.callAll calls).2.steps depth c := by
        rw [executed_append, hspent]
        rfl
      rw [hexecuted]
      exact hends.limit huncancelled
  · have hbegin : Engaged n depth (s.sessionAt stream 0) a := h
    exact hbegin.ends

/-- A call that is to execute a context begins to do so, or it is over at once. -/
theorem call_of_executes (s : Session) (hcall : c.executes = true) :
    (∃ a, (s.call c).1 = .working ∧ (s.call c).2.active = a :: s.active ∧ a.phase = .executing ∧
      a.spent = 0) ∨
    (s.call c).2.active = s.active ∧ (s.call c).1.goesOn = false ∧ (s.call c).1.fault? = none := by
  cases c with
  | resume h | consume h =>
    have hfaultless := faultless_execute s h
    rcases execute_cases s h _ with ⟨cause, heq, _⟩ | ⟨x, _, heq⟩ | ⟨x, _, heq⟩
    · exact .inr ⟨congrArg (·.2.active) heq, congrArg (·.1.goesOn) heq, hfaultless _⟩
    · exact .inr ⟨congrArg (·.2.active) heq, congrArg (·.1.goesOn) heq, hfaultless _⟩
    · exact .inl ⟨_, congrArg (·.1) heq, congrArg (·.2.active) heq, rfl, rfl⟩
  | run bytecode entry memorySize stackSize =>
    rcases run_cases s bytecode entry memorySize stackSize with ⟨cause, heq⟩ | ⟨x, _, heq⟩
    · exact .inr ⟨congrArg (·.2.active) heq, congrArg (·.1.goesOn) heq,
        faultless_run s bytecode entry memorySize stackSize⟩
    · exact .inl ⟨_, congrArg (·.1) heq, congrArg (·.2.active) heq, rfl, rfl⟩
  | start | startProgram | fork | cancel | status | contains | size | handles | inspect | tick
    | finish | leave | perform | goTo | forceReturn | pause | isPaused => cases hcall

/-- **The limit on steps.** Take any history of an engine with a limit of `n` instructions and a
call that is to execute a context, of any program. Either it is over at once, without a fault, or it
begins to execute. Whatever calls its host then makes, also inside of it, the call executes at most
`n` instructions and hands over at most `n` operations; it ends if the host answers in the end; and
unless its context is cancelled meanwhile, it ends with the limit if and only if `n` instructions
have been executed, a frame is left and nothing else has ended it. A host that makes no further
calls is done after `2 * n + 1` instructions and answers. -/
theorem step_limit_bounds_call (settings : Settings) (room : Nat) (before : List Call) (call : Call)
    {n : Nat} (hlimit : settings.stepLimit = some n) (hcall : call.executes = true) :
    let s := (callAll { settings, room } before).2
    ((s.call call).1 = .working ∧ (s.call call).2.active.length = s.active.length + 1 ∨
      (s.call call).2.active = s.active ∧ (s.call call).1.fault? = none) ∧
    Limited n s.active.length (s.call call).2 ∧
    ∀ {σ : Type} (host : Host σ) (state : σ),
      ((Service.ofCall state (s.call call)).advance host (2 * n + 1)).isOpen = false := by
  intro s
  have hs : s.Tracked fun _ _ _ => True := tracked_history settings room (abidesAll_any _ _)
  have hsettings : s.settings = settings := settings_callAll _ before
  rcases call_of_executes s hcall with
    ⟨a, hreply, hactive, hphase, hnew⟩ | ⟨hactive, hover, hfaultless⟩
  · have hengaged : Engaged n s.active.length (s.call call).2 a := by
      refine ⟨tracked_call hs fun _ _ _ _ => trivial, ?_, ⟨[], s.active, hactive, rfl⟩, ?_, ?_⟩
      · rw [(transition_call s call).settings_eq, hsettings, hlimit]
      · rw [hphase]
        exact fun heq => nomatch heq
      · rw [hnew]
        exact Nat.zero_le _
    have hforemost : Foremost n s.active.length (s.call call) a := by
      refine ⟨hengaged, ⟨s.active, hactive, rfl⟩, ?_⟩
      rw [hreply]
      exact .working hphase
    have hrank : rank n a = 2 * n := by simp [rank, hnew, hphase]
    refine ⟨.inl ⟨hreply, ?_⟩, hengaged.limited hnew, fun host state => ?_⟩
    · rw [hactive, List.length_cons]
    · have hserved : Foremost n s.active.length ((Service.ofCall state (s.call call)).reply,
          (Service.ofCall state (s.call call)).session) a := hforemost
      exact hserved.advance host (by omega)
  · refine ⟨.inr ⟨hactive, hfaultless⟩, limited_of_length_le (Nat.le_of_eq (by rw [hactive])),
      fun host state => ?_⟩
    have hclosed : (Service.ofCall state (s.call call)).isOpen = false := hover
    rw [Service.advance_of_not_isOpen host hclosed]
    exact hclosed

/-- A program that asks the same again and again. -/
def insisting : Program where
  ops := #["ask"]
  procedures := #[{
    name := "main"
    exported := true
    code := #[.opBegin, .opEnd 0 0, .jump 0] }]

/-- An engine with a limit of four instructions. -/
def insistingStarted : Session :=
  (callAll { settings := { stepLimit := some 4 }, room := 64 }
    [.startProgram insisting "main" 0 4]).2

/-- Before the question is answered for the first time, another context is executed. -/
def insistingServed : List Call :=
  [.tick, .tick, .fork ⟨0, 1⟩ "main" 0 4, .resume ⟨1, 1⟩, .tick, .tick, .finish (.ok ()),
    .finish (.ok ()), .tick, .tick]

/-- The limit is what ends the call, after four instructions of its own. -/
theorem insistingServed_meets_limit :
    let s := (insistingStarted.consume ⟨0, 1⟩).2
    (s.callAll insistingServed).2.tick.1.fault? = some (⟨0, 1⟩, .stepLimitExceeded 4) ∧
      s.executed 0 insistingServed = 4 ∧ (s.dispatched 0 insistingServed).length ≤ 4 := by
  intro s
  have hspans : s.Spans 0 insistingServed := by
    simp only [insistingServed, Spans]
    decide +kernel
  have hfault : (s.callAll insistingServed).2.tick.1.fault? =
      some (⟨0, 1⟩, .stepLimitExceeded 4) := by decide +kernel
  have hseen : (s.callAll insistingServed).2.active.map
      (fun a => (a.handle, decide (a.phase = .executing))) = [(⟨0, 1⟩, true)] := by decide +kernel
  obtain ⟨a, hactive, ha⟩ := List.map_eq_singleton_iff.mp hseen
  obtain ⟨hhandle, hphase⟩ := Prod.mk.inj ha
  obtain ⟨-, hlimited, -⟩ := step_limit_bounds_call { stepLimit := some 4 } 64
    [.startProgram insisting "main" 0 4] (.consume ⟨0, 1⟩) rfl rfl
  change Limited 4 insistingStarted.active.length s at hlimited
  have hdepth : insistingStarted.active.length = 0 := by decide +kernel
  rw [hdepth] at hlimited
  have hexceeds := hlimited.exceeds_iff insistingServed a [] hspans hactive rfl
    (of_decide_eq_true hphase)
  rw [hhandle] at hexceeds
  exact ⟨hfault, (hexceeds.mp hfault).1, hlimited.dispatched_le insistingServed hspans⟩

end Session

end Hostcall
