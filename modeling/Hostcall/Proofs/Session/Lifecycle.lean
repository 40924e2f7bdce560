import Hostcall.Proofs.Machine.Memory
import Hostcall.Proofs.Session.Consistency
import Hostcall.Proofs.Session.Labels

/-!
# The life of a registered context

A handle is registered when its context is started, and it stays so until a call on it ends without
more to come. In between, hosts make calls inside of calls: they cancel handles, the slots of which
are used again, and execute other contexts to their end.

* `Closes depth s calls`: the calls bring the session, with the last of them only, down to `depth`
  calls in progress. A call on a session is over when what follows it `Closes` the number of calls
  that were in progress before.
* `Transition.within`, `Transition.ends`: what one call of the engine does to a call in progress,
  with others inside of it, and how it ends.
* `registration_lifecycle`: where registered contexts are, and when a handle is still registered
  after a call on it.
-/

namespace Hostcall

open Registry

/-- The arena of a context is in order, with the sizes that it was made with. -/
def Context.Live (c : Context) : Prop :=
  ∃ stackSize memorySize, c.arena.WellFormed stackSize memorySize

namespace Session

/-- The calls bring a session down to `depth` calls in progress, and none but the last does. -/
def Closes (depth : Nat) : Session → List Call → Prop
  | s, [] => s.active.length ≤ depth
  | s, c :: rest => depth < s.active.length ∧ (s.call c).2.Closes depth rest

/-- The operations that a call above `depth` others hands over. -/
def dispatched (depth : Nat) : Session → List Call → List Operation
  | _, [] => []
  | s, c :: rest =>
    (if s.active.length = depth + 1 then (s.call c).1.operation?.toList else []) ++
      (s.call c).2.dispatched depth rest

variable {s t : Session} {issued : Nat} {a : Activation} {inner base : List Activation}
  {reply : Reply}

theorem Closes.eq_nil {depth : Nat} {calls : List Call} (h : s.Closes depth calls)
    (hdepth : s.active.length ≤ depth) : calls = [] := by
  cases calls with
  | nil => rfl
  | cons c rest => exact absurd h.1 (Nat.not_lt.mpr hdepth)

/-- A call that is still in progress has its end ahead of it. -/
theorem Closes.ne_nil {calls : List Call} (hactive : s.active = inner ++ a :: base)
    (h : s.Closes base.length calls) : calls ≠ [] := by
  rintro rfl
  have hdepth : s.active.length ≤ base.length := h
  rw [hactive, List.length_append, List.length_cons] at hdepth
  omega

theorem getLast?_callAll_cons {c : Call} {rest : List Call} {last : Reply}
    (h : ((s.call c).2.callAll rest).1.getLast? = some last) :
    (s.callAll (c :: rest)).1.getLast? = some last := by
  change ((s.call c).1 :: ((s.call c).2.callAll rest).1).getLast? = some last
  rw [List.getLast?_cons, h]
  rfl

/-! ## One call of the engine -/

/-- A call in progress ends, or it goes on. It changes by itself only when no other call is inside
of it. -/
theorem Transition.within (h : s.Transition reply t) (hactive : s.active = inner ++ a :: base) :
    (inner = [] ∧ t.active = base) ∨
      ∃ inner' b base', t.active = inner' ++ b :: base' ∧ base'.length = base.length ∧
        b.handle = a.handle ∧ b.mode = a.mode ∧ (a.cancelled = true → b.cancelled = true) ∧
        (b.phase = a.phase ∧ (inner = [] → reply.operation? = none) ∨
          inner = [] ∧ a.Onward reply b) := by
  rcases h.active_cases with
    ⟨hreply, hsame | ⟨x, _, hpush⟩ | ⟨k, hmark⟩⟩ | ⟨x, y, rest, hx, hy, honward⟩ | ⟨x, rest, hx, hy⟩
  · exact .inr ⟨inner, a, base, hsame.trans hactive, rfl, rfl, rfl, id,
      .inl ⟨rfl, fun _ => hreply⟩⟩
  · refine .inr ⟨x :: inner, a, base, ?_, rfl, rfl, rfl, id, .inl ⟨rfl, fun _ => hreply⟩⟩
    rw [hpush, hactive]
    rfl
  · obtain ⟨hmode, hphase, _⟩ := sameContext_mark k a
    refine .inr ⟨inner.map (Activation.mark k), a.mark k, base.map (Activation.mark k), ?_,
      List.length_map .., handle_mark k a, hmode, fun hcancelled => ?_,
      .inl ⟨hphase, fun _ => hreply⟩⟩
    · rw [hmark, hactive, List.map_append, List.map_cons]
    · exact (cancelled_mark k a).mpr (.inr hcancelled)
  · rw [hx] at hactive
    cases inner with
    | nil =>
      cases hactive
      have hcall := honward.sameCall
      exact .inr ⟨[], y, base, hy, rfl, hcall.handle, hcall.mode, hcall.cancelled.trans,
        .inr ⟨rfl, honward⟩⟩
    | cons z inner =>
      cases hactive
      exact .inr ⟨y :: inner, a, base, hy, rfl, rfl, rfl, id, .inl ⟨rfl, fun hnil => nomatch hnil⟩⟩
  · rw [hx] at hactive
    cases inner with
    | nil =>
      cases hactive
      exact .inl ⟨rfl, hy⟩
    | cons z inner =>
      cases hactive
      exact .inr ⟨inner, a, base, hy, rfl, rfl, rfl, id, .inl ⟨rfl, fun hnil => nomatch hnil⟩⟩

/-- The ends of a call that executes a registered context. -/
theorem Transition.ends (hs : s.Consistent issued) (h : s.Transition reply t)
    (hactive : s.active = a :: base) (hends : t.active = base)
    (hmode : a.mode = .resume ∨ a.mode = .consume) :
    (t.registry.contains a.handle = true ∧ reply = .ended true ∧ a.phase ≠ .executing ∧
      a.cancelled = false) ∨
      t.registry.contains a.handle = false ∧
        (reply = .ended false ∨ (∃ fault, reply = .refused (.runtimeFault a.handle fault)) ∧
          (a.phase ≠ .executing → a.cancelled = false)) := by
  have ha : a ∈ s.active := (mem_active hactive).1
  obtain ⟨hrun, hinspect⟩ := Mode.ne_of_executes hmode
  have hphase : a.phase ≠ .inspecting := by
    intro hinspecting
    exact hinspect ((hs.proper a ha).inspect.mpr hinspecting)
  have hlast : ∀ more, a.phase.lastReply more = .ended more := by
    intro more
    cases hp : a.phase with
    | executing | handling => rfl
    | inspecting => exact absurd hp hphase
  have hshorter : t.active.length < s.active.length := by
    rw [hends, hactive]
    exact Nat.lt_succ_self _
  cases h with
  | stay | issue | discard => exact absurd hshorter (Nat.lt_irrefl _)
  | launch | execute | inspect => exact absurd hshorter (Nat.not_lt.mpr (Nat.le_succ _))
  | cancel =>
    rw [List.length_map] at hshorter
    exact absurd hshorter (Nat.lt_irrefl _)
  | onward active onward =>
    rw [active] at hshorter
    exact absurd hshorter (Nat.lt_irrefl _)
  | checkIn active phase uncancelled own settled =>
    cases hactive.symm.trans active
    refine .inl ⟨?_, hlast true, phase, uncancelled⟩
    exact contains_iff.mpr ⟨_, get?_set_self (hs.registered a ha hrun uncancelled) _⟩
  | close active phase handling ends =>
    cases hactive.symm.trans active
    exact .inr ⟨contains_erase_self .., ends.imp_right fun hfault => ⟨hfault, handling⟩⟩
  | drop active phase cancelled =>
    cases hactive.symm.trans active
    have hnone := (hs.expired a ha cancelled).get?_eq_none
    exact .inr ⟨contains_eq_false_iff.mpr hnone, .inl (hlast false)⟩

/-! ## A call from its beginning to its end -/

/-- The number of operations that a `resume` in a phase has still to hand over. -/
def toDispatch : Phase → Nat
  | .executing => 1
  | .handling _ _ _ | .inspecting => 0

theorem toDispatch_of_ne {phase : Phase} (h : phase ≠ .executing) : toDispatch phase = 0 := by
  cases phase with
  | executing => exact absurd rfl h
  | handling | inspecting => rfl

/-- Each operation that a `resume` hands over is one less to come. -/
theorem toDispatch_onward {b : Activation} (h : a.Onward reply b) (hmode : a.mode = .resume) :
    reply.operation?.toList.length + toDispatch b.phase = toDispatch a.phase := by
  cases h with
  | instruct phase same => simp [Reply.operation?]
  | dispatch phase same => simp [Reply.operation?, toDispatch, phase]
  | use phase => simp [Reply.operation?]
  | request phase => simp [Reply.operation?, toDispatch, phase]
  | answered phase mode uncancelled same => exact absurd hmode mode

/-- **How a call ends.** A call that executes a registered context, with any calls inside of it,
leaves the handle registered exactly when it replies that there is more. -/
theorem Closes.ends {calls : List Call} (hs : s.Consistent issued)
    (hissued : issued + Reply.issued (s.callAll calls).1 < issueLimit)
    (hactive : s.active = inner ++ a :: base) (hmode : a.mode = .resume ∨ a.mode = .consume)
    (hcloses : s.Closes base.length calls) :
    ∃ reply, (s.callAll calls).1.getLast? = some reply ∧
      ((s.callAll calls).2.registry.contains a.handle = true ↔ reply = .ended true) ∧
      reply ≠ .refused (.contextBusy a.handle) ∧
      (a.mode = .resume → reply = .ended true →
        (s.dispatched base.length calls).length = toDispatch a.phase) := by
  induction calls generalizing s issued inner a base with
  | nil => exact absurd rfl (hcloses.ne_nil hactive)
  | cons c rest ih =>
    have hlength : s.active.length = inner.length + (base.length + 1) := by
      rw [hactive, List.length_append, List.length_cons]
    have htransition := transition_call s c
    rcases htransition.within hactive with
      ⟨rfl, hends⟩ | ⟨inner', b, base', hnext, hbase, hhandle, hsame, _, hphase⟩
    · have hnil : rest = [] := hcloses.2.eq_nil (Nat.le_of_eq (congrArg List.length hends))
      subst hnil
      refine ⟨(s.call c).1, rfl, ?_⟩
      rcases htransition.ends hs hactive hends hmode with
        ⟨hcontains, hreply, hphase, _⟩ | ⟨hcontains, hreply⟩
      · refine ⟨iff_of_true hcontains hreply, ?_, fun _ _ => ?_⟩
        · rw [hreply]
          exact fun heq => nomatch heq
        · simp [dispatched, toDispatch_of_ne hphase, hreply, Reply.operation?]
      · have hlost : (s.call c).1 ≠ .ended true ∧
            (s.call c).1 ≠ .refused (.contextBusy a.handle) := by
          rcases hreply with hreply | ⟨⟨fault, hreply⟩, _⟩
          · simp [hreply]
          · simp [hreply]
        refine ⟨iff_of_false ?_ hlost.1, hlost.2, fun _ hmore => absurd hmore hlost.1⟩
        exact Bool.eq_false_iff.mp hcontains
    · obtain ⟨now, hnow, hcount⟩ := hs.call hissued
      obtain ⟨last, hlast, hcontains, hbusy, hdispatched⟩ :=
        ih hnow (by omega) hnext (hsame ▸ hmode) (hbase ▸ hcloses.2)
      rw [hhandle] at hcontains hbusy
      refine ⟨last, getLast?_callAll_cons hlast, hcontains, hbusy, fun hresume hmore => ?_⟩
      have hrest := hdispatched (hsame.trans hresume) hmore
      rw [hbase] at hrest
      rw [dispatched, List.length_append, hrest]
      rcases hphase with ⟨hphase, hreply⟩ | ⟨rfl, honward⟩
      · rw [hphase]
        split
        · rename_i hinnermost
          have hnil : inner = [] := List.eq_nil_of_length_eq_zero (by omega)
          simp [hreply hnil]
        · exact Nat.zero_add _
      · rw [if_pos (hlength.trans (Nat.zero_add _))]
        exact toDispatch_onward honward hresume

theorem call_eq_execute {call : Call} {h : Handle} (hcall : call = .resume h ∨ call = .consume h) :
    ∃ mode, (mode = .resume ∨ mode = .consume) ∧ (∀ s : Session, s.call call = s.execute h mode) ∧
      (call = .resume h → mode = .resume) := by
  rcases hcall with rfl | rfl
  · exact ⟨.resume, .inl rfl, fun _ => rfl, fun _ => rfl⟩
  · exact ⟨.consume, .inr rfl, fun _ => rfl, fun heq => nomatch heq⟩

/-- **From its beginning to its end.** -/
theorem contains_after_call {call : Call} {during : List Call} {h : Handle}
    (hs : s.Consistent issued)
    (hissued : issued + Reply.issued (s.callAll (call :: during)).1 < issueLimit)
    (hcall : call = .resume h ∨ call = .consume h)
    (hcloses : (s.call call).2.Closes s.active.length during) :
    ∃ reply, (s.callAll (call :: during)).1.getLast? = some reply ∧
      ((s.callAll (call :: during)).2.registry.contains h = true ↔
        reply = .ended true ∨ reply = .refused (.contextBusy h)) ∧
      (call = .resume h → reply = .ended true →
        ((s.call call).2.dispatched s.active.length during).length = 1) := by
  obtain ⟨mode, hmode, hexecute, hresume⟩ := call_eq_execute hcall
  have hall : s.callAll (call :: during) =
      ((s.call call).1 :: ((s.call call).2.callAll during).1,
        ((s.call call).2.callAll during).2) := rfl
  obtain ⟨now, hnow, hcount⟩ := hs.call hissued
  rcases execute_cases s h mode with ⟨cause, heq, hcause⟩ | ⟨c, _, heq⟩ | ⟨c, hidle, heq⟩
  · rw [hexecute, heq] at hcloses
    have hnil := hcloses.eq_nil (Nat.le_refl _)
    subst hnil
    refine ⟨.refused cause, ?_, ?_, fun _ hmore => nomatch hmore⟩
    · rw [hall, hexecute, heq]
      rfl
    · rw [hall, hexecute, heq]
      simpa [callAll] using hcause
  · rw [hexecute, heq] at hcloses
    have hnil := hcloses.eq_nil (Nat.le_refl _)
    subst hnil
    refine ⟨.ended false, ?_, ?_, fun _ hmore => nomatch hmore⟩
    · rw [hall, hexecute, heq]
      rfl
    · rw [hall, hexecute, heq]
      simp [callAll, contains_erase_self]
  · have hactive : (s.call call).2.active = [] ++
        { handle := h, mode, phase := .executing,
          context := { c with status := .running } } :: s.active := by
      rw [hexecute, heq]
      rfl
    obtain ⟨reply, hlast, hcontains, hbusy, hdispatched⟩ :=
      hcloses.ends hnow (by omega) hactive hmode
    refine ⟨reply, getLast?_callAll_cons hlast, ?_,
      fun heq hmore => hdispatched (hresume heq) hmore⟩
    rw [hall]
    simpa [hbusy] using hcontains

/-! ## Histories -/

/-- A context that is away is with one call in progress, which has not been cancelled. -/
theorem Consistent.exists_active (hs : s.Consistent issued) {h : Handle} {p : Program}
    (haway : s.registry.get? h = some (.away p)) :
    ∃ a ∈ s.active, a.handle = h ∧ a.cancelled = false ∧ a.context.handle = h ∧
      a.context.program = p := by
  obtain ⟨a, ha, rfl⟩ := hs.away h p haway
  have huncancelled : a.cancelled = false := by
    refine Bool.eq_false_iff.mpr fun hcancelled => ?_
    rw [(hs.expired a ha hcancelled).get?_eq_none] at haway
    cases haway
  have hrun : a.mode ≠ .run := by
    intro hrun
    rw [(hs.proper a ha).run.mp hrun, hs.table.get?_detached] at haway
    cases haway
  have hprogram := hs.registered a ha hrun huncancelled
  rw [haway] at hprogram
  cases hprogram
  exact ⟨a, ha, rfl, huncancelled, (hs.proper a ha).own, rfl⟩

theorem live_of_current? (hs : s.Tracked fun _ _ _ => True) {c : Context}
    (hc : s.current? = some c) :
    c.Live ∧ ∀ action, (s.perform action).1 = .answer (c.arena.perform action).1 := by
  unfold current? at hc
  split at hc
  · cases hc
  · rename_i a rest hactive
    split at hc
    · cases hc
    · rename_i hphase
      cases hc
      refine ⟨(hs.head hactive).wellFormed_arena, fun action => ?_⟩
      unfold perform
      rw [hactive]
      dsimp only
      split
      · rename_i hexecuting
        exact absurd hexecuting hphase
      · rfl

/-- **The life of a registered context.** Take any history of an engine that does not use up the
handles. A registered context that is idle carries its handle, is finished exactly when no call is
left in it, and has its arena. One that is away is with a call in progress, and all this is true of
it too if the call only inspects it. So the host has an arena before it whenever it is let at a
context, and no more contexts are registered than the settings allow. A call on a handle that has
ended, after whatever calls inside of it, leaves the handle registered exactly when it replies that
there is more or that the context is busy; and a `resume` that replies that there is more has handed
over one operation. -/
theorem registration_lifecycle (settings : Settings) (room : Nat) (calls : List Call)
    (hissued : Reply.issued (callAll { settings, room } calls).1 < issueLimit) :
    let s := (callAll { settings, room } calls).2
    (∀ h c, s.registry.get? h = some (.idle c) →
      c.handle = h ∧ (c.status = .finished ↔ c.machine.frames = []) ∧ c.Live) ∧
    (∀ h p, s.registry.get? h = some (.away p) →
      ∃ a ∈ s.active, a.handle = h ∧ a.cancelled = false ∧ a.context.handle = h ∧
        a.context.program = p ∧ a.context.Live ∧
        (a.phase = .inspecting → (a.context.status = .finished ↔ a.context.machine.frames = []))) ∧
    (∀ c, s.current? = some c →
      c.Live ∧ ∀ action, (s.perform action).1 = .answer (c.arena.perform action).1) ∧
    s.registry.size = s.registry.handles.length ∧
    (∀ limit, settings.maxContexts = some limit → s.registry.size ≤ limit) ∧
    ∀ before call during h, calls = before ++ call :: during →
      call = .resume h ∨ call = .consume h →
      let u := (callAll { settings, room } before).2
      (u.call call).2.Closes u.active.length during →
      ∃ reply, (callAll { settings, room } calls).1.getLast? = some reply ∧
        (s.registry.contains h = true ↔
          reply = .ended true ∨ reply = .refused (.contextBusy h)) ∧
        (call = .resume h → reply = .ended true →
          ((u.call call).2.dispatched u.active.length during).length = 1) := by
  intro s
  have hs : s.Consistent _ := consistent_history settings room hissued
  have htracked : s.Tracked fun _ _ _ => True :=
    tracked_history settings room (abidesAll_any _ _)
  have hsettings : s.settings = settings := settings_callAll _ calls
  refine ⟨?_, ?_, fun c hc => live_of_current? htracked hc, hs.table.size_eq_length_handles, ?_, ?_⟩
  · intro h c hget
    obtain ⟨hown, hsettled⟩ := hs.idle h c hget
    exact ⟨hown, hsettled, (htracked.idle c (holds_of_get? hget)).wellFormed_arena⟩
  · intro h p hget
    obtain ⟨a, ha, hhandle, huncancelled, hown, hprogram⟩ := hs.exists_active hget
    have hlive : a.context.Live := (htracked.active a ha).wellFormed_arena
    exact ⟨a, ha, hhandle, huncancelled, hown, hprogram, hlive, (hs.proper a ha).settled⟩
  · intro limit hlimit
    rw [← hsettings] at hlimit
    exact hs.room limit hlimit
  · intro before call during h hcalls hcall u hcloses
    have hall := callAll_append { settings, room } before (call :: during)
    rw [← hcalls] at hall
    have hbound : 0 + Reply.issued (callAll { settings, room } (before ++ call :: during)).1 <
        issueLimit := by
      rw [← hcalls]
      omega
    obtain ⟨hnow, hrest⟩ := (consistent_new settings room).callAll_append hbound
    obtain ⟨reply, hlast, hcontains, hdispatched⟩ :=
      contains_after_call hnow hrest hcall hcloses
    refine ⟨reply, ?_, ?_, hdispatched⟩
    · rw [hall, List.getLast?_append, hlast]
      rfl
    · change ((callAll { settings, room } calls).2.registry.contains h = true ↔ _)
      rw [hall]
      exact hcontains

/-- A session with a context that will ask something. -/
def retryingStarted : Session := (callAll { room := 64 } [.startProgram retrying "main" 0 4]).2

/-- While the host handles the question, it starts and executes another context and cancels that
before it has answered it. -/
def retryingNested : List Call :=
  [.tick, .tick, .fork ⟨0, 1⟩ "main" 0 4, .consume ⟨1, 1⟩, .tick, .tick, .cancel ⟨1, 1⟩,
    .finish (.ok ()), .fork ⟨0, 1⟩ "main" 0 4, .finish (.ok ())]

/-- The host has had the one question, and the context stays registered. -/
theorem retryingNested_stays_registered :
    (retryingStarted.callAll (.resume ⟨0, 1⟩ :: retryingNested)).2.registry.contains ⟨0, 1⟩ =
        true ∧
      ((retryingStarted.resume ⟨0, 1⟩).2.dispatched retryingStarted.active.length
        retryingNested).length = 1 := by
  have hissued : Reply.issued (callAll { room := 64 }
      ([.startProgram retrying "main" 0 4] ++ .resume ⟨0, 1⟩ :: retryingNested)).1 <
      issueLimit := by decide +kernel
  have hlast : (callAll { room := 64 }
      ([.startProgram retrying "main" 0 4] ++ .resume ⟨0, 1⟩ :: retryingNested)).1.getLast?.bind
      Reply.ended? = some true := by decide +kernel
  have hcloses : (retryingStarted.call (.resume ⟨0, 1⟩)).2.Closes retryingStarted.active.length
      retryingNested := by
    simp only [retryingNested, Closes]
    decide +kernel
  obtain ⟨_, _, _, _, _, hcalls⟩ := registration_lifecycle {} 64 _ hissued
  obtain ⟨reply, hreply, hcontains, hdispatched⟩ := hcalls _ _ _ ⟨0, 1⟩ rfl (.inl rfl) hcloses
  rw [hreply] at hlast
  have hmore : reply = .ended true := Reply.eq_ended hlast
  exact ⟨hcontains.mpr (.inl hmore), hdispatched rfl hmore⟩

end Session

end Hostcall
