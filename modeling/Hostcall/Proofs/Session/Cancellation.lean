import Hostcall.Proofs.Session.Lifecycle

/-!
# Calls inside of calls, and cancellation

A context that is executed or inspected is out of reach for further calls on its handle, and a host
may cancel it all the same. The handle is then gone at once; the call in progress learns of it from
a mark, when the host has answered. By then the slot of the handle may belong to another context.

A host can make calls only while it handles an operation, inspects a context or has no call in
progress: an `Orderly` history leaves a call that executes to itself. In such a history no call that
has been cancelled executes (`Attended`).

* `busy_while_active`: the calls that a context out of reach refuses.
* `Closes.ends_of_cancel`: a call whose context is cancelled at any time of it ends without more.
* `cancellation_is_final`: both, and what is true at all times after a cancellation.
-/

namespace Hostcall

open Registry

/-- Whether the call executes one instruction of the innermost context. -/
def Call.isTick : Call → Bool
  | .tick => true
  | _ => false

namespace Session

/-- Whether the innermost call executes its context, so that no host has its say. -/
def isExecuting (s : Session) : Bool :=
  match s.active with
  | [] => false
  | a :: _ => a.phase = .executing

/-- A call that executes its context is left to itself. -/
def Orderly : Session → List Call → Prop
  | _, [] => True
  | s, c :: rest => (s.isExecuting = true → c.isTick = true) ∧ (s.call c).2.Orderly rest

/-- Only the innermost call executes its context, and only if that has not been cancelled. -/
structure Attended (s : Session) : Prop where
  head : ∀ a ∈ s.active.head?, a.phase = .executing → a.cancelled = false
  tail : ∀ a ∈ s.active.tail, a.phase ≠ .executing

variable {s t : Session} {issued : Nat} {a : Activation} {inner base : List Activation}
  {reply : Reply}

/-! ## Orderly histories -/

/-- A session in which no call executes is attended. -/
theorem attended_of_ne (h : ∀ a ∈ s.active, a.phase ≠ .executing) : s.Attended where
  head a ha := fun hexecuting => absurd hexecuting (h a (List.mem_of_mem_head? ha))
  tail a ha := h a (List.mem_of_mem_tail ha)

/-- A call that executes is the innermost one. -/
theorem Attended.eq_cons (hs : s.Attended) (ha : a ∈ s.active) (hexecuting : a.phase = .executing) :
    a.cancelled = false ∧ ∃ rest, s.active = a :: rest := by
  cases hactive : s.active with
  | nil =>
    rw [hactive] at ha
    cases ha
  | cons b rest =>
    rw [hactive] at ha
    rcases List.mem_cons.mp ha with rfl | ha
    · exact ⟨hs.head a (by rw [hactive]; rfl) hexecuting, rest, rfl⟩
    · exact absurd hexecuting (hs.tail a (by rw [hactive]; exact ha))

theorem Attended.phase_ne (hs : s.Attended) (hwaits : s.isExecuting = false)
    (ha : a ∈ s.active) : a.phase ≠ .executing := by
  intro hexecuting
  obtain ⟨_, rest, hactive⟩ := hs.eq_cons ha hexecuting
  simp [isExecuting, hactive, hexecuting] at hwaits

/-- A call that a host makes while no call executes. -/
theorem Attended.transition (hs : s.Attended) (hwaits : s.isExecuting = false)
    (h : s.Transition reply t) : t.Attended := by
  have hne : ∀ a ∈ s.active, a.phase ≠ .executing := fun a ha => hs.phase_ne hwaits ha
  rcases h.active_cases with
    ⟨_, hsame | ⟨x, huncancelled, hpush⟩ | ⟨k, hmark⟩⟩ | ⟨x, y, rest, hx, hy, honward⟩ |
      ⟨x, rest, hx, hy⟩
  · exact attended_of_ne (by rw [hsame]; exact hne)
  · refine ⟨fun a ha _ => ?_, fun a ha => ?_⟩
    · rw [hpush] at ha
      cases ha
      exact huncancelled
    · rw [hpush] at ha
      exact hne a ha
  · refine attended_of_ne fun a ha => ?_
    rw [hmark] at ha
    obtain ⟨b, hb, rfl⟩ := List.mem_map.mp ha
    rw [(sameContext_mark k b).2.1]
    exact hne b hb
  · obtain ⟨hxs, hrest⟩ := mem_active hx
    refine ⟨fun a ha hexecuting => ?_, fun a ha => ?_⟩
    · rw [hy] at ha
      cases ha
      -- an answer lets a call execute again only if its context has not been cancelled
      cases honward with
      | instruct phase | dispatch phase => exact absurd phase (hne x hxs)
      | use phase => exact absurd hexecuting phase
      | request phase => cases hexecuting
      | answered phase mode uncancelled same => exact uncancelled
    · rw [hy] at ha
      exact hne a (hrest a ha)
  · refine attended_of_ne fun a ha => ?_
    rw [hy] at ha
    exact hne a ((mem_active hx).2 a ha)

/-- One instruction of the innermost call. -/
theorem Attended.tick (hs : s.Attended) : s.tick.2.Attended := by
  rcases tick_cases s with hstay | ⟨a, rest, hactive, hphase, ⟨b, hb, heq⟩ | ⟨_, heq⟩⟩
  · rw [hstay]
    exact hs
  · have hcancelled : a.cancelled = false := hs.head a (by rw [hactive]; rfl) hphase
    rw [heq]
    refine ⟨fun x hx _ => ?_, fun x hx => hs.tail x (by rw [hactive]; exact hx)⟩
    cases hx
    exact hb.sameCall.cancelled.trans hcancelled
  · rw [heq]
    exact attended_of_ne fun x hx => hs.tail x (by rw [hactive]; exact hx)

theorem Attended.call (hs : s.Attended) {c : Call}
    (horderly : s.isExecuting = true → c.isTick = true) : (s.call c).2.Attended := by
  cases hexecuting : s.isExecuting with
  | false => exact hs.transition hexecuting (transition_call s c)
  | true =>
    have htick := horderly hexecuting
    cases c with
    | tick => exact hs.tick
    | start | startProgram | fork | cancel | status | contains | size | handles | resume | consume
      | run | inspect | finish | leave | perform | goTo | forceReturn | pause | isPaused =>
      cases htick

theorem Attended.callAll {calls : List Call} (hs : s.Attended) (horderly : s.Orderly calls) :
    (s.callAll calls).2.Attended := by
  induction calls generalizing s with
  | nil => exact hs
  | cons c rest ih => exact ih (hs.call horderly.1) horderly.2

theorem orderly_append {calls more : List Call} :
    s.Orderly (calls ++ more) ↔ s.Orderly calls ∧ (s.callAll calls).2.Orderly more := by
  induction calls generalizing s with
  | nil => simp [Orderly, Session.callAll]
  | cons c rest ih => simp [Orderly, Session.callAll, ih, and_assoc]

/-- In an attended session, a call that has been cancelled waits for its host. -/
theorem Attended.phase_of_cancelled (hs : s.Attended) (ha : a ∈ s.active)
    (hcancelled : a.cancelled = true) : a.phase ≠ .executing := by
  intro hexecuting
  rw [(hs.eq_cons ha hexecuting).1] at hcancelled
  cases hcancelled

/-! ## Contexts out of reach -/

/-- Why a context that is out of reach refuses calls. -/
def obstacle (s : Session) (h : Handle) : EngineError :=
  if s.registry.contains h then .contextBusy h else .unknownHandle h

/-- **Re-entrancy.** While a context is executed or inspected, calls on its handle are refused and
change nothing. -/
theorem busy_while_active (hs : s.Consistent issued) (ha : a ∈ s.active) (hrun : a.mode ≠ .run)
    {call : Call} (hcall : call ∈ [Call.resume a.handle, .consume a.handle, .inspect a.handle,
      .status a.handle]) :
    s.call call = (.refused (s.obstacle a.handle), s) := by
  have hidle : s.idle a.handle = .error (s.obstacle a.handle) := by
    unfold idle obstacle Registry.contains
    cases hcancelled : a.cancelled with
    | false => simp [hs.registered a ha hrun hcancelled]
    | true => simp [(hs.expired a ha hcancelled).get?_eq_none]
  simp only [List.mem_cons, List.not_mem_nil, or_false] at hcall
  rcases hcall with rfl | rfl | rfl | rfl
  · simp [call, resume, execute, hidle]
  · simp [call, consume, execute, hidle]
  · simp [call, inspect, hidle]
  · simp [call, status, hidle]

theorem Consistent.cancelled_of_get? (hs : s.Consistent issued) (ha : a ∈ s.active)
    (hrun : a.mode ≠ .run) (hget : s.registry.get? a.handle = none) : a.cancelled = true := by
  cases hcancelled : a.cancelled with
  | true => rfl
  | false =>
    rw [hs.registered a ha hrun hcancelled] at hget
    cases hget

/-! ## Handles that have been given out -/

theorem given_transition (hs : s.Consistent issued) (hissued : issued < issueLimit)
    (h : s.Transition reply t) {k : Handle} (hk : s.registry.Given k ∨ reply = .handle k) :
    t.registry.Given k := by
  have hslots := hs.accounted.slots_lt hissued
  rcases h.registry_cases with ⟨hreply, hregistry⟩ | ⟨c, rfl, hregistry⟩
  · have hgiven : s.registry.Given k := by
      refine hk.resolve_right ?_
      rintro rfl
      cases hreply
    rcases hregistry with heq | ⟨j, resident, heq⟩ | ⟨j, heq⟩
    · rw [heq]
      exact hgiven
    · rw [heq]
      exact hgiven.set j resident
    · rw [heq]
      exact hgiven.erase hs.accounted hissued j
  · rw [hregistry]
    rcases hk with hgiven | heq
    · exact hgiven.insert hs.table _
    · cases heq
      exact .inl (contains_iff.mpr ⟨_, get?_insert_nextHandle hs.table hslots _⟩)

theorem expired_transition (hs : s.Consistent issued) (hissued : issued < issueLimit)
    (h : s.Transition reply t) {k : Handle} (hk : s.registry.Expired k) :
    t.registry.Expired k := by
  rcases h.registry_cases with
    ⟨_, heq | ⟨j, resident, heq⟩ | ⟨j, heq⟩⟩ | ⟨c, _, heq⟩
  · rw [heq]
    exact hk
  · rw [heq]
    exact hk.set j resident
  · rw [heq]
    exact hk.erase hs.accounted hissued j
  · rw [heq]
    exact hk.insert hs.table _

/-- A handle that has been given out in a history is registered or expired at the end of it. -/
theorem given_callAll {calls : List Call} (hs : s.Consistent issued)
    (hissued : issued + Reply.issued (s.callAll calls).1 < issueLimit) {k : Handle}
    (hk : s.registry.Given k ∨ .handle k ∈ (s.callAll calls).1) :
    (s.callAll calls).2.registry.Given k := by
  induction calls generalizing s issued with
  | nil => exact hk.resolve_right (fun hmem => nomatch hmem)
  | cons c rest ih =>
    obtain ⟨now, hnow, hcount⟩ := hs.call hissued
    have hbound : now + Reply.issued ((s.call c).2.callAll rest).1 < issueLimit := by omega
    have hstep := given_transition hs (by omega) (transition_call s c) (k := k)
    refine ih hnow hbound ?_
    rcases hk with hgiven | hmem
    · exact .inl (hstep (.inl hgiven))
    · rcases List.mem_cons.mp hmem with heq | hmem
      · exact .inl (hstep (.inr heq.symm))
      · exact .inr hmem

theorem expired_callAll {calls : List Call} (hs : s.Consistent issued)
    (hissued : issued + Reply.issued (s.callAll calls).1 < issueLimit) {k : Handle}
    (hk : s.registry.Expired k) : (s.callAll calls).2.registry.Expired k := by
  induction calls generalizing s issued with
  | nil => exact hk
  | cons c rest ih =>
    obtain ⟨now, hnow, hcount⟩ := hs.call hissued
    have hbound : now + Reply.issued ((s.call c).2.callAll rest).1 < issueLimit := by omega
    exact ih hnow hbound (expired_transition hs (by omega) (transition_call s c) hk)

/-! ## Cancellation -/

theorem cancel_of_none {h : Handle} (hget : s.registry.get? h = none) :
    s.cancel h = (.done, s) := by
  unfold cancel
  rw [remove_of_none hget]

theorem contains_cancel (s : Session) (h : Handle) :
    (s.cancel h).2.registry.contains h = false := by
  rcases cancel_cases s h with ⟨hget, heq⟩ | ⟨resident, hget, heq⟩
  · rw [heq]
    exact contains_eq_false_iff.mpr hget
  · rw [heq]
    exact contains_erase_self

theorem length_active_cancel (s : Session) (h : Handle) :
    (s.cancel h).2.active.length = s.active.length := by
  rcases cancel_cases s h with ⟨hget, heq⟩ | ⟨resident, hget, heq⟩
  · rw [heq]
  · rw [heq]
    exact List.length_map ..

/-- **How a cancelled call ends.** A call that executes a context, with any calls inside of it, ends
without more if the context has been cancelled before or is cancelled during it. -/
theorem Closes.ends_of_cancel {calls : List Call} (hs : s.Consistent issued)
    (hissued : issued + Reply.issued (s.callAll calls).1 < issueLimit) (hattended : s.Attended)
    (horderly : s.Orderly calls) (hactive : s.active = inner ++ a :: base)
    (hmode : a.mode = .resume ∨ a.mode = .consume) (hcloses : s.Closes base.length calls)
    (hcancel : a.cancelled = true ∨ .cancel a.handle ∈ calls) :
    (s.callAll calls).1.getLast? = some (.ended false) := by
  induction calls generalizing s issued inner a base with
  | nil => exact absurd rfl (hcloses.ne_nil hactive)
  | cons c rest ih =>
    have htransition := transition_call s c
    obtain ⟨now, hnow, hcount⟩ := hs.call hissued
    rcases htransition.within hactive with
      ⟨rfl, hends⟩ | ⟨inner', b, base', hnext, hbase, hhandle, hsame, hmarked, _⟩
    · have hnil : rest = [] := hcloses.2.eq_nil (Nat.le_of_eq (congrArg List.length hends))
      subst hnil
      have hcancelled : a.cancelled = true := by
        refine hcancel.resolve_right fun hmem => ?_
        cases List.mem_singleton.mp hmem
        have hlength := length_active_cancel s a.handle
        rw [show (s.cancel a.handle).2.active = base from hends, hactive] at hlength
        simp at hlength
      have hwaits := hattended.phase_of_cancelled (mem_active hactive).1 hcancelled
      rcases htransition.ends hs hactive hends hmode with
        ⟨_, _, _, huncancelled⟩ | ⟨_, hreply | ⟨_, huncancelled⟩⟩
      · rw [hcancelled] at huncancelled
        cases huncancelled
      · exact congrArg some hreply
      · rw [huncancelled hwaits] at hcancelled
        cases hcancelled
    · have hrun : b.mode ≠ .run := by
        rw [hsame]
        exact (Mode.ne_of_executes hmode).1
      have hrest : b.cancelled = true ∨ .cancel b.handle ∈ rest := by
        rcases hcancel with hcancelled | hmem
        · exact .inl (hmarked hcancelled)
        · rcases List.mem_cons.mp hmem with rfl | hmem
          · left
            have hb : b ∈ (s.call (.cancel a.handle)).2.active := by simp [hnext]
            refine hnow.cancelled_of_get? hb hrun ?_
            rw [hhandle]
            exact contains_eq_false_iff.mp (contains_cancel s a.handle)
          · rw [hhandle]
            exact .inr hmem
      have hlast := ih hnow (by omega) (hattended.call horderly.1) horderly.2 hnext
        (hsame ▸ hmode) (hbase ▸ hcloses.2) hrest
      exact getLast?_callAll_cons hlast

/-- **From its beginning to its end.** -/
theorem ended_after_cancel {call : Call} {during : List Call} {h : Handle}
    (hs : s.Consistent issued)
    (hissued : issued + Reply.issued (s.callAll (call :: during)).1 < issueLimit)
    (hattended : s.Attended) (horderly : s.Orderly (call :: during))
    (hcall : call = .resume h ∨ call = .consume h) (hcancel : .cancel h ∈ during)
    (hcloses : (s.call call).2.Closes s.active.length during) :
    (s.callAll (call :: during)).1.getLast? = some (.ended false) := by
  obtain ⟨mode, hmode, hexecute, _⟩ := call_eq_execute hcall
  obtain ⟨now, hnow, hcount⟩ := hs.call hissued
  have hlonger : ¬ (s.call call).2.active.length ≤ s.active.length := by
    intro hdepth
    rw [hcloses.eq_nil hdepth] at hcancel
    cases hcancel
  rw [hexecute] at hlonger
  rcases execute_cases s h mode with ⟨cause, heq, _⟩ | ⟨c, _, heq⟩ | ⟨c, hidle, heq⟩
  · exact absurd (Nat.le_of_eq (by rw [heq])) hlonger
  · exact absurd (Nat.le_of_eq (by rw [heq])) hlonger
  · have hactive : (s.call call).2.active = [] ++
        { handle := h, mode, phase := .executing,
          context := { c with status := .running } } :: s.active := by
      rw [hexecute, heq]
      rfl
    have hlast := hcloses.ends_of_cancel hnow (by omega) (hattended.call horderly.1) horderly.2
      hactive hmode (.inr hcancel)
    exact getLast?_callAll_cons hlast

/-- A handle that has been given out has expired when it is cancelled, and for good. -/
theorem expired_of_cancel {h : Handle} {after : List Call} (hs : s.Consistent issued)
    (hissued : issued + Reply.issued (s.callAll (.cancel h :: after)).1 < issueLimit)
    (hgiven : s.registry.Given h) :
    (s.callAll (.cancel h :: after)).2.registry.Expired h := by
  obtain ⟨now, hnow, hcount⟩ := hs.call hissued
  have hbound : now + Reply.issued ((s.cancel h).2.callAll after).1 < issueLimit := by
    change now + Reply.issued ((s.call (.cancel h)).2.callAll after).1 < issueLimit
    omega
  have hexpired : (s.cancel h).2.registry.Expired h := by
    refine (given_transition hs (by omega) (transition_cancel s h) (.inl hgiven)).resolve_left ?_
    exact Bool.eq_false_iff.mp (contains_cancel s h)
  exact expired_callAll hnow hbound hexpired

/-- An operation comes from the innermost call, which has executed. -/
theorem Transition.executing_of_operation {op : Operation} (h : s.Transition reply t)
    (hreply : reply = .operation op) :
    ∃ a rest, s.active = a :: rest ∧ a.phase = .executing := by
  cases h with
  | stay handle operation =>
    rw [hreply] at operation
    cases operation
  | issue | launch | discard | execute | inspect | cancel => cases hreply
  | onward active onward =>
    cases onward with
    | dispatch phase same => exact ⟨_, _, active, phase⟩
    | instruct | use | request | answered => cases hreply
  | @checkIn a rest c active phase uncancelled own settled =>
    cases hphase : a.phase with
    | executing | handling | inspecting => rw [hphase] at hreply; cases hreply
  | close active phase handling ends =>
    rcases ends with rfl | ⟨fault, rfl⟩
    · cases hreply
    · cases hreply
  | @drop a rest active phase cancelled =>
    cases hphase : a.phase with
    | executing | handling | inspecting => rw [hphase] at hreply; cases hreply

/-- The host of a call whose context has been cancelled ends it, and nothing else changes. -/
theorem ends_of_cancelled {rest : List Activation} (hactive : s.active = a :: rest)
    (hwaits : a.phase ≠ .executing) (hcancelled : a.cancelled = true) :
    if a.phase = .inspecting then s.leave = (.done, { s with active := rest })
    else ∀ outcome, s.finish outcome = (.ended false, { s with active := rest }) := by
  cases hphase : a.phase with
  | executing => exact absurd hphase hwaits
  | handling d control paused =>
    intro outcome
    simp [finish, hactive, hphase, hcancelled, dropContext]
  | inspecting => simp [leave, hactive, hphase, hcancelled]

/-- **Re-entrancy and cancellation.** Take any orderly history of an engine that does not use up the
handles.

While a context is executed or inspected, calls on its handle are refused as busy or, once it has
been cancelled, as unknown, and change nothing.

Once a handle that has been given out is cancelled, it is not registered at any later time, and to
cancel it again changes nothing. No operation of its context is handed over any more; a host that
still has the context before it ends its call, whatever it answers and has asked for, and the
registry stays as it is. So a call on a handle that is cancelled during it ends without more. -/
theorem cancellation_is_final (settings : Settings) (room : Nat) (calls : List Call)
    (hissued : Reply.issued (callAll { settings, room } calls).1 < issueLimit)
    (horderly : Orderly { settings, room } calls) :
    let s := (callAll { settings, room } calls).2
    (∀ a ∈ s.active, a.mode ≠ .run →
      ∀ call ∈ [Call.resume a.handle, .consume a.handle, .inspect a.handle, .status a.handle],
        s.call call = (.refused (if s.registry.contains a.handle then .contextBusy a.handle
          else .unknownHandle a.handle), s)) ∧
    (∀ h, (s.cancel h).2.registry.contains h = false) ∧
    (∀ before after h, calls = before ++ .cancel h :: after →
      .handle h ∈ (callAll { settings, room } before).1 →
      s.registry.contains h = false ∧ s.cancel h = (.done, s) ∧
      (∀ call op, (s.call call).1 = .operation op →
        ∃ a rest, s.active = a :: rest ∧ a.handle ≠ h) ∧
      ∀ a rest, s.active = a :: rest → a.handle = h →
        if a.phase = .inspecting then s.leave = (.done, { s with active := rest })
        else ∀ outcome, s.finish outcome = (.ended false, { s with active := rest })) ∧
    ∀ before call during h, calls = before ++ call :: during →
      call = .resume h ∨ call = .consume h → .cancel h ∈ during →
      let u := (callAll { settings, room } before).2
      (u.call call).2.Closes u.active.length during →
      (callAll { settings, room } calls).1.getLast? = some (.ended false) := by
  intro s
  have hs : s.Consistent _ := consistent_history settings room hissued
  have hattendedNew : Attended { settings, room } := attended_of_ne fun a ha => nomatch ha
  have hattended : s.Attended := hattendedNew.callAll horderly
  have hbound : 0 + Reply.issued (callAll { settings, room } calls).1 < issueLimit := by omega
  refine ⟨fun a ha hrun call hcall => busy_while_active hs ha hrun hcall, contains_cancel s, ?_, ?_⟩
  · intro before after h hcalls hgiven
    rw [hcalls] at hbound
    obtain ⟨hnow, hrest⟩ := (consistent_new settings room).callAll_append hbound
    have hgivenOut := given_callAll (consistent_new settings room) (by omega) (.inr hgiven)
    have hexpired : s.registry.Expired h := by
      change (callAll { settings, room } calls).2.registry.Expired h
      rw [hcalls, callAll_append]
      exact expired_of_cancel hnow hrest hgivenOut
    have hnone := hexpired.get?_eq_none
    have hinnermost : ∀ a rest, s.active = a :: rest → a.handle = h →
        a.cancelled = true ∧ a.phase ≠ .executing := by
      intro a rest hactive hhandle
      have ha : a ∈ s.active := (mem_active hactive).1
      have hrun : a.mode ≠ .run := by
        intro hrun
        have hdetached := (hs.proper a ha).run.mp hrun
        exact hexpired.ne_detached hs.accounted hissued (hhandle.symm.trans hdetached)
      have hcancelled := hs.cancelled_of_get? ha hrun (by rw [hhandle]; exact hnone)
      exact ⟨hcancelled, hattended.phase_of_cancelled ha hcancelled⟩
    refine ⟨contains_eq_false_iff.mpr hnone, cancel_of_none hnone, ?_, ?_⟩
    · intro call op hreply
      obtain ⟨a, rest, hactive, hexecuting⟩ :=
        (transition_call s call).executing_of_operation hreply
      refine ⟨a, rest, hactive, fun hhandle => ?_⟩
      exact (hinnermost a rest hactive hhandle).2 hexecuting
    · intro a rest hactive hhandle
      obtain ⟨hcancelled, hwaits⟩ := hinnermost a rest hactive hhandle
      exact ends_of_cancelled hactive hwaits hcancelled
  · intro before call during h hcalls hcall hmem u hcloses
    rw [hcalls] at hbound horderly
    obtain ⟨hnow, hrest⟩ := (consistent_new settings room).callAll_append hbound
    obtain ⟨hbefore, hafter⟩ := orderly_append.mp horderly
    rw [hcalls, callAll_append, List.getLast?_append]
    have hlast := ended_after_cancel hnow hrest (hattendedNew.callAll hbefore) hafter hcall hmem
      hcloses
    rw [hlast]
    rfl

/-- While the host handles the question of a context, it cancels the context, starts another one in
its slot, asks to go back to the question and answers with a failure. -/
def retryingDropped : List Call :=
  [.tick, .tick, .cancel ⟨0, 1⟩, .startProgram retrying "main" 0 4, .goTo "again",
    .finish (.error "gone")]

/-- The call ends without more, and the context in the slot is as it was started. -/
theorem retryingDropped_ends :
    (retryingStarted.callAll (.resume ⟨0, 1⟩ :: retryingDropped)).1.getLast? =
        some (.ended false) ∧
      (retryingStarted.callAll (.resume ⟨0, 1⟩ :: retryingDropped)).2.registry.contains ⟨0, 1⟩ =
        false ∧
      (retryingStarted.callAll (.resume ⟨0, 1⟩ :: retryingDropped)).2.registry.contains ⟨0, 2⟩ =
        true := by
  have hissued : Reply.issued (callAll { room := 64 }
      ([.startProgram retrying "main" 0 4] ++ .resume ⟨0, 1⟩ :: retryingDropped)).1 <
      issueLimit := by decide +kernel
  have horderly : Orderly { room := 64 }
      ([.startProgram retrying "main" 0 4] ++ .resume ⟨0, 1⟩ :: retryingDropped) := by
    simp only [retryingDropped, List.cons_append, List.nil_append, Orderly]
    decide +kernel
  have hcloses : (retryingStarted.call (.resume ⟨0, 1⟩)).2.Closes retryingStarted.active.length
      retryingDropped := by
    simp only [retryingDropped, Closes]
    decide +kernel
  have hstarted : (startProgram { room := 64 } retrying "main" 0 4).1 = .handle ⟨0, 1⟩ :=
    Reply.eq_handle (by decide +kernel)
  obtain ⟨_, _, hafter, hends⟩ := cancellation_is_final {} 64 _ hissued horderly
  have hlast := hends _ _ _ ⟨0, 1⟩ rfl (.inl rfl) (by simp [retryingDropped]) hcloses
  obtain ⟨hgone, _⟩ := hafter
    [.startProgram retrying "main" 0 4, .resume ⟨0, 1⟩, .tick, .tick] _ ⟨0, 1⟩ rfl
    (List.mem_cons.mpr (.inl hstarted.symm))
  exact ⟨hlast, hgone, by decide +kernel⟩

end Session

end Hostcall
