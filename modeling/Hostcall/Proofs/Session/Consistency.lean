import Hostcall.Proofs.Registry.Expiry
import Hostcall.Proofs.Session.Transitions

/-!
# Where the contexts of a session are

A registered context is in its slot, or it is away with a call in progress. `Consistent` ties the
two places together: every slot whose context is away belongs to one call in progress, and every
such call has its slot, unless the context has been cancelled; then its handle has expired and will
not come again. One transition keeps a session consistent (`consistent_transition`), and so does
every history in which fewer than `Registry.issueLimit` contexts are registered
(`consistent_history`).
-/

namespace Hostcall

open Registry

/-- The number of handles that have been given out. -/
def Reply.issued (replies : List Reply) : Nat := replies.countP Reply.isHandle

/-- What is true of a call in progress on its own. -/
structure Activation.Proper (a : Activation) : Prop where
  run : a.mode = .run ↔ a.handle = .detached
  inspect : a.mode = .inspect ↔ a.phase = .inspecting
  own : a.context.handle = a.handle
  settled : a.phase = .inspecting → a.context.Settled

namespace Session

/-- The slots and the calls in progress of a session fit together, after `issued` contexts have
been registered. -/
structure Consistent (issued : Nat) (s : Session) : Prop where
  table : s.registry.WellFormed
  accounted : s.registry.Accounted issued
  room : ∀ limit, s.settings.maxContexts = some limit → s.registry.size ≤ limit
  idle : ∀ h c, s.registry.get? h = some (.idle c) → c.handle = h ∧ c.Settled
  away : ∀ h p, s.registry.get? h = some (.away p) → ∃ a ∈ s.active, a.handle = h
  registered : ∀ a ∈ s.active, a.mode ≠ .run → a.cancelled = false →
    s.registry.get? a.handle = some (.away a.context.program)
  expired : ∀ a ∈ s.active, a.cancelled = true → s.registry.Expired a.handle
  proper : ∀ a ∈ s.active, a.Proper
  distinct : s.active.Pairwise fun a b => a.handle = b.handle → a.mode = .run

variable {s t : Session} {issued : Nat} {a b : Activation} {rest : List Activation}

theorem mem_active (hactive : s.active = a :: rest) :
    a ∈ s.active ∧ ∀ b ∈ rest, b ∈ s.active := by
  rw [hactive]
  exact ⟨List.mem_cons_self, fun b hb => List.mem_cons_of_mem a hb⟩

/-- A handle that is registered is that of no call in progress, unless the context is away. -/
theorem Consistent.handle_ne_of_idle (hs : s.Consistent issued) {h : Handle} {c : Context}
    (hidle : s.registry.get? h = some (.idle c)) (ha : a ∈ s.active) : a.handle ≠ h := by
  rintro rfl
  by_cases hrun : a.mode = .run
  · rw [(hs.proper a ha).run.mp hrun, hs.table.get?_detached] at hidle
    cases hidle
  · cases hcancelled : a.cancelled with
    | true =>
      rw [(hs.expired a ha hcancelled).get?_eq_none] at hidle
      cases hidle
    | false =>
      rw [hs.registered a ha hrun hcancelled] at hidle
      cases hidle

theorem Consistent.distinct_cons (hs : s.Consistent issued) (hactive : s.active = a :: rest) :
    (∀ b ∈ rest, a.handle = b.handle → a.mode = .run) ∧
      rest.Pairwise fun a b => a.handle = b.handle → a.mode = .run := by
  have hdistinct := hs.distinct
  rw [hactive] at hdistinct
  exact List.pairwise_cons.mp hdistinct

/-- The calls below the innermost one are of other contexts. -/
theorem Consistent.handle_ne_of_rest (hs : s.Consistent issued) (hactive : s.active = a :: rest)
    (hb : b ∈ rest) (hrun : b.mode ≠ .run) : b.handle ≠ a.handle := by
  intro heq
  obtain ⟨ha, hrest⟩ := mem_active hactive
  have harun := (hs.distinct_cons hactive).1 b hb heq.symm
  rw [(hs.proper a ha).run.mp harun] at heq
  exact hrun ((hs.proper b (hrest b hb)).run.mpr heq)

/-- A context that is away is with a call below the innermost one if it is not with that. -/
theorem Consistent.exists_rest (hs : s.Consistent issued) (hactive : s.active = a :: rest)
    {h : Handle} {p : Program} (haway : s.registry.get? h = some (.away p)) (hne : h ≠ a.handle) :
    ∃ b ∈ rest, b.handle = h := by
  obtain ⟨b, hb, rfl⟩ := hs.away h p haway
  rw [hactive] at hb
  rcases List.mem_cons.mp hb with rfl | hb
  · exact absurd rfl hne
  · exact ⟨b, hb, rfl⟩

/-! ## Registering contexts -/

theorem size_lt_of_checkRoom (h : s.checkRoom = .ok ()) {limit : Nat}
    (hlimit : s.settings.maxContexts = some limit) : s.registry.size < limit := by
  unfold checkRoom at h
  rw [hlimit] at h
  dsimp only at h
  split at h
  · cases h
  · rename_i hlt
    exact Nat.lt_of_not_le hlt

theorem consistent_issue (hs : s.Consistent issued) (hissued : issued < issueLimit) {c : Context}
    (hroom : s.checkRoom = .ok ()) (hown : c.handle = s.registry.nextHandle)
    (hsettled : c.Settled) :
    Consistent (issued + 1) { s with registry := s.registry.insert (.idle c) } := by
  have hself := get?_insert_nextHandle hs.table (hs.accounted.slots_lt hissued) (.idle c)
  refine ⟨wellFormed_insert hs.table _, accounted_insert hs.accounted hs.table _, ?_, ?_, ?_, ?_,
    ?_, hs.proper, hs.distinct⟩
  · intro limit hlimit
    rw [size_insert]
    exact size_lt_of_checkRoom hroom hlimit
  · intro h d hget
    by_cases hnext : h = s.registry.nextHandle
    · rw [hnext, hself] at hget
      cases hget
      exact ⟨hown.trans hnext.symm, hsettled⟩
    · rw [get?_insert_of_ne hs.table hnext] at hget
      exact hs.idle h d hget
  · intro h p hget
    by_cases hnext : h = s.registry.nextHandle
    · rw [hnext, hself] at hget
      cases hget
    · rw [get?_insert_of_ne hs.table hnext] at hget
      exact hs.away h p hget
  · intro a ha hrun hcancelled
    exact hs.table.get?_insert_of_some (hs.registered a ha hrun hcancelled) _
  · intro a ha hcancelled
    exact (hs.expired a ha hcancelled).insert hs.table _

/-! ## Beginning a call -/

theorem consistent_launch (hs : s.Consistent issued) {c : Context} (hown : c.handle = .detached) :
    Consistent issued { s with active :=
      { handle := .detached, mode := .run, phase := .executing, context := c } :: s.active } := by
  refine ⟨hs.table, hs.accounted, hs.room, hs.idle, ?_, ?_, ?_, ?_, ?_⟩
  · intro h p hget
    obtain ⟨a, ha, heq⟩ := hs.away h p hget
    exact ⟨a, List.mem_cons_of_mem _ ha, heq⟩
  · intro a ha hrun hcancelled
    rcases List.mem_cons.mp ha with rfl | ha
    · exact absurd rfl hrun
    · exact hs.registered a ha hrun hcancelled
  · intro a ha hcancelled
    rcases List.mem_cons.mp ha with rfl | ha
    · cases hcancelled
    · exact hs.expired a ha hcancelled
  · intro a ha
    rcases List.mem_cons.mp ha with rfl | ha
    · exact ⟨iff_of_true rfl rfl, iff_of_false (fun heq => nomatch heq) (fun heq => nomatch heq),
        hown, fun heq => nomatch heq⟩
    · exact hs.proper a ha
  · exact List.pairwise_cons.mpr ⟨fun _ _ _ => rfl, hs.distinct⟩

theorem consistent_checkOut (hs : s.Consistent issued) {h : Handle} {c d : Context} {mode : Mode}
    {phase : Phase} (hidle : s.registry.get? h = some (.idle c)) (hrun : mode ≠ .run)
    (hinspect : mode = .inspect ↔ phase = .inspecting) (hown : d.handle = c.handle)
    (hsettled : phase = .inspecting → d.Settled) :
    (s.checkOut h mode phase d).Consistent issued := by
  have hself : (s.registry.set h (.away d.program)).get? h = some (.away d.program) :=
    get?_set_self hidle _
  have hhandle : h ≠ .detached := by
    rintro rfl
    rw [hs.table.get?_detached] at hidle
    cases hidle
  refine ⟨wellFormed_set hs.table h _, accounted_set hs.accounted h _, ?_, ?_, ?_, ?_, ?_, ?_, ?_⟩
  · intro limit hlimit
    exact Nat.le_trans (Nat.le_of_eq (size_set ..)) (hs.room limit hlimit)
  · intro k e hget
    rcases get?_set_eq_some hget with ⟨_, heq⟩ | ⟨_, hget⟩
    · cases heq
    · exact hs.idle k e hget
  · intro k p hget
    rcases get?_set_eq_some hget with ⟨hk, _⟩ | ⟨_, hget⟩
    · exact ⟨_, List.mem_cons_self, hk.symm⟩
    · obtain ⟨a, ha, heq⟩ := hs.away k p hget
      exact ⟨a, List.mem_cons_of_mem _ ha, heq⟩
  · intro a ha harun hcancelled
    rcases List.mem_cons.mp ha with rfl | ha
    · exact hself
    · exact (get?_set_of_ne (hs.handle_ne_of_idle hidle ha) _).trans
        (hs.registered a ha harun hcancelled)
  · intro a ha hcancelled
    rcases List.mem_cons.mp ha with rfl | ha
    · cases hcancelled
    · exact (hs.expired a ha hcancelled).set h _
  · intro a ha
    rcases List.mem_cons.mp ha with rfl | ha
    · exact ⟨iff_of_false hrun hhandle, hinspect, hown.trans (hs.idle h c hidle).1, hsettled⟩
    · exact hs.proper a ha
  · refine List.pairwise_cons.mpr ⟨fun a ha heq => ?_, hs.distinct⟩
    exact absurd heq.symm (hs.handle_ne_of_idle hidle ha)

/-! ## A call that goes on -/

theorem proper_onward {reply : Reply} (ha : a.Proper) (h : a.Onward reply b) : b.Proper := by
  have hsame := h.sameCall
  refine ⟨?_, ?_, ?_, ?_⟩
  · rw [hsame.mode, hsame.handle]
    exact ha.run
  · rw [hsame.mode, hsame.inspecting]
    exact ha.inspect
  · rw [hsame.own, hsame.handle]
    exact ha.own
  · intro hb
    -- only the use of the arena leaves a call inspecting, and it does not touch the frames
    have hinspecting := hsame.inspecting.mp hb
    cases h with
    | use phase => exact ha.settled hinspecting
    | instruct phase same | dispatch phase same =>
      rw [phase] at hinspecting
      cases hinspecting
    | request phase =>
      rw [phase] at hinspecting
      cases hinspecting
    | answered phase mode uncancelled same =>
      rw [phase] at hinspecting
      cases hinspecting

theorem consistent_onward (hs : s.Consistent issued) {reply : Reply}
    (hactive : s.active = a :: rest) (h : a.Onward reply b) :
    Consistent issued { s with active := b :: rest } := by
  obtain ⟨ha, hrest⟩ := mem_active hactive
  have hsame := h.sameCall
  obtain ⟨hfirst, hothers⟩ := hs.distinct_cons hactive
  refine ⟨hs.table, hs.accounted, hs.room, hs.idle, ?_, ?_, ?_, ?_, ?_⟩
  · intro k p hget
    by_cases hk : k = a.handle
    · exact ⟨b, List.mem_cons_self, hsame.handle.trans hk.symm⟩
    · obtain ⟨x, hx, heq⟩ := hs.exists_rest hactive hget hk
      exact ⟨x, List.mem_cons_of_mem _ hx, heq⟩
  · intro x hx hrun hcancelled
    rcases List.mem_cons.mp hx with rfl | hx
    · rw [hsame.handle, hsame.program]
      rw [hsame.mode] at hrun
      rw [hsame.cancelled] at hcancelled
      exact hs.registered a ha hrun hcancelled
    · exact hs.registered x (hrest x hx) hrun hcancelled
  · intro x hx hcancelled
    rcases List.mem_cons.mp hx with rfl | hx
    · rw [hsame.handle]
      rw [hsame.cancelled] at hcancelled
      exact hs.expired a ha hcancelled
    · exact hs.expired x (hrest x hx) hcancelled
  · intro x hx
    rcases List.mem_cons.mp hx with rfl | hx
    · exact proper_onward (hs.proper a ha) h
    · exact hs.proper x (hrest x hx)
  · refine List.pairwise_cons.mpr ⟨fun x hx heq => ?_, hothers⟩
    rw [hsame.mode]
    exact hfirst x hx (hsame.handle.symm.trans heq)

/-! ## Ending a call -/

theorem consistent_checkIn (hs : s.Consistent issued) {c : Context}
    (hactive : s.active = a :: rest) (hown : c.handle = a.context.handle) (hsettled : c.Settled) :
    Consistent issued { s with registry := s.registry.set a.handle (.idle c), active := rest } := by
  obtain ⟨ha, hrest⟩ := mem_active hactive
  refine ⟨wellFormed_set hs.table _ _, accounted_set hs.accounted _ _, ?_, ?_, ?_, ?_, ?_, ?_,
    (hs.distinct_cons hactive).2⟩
  · intro limit hlimit
    exact Nat.le_trans (Nat.le_of_eq (size_set ..)) (hs.room limit hlimit)
  · intro k e hget
    rcases get?_set_eq_some hget with ⟨hk, heq⟩ | ⟨_, hget⟩
    · cases heq
      exact ⟨hown.trans ((hs.proper a ha).own.trans hk.symm), hsettled⟩
    · exact hs.idle k e hget
  · intro k p hget
    rcases get?_set_eq_some hget with ⟨_, heq⟩ | ⟨hk, hget⟩
    · cases heq
    · exact hs.exists_rest hactive hget hk
  · intro x hx hrun hcancelled
    rw [get?_set_of_ne (hs.handle_ne_of_rest hactive hx hrun)]
    exact hs.registered x (hrest x hx) hrun hcancelled
  · intro x hx hcancelled
    exact (hs.expired x (hrest x hx) hcancelled).set _ _
  · intro x hx
    exact hs.proper x (hrest x hx)

/-- A handle is removed, and with it all calls of it that have not been cancelled. -/
theorem consistent_erase (hs : s.Consistent issued) (hissued : issued < issueLimit) {h : Handle}
    {active : List Activation}
    (haway : ∀ k p, k ≠ h → s.registry.get? k = some (.away p) → ∃ a ∈ active, a.handle = k)
    (hregistered : ∀ a ∈ active, a.mode ≠ .run → a.cancelled = false →
      a.handle ≠ h ∧ s.registry.get? a.handle = some (.away a.context.program))
    (hexpired : ∀ a ∈ active, a.cancelled = true → (s.registry.erase h).Expired a.handle)
    (hproper : ∀ a ∈ active, a.Proper)
    (hdistinct : active.Pairwise fun a b => a.handle = b.handle → a.mode = .run) :
    Consistent issued { s with registry := s.registry.erase h, active } := by
  refine ⟨wellFormed_erase hs.table _, accounted_erase hs.accounted hissued _, ?_, ?_, ?_, ?_,
    hexpired, hproper, hdistinct⟩
  · intro limit hlimit
    exact Nat.le_trans (size_erase_le ..) (hs.room limit hlimit)
  · intro k e hget
    exact hs.idle k e (get?_erase_eq_some_iff.mp hget).2
  · intro k p hget
    obtain ⟨hk, hget⟩ := get?_erase_eq_some_iff.mp hget
    exact haway k p hk hget
  · intro a ha hrun hcancelled
    exact get?_erase_eq_some_iff.mpr (hregistered a ha hrun hcancelled)

theorem consistent_close (hs : s.Consistent issued) (hissued : issued < issueLimit)
    (hactive : s.active = a :: rest) :
    Consistent issued { s with registry := s.registry.erase a.handle, active := rest } := by
  obtain ⟨ha, hrest⟩ := mem_active hactive
  refine consistent_erase hs hissued ?_ ?_ ?_ ?_ (hs.distinct_cons hactive).2
  · intro k p hk hget
    exact hs.exists_rest hactive hget hk
  · intro x hx hrun hcancelled
    exact ⟨hs.handle_ne_of_rest hactive hx hrun, hs.registered x (hrest x hx) hrun hcancelled⟩
  · intro x hx hcancelled
    exact (hs.expired x (hrest x hx) hcancelled).erase hs.accounted hissued _
  · intro x hx
    exact hs.proper x (hrest x hx)

theorem consistent_drop (hs : s.Consistent issued) (hactive : s.active = a :: rest)
    (hcancelled : a.cancelled = true) : Consistent issued { s with active := rest } := by
  obtain ⟨ha, hrest⟩ := mem_active hactive
  refine ⟨hs.table, hs.accounted, hs.room, hs.idle, ?_, ?_, ?_, ?_,
    (hs.distinct_cons hactive).2⟩
  · intro k p hget
    refine hs.exists_rest hactive hget ?_
    rintro rfl
    rw [(hs.expired a ha hcancelled).get?_eq_none] at hget
    cases hget
  · intro x hx hrun hx'
    exact hs.registered x (hrest x hx) hrun hx'
  · intro x hx hx'
    exact hs.expired x (hrest x hx) hx'
  · intro x hx
    exact hs.proper x (hrest x hx)

/-! ## Removing a context -/

theorem consistent_discard (hs : s.Consistent issued) (hissued : issued < issueLimit) {h : Handle}
    {c : Context} (hidle : s.registry.get? h = some (.idle c)) :
    Consistent issued { s with registry := s.registry.erase h } := by
  refine consistent_erase hs hissued (fun k p _ => hs.away k p) ?_ ?_ hs.proper hs.distinct
  · intro x hx hrun hcancelled
    exact ⟨hs.handle_ne_of_idle hidle hx, hs.registered x hx hrun hcancelled⟩
  · intro x hx hcancelled
    exact (hs.expired x hx hcancelled).erase hs.accounted hissued _

theorem handle_mark (h : Handle) (a : Activation) : (a.mark h).handle = a.handle := by
  unfold Activation.mark
  split
  · rfl
  · rfl

theorem sameContext_mark (h : Handle) (a : Activation) :
    (a.mark h).mode = a.mode ∧ (a.mark h).phase = a.phase ∧ (a.mark h).context = a.context := by
  unfold Activation.mark
  split
  · exact ⟨rfl, rfl, rfl⟩
  · exact ⟨rfl, rfl, rfl⟩

theorem cancelled_mark (h : Handle) (a : Activation) :
    (a.mark h).cancelled = true ↔ a.handle = h ∨ a.cancelled = true := by
  unfold Activation.mark
  split
  · rename_i heq
    exact iff_of_true rfl (.inl heq)
  · rename_i hne
    exact (or_iff_right hne).symm

theorem proper_mark (ha : a.Proper) (h : Handle) : (a.mark h).Proper := by
  obtain ⟨hmode, hphase, hcontext⟩ := sameContext_mark h a
  constructor
  · rw [hmode, handle_mark]
    exact ha.run
  · rw [hmode, hphase]
    exact ha.inspect
  · rw [hcontext, handle_mark]
    exact ha.own
  · rw [hphase, hcontext]
    exact ha.settled

theorem consistent_cancel (hs : s.Consistent issued) (hissued : issued < issueLimit) {h : Handle}
    {resident : Resident} (hget : s.registry.get? h = some resident) :
    Consistent issued
      { s with registry := s.registry.erase h, active := s.active.map (Activation.mark h) } := by
  refine consistent_erase hs hissued ?_ ?_ ?_ ?_ ?_
  · intro k p hk hget
    obtain ⟨a, ha, heq⟩ := hs.away k p hget
    exact ⟨a.mark h, List.mem_map_of_mem ha, (handle_mark h a).trans heq⟩
  · intro x hx hrun hcancelled
    obtain ⟨a, ha, rfl⟩ := List.mem_map.mp hx
    obtain ⟨hmode, _, hcontext⟩ := sameContext_mark h a
    rw [hmode] at hrun
    have hunmarked := mt (cancelled_mark h a).mpr (Bool.eq_false_iff.mp hcancelled)
    obtain ⟨hne, huncancelled⟩ := not_or.mp hunmarked
    rw [handle_mark, hcontext]
    exact ⟨hne, hs.registered a ha hrun (Bool.eq_false_iff.mpr huncancelled)⟩
  · intro x hx hcancelled
    obtain ⟨a, ha, rfl⟩ := List.mem_map.mp hx
    rw [handle_mark]
    rcases (cancelled_mark h a).mp hcancelled with rfl | hcancelled
    · exact expired_erase hs.accounted hissued hget
    · exact (hs.expired a ha hcancelled).erase hs.accounted hissued _
  · intro x hx
    obtain ⟨a, ha, rfl⟩ := List.mem_map.mp hx
    exact proper_mark (hs.proper a ha) h
  · refine List.pairwise_map.mpr (hs.distinct.imp fun {x y} hxy heq => ?_)
    rw [handle_mark, handle_mark] at heq
    rw [(sameContext_mark h x).1]
    exact hxy heq

/-! ## Histories -/

/-- **One call** keeps a session consistent. -/
theorem consistent_transition {reply : Reply} (hs : s.Consistent issued)
    (hissued : issued < issueLimit) (h : s.Transition reply t) :
    t.Consistent (issued + if reply.isHandle then 1 else 0) := by
  cases h with
  | stay handle operation =>
    rw [handle]
    exact hs
  | issue room own settled => exact consistent_issue hs hissued room own settled
  | launch own => exact consistent_launch hs own
  | discard idle => exact consistent_discard hs hissued idle
  | execute idle executes =>
    obtain ⟨hrun, hinspect⟩ := Mode.ne_of_executes executes
    exact consistent_checkOut hs idle hrun (iff_of_false hinspect (fun heq => nomatch heq)) rfl
      (fun heq => nomatch heq)
  | inspect idle =>
    exact consistent_checkOut hs idle (fun heq => nomatch heq) (iff_of_true rfl rfl) rfl
      fun _ => (hs.idle _ _ idle).2
  | onward active onward =>
    rw [onward.isHandle]
    exact consistent_onward hs active onward
  | @checkIn a rest c active phase uncancelled own settled =>
    rw [Phase.isHandle_lastReply]
    refine consistent_checkIn hs active own ?_
    rcases settled with hsettled | ⟨hinspecting, rfl⟩
    · exact hsettled
    · exact (hs.proper a (mem_active active).1).settled hinspecting
  | close active phase handling ends =>
    have hreply : reply.isHandle = false := by
      rcases ends with rfl | ⟨fault, rfl⟩
      · rfl
      · rfl
    rw [hreply]
    exact consistent_close hs hissued active
  | drop active phase cancelled =>
    rw [Phase.isHandle_lastReply]
    exact consistent_drop hs active cancelled
  | cancel registered => exact consistent_cancel hs hissued registered

/-- One call of a history that does not use up the handles. -/
theorem Consistent.call {c : Call} {rest : List Call} (hs : s.Consistent issued)
    (hissued : issued + Reply.issued (s.callAll (c :: rest)).1 < issueLimit) :
    ∃ now, (s.call c).2.Consistent now ∧
      now + Reply.issued ((s.call c).2.callAll rest).1 =
        issued + Reply.issued (s.callAll (c :: rest)).1 := by
  have hcount : Reply.issued (s.callAll (c :: rest)).1 =
      Reply.issued ((s.call c).2.callAll rest).1 + if (s.call c).1.isHandle then 1 else 0 :=
    List.countP_cons
  refine ⟨_, consistent_transition hs (by omega) (transition_call s c), ?_⟩
  omega

/-- **Histories** keep a session consistent as long as handles are not used up. -/
theorem consistent_callAll {calls : List Call} (hs : s.Consistent issued)
    (hissued : issued + Reply.issued (s.callAll calls).1 < issueLimit) :
    (s.callAll calls).2.Consistent (issued + Reply.issued (s.callAll calls).1) := by
  induction calls generalizing s issued with
  | nil => exact hs
  | cons c rest ih =>
    obtain ⟨now, hnow, hcount⟩ := hs.call hissued
    rw [← hcount] at hissued ⊢
    exact ih hnow hissued

theorem consistent_new (settings : Settings) (room : Nat) :
    Consistent 0 { settings, room } where
  table := wellFormed_empty
  accounted := accounted_empty
  room _ _ := Nat.zero_le _
  idle _ _ hget := nomatch hget
  away _ _ hget := nomatch hget
  registered _ ha := nomatch ha
  expired _ ha := nomatch ha
  proper _ ha := nomatch ha
  distinct := List.Pairwise.nil

theorem consistent_history (settings : Settings) (room : Nat) {calls : List Call}
    (h : Reply.issued (callAll { settings, room } calls).1 < issueLimit) :
    (callAll { settings, room } calls).2.Consistent
      (Reply.issued (callAll { settings, room } calls).1) := by
  have hissued : 0 + Reply.issued (callAll { settings, room } calls).1 < issueLimit := by omega
  have hconsistent := consistent_callAll (consistent_new settings room) hissued
  rw [Nat.zero_add] at hconsistent
  exact hconsistent

theorem callAll_append (s : Session) (calls more : List Call) :
    s.callAll (calls ++ more) =
      ((s.callAll calls).1 ++ ((s.callAll calls).2.callAll more).1,
        ((s.callAll calls).2.callAll more).2) := by
  induction calls generalizing s with
  | nil => rfl
  | cons c rest ih =>
    rw [List.cons_append]
    change ((s.call c).1 :: ((s.call c).2.callAll (rest ++ more)).1,
      ((s.call c).2.callAll (rest ++ more)).2) = _
    rw [ih]
    rfl

theorem issued_append (replies more : List Reply) :
    Reply.issued (replies ++ more) = Reply.issued replies + Reply.issued more :=
  List.countP_append

/-- Every time of a history in which handles are not used up has that ahead of it. -/
theorem Consistent.callAll_append {calls more : List Call} (hs : s.Consistent issued)
    (hissued : issued + Reply.issued (s.callAll (calls ++ more)).1 < issueLimit) :
    (s.callAll calls).2.Consistent (issued + Reply.issued (s.callAll calls).1) ∧
      issued + Reply.issued (s.callAll calls).1 +
        Reply.issued ((s.callAll calls).2.callAll more).1 < issueLimit := by
  rw [Session.callAll_append, issued_append] at hissued
  refine ⟨consistent_callAll hs (by omega), ?_⟩
  omega

end Session

end Hostcall
