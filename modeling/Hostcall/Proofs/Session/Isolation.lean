import Hostcall.Proofs.Session.Consistency
import Hostcall.Proofs.Session.Soundness

/-!
# Contexts do not interfere

The contexts of a session share a registry, a stack of calls in progress and the settings. All the
same, what becomes of one of them depends on the calls that concern it and on nothing else.

* `Session.Local`: a call about the innermost context is decided by the settings and the innermost
  call in progress. Such a call comes to one of four ends (`Fate`).
* `Alike h s v`: two sessions have the same slot of `h` and the same calls of it in progress. A call
  that concerns `h` gets the same reply from both and leaves them alike (`Alike.own`); any other
  call of one of them leaves them alike too (`Alike.other`).
* `contexts_do_not_interfere`: a context fares in a session as it does when only the calls that
  concern it are made.
-/

namespace Hostcall

open Attempt Registry

/-- The handle that a call is about. -/
def Call.subject? : Call → Option Handle
  | .cancel h | .status h | .contains h | .resume h | .consume h | .inspect h => some h
  | _ => none

/-- Whether a call is about the context of the innermost call in progress. -/
def Call.isInner : Call → Bool
  | .tick | .finish _ | .leave | .perform _ | .goTo _ | .forceReturn | .pause | .isPaused => true
  | _ => false

namespace Session

/-- Whether a call concerns the context of a handle. -/
def concerns (s : Session) (h : Handle) (c : Call) : Bool :=
  c.subject? = some h || c.isInner && s.active.head?.any (·.handle = h)

/-- The calls of a history that concern a handle, with the replies to them. -/
def own (h : Handle) : Session → List Call → List (Call × Reply)
  | _, [] => []
  | s, c :: rest =>
    (if s.concerns h c then [(c, (s.call c).1)] else []) ++ (s.call c).2.own h rest

/-- The calls in progress that have a handle. -/
def callsOf (s : Session) (h : Handle) : List Activation := s.active.filter (·.handle = h)

/-! ## Calls about the innermost context -/

/-- What becomes of the innermost call in progress. -/
inductive Fate where
  | goesOn (b : Activation)
  | checksIn (c : Context)
  | closes
  | drops

/-- A call in progress keeps its handle as long as it goes on. -/
def Fate.Keeps (h : Handle) : Fate → Prop
  | .goesOn b => b.handle = h
  | .checksIn _ | .closes | .drops => True

/-- The session after its innermost call `a` has met its fate. -/
def meet (s : Session) (a : Activation) (rest : List Activation) : Fate → Session
  | .goesOn b => { s with active := b :: rest }
  | .checksIn c => { s with registry := s.registry.set a.handle (.idle c), active := rest }
  | .closes => { s with registry := s.registry.erase a.handle, active := rest }
  | .drops => { s with active := rest }

/-- Both sessions reply the same, and their innermost call `a` meets the same fate. -/
def SameFate (f : Session → Reply × Session) (s v : Session) (a : Activation)
    (rest below : List Activation) : Prop :=
  ∃ reply fate, f s = (reply, s.meet a rest fate) ∧ f v = (reply, v.meet a below fate) ∧
    Fate.Keeps a.handle fate

/-- The settings and the innermost call decide on the reply and on the fate of that call. -/
structure Local (f : Session → Reply × Session) : Prop where
  nil : ∀ {s : Session}, s.active = [] → f s = (.misplaced, s)
  cons : ∀ {s v : Session} {a : Activation} {rest below : List Activation},
    v.settings = s.settings → s.active = a :: rest → v.active = a :: below →
      SameFate f s v a rest below

variable {s t v : Session} {h k : Handle} {a : Activation} {rest below : List Activation}

theorem sameFate_stay {f : Session → Reply × Session} (hactive : s.active = a :: rest)
    (hbelow : v.active = a :: below) (reply : Reply) (hs : f s = (reply, s))
    (hv : f v = (reply, v)) : SameFate f s v a rest below := by
  refine ⟨reply, .goesOn a, ?_, ?_, rfl⟩
  · rw [hs, meet, ← hactive]
  · rw [hv, meet, ← hbelow]

theorem local_tick : Local tick := by
  refine ⟨fun hnil => by simp [tick, hnil], ?_⟩
  intro s v a rest below hsettings hactive hbelow
  cases hphase : a.phase with
  | executing =>
    have hadvance : advance v.settings a.spent a.context.machine =
        advance s.settings a.spent a.context.machine := by rw [hsettings]
    simp only [SameFate, tick, hactive, hbelow, hphase, hadvance]
    cases advance s.settings a.spent a.context.machine with
    | error fault => exact ⟨_, .closes, rfl, rfl, trivial⟩
    | ok progress =>
      cases progress with
      | finished => exact ⟨_, .closes, rfl, rfl, trivial⟩
      | next m => exact ⟨_, .goesOn _, rfl, rfl, rfl⟩
      | dispatch m d => exact ⟨_, .goesOn _, rfl, rfl, rfl⟩
  | handling | inspecting =>
    apply sameFate_stay hactive hbelow .misplaced
    · simp only [tick, hactive, hphase]
    · simp only [tick, hbelow, hphase]

theorem local_finish (outcome : Except String Unit) : Local (finish · outcome) := by
  refine ⟨fun hnil => by simp [finish, hnil], ?_⟩
  intro s v a rest below hsettings hactive hbelow
  cases hphase : a.phase with
  | handling d control paused =>
    simp only [SameFate, finish, hactive, hbelow, hphase]
    split
    · exact ⟨_, .drops, rfl, rfl, trivial⟩
    · split
      · exact ⟨_, .closes, rfl, rfl, trivial⟩
      · split
        · exact ⟨_, .checksIn _, rfl, rfl, trivial⟩
        · split
          · exact ⟨_, .checksIn _, rfl, rfl, trivial⟩
          · exact ⟨_, .goesOn _, rfl, rfl, rfl⟩
  | executing | inspecting =>
    apply sameFate_stay hactive hbelow .misplaced
    · simp only [finish, hactive, hphase]
    · simp only [finish, hbelow, hphase]

theorem local_leave : Local leave := by
  refine ⟨fun hnil => by simp [leave, hnil], ?_⟩
  intro s v a rest below hsettings hactive hbelow
  cases hphase : a.phase with
  | inspecting =>
    simp only [SameFate, leave, hactive, hbelow, hphase]
    split
    · exact ⟨_, .drops, rfl, rfl, trivial⟩
    · exact ⟨_, .checksIn _, rfl, rfl, trivial⟩
  | executing | handling =>
    apply sameFate_stay hactive hbelow .misplaced
    · simp only [leave, hactive, hphase]
    · simp only [leave, hbelow, hphase]

theorem local_perform (action : Arena.Action) : Local (perform · action) := by
  refine ⟨fun hnil => by simp [perform, hnil], ?_⟩
  intro s v a rest below hsettings hactive hbelow
  cases hphase : a.phase with
  | handling | inspecting =>
    simp only [SameFate, perform, hactive, hbelow, hphase]
    exact ⟨_, .goesOn _, rfl, rfl, rfl⟩
  | executing =>
    apply sameFate_stay hactive hbelow .misplaced
    · simp only [perform, hactive, hphase]
    · simp only [perform, hbelow, hphase]

theorem local_request (change : Control → Bool → Control × Bool) : Local (request · change) := by
  refine ⟨fun hnil => by simp [request, hnil], ?_⟩
  intro s v a rest below hsettings hactive hbelow
  cases hphase : a.phase with
  | handling d control paused =>
    simp only [SameFate, request, hactive, hbelow, hphase]
    exact ⟨_, .goesOn _, rfl, rfl, rfl⟩
  | executing | inspecting =>
    apply sameFate_stay hactive hbelow .misplaced
    · simp only [request, hactive, hphase]
    · simp only [request, hbelow, hphase]

theorem local_goTo (label : String) : Local (goTo · label) := by
  refine ⟨fun hnil => by simp [goTo, hnil], ?_⟩
  intro s v a rest below hsettings hactive hbelow
  cases hphase : a.phase with
  | handling d control paused =>
    simp only [SameFate, goTo, hactive, hbelow, hphase]
    split
    · exact (local_request _).cons hsettings hactive hbelow
    · exact sameFate_stay (f := fun s => (.refused (.labelNotFound label), s)) hactive hbelow _
        rfl rfl
  | executing | inspecting =>
    apply sameFate_stay hactive hbelow .misplaced
    · simp only [goTo, hactive, hphase]
    · simp only [goTo, hbelow, hphase]

theorem local_isPaused : Local isPaused := by
  refine ⟨fun hnil => by simp [isPaused, hnil], ?_⟩
  intro s v a rest below hsettings hactive hbelow
  cases hphase : a.phase with
  | handling d control paused =>
    apply sameFate_stay hactive hbelow (.flag paused)
    · simp only [isPaused, hactive, hphase]
    · simp only [isPaused, hbelow, hphase]
  | executing | inspecting =>
    apply sameFate_stay hactive hbelow .misplaced
    · simp only [isPaused, hactive, hphase]
    · simp only [isPaused, hbelow, hphase]

/-- **Calls about the innermost context.** -/
theorem local_of_isInner {c : Call} (hc : c.isInner = true) : Local (call · c) := by
  cases c with
  | tick => exact local_tick
  | finish outcome => exact local_finish outcome
  | leave => exact local_leave
  | perform action => exact local_perform action
  | goTo label => exact local_goTo label
  | forceReturn => exact local_request fun _ paused => (.leave, paused)
  | pause => exact local_request fun control _ => (control, true)
  | isPaused => exact local_isPaused
  | start | startProgram | fork | cancel | status | contains | size | handles | resume | consume
    | run | inspect => cases hc

/-! ## Sessions that are alike for a handle -/

/-- The second session has the slot of `h` and the calls of `h` in progress, before other calls. -/
structure Alike (h : Handle) (s v : Session) : Prop where
  settings : v.settings = s.settings
  slot : v.registry.get? h = s.registry.get? h
  calls : ∃ others, v.active = s.callsOf h ++ others ∧ ∀ b ∈ others, b.handle ≠ h

theorem callsOf_cons_self (hactive : s.active = a :: rest) (ha : a.handle = h) :
    s.callsOf h = a :: rest.filter (·.handle = h) := by
  unfold callsOf
  rw [hactive, List.filter_cons_of_pos]
  exact decide_eq_true ha

theorem callsOf_cons_of_ne (hactive : s.active = a :: rest) (ha : a.handle ≠ h) :
    s.callsOf h = rest.filter (·.handle = h) := by
  unfold callsOf
  rw [hactive, List.filter_cons_of_neg]
  simpa using ha

theorem callsOf_map_mark (active : List Activation) :
    (active.map (Activation.mark k)).filter (·.handle = h) =
      (active.filter (·.handle = h)).map (Activation.mark k) := by
  rw [List.filter_map]
  congr 1
  apply List.filter_congr
  intro a _
  simp [handle_mark]

theorem mark_of_ne (ha : a.handle ≠ k) : a.mark k = a := if_neg ha

theorem map_mark_of_ne {active : List Activation} (hne : ∀ a ∈ active, a.handle ≠ k) :
    active.map (Activation.mark k) = active := by
  rw [List.map_congr_left fun a ha => mark_of_ne (hne a ha)]
  exact List.map_id' active

theorem get?_set_same (r : Registry Resident) (new : Resident) :
    (r.set h new).get? h = (r.get? h).map fun _ => new := by
  cases hget : r.get? h with
  | none => rw [set_of_none hget, hget]; rfl
  | some value => exact get?_set_self hget new

/-- The innermost calls of both sessions are the same and meet the same fate. -/
theorem Alike.meet_own (hv : Alike h s v) {others : List Activation} (ha : a.handle = h)
    (hothers : ∀ b ∈ others, b.handle ≠ h) {fate : Fate} (hfate : fate.Keeps a.handle) :
    Alike h (s.meet a rest fate) (v.meet a (rest.filter (·.handle = h) ++ others) fate) := by
  subst ha
  cases fate with
  | goesOn b =>
    refine ⟨hv.settings, hv.slot, others, ?_, hothers⟩
    rw [callsOf_cons_self rfl hfate]
    rfl
  | checksIn c =>
    refine ⟨hv.settings, ?_, others, rfl, hothers⟩
    simp only [meet, get?_set_same, hv.slot]
  | closes =>
    refine ⟨hv.settings, ?_, others, rfl, hothers⟩
    simp only [meet, get?_erase_self]
  | drops => exact ⟨hv.settings, hv.slot, others, rfl, hothers⟩

/-- The innermost call of the first session is that of another handle. -/
theorem Alike.meet_other (hv : Alike h s v) (hactive : s.active = a :: rest) (ha : a.handle ≠ h)
    {fate : Fate} (hfate : fate.Keeps a.handle) : Alike h (s.meet a rest fate) v := by
  have hcalls := hv.calls
  rw [callsOf_cons_of_ne hactive ha] at hcalls
  cases fate with
  | goesOn b =>
    have hb : b.handle ≠ h := fun heq => ha (hfate.symm.trans heq)
    refine ⟨hv.settings, hv.slot, ?_⟩
    rw [callsOf_cons_of_ne rfl hb]
    exact hcalls
  | checksIn c =>
    refine ⟨hv.settings, ?_, hcalls⟩
    rw [hv.slot]
    exact (get?_set_of_ne ha.symm _).symm
  | closes =>
    refine ⟨hv.settings, ?_, hcalls⟩
    rw [hv.slot]
    exact (get?_erase_of_ne ha.symm).symm
  | drops => exact ⟨hv.settings, hv.slot, hcalls⟩

/-! ## Calls that concern the handle -/

theorem Alike.idle_eq (hv : Alike h s v) : v.idle h = s.idle h := by
  unfold idle
  rw [hv.slot]

theorem Alike.erase (hv : Alike h s v) :
    Alike h { s with registry := s.registry.erase h }
      { v with registry := v.registry.erase h } := by
  refine ⟨hv.settings, ?_, hv.calls⟩
  simp only [get?_erase_self]

theorem Alike.checkOut (hv : Alike h s v) (mode : Mode) (phase : Phase) (c : Context) :
    Alike h (s.checkOut h mode phase c) (v.checkOut h mode phase c) := by
  obtain ⟨others, hactive, hothers⟩ := hv.calls
  refine ⟨hv.settings, ?_, others, ?_, hothers⟩
  · simp only [Session.checkOut, get?_set_same, hv.slot]
  · have hpush := callsOf_cons_self (s := s.checkOut h mode phase c) (h := h) rfl rfl
    rw [hpush]
    unfold Session.checkOut
    dsimp only
    rw [hactive]
    rfl

theorem Alike.execute (hv : Alike h s v) (mode : Mode) :
    (v.execute h mode).1 = (s.execute h mode).1 ∧
      Alike h (s.execute h mode).2 (v.execute h mode).2 := by
  unfold Session.execute
  rw [hv.idle_eq]
  split
  · exact ⟨rfl, hv⟩
  · split
    · exact ⟨rfl, hv.erase⟩
    · exact ⟨rfl, hv.checkOut mode .executing _⟩

theorem Alike.inspect (hv : Alike h s v) :
    (v.inspect h).1 = (s.inspect h).1 ∧ Alike h (s.inspect h).2 (v.inspect h).2 := by
  unfold Session.inspect
  rw [hv.idle_eq]
  split
  · exact ⟨rfl, hv⟩
  · exact ⟨rfl, hv.checkOut .inspect .inspecting _⟩

theorem Alike.status (hv : Alike h s v) :
    (v.status h).1 = (s.status h).1 ∧ Alike h (s.status h).2 (v.status h).2 := by
  unfold Session.status
  rw [hv.idle_eq]
  split
  · exact ⟨rfl, hv⟩
  · exact ⟨rfl, hv⟩

theorem Alike.cancel (hv : Alike h s v) :
    (v.cancel h).1 = (s.cancel h).1 ∧ Alike h (s.cancel h).2 (v.cancel h).2 := by
  have hslot := hv.slot
  rcases cancel_cases s h with ⟨hget, heq⟩ | ⟨resident, hget, heq⟩
  · rw [hget] at hslot
    rcases cancel_cases v h with ⟨_, heqv⟩ | ⟨_, hgetv, _⟩
    · rw [heq, heqv]
      exact ⟨rfl, hv⟩
    · rw [hslot] at hgetv
      cases hgetv
  · rw [hget] at hslot
    rcases cancel_cases v h with ⟨hgetv, _⟩ | ⟨_, _, heqv⟩
    · rw [hslot] at hgetv
      cases hgetv
    · rw [heq, heqv]
      obtain ⟨others, hactive, hothers⟩ := hv.calls
      refine ⟨rfl, hv.settings, ?_, others, ?_, hothers⟩
      · simp only [get?_erase_self]
      · dsimp only [callsOf]
        rw [hactive, List.map_append, map_mark_of_ne hothers, callsOf_map_mark]
        rfl

/-- **A call that concerns the handle** gets the same reply from both sessions. -/
theorem Alike.own (hv : Alike h s v) {c : Call} (hc : s.concerns h c = true) :
    (v.call c).1 = (s.call c).1 ∧ Alike h (s.call c).2 (v.call c).2 := by
  rcases Bool.or_eq_true_iff.mp hc with hsubject | hinner
  · replace hsubject := of_decide_eq_true hsubject
    cases c with
    | cancel k =>
      cases hsubject
      exact hv.cancel
    | status k =>
      cases hsubject
      exact hv.status
    | contains k =>
      cases hsubject
      refine ⟨?_, hv⟩
      simp only [call, Registry.contains, hv.slot]
    | resume k =>
      cases hsubject
      exact hv.execute .resume
    | consume k =>
      cases hsubject
      exact hv.execute .consume
    | inspect k =>
      cases hsubject
      exact hv.inspect
    | start | startProgram | fork | size | handles | run | tick | finish | leave | perform | goTo
      | forceReturn | pause | isPaused => cases hsubject
  · obtain ⟨hinner, hhead⟩ := Bool.and_eq_true_iff.mp hinner
    cases hactive : s.active with
    | nil =>
      rw [hactive] at hhead
      cases hhead
    | cons a rest =>
      have ha : a.handle = h := by simpa [hactive] using hhead
      obtain ⟨others, hcalls, hothers⟩ := hv.calls
      rw [callsOf_cons_self hactive ha] at hcalls
      obtain ⟨reply, fate, hs, hfate, hkeeps⟩ :=
        (local_of_isInner hinner).cons hv.settings hactive hcalls
      dsimp only at hs hfate
      rw [hs, hfate]
      exact ⟨rfl, hv.meet_own ha hothers hkeeps⟩

/-! ## Calls that do not concern the handle -/

theorem Alike.insert (hv : Alike h s v) (hw : s.registry.WellFormed)
    (hne : h ≠ s.registry.nextHandle) (resident : Resident) :
    Alike h { s with registry := s.registry.insert resident } v := by
  refine ⟨hv.settings, ?_, hv.calls⟩
  rw [hv.slot]
  exact (get?_insert_of_ne hw hne resident).symm

theorem Alike.startProgram_other (hv : Alike h s v) (hw : s.registry.WellFormed) (p : Program)
    (entry : String) (memorySize stackSize : Nat)
    (hreply : (s.startProgram p entry memorySize stackSize).1 ≠ .handle h) :
    Alike h (s.startProgram p entry memorySize stackSize).2 v := by
  rcases startProgram_cases s p entry memorySize stackSize with
    ⟨cause, heq⟩ | ⟨index, c, _, _, _, _, heq⟩
  · rw [heq]
    exact hv
  · rw [heq] at hreply ⊢
    exact hv.insert hw (fun hnext => hreply (by rw [hnext])) _

theorem Alike.push_other (hv : Alike h s v) (ha : a.handle ≠ h) :
    Alike h { s with active := a :: s.active } v := by
  refine ⟨hv.settings, hv.slot, ?_⟩
  rw [callsOf_cons_of_ne rfl ha]
  exact hv.calls

theorem Alike.set_other (hv : Alike h s v) (hk : k ≠ h) (resident : Resident) :
    Alike h { s with registry := s.registry.set k resident } v := by
  refine ⟨hv.settings, ?_, hv.calls⟩
  rw [hv.slot]
  exact (get?_set_of_ne hk.symm resident).symm

theorem Alike.erase_other (hv : Alike h s v) (hk : k ≠ h) :
    Alike h { s with registry := s.registry.erase k } v := by
  refine ⟨hv.settings, ?_, hv.calls⟩
  rw [hv.slot]
  exact (get?_erase_of_ne hk.symm).symm

theorem Alike.checkOut_other (hv : Alike h s v) (hk : k ≠ h) (mode : Mode) (phase : Phase)
    (c : Context) : Alike h (s.checkOut k mode phase c) v :=
  (hv.set_other hk (.away c.program)).push_other hk

theorem Alike.execute_other (hv : Alike h s v) (hk : k ≠ h) (mode : Mode) :
    Alike h (s.execute k mode).2 v := by
  rcases execute_cases s k mode with ⟨cause, heq, _⟩ | ⟨c, _, heq⟩ | ⟨c, _, heq⟩
  · rw [heq]
    exact hv
  · rw [heq]
    exact hv.erase_other hk
  · rw [heq]
    exact hv.checkOut_other hk mode .executing _

theorem Alike.inspect_other (hv : Alike h s v) (hk : k ≠ h) : Alike h (s.inspect k).2 v := by
  rcases inspect_cases s k with ⟨cause, heq⟩ | ⟨c, _, heq⟩
  · rw [heq]
    exact hv
  · rw [heq]
    exact hv.checkOut_other hk .inspect .inspecting _

theorem Alike.cancel_other (hv : Alike h s v) (hk : k ≠ h) : Alike h (s.cancel k).2 v := by
  rcases cancel_cases s k with ⟨_, heq⟩ | ⟨resident, _, heq⟩
  · rw [heq]
    exact hv
  · rw [heq]
    refine ⟨hv.settings, (hv.erase_other hk).slot, ?_⟩
    have hsame : (s.callsOf h).map (Activation.mark k) = s.callsOf h := by
      apply map_mark_of_ne
      intro b hb heq
      have hb' : b.handle = h := by simpa [callsOf] using (List.mem_filter.mp hb).2
      exact hk (heq.symm.trans hb')
    unfold callsOf
    rw [callsOf_map_mark, show s.active.filter (·.handle = h) = s.callsOf h from rfl, hsame]
    exact hv.calls

/-- **Any other call** leaves the sessions alike, unless it gives out the handle anew. -/
theorem Alike.other (hv : Alike h s v) (hw : s.registry.WellFormed) (hh : h ≠ .detached) {c : Call}
    (hc : s.concerns h c = false) (hreply : (s.call c).1 ≠ .handle h) :
    Alike h (s.call c).2 v := by
  obtain ⟨hsubject, hinner⟩ := Bool.or_eq_false_iff.mp hc
  replace hsubject := of_decide_eq_false hsubject
  have hsubject' : ∀ k, c.subject? = some k → k ≠ h := by
    rintro k hk rfl
    exact hsubject hk
  by_cases hcall : c.isInner = true
  · cases hactive : s.active with
    | nil =>
      have heq : s.call c = (.misplaced, s) := (local_of_isInner hcall).nil hactive
      rw [heq]
      exact hv
    | cons a rest =>
      have ha : a.handle ≠ h := by simpa [hactive, hcall] using hinner
      obtain ⟨reply, fate, hs, _, hkeeps⟩ :=
        (local_of_isInner hcall).cons rfl hactive hactive
      dsimp only at hs
      rw [hs]
      exact hv.meet_other hactive ha hkeeps
  · cases c with
    | start bytecode entry memorySize stackSize =>
      simp only [call, start] at hreply ⊢
      split
      · exact hv
      · rename_i p hload
        rw [hload] at hreply
        exact hv.startProgram_other hw p entry memorySize stackSize hreply
    | startProgram p entry memorySize stackSize =>
      exact hv.startProgram_other hw p entry memorySize stackSize hreply
    | fork parent entry memorySize stackSize =>
      simp only [call, fork] at hreply ⊢
      split
      · exact hv
      · rename_i resident hget
        rw [hget] at hreply
        exact hv.startProgram_other hw _ entry memorySize stackSize hreply
    | run bytecode entry memorySize stackSize =>
      simp only [call]
      rcases run_cases s bytecode entry memorySize stackSize with ⟨cause, heq⟩ | ⟨c, _, heq⟩
      · rw [heq]
        exact hv
      · rw [heq]
        exact hv.push_other hh.symm
    | cancel k => exact hv.cancel_other (hsubject' k rfl)
    | status k =>
      simp only [call, Session.status]
      split
      · exact hv
      · exact hv
    | contains | size | handles => exact hv
    | resume k => exact hv.execute_other (hsubject' k rfl) .resume
    | consume k => exact hv.execute_other (hsubject' k rfl) .consume
    | inspect k => exact hv.inspect_other (hsubject' k rfl)
    | tick | finish | leave | perform | goTo | forceReturn | pause | isPaused =>
      exact absurd rfl hcall

/-! ## Histories -/

/-- **Histories.** The calls that concern the handle, made alone, get the replies that they get
among all the calls. -/
theorem Alike.callAll {calls : List Call} (hv : Alike h s v) (hw : s.registry.WellFormed)
    (hh : h ≠ .detached) (hnew : .handle h ∉ (s.callAll calls).1) :
    (v.callAll ((s.own h calls).map (·.1))).1 = (s.own h calls).map (·.2) ∧
      Alike h (s.callAll calls).2 (v.callAll ((s.own h calls).map (·.1))).2 := by
  induction calls generalizing s v with
  | nil => exact ⟨rfl, hv⟩
  | cons c rest ih =>
    have hw' : (s.call c).2.registry.WellFormed := (transition_call s c).wellFormed hw
    obtain ⟨hreply, hrest⟩ : (s.call c).1 ≠ .handle h ∧
        .handle h ∉ ((s.call c).2.callAll rest).1 := by
      obtain ⟨hne, hrest⟩ := not_or.mp (mt List.mem_cons.mpr hnew)
      exact ⟨fun heq => hne heq.symm, hrest⟩
    cases hc : s.concerns h c with
    | true =>
      obtain ⟨hsame, hnext⟩ := hv.own hc
      obtain ⟨hreplies, hend⟩ := ih hnext hw' hrest
      have hown : s.own h (c :: rest) = (c, (s.call c).1) :: (s.call c).2.own h rest := by
        simp [Session.own, hc]
      rw [hown]
      refine ⟨?_, hend⟩
      change (v.call c).1 :: ((v.call c).2.callAll _).1 = _
      rw [hreplies, hsame]
      rfl
    | false =>
      have hown : s.own h (c :: rest) = (s.call c).2.own h rest := by simp [Session.own, hc]
      rw [hown]
      exact ih (hv.other hw hh hc hreply) hw' hrest

theorem Alike.callsOf_eq (hv : Alike h s v) : v.callsOf h = s.callsOf h := by
  obtain ⟨others, hactive, hothers⟩ := hv.calls
  have hnone : others.filter (·.handle = h) = [] := by simpa using hothers
  unfold callsOf at hactive ⊢
  rw [hactive, List.filter_append, hnone, List.append_nil, List.filter_filter]
  simp

/-- A session is alike to itself for a context that is not executed or inspected. -/
theorem alike_self (hidle : ∀ a ∈ s.active, a.handle ≠ h) : Alike h s s := by
  refine ⟨rfl, rfl, s.active, ?_, hidle⟩
  have hnone : s.callsOf h = [] := by simpa [callsOf] using hidle
  rw [hnone]
  rfl

/-- **Contexts do not interfere.** Take any state of an engine, a context registered there and any
calls after that, of this and other contexts, one inside the other or not, that do not give out the
handle of the context anew. Then the calls that concern the context, made alone, get the same
replies, and they leave the context in the same state: in its slot and in every call of it. It does
not matter what other contexts and calls of other contexts there were.

To fork a context is to start its program. It leaves the context as it is, in its slot or with its
calls. -/
theorem contexts_do_not_interfere (settings : Settings) (room : Nat) (before calls : List Call) :
    let s := (callAll { settings, room } before).2
    (∀ h, s.registry.contains h = true → .handle h ∉ (s.callAll calls).1 →
      ∀ v, Alike h s v →
        let alone := v.callAll ((s.own h calls).map (·.1))
        alone.1 = (s.own h calls).map (·.2) ∧
        alone.2.registry.get? h = (s.callAll calls).2.registry.get? h ∧
        alone.2.callsOf h = (s.callAll calls).2.callsOf h) ∧
    ∀ parent resident, s.registry.get? parent = some resident →
      (∀ entry memorySize stackSize,
        let forked := s.fork parent entry memorySize stackSize
        forked = s.startProgram resident.program entry memorySize stackSize ∧
        forked.2.registry.get? parent = some resident ∧ forked.2.active = s.active) ∧
      (Reply.issued (callAll { settings, room } before).1 < issueLimit →
        ∀ a ∈ s.active, a.handle = parent → a.mode ≠ .run → a.cancelled = false →
          a.context.program = resident.program) := by
  intro s
  have hw : s.registry.WellFormed := wellFormed_callAll wellFormed_empty before
  refine ⟨?_, ?_⟩
  · intro h hcontains hnew v hv alone
    have hh : h ≠ .detached := by
      rintro rfl
      obtain ⟨resident, hget⟩ := contains_iff.mp hcontains
      rw [hw.get?_detached] at hget
      cases hget
    obtain ⟨hreplies, hend⟩ := hv.callAll hw hh hnew
    exact ⟨hreplies, hend.slot, hend.callsOf_eq⟩
  · intro parent resident hget
    refine ⟨?_, ?_⟩
    · intro entry memorySize stackSize forked
      have heq : forked = s.startProgram resident.program entry memorySize stackSize := by
        change s.fork parent entry memorySize stackSize = _
        unfold fork
        rw [hget]
      refine ⟨heq, ?_⟩
      rw [heq]
      rcases startProgram_cases s resident.program entry memorySize stackSize with
        ⟨cause, hrefused⟩ | ⟨index, c, _, _, _, _, hstarted⟩
      · rw [hrefused]
        exact ⟨hget, rfl⟩
      · rw [hstarted]
        exact ⟨hw.get?_insert_of_some hget _, rfl⟩
    · intro hissued a ha hhandle hrun hcancelled
      have hs := consistent_history settings room hissued
      have hregistered := hs.registered a ha hrun hcancelled
      rw [hhandle] at hregistered
      cases hget.symm.trans hregistered
      rfl

/-- A session with two contexts that will ask something. -/
def retryingPair : Session :=
  (callAll { room := 64 }
    [.startProgram retrying "main" 0 4, .startProgram retrying "main" 0 4]).2

/-- The host handles the question of one context inside that of the other, which it forks and sends
back to ask again; and it cancels the one before that. -/
def retryingInterleaved : List Call :=
  [.resume ⟨0, 1⟩, .tick, .tick, .resume ⟨1, 1⟩, .tick, .tick, .finish (.ok ()),
    .fork ⟨0, 1⟩ "main" 0 4, .goTo "again", .finish (.ok ()), .cancel ⟨1, 1⟩, .resume ⟨0, 1⟩,
    .tick, .tick]

/-- Eight of the calls concern the other context, and they get the same replies alone. -/
theorem retryingInterleaved_does_not_interfere :
    (retryingPair.own ⟨0, 1⟩ retryingInterleaved).length = 8 ∧
      (retryingPair.callAll ((retryingPair.own ⟨0, 1⟩ retryingInterleaved).map (·.1))).1 =
        (retryingPair.own ⟨0, 1⟩ retryingInterleaved).map (·.2) := by
  have hcontains : retryingPair.registry.contains ⟨0, 1⟩ = true := by decide +kernel
  have hissued : (retryingPair.callAll retryingInterleaved).1.filterMap Reply.handle? =
      [⟨2, 1⟩] := by decide +kernel
  have hnew : .handle ⟨0, 1⟩ ∉ (retryingPair.callAll retryingInterleaved).1 := by
    intro hmem
    have hgiven : (⟨0, 1⟩ : Handle) ∈ [(⟨2, 1⟩ : Handle)] := by
      rw [← hissued]
      exact List.mem_filterMap.mpr ⟨_, hmem, rfl⟩
    revert hgiven
    decide
  have hidle : ∀ a ∈ retryingPair.active, a.handle ≠ ⟨0, 1⟩ := by decide +kernel
  obtain ⟨hcalls, _⟩ := contexts_do_not_interfere {} 64
    [.startProgram retrying "main" 0 4, .startProgram retrying "main" 0 4] retryingInterleaved
  exact ⟨by decide +kernel, (hcalls ⟨0, 1⟩ hcontains hnew _ (alike_self hidle)).1⟩

end Session

end Hostcall
