import Hostcall.Boundary.Script
import Hostcall.Proofs.Registry.History
import Hostcall.Proofs.Session.Transitions

/-!
# What one request of a foreign host does

A request is turned down for an argument, for a raw handle that no registry gives out, or by the
engine. `complaint?` says which of these it is, if any, without a word about how errors are
recorded. `Behaves` then says what a request does: one with a complaint fails and records it once,
one without does not fail and records nothing (`behaves`).

Besides, a request that carries the innermost call on ends at most this one, and does so if it
fails; no other request ends a call.
-/

namespace Hostcall

open Session

/-- The cause for which an engine has refused a call or ended it. -/
def Reply.refusal? : Reply → Option EngineError
  | .refused cause => some cause
  | _ => none

/-- What is wrong with a request. -/
inductive Complaint where
  /-- An argument is missing or not UTF-8. -/
  | argument (message : String)
  /-- No registry gives out the raw handle. -/
  | handle (raw : UInt64)
  | engine (cause : EngineError)

namespace Complaint

def code : Complaint → Code
  | .argument _ => .invalidArgument
  | .handle _ => .unknownHandle
  | .engine cause => .ofEngineError cause

def message : Complaint → String
  | .argument message => message
  | .handle raw => Boundary.invalidHandle raw
  | .engine cause => cause.message

theorem code_ne_ok (c : Complaint) : c.code ≠ .ok := by
  cases c with
  | argument | handle =>
    intro heq
    cases heq
  | engine cause => exact Code.ofEngineError_ne_ok cause

end Complaint

namespace Request

/-- Whether a request makes a call of the engine, or cancels one. -/
def isCall : Request → Bool
  | .start .. | .fork .. | .run .. | .resume .. | .consume .. | .inspect .. | .cancel _ => true
  | _ => false

/-- Whether a request carries the innermost call on. -/
def isOnward : Request → Bool
  | .tick | .answer _ | .leave => true
  | _ => false

/-- Whether a request gives back a handle. -/
def givesHandle : Request → Bool
  | .start .. | .fork .. => true
  | _ => false

/-- Whether a request makes a call that is over at once. -/
def isBrief : Request → Bool
  | .start .. | .fork .. | .cancel _ => true
  | _ => false

/-- What a request gives back that fails with a code. -/
def failure (r : Request) (code : Code) : Outcome :=
  if r.givesHandle then .handle 0 else .code code

end Request

/-- Whether a host takes an outcome for a failure. -/
def Outcome.failed : Outcome → Bool
  | .handle raw => raw == 0
  | .code value => value != .ok
  | _ => false

theorem Request.failed_failure (r : Request) (c : Complaint) :
    (r.failure c.code).failed = true := by
  unfold failure
  split
  · rfl
  · exact bne_iff_ne.mpr c.code_ne_ok

theorem Activation.Onward.refusal? {a b : Activation} {reply : Reply} (h : a.Onward reply b) :
    reply.refusal? = none := by
  cases h with
  | instruct | dispatch | use | request | answered => rfl

namespace Boundary

/-- What is wrong with a request, if anything is. -/
def complaint? (b : Boundary) : Request → Option Complaint
  | .start bytecode entry memorySize stackSize =>
    match bytecode with
    | none => some (.argument "bytecode is NULL")
    | some bytes =>
      match RawText.read "entry" entry with
      | .error message => some (.argument message)
      | .ok entry => (b.session.start bytes entry memorySize stackSize).1.refusal?.map .engine
  | .fork parent entry memorySize stackSize =>
    match Handle.ofRaw? parent with
    | none => some (.handle parent)
    | some h =>
      match RawText.read "entry" entry with
      | .error message => some (.argument message)
      | .ok entry => (b.session.fork h entry memorySize stackSize).1.refusal?.map .engine
  | .run bytecode entry memorySize stackSize callback =>
    match bytecode with
    | none => some (.argument "bytecode is NULL")
    | some bytes =>
      if !callback then some (.argument "operation callback is NULL")
      else match RawText.read "entry" entry with
        | .error message => some (.argument message)
        | .ok entry => (b.session.run bytes entry memorySize stackSize).1.refusal?.map .engine
  | .resume raw callback => entering raw callback "operation callback" b.session.resume
  | .consume raw callback => entering raw callback "operation callback" b.session.consume
  | .inspect raw callback => entering raw callback "callback" b.session.inspect
  | .tick =>
    match b.session.tick with
    | (.operation op, session) =>
      if '\x00' ∈ op.name.toList then
        (session.finish (.error "operation name contains a NUL byte")).1.refusal?.map .engine
      else none
    | (reply, _) => reply.refusal?.map .engine
  | .answer code =>
    (b.session.finish <| if code = .ok then .ok ()
      else .error ("operation callback returned " ++ code.name)).1.refusal?.map .engine
  | .leave => b.session.leave.1.refusal?.map .engine
  | _ => none
where
  /-- What is wrong with a call that enters the context of a raw handle. -/
  entering (raw : UInt64) (callback : Bool) (kind : String) (call : Handle → Reply × Session) :
      Option Complaint :=
    if !callback then some (.argument (kind ++ " is NULL"))
    else match Handle.ofRaw? raw with
      | none => some (.handle raw)
      | some h => (call h).1.refusal?.map .engine

/-- What a request does, whatever its host does when it is told of an error. -/
inductive Behaves (b : Boundary) (r : Request) : Prop where
  /-- There is a complaint, and it is recorded once. If the request was to carry the innermost call
  on, this call has ended. -/
  | fails {c : Complaint} {s : Session} (complaint : b.complaint? r = some c)
      (call : ∀ aside, b.callWith aside r =
        (r.failure c.code, { b with session := s }.record aside c.message))
      (length : s.active.length + r.isOnward.toNat = b.session.active.length)
      (wellFormed : b.session.registry.WellFormed → s.registry.WellFormed)
  /-- There is no complaint, and no error is recorded. -/
  | succeeds {outcome : Outcome} {t : Boundary} (complaint : b.complaint? r = none)
      (call : ∀ aside, b.callWith aside r = (outcome, t))
      (failed : b.session.registry.WellFormed → outcome.failed = false)
      (notices : t.notices = b.notices)
      (lastError : r.isCall = true ∨ r.isOnward = true → t.lastError = b.lastError)
      (length : b.session.active.length ≤ t.session.active.length + r.isOnward.toNat)
      (brief : r.isBrief = true → t.session.active.length ≤ b.session.active.length)
      (wellFormed : b.session.registry.WellFormed → t.session.registry.WellFormed)

variable {b : Boundary} {r : Request} {p : Reply × Session}

/-! ## Errors -/

/-- A request that is turned down for an argument. -/
theorem behaves_of_argument {c : Complaint} (hcomplaint : b.complaint? r = some c)
    (hcall : ∀ aside, b.callWith aside r = (r.failure c.code, b.record aside c.message))
    (honward : r.isOnward = false) : b.Behaves r := by
  refine .fails (s := b.session) hcomplaint hcall ?_ id
  rw [honward]
  rfl

theorem concluded_of_refusal? {cause : EngineError} (h : p.1.refusal? = some cause)
    (aside : Boundary → Boundary) :
    b.concluded aside p =
      (.code (.ofEngineError cause), { b with session := p.2 }.record aside cause.message) := by
  obtain ⟨reply, session⟩ := p
  cases reply with
  | refused other =>
    cases h
    rfl
  | done | flag | count | handle | handles | status | answer | working | operation | inspecting
    | ended | misplaced => cases h

theorem concluded_of_none (h : p.1.refusal? = none) :
    ∃ outcome : Outcome, outcome.failed = false ∧
      ∀ aside, b.concluded aside p = (outcome, { b with session := p.2 }) := by
  obtain ⟨reply, session⟩ := p
  cases reply with
  | refused cause => cases h
  | done | flag | count | handle | handles | status | answer | working | operation | inspecting
    | ended | misplaced => exact ⟨_, rfl, fun _ => rfl⟩

/-- A request that comes down to a call of the engine and does not give a handle. -/
theorem behaves_of_concluded (hcomplaint : b.complaint? r = p.1.refusal?.map .engine)
    (hcall : ∀ aside, b.callWith aside r = b.concluded aside p) (hhandle : r.givesHandle = false)
    (hbrief : r.isBrief = false)
    (hends : ∀ cause, p.1.refusal? = some cause →
      p.2.active.length + r.isOnward.toNat = b.session.active.length)
    (hlength : b.session.active.length ≤ p.2.active.length + r.isOnward.toNat)
    (hwellFormed : b.session.registry.WellFormed → p.2.registry.WellFormed) : b.Behaves r := by
  cases hrefusal : p.1.refusal? with
  | some cause =>
    rw [hrefusal] at hcomplaint
    refine .fails hcomplaint (fun aside => ?_) (hends cause hrefusal) hwellFormed
    rw [hcall, concluded_of_refusal? hrefusal, Request.failure, hhandle]
    rfl
  | none =>
    rw [hrefusal] at hcomplaint
    obtain ⟨outcome, hfailed, hconcluded⟩ := concluded_of_none (b := b) hrefusal
    refine .succeeds hcomplaint (fun aside => (hcall aside).trans (hconcluded aside))
      (fun _ => hfailed) rfl (fun _ => rfl) hlength (fun h => ?_) hwellFormed
    rw [hbrief] at h
    cases h

/-- The engine refuses a call, or it registers a context and gives the handle of it. -/
def Issues (s : Session) (p : Reply × Session) : Prop :=
  (∃ cause, p = (.refused cause, s)) ∨
    ∃ c, p = (.handle s.registry.nextHandle, { s with registry := s.registry.insert (.idle c) })

/-- The engine refuses a call, or the call ends at once or goes on. None is ended by it. -/
def Opens (s : Session) (p : Reply × Session) : Prop :=
  (∃ cause, p = (.refused cause, s)) ∨
    p.1.refusal? = none ∧ s.active.length ≤ p.2.active.length ∧ s.Transition p.1 p.2

/-- A request that comes down to a call which gives a handle. -/
theorem behaves_of_started (hcomplaint : b.complaint? r = p.1.refusal?.map .engine)
    (hcall : ∀ aside, b.callWith aside r = b.started aside p) (hhandle : r.givesHandle = true)
    (honward : r.isOnward = false) (hp : Issues b.session p) : b.Behaves r := by
  rcases hp with ⟨cause, rfl⟩ | ⟨c, rfl⟩
  · refine behaves_of_argument hcomplaint (fun aside => ?_) honward
    rw [hcall, Request.failure, hhandle]
    rfl
  · refine .succeeds hcomplaint (fun aside => hcall aside) ?_ rfl (fun _ => rfl)
      (Nat.le_add_right ..) (fun _ => Nat.le_refl _) fun hw => Registry.wellFormed_insert hw _
    intro hw
    have hgeneration := hw.generation_nextHandle_ne_zero
    have hne := Handle.toRaw_ne_zero hgeneration
    exact beq_eq_false_iff_ne.mpr hne

/-- A request that comes down to a call which does not give a handle. -/
theorem behaves_of_opened (hcomplaint : b.complaint? r = p.1.refusal?.map .engine)
    (hcall : ∀ aside, b.callWith aside r = b.concluded aside p) (hhandle : r.givesHandle = false)
    (hbrief : r.isBrief = false) (honward : r.isOnward = false) (hp : Opens b.session p) :
    b.Behaves r := by
  rcases hp with ⟨cause, rfl⟩ | ⟨hnone, hlength, htransition⟩
  · refine behaves_of_argument hcomplaint (fun aside => ?_) honward
    rw [hcall, Request.failure, hhandle]
    rfl
  · refine behaves_of_concluded hcomplaint hcall hhandle hbrief (fun cause hsome => ?_)
      (Nat.le_add_right_of_le hlength) htransition.wellFormed
    rw [hnone] at hsome
    cases hsome

/-! ## The calls of the engine -/

theorem issues_startProgram (s : Session) (p : Program) (entry : String)
    (memorySize stackSize : Nat) : Issues s (s.startProgram p entry memorySize stackSize) := by
  rcases startProgram_cases s p entry memorySize stackSize with
    ⟨cause, heq⟩ | ⟨index, c, _, _, _, _, heq⟩
  · exact .inl ⟨cause, heq⟩
  · exact .inr ⟨c, heq⟩

theorem issues_start (s : Session) (bytecode : List UInt8) (entry : String)
    (memorySize stackSize : Nat) : Issues s (s.start bytecode entry memorySize stackSize) := by
  unfold Session.start
  split
  · exact .inl ⟨_, rfl⟩
  · exact issues_startProgram s _ entry memorySize stackSize

theorem issues_fork (s : Session) (parent : Handle) (entry : String)
    (memorySize stackSize : Nat) : Issues s (s.fork parent entry memorySize stackSize) := by
  unfold Session.fork
  split
  · exact .inl ⟨_, rfl⟩
  · exact issues_startProgram s _ entry memorySize stackSize

theorem opens_run (s : Session) (bytecode : List UInt8) (entry : String)
    (memorySize stackSize : Nat) : Opens s (s.run bytecode entry memorySize stackSize) := by
  have htransition := transition_run s bytecode entry memorySize stackSize
  rcases run_cases s bytecode entry memorySize stackSize with ⟨cause, heq⟩ | ⟨c, _, heq⟩
  · exact .inl ⟨cause, heq⟩
  · rw [heq] at htransition ⊢
    exact .inr ⟨rfl, Nat.le_succ _, htransition⟩

theorem opens_execute (s : Session) (h : Handle) {mode : Mode}
    (hmode : mode = .resume ∨ mode = .consume) : Opens s (s.execute h mode) := by
  have htransition := transition_execute s h hmode
  rcases execute_cases s h mode with ⟨cause, heq, _⟩ | ⟨c, _, heq⟩ | ⟨c, _, heq⟩
  · exact .inl ⟨cause, heq⟩
  · rw [heq] at htransition ⊢
    exact .inr ⟨rfl, Nat.le_refl _, htransition⟩
  · rw [heq] at htransition ⊢
    exact .inr ⟨rfl, Nat.le_succ _, htransition⟩

theorem opens_inspect (s : Session) (h : Handle) : Opens s (s.inspect h) := by
  have htransition := transition_inspect s h
  rcases inspect_cases s h with ⟨cause, heq⟩ | ⟨c, _, heq⟩
  · exact .inl ⟨cause, heq⟩
  · rw [heq] at htransition ⊢
    exact .inr ⟨rfl, Nat.le_succ _, htransition⟩

theorem active_of_finish (s : Session) (outcome : Except String Unit) {cause : EngineError} :
    (s.finish outcome).1.refusal? = some cause →
      ∃ a, s.active = a :: (s.finish outcome).2.active := by
  unfold finish
  split
  · exact fun h => nomatch h
  · rename_i a rest hs
    split
    · split
      · exact fun h => nomatch h
      · split
        · exact fun _ => ⟨a, hs⟩
        · dsimp only
          split
          · exact fun h => nomatch h
          · split
            · exact fun h => nomatch h
            · exact fun h => nomatch h
    · exact fun h => nomatch h

theorem refusal?_leave (s : Session) : s.leave.1.refusal? = none := by
  unfold leave
  split
  · rfl
  · split
    · split
      · rfl
      · rfl
    · rfl

/-- A transition ends at most one call. -/
theorem length_le_of_transition {s t : Session} {reply : Reply} (h : s.Transition reply t) :
    s.active.length ≤ t.active.length + 1 := by
  rcases h.active_cases with
    ⟨_, hsame | ⟨a, _, hpush⟩ | ⟨k, hmark⟩⟩ | ⟨a, b, rest, hs, ht, _⟩ | ⟨a, rest, hs, ht⟩
  · rw [hsame]
    exact Nat.le_succ _
  · rw [hpush, List.length_cons]
    omega
  · rw [hmark, List.length_map]
    exact Nat.le_succ _
  · rw [hs, ht, List.length_cons, List.length_cons]
    exact Nat.le_succ _
  · have hends : s.active.length = t.active.length + 1 := by rw [hs, ht, List.length_cons]
    exact Nat.le_of_eq hends

/-- An instruction that hands over an operation ends no call. -/
theorem length_of_tick_operation {s t : Session} {op : Operation}
    (h : s.tick = (.operation op, t)) : t.active.length = s.active.length := by
  rcases tick_cases s with hstay | ⟨a, rest, hs, _, ⟨b, _, heq⟩ | ⟨hends | ⟨fault, hfault⟩, _⟩⟩
  · rw [hstay] at h
    cases h
  · rw [h] at heq
    dsimp only at heq
    rw [hs, heq, List.length_cons, List.length_cons]
  · rw [h] at hends
    cases hends
  · rw [h] at hfault
    cases hfault

theorem length_of_tick_refused {s : Session} {cause : EngineError}
    (h : s.tick.1.refusal? = some cause) : s.tick.2.active.length + 1 = s.active.length := by
  rcases tick_cases s with hstay | ⟨a, rest, hs, _, ⟨b, honward, _⟩ | ⟨_, heq⟩⟩
  · rw [hstay] at h
    cases h
  · rw [honward.refusal?] at h
    cases h
  · rw [hs, heq, List.length_cons]

/-! ## Requests -/

theorem behaves_start (b : Boundary) (bytecode : Option (List UInt8)) (entry : RawText)
    (memorySize stackSize : Nat) : b.Behaves (.start bytecode entry memorySize stackSize) := by
  cases bytecode with
  | none => exact behaves_of_argument rfl (fun _ => rfl) rfl
  | some bytes =>
    cases hread : RawText.read "entry" entry with
    | error message =>
      refine behaves_of_argument (c := .argument message) ?_ (fun aside => ?_) rfl
      · simp only [complaint?, hread]
      · simp only [callWith, start, hread]
        rfl
    | ok text =>
      refine behaves_of_started ?_ (fun aside => ?_) rfl rfl
        (issues_start b.session bytes text memorySize stackSize)
      · simp only [complaint?, hread]
      · simp only [callWith, start, hread]

theorem behaves_fork (b : Boundary) (parent : UInt64) (entry : RawText)
    (memorySize stackSize : Nat) : b.Behaves (.fork parent entry memorySize stackSize) := by
  cases hraw : Handle.ofRaw? parent with
  | none =>
    refine behaves_of_argument (c := .handle parent) ?_ (fun aside => ?_) rfl
    · simp only [complaint?, hraw]
    · simp only [callWith, fork, hraw]
      rfl
  | some h =>
    cases hread : RawText.read "entry" entry with
    | error message =>
      refine behaves_of_argument (c := .argument message) ?_ (fun aside => ?_) rfl
      · simp only [complaint?, hraw, hread]
      · simp only [callWith, fork, hraw, hread]
        rfl
    | ok text =>
      refine behaves_of_started ?_ (fun aside => ?_) rfl rfl
        (issues_fork b.session h text memorySize stackSize)
      · simp only [complaint?, hraw, hread]
      · simp only [callWith, fork, hraw, hread]

theorem behaves_run (b : Boundary) (bytecode : Option (List UInt8)) (entry : RawText)
    (memorySize stackSize : Nat) (callback : Bool) :
    b.Behaves (.run bytecode entry memorySize stackSize callback) := by
  cases bytecode with
  | none => exact behaves_of_argument rfl (fun _ => rfl) rfl
  | some bytes =>
    cases callback with
    | false => exact behaves_of_argument rfl (fun _ => rfl) rfl
    | true =>
      cases hread : RawText.read "entry" entry with
      | error message =>
        refine behaves_of_argument (c := .argument message) ?_ (fun aside => ?_) rfl
        · simp [complaint?, hread]
        · simp only [callWith, run, hread]
          rfl
      | ok text =>
        refine behaves_of_opened ?_ (fun aside => ?_) rfl rfl rfl
          (opens_run b.session bytes text memorySize stackSize)
        · simp [complaint?, hread]
        · simp [callWith, run, hread]

/-- A request that enters the context of a raw handle. -/
theorem behaves_enter {raw : UInt64} {callback : Bool} {kind : String}
    {call : Handle → Reply × Session}
    (hcomplaint : b.complaint? r = complaint?.entering raw callback kind call)
    (hcall : ∀ aside, b.callWith aside r = b.enter aside raw callback kind call)
    (hhandle : r.givesHandle = false) (hbrief : r.isBrief = false) (honward : r.isOnward = false)
    (hopens : ∀ h, Opens b.session (call h)) : b.Behaves r := by
  have hfailure : ∀ code, r.failure code = .code code := by
    intro code
    rw [Request.failure, hhandle]
    rfl
  cases callback with
  | false =>
    refine behaves_of_argument hcomplaint (fun aside => ?_) honward
    rw [hcall, hfailure]
    rfl
  | true =>
    cases hraw : Handle.ofRaw? raw with
    | none =>
      refine behaves_of_argument (c := .handle raw) ?_ (fun aside => ?_) honward
      · rw [hcomplaint]
        simp [complaint?.entering, hraw]
      · rw [hcall, hfailure]
        simp [enter, hraw, refuse, Complaint.code, Complaint.message]
    | some h =>
      refine behaves_of_opened ?_ (fun aside => ?_) hhandle hbrief honward (hopens h)
      · rw [hcomplaint]
        simp [complaint?.entering, hraw]
      · rw [hcall]
        simp [enter, hraw]

/-- Cancelling never fails. -/
theorem behaves_cancel (b : Boundary) (raw : UInt64) : b.Behaves (.cancel raw) := by
  cases hraw : Handle.ofRaw? raw with
  | none =>
    have hcall : ∀ aside, b.callWith aside (.cancel raw) = (.code .ok, b) := by
      intro aside
      simp only [callWith, cancel, hraw]
    exact .succeeds rfl hcall (fun _ => rfl) rfl (fun _ => rfl) (Nat.le_refl _)
      (fun _ => Nat.le_refl _) id
  | some h =>
    have hcall : ∀ aside, b.callWith aside (.cancel raw) =
        (.code .ok, { b with session := (b.session.cancel h).2 }) := by
      intro aside
      simp only [callWith, cancel, hraw]
    have hlength : (b.session.cancel h).2.active.length = b.session.active.length := by
      rcases cancel_cases b.session h with ⟨_, heq⟩ | ⟨resident, _, heq⟩
      · rw [heq]
      · rw [heq, List.length_map]
    exact .succeeds rfl hcall (fun _ => rfl) rfl (fun _ => rfl) (Nat.le_of_eq hlength.symm)
      (fun _ => Nat.le_of_eq hlength) (transition_cancel b.session h).wellFormed

/-- An operation whose name has a zero character fails, and any other is handed over. -/
theorem behaves_tick_of_operation {op : Operation} {s : Session}
    (htick : b.session.tick = (.operation op, s)) : b.Behaves .tick := by
  have htransition := transition_tick b.session
  rw [htick] at htransition
  have hlength := length_of_tick_operation htick
  by_cases hname : '\x00' ∈ op.name.toList
  · -- the operation is answered in place of the host
    have hfinish := transition_finish s (.error "operation name contains a NUL byte")
    refine behaves_of_concluded
      (p := s.finish (.error "operation name contains a NUL byte")) ?_ (fun aside => ?_) rfl rfl
      (fun cause hrefusal => ?_) ?_ fun hw => hfinish.wellFormed (htransition.wellFormed hw)
    · simp only [complaint?, htick, if_pos hname]
    · simp only [callWith, tick, htick, if_pos hname]
    · obtain ⟨a, hs⟩ := active_of_finish _ _ hrefusal
      rw [← hlength, hs]
      rfl
    · rw [← hlength]
      exact length_le_of_transition hfinish
  · have hcall : ∀ aside, b.callWith aside .tick = (.operation op, { b with session := s }) := by
      intro aside
      simp only [callWith, tick, htick, if_neg hname]
    refine .succeeds ?_ hcall (fun _ => rfl) rfl (fun _ => rfl) ?_ (fun h => nomatch h)
      htransition.wellFormed
    · simp only [complaint?, htick, if_neg hname]
    · exact Nat.le_trans (Nat.le_of_eq hlength.symm) (Nat.le_add_right ..)

theorem behaves_tick (b : Boundary) : b.Behaves .tick := by
  have htransition := transition_tick b.session
  have hends : ∀ cause, b.session.tick.1.refusal? = some cause →
      b.session.tick.2.active.length + 1 = b.session.active.length :=
    fun cause hrefusal => length_of_tick_refused hrefusal
  cases htick : b.session.tick with
  | mk reply s =>
    rw [htick] at htransition hends
    have hlength := length_le_of_transition htransition
    cases reply with
    | operation op => exact behaves_tick_of_operation htick
    | done | flag | count | handle | handles | status | answer | working | inspecting | ended
      | refused | misplaced =>
      refine behaves_of_concluded ?_ (fun aside => ?_) rfl rfl hends hlength htransition.wellFormed
      · simp only [complaint?, htick]
      · simp only [callWith, tick, htick]

theorem behaves_answer (b : Boundary) (code : Code) : b.Behaves (.answer code) := by
  refine behaves_of_concluded rfl (fun aside => rfl) rfl rfl ?_ ?_ ?_
  · intro cause hrefusal
    obtain ⟨a, hs⟩ := active_of_finish _ _ hrefusal
    rw [hs]
    rfl
  · exact length_le_of_transition (transition_finish b.session _)
  · exact (transition_finish b.session _).wellFormed

theorem behaves_leave (b : Boundary) : b.Behaves .leave := by
  refine behaves_of_concluded rfl (fun aside => rfl) rfl rfl ?_ ?_ ?_
  · intro cause hrefusal
    rw [refusal?_leave] at hrefusal
    cases hrefusal
  · exact length_le_of_transition (transition_leave b.session)
  · exact (transition_leave b.session).wellFormed

/-- A request that only asks, or that changes what is kept about errors. -/
theorem behaves_of_plain {outcome : Outcome} {t : Boundary} (hcomplaint : b.complaint? r = none)
    (hcall : ∀ aside, b.callWith aside r = (outcome, t)) (hfailed : outcome.failed = false)
    (hnotices : t.notices = b.notices) (hsession : t.session = b.session)
    (hkind : r.isCall = false ∧ r.isOnward = false) : b.Behaves r := by
  refine .succeeds hcomplaint hcall (fun _ => hfailed) hnotices ?_ ?_ ?_ ?_
  · rw [hkind.1, hkind.2]
    exact fun h => nomatch h
  · rw [hsession]
    exact Nat.le_add_right ..
  · rw [hsession]
    exact fun _ => Nat.le_refl _
  · rw [hsession]
    exact id

/-- **One request.** -/
theorem behaves (b : Boundary) (r : Request) : b.Behaves r := by
  cases r with
  | start bytecode entry memorySize stackSize =>
    exact behaves_start b bytecode entry memorySize stackSize
  | fork parent entry memorySize stackSize =>
    exact behaves_fork b parent entry memorySize stackSize
  | run bytecode entry memorySize stackSize callback =>
    exact behaves_run b bytecode entry memorySize stackSize callback
  | resume raw callback =>
    exact behaves_enter rfl (fun _ => rfl) rfl rfl rfl fun h => opens_execute b.session h (.inl rfl)
  | consume raw callback =>
    exact behaves_enter rfl (fun _ => rfl) rfl rfl rfl fun h => opens_execute b.session h (.inr rfl)
  | inspect raw callback =>
    exact behaves_enter rfl (fun _ => rfl) rfl rfl rfl (opens_inspect b.session)
  | cancel raw => exact behaves_cancel b raw
  | alive raw =>
    cases hraw : Handle.ofRaw? raw with
    | none =>
      have hcall : ∀ aside, b.callWith aside (.alive raw) = (.flag false, b) := by
        intro aside
        simp only [callWith, hraw]
      exact behaves_of_plain rfl hcall rfl rfl rfl ⟨rfl, rfl⟩
    | some h =>
      have hcall : ∀ aside, b.callWith aside (.alive raw) =
          (.flag (b.session.registry.contains h), b) := by
        intro aside
        simp only [callWith, hraw]
      exact behaves_of_plain rfl hcall rfl rfl rfl ⟨rfl, rfl⟩
  | count | lastError | hasError | clearError | listen =>
    exact behaves_of_plain rfl (fun _ => rfl) rfl rfl rfl ⟨rfl, rfl⟩
  | tick => exact behaves_tick b
  | answer code => exact behaves_answer b code
  | leave => exact behaves_leave b

/-! ## Accesses -/

/-- A change that begins and ends no call and leaves the registry in order. -/
structure Harmless (s t : Session) : Prop where
  length : t.active.length = s.active.length
  wellFormed : s.registry.WellFormed → t.registry.WellFormed

theorem harmless_perform (s : Session) (action : Arena.Action) :
    Harmless s (s.perform action).2 := by
  refine ⟨?_, (transition_perform s action).wellFormed⟩
  unfold perform
  split
  · rfl
  · rename_i a rest hs
    split
    · rfl
    · rw [hs]
      rfl

theorem harmless_request (s : Session) (change : Control → Bool → Control × Bool) :
    Harmless s (s.request change).2 := by
  refine ⟨?_, (transition_request s change).wellFormed⟩
  unfold request
  split
  · rfl
  · rename_i a rest hs
    split
    · rw [hs]
      rfl
    · rfl

theorem harmless_goTo (s : Session) (label : String) : Harmless s (s.goTo label).2 := by
  unfold goTo
  split
  · exact ⟨rfl, id⟩
  · split
    · split
      · exact harmless_request s _
      · exact ⟨rfl, id⟩
    · exact ⟨rfl, id⟩

theorem session_granted (b : Boundary) (p : Reply × Session) : (b.granted p).2.session = p.2 := by
  obtain ⟨reply, session⟩ := p
  cases reply with
  | answer value =>
    cases value with
    | ok | error => rfl
  | done | flag | count | handle | handles | status | working | operation | inspecting | ended
    | refused | misplaced => rfl

theorem harmless_granted (b : Boundary) {p : Reply × Session} (hp : Harmless b.session p.2) :
    Harmless b.session (b.granted p).2.session := by
  rw [session_granted]
  exact hp

theorem harmless_accessGiven (b : Boundary) (c : Context) (a : Access) :
    Harmless b.session (b.accessGiven c a).2.session := by
  have hperform : ∀ action, Harmless b.session (b.granted (b.session.perform action)).2.session :=
    fun action => harmless_granted b (harmless_perform b.session action)
  cases a with
  | size | handle => exact ⟨rfl, id⟩
  | perform action room =>
    unfold accessGiven
    dsimp only
    split
    · exact ⟨rfl, id⟩
    · exact hperform action
  | storeBytes address data size =>
    unfold accessGiven
    dsimp only
    split
    · exact hperform _
    · split
      · exact ⟨rfl, id⟩
      · exact hperform _
  | loadText cell room =>
    have hload := hperform (.loadText cell)
    unfold accessGiven
    dsimp only
    split
    · rename_i text t hgranted
      rw [hgranted] at hload
      split
      · exact hload
      · exact hload
    · exact hload
  | storeText cell text =>
    unfold accessGiven
    dsimp only
    split
    · exact hperform _
    · exact ⟨rfl, id⟩
  | goTo label =>
    unfold accessGiven
    dsimp only
    split
    · exact harmless_granted b (harmless_goTo b.session _)
    · exact ⟨rfl, id⟩
  | forceReturn => exact harmless_granted b (harmless_request b.session _)
  | pause => exact harmless_granted b (harmless_request b.session _)

/-- **One access.** -/
theorem harmless_access (b : Boundary) (given : Bool) (a : Access) :
    Harmless b.session (b.access given a).2.session := by
  unfold access
  split
  · exact harmless_accessGiven b _ a
  · exact ⟨rfl, id⟩

/-! ## Scripts -/

theorem wellFormed_record {aside : Boundary → Boundary} {message : String}
    (haside : ∀ b : Boundary, b.session.registry.WellFormed →
      (aside b).session.registry.WellFormed)
    (hb : b.session.registry.WellFormed) :
    (b.record aside message).session.registry.WellFormed := by
  unfold record
  dsimp only
  split
  · exact haside _ hb
  · exact hb

theorem wellFormed_callWith {aside : Boundary → Boundary}
    (haside : ∀ b : Boundary, b.session.registry.WellFormed →
      (aside b).session.registry.WellFormed)
    (hb : b.session.registry.WellFormed) (r : Request) :
    (b.callWith aside r).2.session.registry.WellFormed := by
  cases behaves b r with
  | fails complaint call length wellFormed =>
    rw [call]
    exact wellFormed_record haside (wellFormed hb)
  | succeeds complaint call failed notices lastError length brief wellFormed =>
    rw [call]
    exact wellFormed hb

/-- Whatever a host does, the registry stays in order. -/
theorem wellFormed_play (script : Script) (hb : b.session.registry.WellFormed) :
    (script.play b).session.registry.WellFormed := by
  induction script generalizing b with
  | done => exact hb
  | request r aside rest hall hrest => exact hrest (wellFormed_callWith (fun _ hw => hall hw) hb r)
  | access given a rest hrest => exact hrest ((harmless_access b given a).wellFormed hb)

end Boundary

end Hostcall
