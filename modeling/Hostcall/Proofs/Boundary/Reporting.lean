import Hostcall.Proofs.Boundary.Requests

/-!
# How calls across the boundary report their errors

A foreign host makes calls in the callbacks of calls, and more of them when it is told of an error.
All of these record their errors in one place. A call is over when no more calls are in progress
than before it (`Script.Closes`); what the call itself has done until then are the request that made
it and those that carried it on, the last of which is `Script.lastOwn`. The messages that these
requests deliver are the errors of the call itself (`Script.own`).

A call that fails has one error of its own, which is the last one when the call returns, whatever
other calls have failed inside of it and while the host was told of it. A call that does not fail
has none (`calls_report_their_own_error`).
-/

namespace Hostcall

namespace Boundary

/-- The boundary as a listening host finds it when it is told of a complaint about a request. -/
def told (b : Boundary) (r : Request) (c : Complaint) : Boundary :=
  { b with
    session := (b.call r).2.session
    notices := b.notices ++ [{ message := masked c.message, pending := b.lastError.isSome }] }

/-- The messages that a request itself delivers to a host which listens and does nothing else. -/
def delivers (b : Boundary) (r : Request) : List String :=
  let listener : Boundary := { b with listening := true }
  ((listener.call r).2.notices.drop b.notices.length).map (·.message)

end Boundary

namespace Script

/-- All calls that the host makes are over in the end, and the host has not carried on any of the
`depth` calls that were in progress. Nothing else can be done while a host is told of an error,
since the calls in progress wait for it. -/
def Keeps : Script → Nat → Boundary → Prop
  | .done, depth, b => b.session.active.length = depth
  | .request r aside rest, depth, b =>
    (r.isOnward = true → depth < b.session.active.length) ∧
    (∀ c ∈ b.complaint? r, b.listening = true →
      aside.Keeps (b.told r c).session.active.length (b.told r c)) ∧
    rest.Keeps depth (b.callWith aside.play r).2
  | .access given a rest, depth, b => rest.Keeps depth (b.access given a).2

instance decidableKeeps : (script : Script) → (depth : Nat) → (b : Boundary) →
    Decidable (script.Keeps depth b)
  | .done, depth, b => inferInstanceAs (Decidable (b.session.active.length = depth))
  | .request r aside rest, depth, b =>
    have := fun c => aside.decidableKeeps (b.told r c).session.active.length (b.told r c)
    have := rest.decidableKeeps depth (b.callWith aside.play r).2
    inferInstanceAs (Decidable (_ ∧ _ ∧ _))
  | .access given a rest, depth, b => rest.decidableKeeps depth (b.access given a).2

end Script

/-- If the host is told of an error in the request, what it does then leaves the calls in progress
alone. -/
def Boundary.Heeds (b : Boundary) (r : Request) (aside : Script) : Prop :=
  ∀ c ∈ b.complaint? r, b.listening = true →
    aside.Keeps (b.told r c).session.active.length (b.told r c)

instance (b : Boundary) (r : Request) (aside : Script) : Decidable (b.Heeds r aside) :=
  inferInstanceAs (Decidable (∀ c ∈ b.complaint? r, b.listening = true → _))

/-- A request, the boundary at which it is made and what the host does if it is told of an error. -/
structure Step where
  start : Boundary
  request : Request
  aside : Script

namespace Step

def complaint? (s : Step) : Option Complaint := s.start.complaint? s.request

def result (s : Step) : Outcome × Boundary := s.start.callWith s.aside.play s.request

end Step

namespace Script

/-- The script brings the boundary down to `depth` calls in progress, and nothing before its end
does. -/
def Closes (depth : Nat) : Script → Boundary → Prop
  | .done, b => b.session.active.length ≤ depth
  | .request r aside rest, b =>
    depth < b.session.active.length ∧ b.Heeds r aside ∧
      rest.Closes depth (b.callWith aside.play r).2
  | .access given a rest, b =>
    depth < b.session.active.length ∧ rest.Closes depth (b.access given a).2

instance decidableCloses (depth : Nat) : (script : Script) → (b : Boundary) →
    Decidable (script.Closes depth b)
  | .done, b => inferInstanceAs (Decidable (b.session.active.length ≤ depth))
  | .request r aside rest, b =>
    have := rest.decidableCloses depth (b.callWith aside.play r).2
    inferInstanceAs (Decidable (_ ∧ _ ∧ _))
  | .access given a rest, b =>
    have := rest.decidableCloses depth (b.access given a).2
    inferInstanceAs (Decidable (_ ∧ _))

/-- What the last request of a script gives back, and the boundary after the script. -/
def last : Script → Outcome → Boundary → Outcome × Boundary
  | .done, outcome, b => (outcome, b)
  | .request r aside rest, _, b =>
    let (outcome, b) := b.callWith aside.play r
    rest.last outcome b
  | .access given a rest, outcome, b => rest.last outcome (b.access given a).2

/-- The request is one of the call above `depth` others, which it carries on. -/
def isOwn (depth : Nat) (r : Request) (b : Boundary) : Bool :=
  r.isOnward && b.session.active.length == depth + 1

/-- The errors of the call above `depth` others. -/
def own (depth : Nat) : Script → Boundary → List String
  | .done, _ => []
  | .request r aside rest, b =>
    (if isOwn depth r b then b.delivers r else []) ++ rest.own depth (b.callWith aside.play r).2
  | .access given a rest, b => rest.own depth (b.access given a).2

/-- The last request of the call above `depth` others, or `found` if there is none. -/
def lastOwn (depth : Nat) : Script → Step → Boundary → Step
  | .done, found, _ => found
  | .request r aside rest, found, b =>
    rest.lastOwn depth (if isOwn depth r b then ⟨b, r, aside⟩ else found)
      (b.callWith aside.play r).2
  | .access given a rest, found, b => rest.lastOwn depth found (b.access given a).2

end Script

namespace Boundary

variable {b : Boundary} {r : Request} {c : Complaint} {aside : Script}

/-! ## One request -/

theorem session_record_id (b : Boundary) (message : String) :
    (b.record id message).session = b.session := by
  unfold record
  dsimp only
  split
  · rfl
  · rfl

/-- The boundary after a complaint has been dealt with and before it is recorded. -/
def heard (b : Boundary) (aside : Boundary → Boundary) (r : Request) (c : Complaint) : Boundary :=
  if b.listening then aside (b.told r c) else { b with session := (b.call r).2.session }

/-- A request with a complaint fails, and the host is told of it once before it is recorded. -/
theorem callWith_of_complaint (hc : b.complaint? r = some c) (aside : Boundary → Boundary) :
    b.callWith aside r =
      (r.failure c.code, { b.heard aside r c with lastError := some (masked c.message) }) := by
  cases behaves b r with
  | succeeds complaint =>
    rw [hc] at complaint
    cases complaint
  | @fails c' s complaint call =>
    rw [hc] at complaint
    cases complaint
    have hsession : (b.call r).2.session = s := by rw [Boundary.call, call, session_record_id]
    rw [call, heard, told, hsession]
    unfold record
    dsimp only

/-- A request without a complaint does the same whatever its host does when it is told of an
error. -/
theorem callWith_of_none (hc : b.complaint? r = none) (aside : Boundary → Boundary) :
    b.callWith aside r = b.call r := by
  cases behaves b r with
  | fails complaint =>
    rw [hc] at complaint
    cases complaint
  | succeeds complaint call => rw [Boundary.call, call, call]

theorem complaint?_listening (b : Boundary) (listening : Bool) (r : Request) :
    ({ b with listening } : Boundary).complaint? r = b.complaint? r := by
  cases r <;> rfl

theorem delivers_of_complaint (hc : b.complaint? r = some c) :
    b.delivers r = [masked c.message] := by
  unfold delivers
  dsimp only
  rw [Boundary.call, callWith_of_complaint ((complaint?_listening b true r).trans hc), heard,
    if_pos rfl, told, id]
  simp

theorem delivers_of_none (hc : b.complaint? r = none) : b.delivers r = [] := by
  unfold delivers
  dsimp only
  have hlistening := (complaint?_listening b true r).trans hc
  cases behaves { b with listening := true } r with
  | fails complaint =>
    rw [hlistening] at complaint
    cases complaint
  | succeeds complaint call failed notices =>
    rw [Boundary.call, call]
    dsimp only at notices ⊢
    rw [notices, List.drop_length]
    rfl

/-! ## Calls in progress -/

theorem length_play {script : Script} {depth : Nat} (h : script.Keeps depth b) :
    (script.play b).session.active.length = depth := by
  induction script generalizing b depth with
  | done => exact h
  | request r aside rest _ hrest => exact hrest h.2.2
  | access given a rest hrest => exact hrest h

/-- What the host does when it is told of an error does not change how many calls are in
progress. -/
theorem length_callWith (h : b.Heeds r aside) :
    (b.callWith aside.play r).2.session.active.length =
      (b.call r).2.session.active.length := by
  cases hc : b.complaint? r with
  | none => rw [callWith_of_none hc]
  | some c =>
    rw [callWith_of_complaint hc, heard]
    dsimp only
    by_cases hlistening : b.listening = true
    · rw [if_pos hlistening]
      exact length_play (h c hc hlistening)
    · rw [if_neg hlistening]

/-- A request that fails ends the call that it was to carry on. -/
theorem length_call_of_complaint (hc : b.complaint? r = some c) :
    (b.call r).2.session.active.length + r.isOnward.toNat = b.session.active.length := by
  cases behaves b r with
  | fails complaint call length =>
    rw [Boundary.call, call, session_record_id]
    exact length
  | succeeds complaint =>
    rw [hc] at complaint
    cases complaint

/-- A request ends at most the call that it carries on. -/
theorem length_le_call (b : Boundary) (r : Request) :
    b.session.active.length ≤ (b.call r).2.session.active.length + r.isOnward.toNat := by
  cases behaves b r with
  | fails complaint => exact Nat.le_of_eq (length_call_of_complaint complaint).symm
  | succeeds complaint call failed notices lastError length =>
    rw [Boundary.call, call]
    exact length

/-- What a request without a complaint gives back is no failure, and no error is recorded. -/
theorem call_of_none (hw : b.session.registry.WellFormed) (hc : b.complaint? r = none)
    (hr : r.isCall = true ∨ r.isOnward = true) :
    (b.call r).1.failed = false ∧ (b.call r).2.notices = b.notices ∧
      (b.call r).2.lastError = b.lastError := by
  cases behaves b r with
  | fails complaint =>
    rw [hc] at complaint
    cases complaint
  | succeeds complaint call failed notices lastError =>
    rw [Boundary.call, call]
    exact ⟨failed hw, notices, lastError hr⟩

end Boundary

/-! ## Whole calls -/

namespace Script

open Boundary

variable {b : Boundary} {depth : Nat} {script : Script}

theorem isOwn_iff {r : Request} :
    isOwn depth r b = true ↔ r.isOnward = true ∧ b.session.active.length = depth + 1 := by
  unfold isOwn
  rw [Bool.and_eq_true, beq_iff_eq]

theorem Closes.eq_done (h : script.Closes depth b) (hdepth : b.session.active.length ≤ depth) :
    script = .done := by
  cases script with
  | done => rfl
  | request r aside rest => exact absurd h.1 (Nat.not_lt.mpr hdepth)
  | access given a rest => exact absurd h.1 (Nat.not_lt.mpr hdepth)

/-- A request that leaves only `depth` calls in progress is one of the call above them. -/
theorem isOwn_of_length {r : Request} {aside : Script} (hdepth : depth < b.session.active.length)
    (hheeds : b.Heeds r aside)
    (hends : (b.callWith aside.play r).2.session.active.length ≤ depth) :
    isOwn depth r b = true := by
  have hlength := length_le_call b r
  rw [length_callWith hheeds] at hends
  rw [isOwn_iff]
  cases honward : r.isOnward with
  | false =>
    rw [honward, Bool.toNat_false] at hlength
    omega
  | true =>
    rw [honward, Bool.toNat_true] at hlength
    exact ⟨rfl, by omega⟩

/-- A request of a call that is still in progress after it has not failed. -/
theorem delivers_of_length {r : Request} {aside : Script} (hown : isOwn depth r b = true)
    (hheeds : b.Heeds r aside)
    (hgoes : depth < (b.callWith aside.play r).2.session.active.length) : b.delivers r = [] := by
  obtain ⟨honward, hdepth⟩ := isOwn_iff.mp hown
  rw [length_callWith hheeds] at hgoes
  cases hc : b.complaint? r with
  | none => exact delivers_of_none hc
  | some c =>
    have hlength := length_call_of_complaint hc
    rw [honward, Bool.toNat_true] at hlength
    omega

/-- **A call that is in progress** ends with a request of its own, and all its errors come from
this one. -/
theorem Closes.ends (h : script.Closes depth b) (hdepth : depth < b.session.active.length)
    (hw : b.session.registry.WellFormed) (outcome : Outcome) (found : Step) :
    let step := script.lastOwn depth found b
    isOwn depth step.request step.start = true ∧ step.start.session.registry.WellFormed ∧
      step.result = script.last outcome b ∧
      script.own depth b = step.start.delivers step.request := by
  induction script generalizing b outcome found with
  | done => exact absurd h (Nat.not_le.mpr hdepth)
  | access given a rest hrest =>
    obtain ⟨_, hcloses⟩ := h
    have hharmless := harmless_access b given a
    rw [← hharmless.length] at hdepth
    exact hrest hcloses hdepth (hharmless.wellFormed hw) outcome found
  | request r aside rest _ hrest =>
    obtain ⟨_, hheeds, hcloses⟩ := h
    by_cases hends : (b.callWith aside.play r).2.session.active.length ≤ depth
    · -- the call is over, so nothing follows
      have hown := isOwn_of_length hdepth hheeds hends
      cases hcloses.eq_done hends
      simp only [lastOwn, own, last, hown, if_true, List.append_nil]
      exact ⟨trivial, hw, rfl, trivial⟩
    · -- the call goes on, so this request has not failed if it is one of its own
      have hgoes := Nat.lt_of_not_le hends
      have hfirst : (if isOwn depth r b then b.delivers r else []) = [] := by
        split
        · rename_i hown
          exact delivers_of_length hown hheeds hgoes
        · rfl
      simp only [lastOwn, last, own, hfirst, List.nil_append]
      exact hrest hcloses hgoes (wellFormed_callWith (fun _ => wellFormed_play aside) hw r) _ _

end Script

open Boundary Script

/-- **The last request of a call.** It fails if and only if there is a complaint about it. -/
theorem Step.reports (s : Step) (hw : s.start.session.registry.WellFormed)
    (hr : s.request.isCall = true ∨ s.request.isOnward = true) :
    (∃ c, s.complaint? = some c ∧ s.result.1.failed = true ∧
      s.start.delivers s.request = [masked c.message] ∧
      s.result = (s.request.failure c.code,
        { s.start.heard s.aside.play s.request c with
          lastError := some (masked c.message) })) ∨
    s.complaint? = none ∧ s.result.1.failed = false ∧ s.start.delivers s.request = [] ∧
      s.result.2.lastError = s.start.lastError ∧ s.result.2.notices = s.start.notices := by
  cases hc : s.start.complaint? s.request with
  | some c =>
    have hresult : s.result = _ := callWith_of_complaint hc s.aside.play
    refine .inl ⟨c, hc, ?_, delivers_of_complaint hc, hresult⟩
    rw [hresult]
    exact Request.failed_failure s.request c
  | none =>
    have hresult : s.result = s.start.call s.request := callWith_of_none hc s.aside.play
    obtain ⟨hfailed, hnotices, hlast⟩ := call_of_none hw hc hr
    rw [hresult]
    exact .inr ⟨hc, hfailed, delivers_of_none hc, hlast, hnotices⟩

end Hostcall
