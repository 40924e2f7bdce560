import Hostcall.Proofs.Arena.Texts

/-!
# Requests that are refused

An arena that refuses a request is left as it was, with one exception. A text is put on the stack
before its zero byte is. If the text fills the stack (`JustShort`), then the zero byte is refused,
and the top goes back to where it was; but the bytes of the text stay where they were written. These
are bytes above the top of the stack, and the heap is never touched.

* `refused_of_changing`, `refused_of_reserving`: requests that are carried out in one go.
* `storeText_of_justShort`, `storeText_of_refused`: the two ways in which a text is refused.
* `refusal_changes_at_most_free_stack`: when a refused request changes nothing, and what it changes
  otherwise.
-/

namespace Hostcall.Arena

open Attempt

variable {stackSize memorySize cell : Nat} {a : Arena} {t : String} {e : ArenaError}

/-! ## Texts -/

/-- There is room on the stack for the text and not for its zero byte. -/
structure JustShort (a : Arena) (cell : Nat) (t : String) : Prop where
  zeroless : '\x00' ∉ t.toList
  inside : cell + addressSize ≤ a.capacity
  fills : t.utf8ByteSize = a.stackFree

theorem storeText_of_justShort (h : a.JustShort cell t) :
    a.storeText cell t = (.error (.outOfStack 1 0), a.write a.top t.toUTF8.data.toList) := by
  have hinside := h.inside
  have hfills := h.fills
  rw [storeText_eq, if_neg (mt (Text.zero_mem_toUTF8_iff t).mp h.zeroless), if_neg (by omega),
    if_neg (by omega), if_pos hfills.symm]

/-- A text that is refused for another reason is refused before anything is written. -/
theorem storeText_of_refused (h : ¬a.JustShort cell t) (hrefused : (a.storeText cell t).1 = .error e) :
    (a.storeText cell t).2 = a := by
  rw [storeText_eq] at hrefused ⊢
  split
  · rfl
  · rename_i hzero
    rw [if_neg hzero] at hrefused
    split
    · rfl
    · rename_i hcell
      rw [if_neg hcell] at hrefused
      split
      · rfl
      · rename_i hroom
        rw [if_neg hroom] at hrefused
        split
        · rename_i hfull
          refine absurd ⟨?_, Nat.le_of_not_lt hcell, hfull.symm⟩ h
          exact mt (Text.zero_mem_toUTF8_iff t).mpr hzero
        · rename_i hfull
          rw [if_neg hfull] at hrefused
          cases hrefused

/-! ## Requests -/

theorem refused_of_changing {outcome : Except ArenaError Arena}
    (h : (a.changing outcome).1 = .error e) : (a.changing outcome).2 = a := by
  cases outcome with
  | error => rfl
  | ok => cases h

theorem refused_of_reserving {outcome : Except ArenaError (Nat × Arena)}
    (h : (a.reserving outcome).1 = .error e) : (a.reserving outcome).2 = a := by
  cases outcome with
  | error => rfl
  | ok => cases h

/-- **One request** that is refused. -/
theorem perform_of_refused {action : Action} (hrefused : (a.perform action).1 = .error e)
    (h : ∀ cell t, action = .storeText cell t → ¬a.JustShort cell t) : (a.perform action).2 = a := by
  cases action with
  | allocStack | pushBytes | push | pushAddress | allocMemory =>
    exact refused_of_reserving hrefused
  | popStack | resetStack | deallocMemory | store | storeBytes | copy | storeAddress =>
    exact refused_of_changing hrefused
  | storeText cell t =>
    have houtcome : ∃ cause, (a.storeText cell t).1 = .error cause := by
      cases hstore : (a.storeText cell t).1 with
      | error cause => exact ⟨cause, rfl⟩
      | ok =>
        simp [perform, hstore, Except.map] at hrefused
    obtain ⟨cause, hcause⟩ := houtcome
    exact storeText_of_refused (h cell t rfl) hcause
  | allocationSize | load | loadBytes | loadAddress | loadText | stackAddress | info => rfl

theorem perform_of_justShort (h : a.JustShort cell t) :
    a.perform (.storeText cell t) =
      (.error (.outOfStack 1 0), a.write a.top t.toUTF8.data.toList) := by
  simp only [perform, storeText_of_justShort h, Except.map]

/-! ## Every arena -/

/-- **Refusals.** Whatever has been asked of a new arena, a request that is refused changes no byte
below the top of the stack and none of the heap, and neither the top nor the blocks of the heap. It
changes nothing at all if and only if it is not about a text that fills the stack, or the bytes of
the text are there already. The bytes of such a text are left above the top. -/
theorem refusal_changes_at_most_free_stack {room : Nat} {new : Arena}
    (h : create room stackSize memorySize = .ok new) (actions : List Action) {action : Action}
    (hrefused : ((new.performAll actions).perform action).1 = .error e) :
    let a := new.performAll actions
    let b := (a.perform action).2
    ChangedIn ⟨a.top, a.stackFree⟩ a b ∧
    (b = a ↔ ∀ cell t, action = .storeText cell t → a.JustShort cell t →
      Bytes.slice a.bytes a.top a.stackFree = t.toUTF8.data.toList) ∧
    ∀ cell t, action = .storeText cell t → a.JustShort cell t →
      e = .outOfStack 1 0 ∧ Bytes.slice b.bytes a.top a.stackFree = t.toUTF8.data.toList := by
  intro a b
  have ha : a.WellFormed stackSize memorySize := wellFormed_performAll (wellFormed_create h) actions
  by_cases hshort : ∃ cell t, action = .storeText cell t ∧ a.JustShort cell t
  · obtain ⟨cell, t, rfl, hjust⟩ := hshort
    have hlength : t.toUTF8.data.toList.length = a.stackFree := hjust.fills
    have hroom : a.top + t.toUTF8.data.toList.length ≤ a.bytes.size := by
      have htop := ha.le_stackFree_iff.mp (Nat.le_of_eq hlength)
      rw [ha.size_bytes]
      omega
    have hperform := perform_of_justShort hjust
    have hb : b = a.write a.top t.toUTF8.data.toList := congrArg (·.2) hperform
    have he : e = .outOfStack 1 0 :=
      Except.error.inj (hrefused.symm.trans (congrArg (·.1) hperform))
    have hself : b = a ↔ Bytes.slice a.bytes a.top a.stackFree = t.toUTF8.data.toList := by
      rw [hb, ← hlength, ← Bytes.overwrite_eq_self_iff hroom]
      exact ⟨fun heq => congrArg (·.bytes) heq, fun heq => by rw [write, heq]⟩
    refine ⟨?_, ⟨?_, fun hsame => hself.mpr (hsame cell t rfl hjust)⟩, ?_⟩
    · rw [hb, ← hlength]
      exact changedIn_write a a.top _
    · rintro heq _ _ ⟨⟩ _
      exact hself.mp heq
    · rintro _ _ ⟨⟩ _
      refine ⟨he, ?_⟩
      rw [hb, ← hlength]
      exact Bytes.slice_overwrite hroom
  · have hnone : ∀ cell t, action = .storeText cell t → ¬a.JustShort cell t :=
      fun cell t haction hjust => hshort ⟨cell, t, haction, hjust⟩
    have hb : b = a := perform_of_refused hrefused hnone
    refine ⟨?_, iff_of_true hb ?_, ?_⟩
    · rw [hb]
      exact ⟨rfl, rfl, fun _ _ => rfl, fun _ _ _ => rfl⟩
    · exact fun cell t haction hjust => absurd hjust (hnone cell t haction)
    · exact fun cell t haction hjust => absurd hjust (hnone cell t haction)

/-- A stack of four bytes is too small for four letters and a zero byte. The text is refused and the
top is where it was, but the letters stand on the stack, which was zero before. -/
theorem brimming_text_leaves_letters : ∃ new, create 64 4 8 = .ok new ∧
    (new.perform (.storeText 4 "abcd")).1 = .error (.outOfStack 1 0) ∧
    Bytes.slice new.bytes 0 4 = [0, 0, 0, 0] ∧
    Bytes.slice (new.perform (.storeText 4 "abcd")).2.bytes 0 4 = [97, 98, 99, 100] ∧
    (new.perform (.storeText 4 "abcd")).2 ≠ new := by
  obtain ⟨new, hnew⟩ : ∃ new, create 64 4 8 = .ok new := ⟨_, rfl⟩
  have hshort : new.JustShort 4 "abcd" := by
    cases hnew
    exact ⟨by decide, by decide, by decide⟩
  have hbefore : Bytes.slice new.bytes 0 4 = [0, 0, 0, 0] := by
    cases hnew
    decide +kernel
  have hafter : Bytes.slice (new.perform (.storeText 4 "abcd")).2.bytes 0 4 =
      [97, 98, 99, 100] := by
    cases hnew
    decide +kernel
  refine ⟨new, hnew, congrArg (·.1) (perform_of_justShort hshort), hbefore, hafter, fun heq => ?_⟩
  rw [heq, hbefore] at hafter
  cases hafter

/-- The same text on the same stack, and a request that is refused before anything is written. -/
theorem brimming_changes_at_most_free_stack : ∃ new, create 64 4 8 = .ok new ∧
    ChangedIn ⟨0, 4⟩ new (new.perform (.storeText 4 "abcd")).2 ∧
    Bytes.slice (new.perform (.storeText 4 "abcd")).2.bytes 0 4 = "abcd".toUTF8.data.toList ∧
    (new.perform (.popStack 1)).2 = new := by
  obtain ⟨new, hnew⟩ : ∃ new, create 64 4 8 = .ok new := ⟨_, rfl⟩
  have hplace : new.top = 0 ∧ new.stackFree = 4 := by
    cases hnew
    decide
  have hshort : new.JustShort 4 "abcd" := by
    cases hnew
    exact ⟨by decide, by decide, by decide⟩
  have hpopped : (new.perform (.popStack 1)).1 = .error (.stackUnderflow 1 0) := by
    cases hnew
    rfl
  have hpop := refusal_changes_at_most_free_stack hnew [] hpopped
  obtain ⟨hchanged, -, hleft⟩ := refusal_changes_at_most_free_stack hnew []
    (congrArg (·.1) (perform_of_justShort hshort))
  have hletters := (hleft 4 "abcd" rfl hshort).2
  change ChangedIn ⟨new.top, new.stackFree⟩ new _ at hchanged
  change Bytes.slice _ new.top new.stackFree = _ at hletters
  rw [hplace.1, hplace.2] at hchanged hletters
  exact ⟨new, hnew, hchanged, hletters, hpop.2.1.mpr fun _ _ haction => nomatch haction⟩

end Hostcall.Arena
