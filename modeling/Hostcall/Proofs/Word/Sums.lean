import Hostcall.Proofs.Attempt
import Hostcall.Proofs.Machine.Creation
import Hostcall.Proofs.Program.Canonical

/-!
# Sums of words

Addresses and sizes are natural numbers here, and words of 64 bits on a machine. The two come to the
same as long as no sum leaves 64 bits. To say that none does, an operation is carried out once more
with sums that are refused if they are too great: `Careful` is an attempt that breaks off at such a
sum, and `Agrees` says that it does not break off and has the result of the operation itself. What
agrees is put together part by part (`Agrees.bind`, `Agrees.add`).

The sizes of a program are the first case. A program that has been read from bytes has at most
`2 ^ 32 - 1` parameters and locals in each procedure, so their sizes add up to a word. An item of
the data can take up more bytes in an arena than in the input, but not more than twice as many
(`size_le_length_dataItem`), so the data of an input of less than `2 ^ 63` bytes are a word as well.
-/

namespace Hostcall

/-! ## Adding words -/

namespace Word

/-- The sum of two words, if it is a word. -/
def add? (a b : Nat) : Option Nat := if a + b < UInt64.size then some (a + b) else none

/-- The sum of a list of words, added up from the first one on. -/
def sum? (words : List Nat) : Option Nat := words.foldlM add? 0

theorem add?_of_lt {a b : Nat} (h : a + b < UInt64.size) : add? a b = some (a + b) := if_pos h

/-- The sum of a list of numbers, however great it is. -/
def sum (numbers : List Nat) : Nat := numbers.foldr (· + ·) 0

@[simp] theorem sum_nil : sum [] = 0 := rfl

@[simp] theorem sum_cons (number : Nat) (numbers : List Nat) :
    sum (number :: numbers) = number + sum numbers := rfl

theorem foldlM_add?_of_lt {start : Nat} {words : List Nat} (h : start + sum words < UInt64.size) :
    words.foldlM add? start = some (start + sum words) := by
  induction words generalizing start with
  | nil => simp
  | cons word words ih =>
    rw [sum_cons] at h
    rw [List.foldlM_cons, add?_of_lt (by omega), sum_cons, ← Nat.add_assoc]
    exact ih (by omega)

theorem sum?_of_lt {words : List Nat} (h : sum words < UInt64.size) :
    sum? words = some (sum words) := by
  have hsum : words.foldlM add? 0 = some (0 + sum words) := foldlM_add?_of_lt (by omega)
  rwa [Nat.zero_add] at hsum

end Word

/-! ## Careful attempts -/

/-- An attempt that adds words. It breaks off without a result if a sum is no word. -/
abbrev Careful (ε α : Type) : Type := ExceptT ε Option α

namespace Careful

variable {ε α β : Type}

/-- The attempt does not break off, and it comes to the same as with unbounded sums. -/
def Agrees (x : Careful ε α) (y : Except ε α) : Prop := x.run = some y

theorem agrees_pure (value : α) : Agrees (pure value : Careful ε α) (.ok value) := rfl

theorem agrees_throw (e : ε) : Agrees (throw e : Careful ε α) (.error e) := rfl

/-- What forms no sums agrees with itself. -/
theorem agrees_lift (y : Except ε α) : Agrees (liftM y : Careful ε α) y := rfl

theorem Agrees.bind {x : Careful ε α} {y : Except ε α} {f : α → Careful ε β} {g : α → Except ε β}
    (h : Agrees x y) (hf : ∀ value, y = .ok value → Agrees (f value) (g value)) :
    Agrees (x >>= f) (y >>= g) := by
  unfold Agrees at h ⊢
  rw [ExceptT.run_bind, h]
  cases y with
  | error e => rfl
  | ok value => exact hf value rfl

/-- A part that has only sums to form comes to a word. -/
theorem Agrees.option {part : Option α} {value : α} {f : α → Careful ε β} {y : Except ε β}
    (h : part = some value) (hf : Agrees (f value) y) :
    Agrees ((liftM part : Careful ε α) >>= f) y := by
  subst h
  exact hf

theorem Agrees.add {a b : Nat} {f : Nat → Careful ε β} {y : Except ε β} (h : a + b < UInt64.size)
    (hf : Agrees (f (a + b)) y) : Agrees ((liftM (Word.add? a b) : Careful ε Nat) >>= f) y :=
  Agrees.option (Word.add?_of_lt h) hf

/-! ## The sizes of a program -/

/-- The total of the sizes of parameters or locals. -/
def total (sizes : List UInt32) : Option Nat := Word.sum? (sizes.map (·.toNat))

/-- The number of bytes that an item takes up in the data segment. -/
def itemSize : DataItem → Option Nat
  | .scalar s => some s.size
  | .bytes bs => some bs.length
  | .text t => do Word.add? (← Word.add? addressSize t.utf8ByteSize) 1

/-- The number of bytes of the data segment. -/
def dataSize (p : Program) : Option Nat :=
  p.data.foldlM (fun sum item => do Word.add? sum (← itemSize item)) 0

theorem total_of_lt {sizes : List UInt32} (h : Procedure.total sizes < UInt64.size) :
    total sizes = some (Procedure.total sizes) := by
  have hsum : Word.sum (sizes.map (·.toNat)) = Procedure.total sizes := by
    rw [Procedure.total, Word.sum, List.foldr_map]
  rw [← hsum] at h ⊢
  exact Word.sum?_of_lt h

theorem itemSize_of_lt {item : DataItem} (h : item.size < UInt64.size) :
    itemSize item = some item.size := by
  cases item with
  | scalar | bytes => rfl
  | text t =>
    have hsize : addressSize + t.utf8ByteSize + 1 < UInt64.size := h
    simp only [itemSize, Option.bind_eq_bind]
    rw [Word.add?_of_lt (by omega), Option.bind_some, Word.add?_of_lt hsize]
    rfl

theorem dataSize_of_lt {p : Program} (h : p.dataSize < UInt64.size) :
    dataSize p = some p.dataSize := by
  -- the sum so far is `sum`, and what is still to come fits behind it
  suffices hsum : ∀ items sum, sum + DataItem.extent items < UInt64.size →
      items.foldlM (fun sum item => do Word.add? sum (← itemSize item)) sum =
        some (sum + DataItem.extent items) by
    have hdata := hsum p.data 0 (by rw [Nat.zero_add]; exact h)
    rwa [Nat.zero_add] at hdata
  intro items
  induction items with
  | nil => simp
  | cons item rest ih =>
    intro sum hlt
    rw [DataItem.extent_cons] at hlt ⊢
    rw [List.foldlM_cons, itemSize_of_lt (by omega), ← Nat.add_assoc]
    simp only [Option.bind_eq_bind, Option.bind_some]
    rw [Word.add?_of_lt (by omega), Option.bind_some]
    exact ih _ (by omega)

end Careful

/-! ## Programs that have been read -/

/-- The sizes of a program are words. -/
structure Program.Measured (p : Program) : Prop where
  params : ∀ procedure ∈ p.procedures, procedure.paramsSize < UInt64.size
  locals : ∀ procedure ∈ p.procedures, procedure.localsSize < UInt64.size
  data : p.dataSize < UInt64.size

theorem Procedure.total_le (sizes : List UInt32) :
    total sizes ≤ sizes.length * (UInt32.size - 1) := by
  induction sizes with
  | nil => exact Nat.zero_le _
  | cons size sizes ih =>
    have hsize := size.toNat_lt
    have hlimit : UInt32.size = 2 ^ 32 := rfl
    change size.toNat + total sizes ≤ (sizes.length + 1) * (UInt32.size - 1)
    rw [Nat.succ_mul]
    omega

/-- As many sizes as can be written add up to a word. -/
theorem Procedure.total_lt {sizes : List UInt32} (h : sizes.length < lengthLimit) :
    total sizes < UInt64.size := by
  calc total sizes
    _ ≤ sizes.length * (UInt32.size - 1) := total_le sizes
    _ ≤ (UInt32.size - 1) * (UInt32.size - 1) := Nat.mul_le_mul_right _ (Nat.le_pred_of_lt h)
    _ < UInt64.size := by decide

namespace Program

/-- An item takes up at most twice as many bytes as it was written with: a text has a cell and a
zero byte instead of a tag and a length. -/
theorem size_le_length_dataItem (item : DataItem) :
    item.size ≤ 2 * (Write.dataItem item).length := by
  cases item with
  | scalar s =>
    simp only [DataItem.size, Write.dataItem, List.length_cons, Scalar.length_bytes]
    omega
  | bytes bs =>
    simp only [DataItem.size, Write.dataItem, Write.bytes, List.length_cons, List.length_append]
    omega
  | text t =>
    have htext : t.toUTF8.data.toList.length = t.utf8ByteSize := rfl
    simp only [DataItem.size, addressSize, Write.dataItem, Write.text, Write.bytes, Write.word,
      List.length_cons, List.length_append, Bytes.length_ofNat, htext]
    omega

theorem dataSize_le_length_encode (p : Program) : p.dataSize ≤ 2 * p.encode.length := by
  have hitems : ∀ items : List DataItem,
      DataItem.extent items ≤ 2 * (items.flatMap Write.dataItem).length := by
    intro items
    induction items with
    | nil => simp
    | cons item rest ih =>
      have hitem := size_le_length_dataItem item
      rw [DataItem.extent_cons, List.flatMap_cons, List.length_append]
      omega
  have hdata := hitems p.data
  rw [dataSize_eq]
  simp only [encode, Write.list, List.length_append]
  omega

/-- **Sizes that are read.** -/
theorem measured_of_decode {input : List UInt8} {p : Program} (h : decode input = .ok p)
    (hlength : input.length < 2 ^ 63) : p.Measured := by
  obtain ⟨bs, hinput, hsized, hspells⟩ := takes_program _ _ _ (noted_of_decode h)
  rw [List.append_nil] at hinput
  subst hinput
  refine ⟨fun q hq => ?_, fun q hq => ?_, ?_⟩
  · exact Procedure.total_lt (hsized.procedure q hq).params
  · exact Procedure.total_lt (hsized.procedure q hq).locals
  · have hdata := p.dataSize_le_length_encode
    rw [hspells.length_eq] at hdata
    calc p.dataSize
      _ ≤ 2 * input.length := hdata
      _ < UInt64.size := by
        have hsize : UInt64.size = 2 * 2 ^ 63 := rfl
        omega

end Program

end Hostcall
