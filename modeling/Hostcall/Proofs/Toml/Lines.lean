import Hostcall.Toml.Statement

/-!
# Lines that give a name a number

The plainest TOML text is a list of lines `name = number`. Such a text is read back as it was
written, for bare names and for all numbers of the format.

The readers are followed from the smallest part to the whole text, each with an arbitrary rest
behind its part: the decimal digits of a number (`quantity_toDigits`), one line
(`statement_line`), all lines (`statements_lines`), and last the table that lines with different
names build (`ofStatements?_assignments`, `parse?_lines`).
-/

namespace Hostcall.Toml

/-! ## Decimal digits -/

/-- Only zero begins with the digit zero. -/
theorem head?_toDigits_ne_zero {n : Nat} (hn : 0 < n) : (Nat.toDigits 10 n).head? ≠ some '0' := by
  induction n using Nat.strongRecOn with
  | ind n ih =>
    by_cases hsmall : n < 10
    · rw [Nat.toDigits_of_lt_base hsmall]
      simp
      omega
    · rw [Nat.toDigits_of_base_le (by omega) (by omega), List.head?_append,
        Option.or_of_isSome (by simp [Nat.toDigits_ne_nil])]
      exact ih (n / 10) (by omega) (by omega)

/-- The digits of a number have no zero to spare in front. -/
theorem not_padded_toDigits (n : Nat) :
    ¬ (1 < (Nat.toDigits 10 n).length ∧ (Nat.toDigits 10 n).head? = some '0') := by
  intro ⟨hlong, hzero⟩
  by_cases hn : 0 < n
  · exact head?_toDigits_ne_zero hn hzero
  · obtain rfl : n = 0 := by omega
    simp [Nat.toDigits_zero] at hlong

/-- Digits without an underscore are grouped. -/
theorem isGrouped_of_underscore_not_mem {ds : List Char} (hne : ds ≠ []) (h : '_' ∉ ds) :
    isGrouped ds := by
  induction ds with
  | nil => exact absurd rfl hne
  | cons d ds ih =>
    rw [List.mem_cons, not_or] at h
    cases ds with
    | nil => simpa [isGrouped] using Ne.symm h.1
    | cons e ds =>
      have he : e ≠ '_' := fun heq => h.2 (heq ▸ List.mem_cons_self)
      simp only [isGrouped, if_neg he]
      simpa using ⟨Ne.symm h.1, ih (List.cons_ne_nil _ _) h.2⟩

/-- What a text of characters with a property, and one without it behind them, begins with. -/
theorem takeWhile_append_cons {p : Char → Bool} {ds rest : List Char} {c : Char}
    (hds : ∀ d ∈ ds, p d) (hc : p c = false) : (ds ++ c :: rest).takeWhile p = ds := by
  rw [List.takeWhile_append_of_pos hds, List.takeWhile_cons_of_neg (by simp [hc]), List.append_nil]

theorem dropWhile_append_cons {p : Char → Bool} {ds rest : List Char} {c : Char}
    (hds : ∀ d ∈ ds, p d) (hc : p c = false) : (ds ++ c :: rest).dropWhile p = c :: rest := by
  rw [List.dropWhile_append_of_pos hds, List.dropWhile_cons_of_neg (by simp [hc])]

section Digits

variable {ds : List Char} (hne : ds ≠ []) (hds : ∀ d ∈ ds, d.isDigit) (rest : List Char)

include hne hds

/-- A run of digits up to the end of a line. -/
theorem digitRun_digits :
    digitRun Char.isDigit (ds ++ '\n' :: rest) = some (ds, '\n' :: rest) := by
  have hplain : '_' ∉ ds := fun hmem => absurd (hds _ hmem) (by decide)
  have hrun : ∀ d ∈ ds, (d.isDigit || decide (d = '_')) = true := by
    intro d hd
    simp [hds d hd]
  have hend : ((('\n' : Char).isDigit) || decide ('\n' = '_')) = false := by decide
  simp only [digitRun, takeWhile_append_cons hrun hend, dropWhile_append_cons hrun hend,
    isGrouped_of_underscore_not_mem hne hplain, if_true]
  rw [List.filter_eq_self.mpr]
  intro d hd
  simpa using fun heq : d = '_' => hplain (heq ▸ hd)

/-- Digits up to the end of a line are neither a sign, nor the mark of a base, nor a moment. -/
theorem quantity_digits :
    quantity (ds ++ '\n' :: rest) = decimal false (ds ++ '\n' :: rest) := by
  obtain ⟨d, ds, rfl⟩ := List.exists_cons_of_ne_nil hne
  have hd : d.isDigit := hds d List.mem_cons_self
  have hword : ∀ word : String, ∀ w ws, word.toList = w :: ws → w.isDigit = false →
      afterWord word (d :: ds ++ '\n' :: rest) = none := by
    intro word w ws hw hletter
    have hdiff : w ≠ d := fun heq => absurd (heq ▸ hletter) (by simp [hd])
    simp [afterWord, hw, List.isPrefixOf, hdiff]
  have hsecond : ∀ x xs, x.isDigit = false → x ≠ '\n' → ds ++ '\n' :: rest ≠ x :: xs := by
    intro x xs hx hbreak heq
    cases ds with
    | nil => exact hbreak (List.cons.inj heq).1.symm
    | cons e ds =>
      rw [List.cons_append] at heq
      have he : e.isDigit := hds e (by simp)
      rw [(List.cons.inj heq).1, hx] at he
      cases he
  unfold quantity
  split
  case h_1 _ _ heq | h_2 _ _ heq =>
    rw [(List.cons.inj heq).1] at hd
    exact absurd hd (by decide)
  case h_3 _ _ heq | h_4 _ _ heq | h_5 _ _ heq =>
    exact absurd (List.cons.inj heq).2 (hsecond _ _ (by decide) (by decide))
  case h_6 =>
    rw [takeWhile_append_cons hds (by decide), dropWhile_append_cons hds (by decide)]
    simp only [special, hword "inf" 'i' ['n', 'f'] rfl (by decide),
      hword "nan" 'n' ['a', 'n'] rfl (by decide)]
    split
    case h_1 _ _ _ heq | h_2 _ _ _ heq => exact absurd (List.cons.inj heq).1 (by decide)
    case h_3 => rfl

end Digits

/-- The digits of a number of the format are read as the number. -/
theorem quantity_toDigits {n : Nat} (hn : n < 1 <<< 63) (rest : List Char) :
    quantity (Nat.toDigits 10 n ++ '\n' :: rest) = some (.integer n, '\n' :: rest) := by
  have hdigits : ∀ d ∈ Nat.toDigits 10 n, d.isDigit := fun d =>
    Nat.isDigit_of_mem_toDigits (by omega) (by omega)
  have hinteger : integer? (n : Int) = some (.integer n) := by
    rw [integer?, if_pos]
    constructor <;> omega
  rw [quantity_digits Nat.toDigits_ne_nil hdigits, decimal,
    digitRun_digits Nat.toDigits_ne_nil hdigits]
  simp only [Option.bind_eq_bind, Option.bind_some, if_neg (not_padded_toDigits n),
    Nat.ofDigitChars_ten_toDigits, hinteger, Bool.false_eq_true, if_false]
  rfl

/-! ## One line -/

/-- A name that needs no quotes. -/
structure Bare (name : String) : Prop where
  nonempty : name.toList ≠ []
  chars : ∀ c ∈ name.toList, isNameChar c

/-- The line that gives a name a number. -/
def line (name : String) (n : Nat) : List Char :=
  name.toList ++ ' ' :: '=' :: ' ' :: (Nat.toDigits 10 n ++ ['\n'])

theorem ne_of_isNameChar {c x : Char} (hc : isNameChar c) (hx : isNameChar x = false) : c ≠ x := by
  intro heq
  rw [heq, hx] at hc
  cases hc

theorem ne_of_isDigit {d x : Char} (hd : d.isDigit) (hx : x.isDigit = false) : d ≠ x := by
  intro heq
  rw [heq, hx] at hd
  cases hd

theorem skipBlanks_of_isNameChar {c : Char} (hc : isNameChar c) (cs : List Char) :
    skipBlanks (c :: cs) = c :: cs := by
  have hspace : c ≠ ' ' := ne_of_isNameChar hc (by decide)
  have htab : c ≠ '\t' := ne_of_isNameChar hc (by decide)
  exact List.dropWhile_cons_of_neg (by simp [isBlank, hspace, htab])

/-- A bare name is read up to the first character that no bare name has. -/
theorem name_bare {key : String} (hkey : Bare key) {x : Char} (hx : isNameChar x = false)
    (rest : List Char) : name (key.toList ++ x :: rest) = some (key, x :: rest) := by
  obtain ⟨c, cs, hcs⟩ := List.exists_cons_of_ne_nil hkey.nonempty
  have hc : isNameChar c := hkey.chars c (by simp [hcs])
  have hchars : ∀ d ∈ cs, isNameChar d := fun d hd => hkey.chars d (by simp [hcs, hd])
  have hquote : c ≠ '\x22' := ne_of_isNameChar hc (by decide)
  have hapostrophe : c ≠ '\x27' := ne_of_isNameChar hc (by decide)
  rw [hcs, List.cons_append, name, if_neg hquote, if_neg hapostrophe, if_pos hc,
    takeWhile_append_cons hchars hx, dropWhile_append_cons hchars hx, ← hcs, String.ofList_toList]

/-- A bare name before an equality sign is the whole path. -/
theorem dottedName_bare {key : String} (hkey : Bare key) (count : Nat) (rest : List Char) :
    dottedName (count + 1) (key.toList ++ ' ' :: '=' :: rest) = some (⟨[], key⟩, '=' :: rest) := by
  obtain ⟨c, cs, hcs⟩ := List.exists_cons_of_ne_nil hkey.nonempty
  have hc : isNameChar c := hkey.chars c (by simp [hcs])
  have hfront : skipBlanks (key.toList ++ ' ' :: '=' :: rest) =
      key.toList ++ ' ' :: '=' :: rest := by
    rw [hcs, List.cons_append, skipBlanks_of_isNameChar hc]
  rw [dottedName, hfront, name_bare hkey (by decide)]
  rfl

/-- A value that begins with a digit is a number or a moment. -/
theorem value_of_isDigit {d : Char} (hd : d.isDigit) (depth : Nat) (cs : List Char) :
    value (depth + 1) (d :: cs) = quantity (d :: cs) := by
  have hscalar : scalar (d :: cs) = quantity (d :: cs) := by
    unfold scalar
    split
    case h_7 => rfl
    all_goals
      rename_i heq
      exact absurd (List.cons.inj heq).1 (ne_of_isDigit hd (by decide))
  unfold value
  split
  case h_3 => exact hscalar
  all_goals
    rename_i heq
    exact absurd (List.cons.inj heq).1 (ne_of_isDigit hd (by decide))

/-- **One line.** It is one assignment, whatever follows it. -/
theorem statement_line {key : String} (hkey : Bare key) {n : Nat} (hn : n < 1 <<< 63)
    (rest : List Char) :
    statement (line key n ++ rest) = some (.assign ⟨[], key⟩ (.integer n), rest) := by
  obtain ⟨c, cs, hcs⟩ := List.exists_cons_of_ne_nil hkey.nonempty
  obtain ⟨d, ds, hds⟩ := List.exists_cons_of_ne_nil (Nat.toDigits_ne_nil (n := n) (b := 10))
  have hc : isNameChar c := hkey.chars c (by simp [hcs])
  have hd : d.isDigit := Nat.isDigit_of_mem_toDigits (b := 10) (n := n) (by omega) (by omega)
    (by simp [hds])
  have hspace : d ≠ ' ' := ne_of_isDigit hd (by decide)
  have htab : d ≠ '\t' := ne_of_isDigit hd (by decide)
  have hblanks : skipBlanks (' ' :: (Nat.toDigits 10 n ++ '\n' :: rest)) =
      Nat.toDigits 10 n ++ '\n' :: rest := by
    simp [skipBlanks, hds, isBlank, hspace, htab]
  have hvalue : value nestingLimit (Nat.toDigits 10 n ++ '\n' :: rest) =
      some (.integer n, '\n' :: rest) := by
    rw [← quantity_toDigits hn, hds, List.cons_append]
    exact value_of_isDigit hd _ _
  have hline : line key n ++ rest =
      key.toList ++ ' ' :: '=' :: ' ' :: (Nat.toDigits 10 n ++ '\n' :: rest) := by
    simp [line]
  have hheader : ∀ cs', line key n ++ rest ≠ '[' :: cs' := by
    intro cs' heq
    rw [hline, hcs] at heq
    exact ne_of_isNameChar hc (by decide) (List.cons.inj heq).1
  unfold statement
  split
  case h_1 _ _ heq | h_2 _ _ heq => exact absurd heq (hheader _)
  case h_3 =>
    have hpath := dottedName_bare hkey 78 (' ' :: (Nat.toDigits 10 n ++ '\n' :: rest))
    simp only [hline, show nestingLimit = 78 + 1 from rfl, hpath, mark, Option.bind_eq_bind,
      Option.bind_some, if_true, hblanks]
    rw [show 78 + 1 = nestingLimit from rfl, hvalue]
    rfl

/-! ## All lines -/

/-- The text of a list of names with their numbers, one line each. -/
def lines (pairs : List (String × Nat)) : List Char := pairs.flatMap fun (key, n) => line key n

/-- The statements of a list of names with their numbers. -/
def assignmentsOf (pairs : List (String × Nat)) : List Statement :=
  pairs.map fun (key, n) => .assign ⟨[], key⟩ (.integer n)

/-- A text is at least as long as it has lines, so its length bounds the rounds of its reader. -/
theorem length_le_length_lines (pairs : List (String × Nat)) :
    pairs.length ≤ (lines pairs).length := by
  induction pairs with
  | nil => simp
  | cons p pairs ih =>
    simp only [lines, line, List.flatMap_cons, List.length_append, List.length_cons] at ih ⊢
    omega

theorem skipSpace_line {key : String} (hkey : Bare key) (n : Nat) (rest : List Char) :
    skipSpace false (line key n ++ rest) = line key n ++ rest := by
  obtain ⟨c, cs, hcs⟩ := List.exists_cons_of_ne_nil hkey.nonempty
  have hc : isNameChar c := hkey.chars c (by simp [hcs])
  have hspace : c ≠ ' ' := ne_of_isNameChar hc (by decide)
  have htab : c ≠ '\t' := ne_of_isNameChar hc (by decide)
  have hbreak : c ≠ '\n' := ne_of_isNameChar hc (by decide)
  have hreturn : c ≠ '\r' := ne_of_isNameChar hc (by decide)
  have hcomment : c ≠ '#' := ne_of_isNameChar hc (by decide)
  simp [line, hcs, skipSpace, isBlank, hspace, htab, hbreak, hreturn, hcomment]

/-- **All lines.** More rounds than lines are enough to read them. -/
theorem statements_lines {pairs : List (String × Nat)} (hbare : ∀ p ∈ pairs, Bare p.1)
    (hsmall : ∀ p ∈ pairs, p.2 < 1 <<< 63) {rounds : Nat} (hrounds : pairs.length < rounds) :
    statements rounds (lines pairs) = some (assignmentsOf pairs) := by
  induction pairs generalizing rounds with
  | nil =>
    obtain ⟨rounds, rfl⟩ : ∃ k, rounds = k + 1 := ⟨rounds - 1, by simp at hrounds; omega⟩
    rfl
  | cons p pairs ih =>
    obtain ⟨key, n⟩ := p
    obtain ⟨rounds, rfl⟩ : ∃ k, rounds = k + 1 := ⟨rounds - 1, by simp at hrounds; omega⟩
    have hkey : Bare key := hbare (key, n) List.mem_cons_self
    have hn : n < 1 <<< 63 := hsmall (key, n) List.mem_cons_self
    have hothers := ih (fun p hp => hbare p (List.mem_cons_of_mem _ hp))
      (fun p hp => hsmall p (List.mem_cons_of_mem _ hp))
      (show pairs.length < rounds by simp at hrounds; omega)
    have hne : line key n ++ lines pairs ≠ [] := by simp [line]
    rw [show lines ((key, n) :: pairs) = line key n ++ lines pairs from rfl, statements,
      skipSpace_line hkey]
    split
    · exact absurd ‹_› hne
    · simp only [statement_line hkey hn, Option.bind_eq_bind, Option.bind_some, hothers]
      rfl

/-! ## The table of the lines -/

/-- The entries of a list of names with their numbers. -/
def entriesOf (pairs : List (String × Nat)) : Entries :=
  pairs.map fun (key, n) => (key, .integer n)

theorem lookup_entriesOf (pairs : List (String × Nat)) (key : String) :
    (entriesOf pairs).lookup key = (pairs.lookup key).map fun n => .integer n := by
  induction pairs with
  | nil => rfl
  | cons p pairs ih =>
    obtain ⟨first, n⟩ := p
    by_cases h : key = first
    · simp [entriesOf, h]
    · have hne : (key == first) = false := by simpa using h
      simpa [entriesOf, List.lookup_cons, hne] using ih

/-- **One assignment.** A new name takes its place behind the others. -/
theorem apply_assign {entries : Entries} {key : String} (hnew : entries.lookup key = none)
    (item : Item) :
    Document.apply ⟨entries, []⟩ (.assign ⟨[], key⟩ item) =
      some ⟨entries ++ [(key, item)], []⟩ := by
  simp [Document.apply, within, assign, define, hnew]

/-- Assignments of different names build the table of these names. -/
theorem ofStatements?_assignments {pairs : List (String × Nat)}
    (hnodup : (pairs.map Prod.fst).Nodup) :
    Document.ofStatements? (assignmentsOf pairs) = some ⟨entriesOf pairs, []⟩ := by
  -- the pairs so far are `done`, and none of their names comes again
  suffices h : ∀ done : List (String × Nat), ((done ++ pairs).map Prod.fst).Nodup →
      (assignmentsOf pairs).foldlM Document.apply ⟨entriesOf done, []⟩ =
        some ⟨entriesOf (done ++ pairs), []⟩ from h [] hnodup
  clear hnodup
  induction pairs with
  | nil => simp [assignmentsOf]
  | cons p pairs ih =>
    obtain ⟨key, n⟩ := p
    intro done hnodup
    have hnew : (entriesOf done).lookup key = none := by
      rw [lookup_entriesOf, Option.map_eq_none_iff, List.lookup_eq_none_iff]
      intro q hq
      rw [List.map_append, List.nodup_append] at hnodup
      simpa using (hnodup.2.2 q.1 (List.mem_map_of_mem hq) key (by simp)).symm
    have hstep := ih (done ++ [(key, n)]) (by simpa using hnodup)
    rw [assignmentsOf, List.map_cons, List.foldlM_cons, apply_assign hnew]
    simpa [entriesOf, assignmentsOf] using hstep

/-- **The whole text.** Lines with different bare names and numbers of the format are read as the
table that they describe. -/
theorem parse?_lines {pairs : List (String × Nat)} (hbare : ∀ p ∈ pairs, Bare p.1)
    (hsmall : ∀ p ∈ pairs, p.2 < 1 <<< 63) (hnodup : (pairs.map Prod.fst).Nodup) {text : String}
    (htext : text.toList = lines pairs) : parse? text = some (entriesOf pairs) := by
  have hmark : ∀ rest, lines pairs ≠ '\ufeff' :: rest := by
    intro rest heq
    cases pairs with
    | nil => cases heq
    | cons p pairs =>
      have hkey := hbare p List.mem_cons_self
      obtain ⟨c, cs, hcs⟩ := List.exists_cons_of_ne_nil hkey.nonempty
      simp only [lines, line, List.flatMap_cons, hcs, List.cons_append] at heq
      exact ne_of_isNameChar (hkey.chars c (by simp [hcs])) (by decide) (List.cons.inj heq).1
  have hrounds : pairs.length < (lines pairs).length + 1 :=
    Nat.lt_succ_of_le (length_le_length_lines pairs)
  unfold parse?
  rw [htext]
  split
  · exact absurd ‹_› (hmark _)
  · simp only [statements_lines hbare hsmall hrounds, ofStatements?_assignments hnodup,
      Option.bind_eq_bind, Option.bind_some]
    rfl

end Hostcall.Toml
