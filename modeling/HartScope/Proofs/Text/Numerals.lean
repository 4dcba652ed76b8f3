import HartScope.Text.Numeral

/-!
Decimal numerals.  A reader takes any nonempty string of digits for the number that the digits denote,
leading zeros included, and the numeral that is printed is the only one without them.
-/

namespace HartScope.Numeral

/-- A nonempty string of decimal digits whose number is `n`. -/
structure Denotes (cs : List Char) (n : Nat) : Prop where
  nonempty : cs ≠ []
  digits : ∀ c ∈ cs, c.isDigit = true
  value : Nat.ofDigitChars 10 cs 0 = n

/-- No zero stands in front of another digit. -/
def Canonical (cs : List Char) : Prop :=
  ¬(1 < cs.length ∧ cs.head? = some '0')

theorem digit?_of_isDigit {c : Char} (digit : c.isDigit = true) :
    digit? c = some (c.toNat - '0'.toNat) :=
  if_pos digit

theorem digit?_of_not_isDigit {c : Char} (other : ¬c.isDigit = true) : digit? c = none :=
  if_neg other

theorem foldlM_digit? {cs : List Char} (digits : ∀ c ∈ cs, c.isDigit = true) (high : Nat) :
    cs.foldlM (fun acc c => (digit? c).map (acc * 10 + ·)) high =
      some (Nat.ofDigitChars 10 cs high) := by
  induction cs generalizing high with
  | nil => rfl
  | cons c rest ih =>
      obtain ⟨first, others⟩ := List.forall_mem_cons.mp digits
      rw [List.foldlM_cons, digit?_of_isDigit first, Nat.ofDigitChars_cons, Nat.mul_comm]
      exact ih others _

theorem digits_of_foldlM {cs : List Char} {high n : Nat}
    (read : cs.foldlM (fun acc c => (digit? c).map (acc * 10 + ·)) high = some n) :
    ∀ c ∈ cs, c.isDigit = true := by
  induction cs generalizing high with
  | nil => exact List.forall_mem_nil _
  | cons c rest ih =>
      rw [List.foldlM_cons] at read
      by_cases digit : c.isDigit = true
      · rw [digit?_of_isDigit digit] at read
        exact List.forall_mem_cons.mpr ⟨digit, ih read⟩
      · rw [digit?_of_not_isDigit digit] at read
        cases read

theorem ofDecimal?_eq_some_iff {limit n : Nat} {cs : List Char} :
    ofDecimal? limit cs = some n ↔ Denotes cs n ∧ n < limit := by
  unfold ofDecimal?
  split
  · rename_i empty
    have nothing : cs = [] := List.isEmpty_iff.mp empty
    exact iff_of_false nofun fun ⟨denotes, _⟩ => denotes.nonempty nothing
  · rename_i filled
    rw [below?, Option.filter_eq_some_iff, decide_eq_true_iff]
    refine and_congr_left fun _ => ⟨fun read => ?_, fun denotes => ?_⟩
    · have digits := digits_of_foldlM read
      rw [fold?, foldlM_digit? digits] at read
      exact ⟨fun nothing => filled (by rw [nothing]; rfl), digits, Option.some.inj read⟩
    · rw [fold?, foldlM_digit? denotes.digits, denotes.value]

theorem ofSigned?_eq_some_iff {limit n : Nat} {cs : List Char} :
    ofSigned? limit cs = some n ↔
      (Denotes cs n ∨ ∃ digits, cs = '+' :: digits ∧ Denotes digits n) ∧ n < limit := by
  have plus : ('+' : Char).isDigit = false := by decide
  unfold ofSigned?
  split
  · rename_i digits
    have unsigned : ¬Denotes ('+' :: digits) n := by
      intro denotes
      have digit := denotes.digits '+' List.mem_cons_self
      rw [plus] at digit
      contradiction
    simp [ofDecimal?_eq_some_iff, unsigned]
  · rename_i signless
    have unsigned : ¬∃ digits, cs = '+' :: digits ∧ Denotes digits n :=
      fun ⟨digits, shape, _⟩ => signless digits shape
    simp [ofDecimal?_eq_some_iff, unsigned]

theorem denotes_toDigits (n : Nat) : Denotes (Nat.toDigits 10 n) n where
  nonempty := Nat.toDigits_ne_nil
  digits _ member := Nat.isDigit_of_mem_toDigits (by decide) (by decide) member
  value := Nat.ofDigitChars_ten_toDigits

theorem canonical_toDigits (n : Nat) : Canonical (Nat.toDigits 10 n) := by
  induction n using Nat.strongRecOn with
  | ind n ih =>
      rintro ⟨several, zero⟩
      have large : 10 ≤ n := Nat.le_of_not_lt fun small => by
        rw [Nat.toDigits_of_lt_base small] at several
        exact absurd several (by simp)
      -- The first digit is that of a tenth of the number, which would have to be zero.
      obtain ⟨c, rest, shape⟩ :=
        List.exists_cons_of_ne_nil (Nat.toDigits_ne_nil (b := 10) (n := n / 10))
      rw [Nat.toDigits_of_base_le (by decide) large, shape] at zero
      have leading : c = '0' := Option.some.inj zero
      subst leading
      have alone : rest = [] := by
        have short : ¬1 < (Nat.toDigits 10 (n / 10)).length :=
          fun long => ih (n / 10) (by omega) ⟨long, by rw [shape]; rfl⟩
        rw [shape, List.length_cons] at short
        exact List.length_eq_zero_iff.mp (by omega)
      have tenth : n / 10 = 0 := by
        rw [← @Nat.ofDigitChars_ten_toDigits (n / 10), shape, alone]
        rfl
      omega

theorem digitChar_of_isDigit {c : Char} (digit : c.isDigit = true) :
    Nat.digitChar (c.toNat - '0'.toNat) = c ∧ c.toNat - '0'.toNat < 10 := by
  obtain ⟨lower, upper⟩ : 48 ≤ c.toNat ∧ c.toNat ≤ 57 := Char.isDigit_iff_toNat.mp digit
  have zero : '0'.toNat = 48 := rfl
  refine ⟨Char.toNat_inj.mp ?_, by omega⟩
  rw [Nat.toNat_digitChar_of_lt_ten (by omega)]
  omega

/-- Digits behind a number that is not zero are printed as they stand. -/
theorem toDigits_ofDigitChars {cs : List Char} (digits : ∀ c ∈ cs, c.isDigit = true) {high : Nat}
    (positive : 0 < high) :
    Nat.toDigits 10 (Nat.ofDigitChars 10 cs high) = Nat.toDigits 10 high ++ cs := by
  induction cs generalizing high with
  | nil => exact (List.append_nil _).symm
  | cons c rest ih =>
      obtain ⟨first, others⟩ := List.forall_mem_cons.mp digits
      obtain ⟨printed, small⟩ := digitChar_of_isDigit first
      have joined := Nat.toDigits_append_toDigits (b := 10) (by decide) positive small
      rw [Nat.toDigits_of_lt_base small, printed] at joined
      rw [Nat.ofDigitChars_cons, ih others (by omega), ← joined, List.append_assoc,
        List.singleton_append]

/-- A number has one numeral without leading zeros, and it is the one that is printed. -/
theorem eq_toDigits_iff {cs : List Char} {n : Nat} :
    cs = Nat.toDigits 10 n ↔ Denotes cs n ∧ Canonical cs := by
  constructor
  · rintro rfl
    exact ⟨denotes_toDigits n, canonical_toDigits n⟩
  · rintro ⟨⟨nonempty, digits, value⟩, canonical⟩
    obtain ⟨c, rest, rfl⟩ := List.exists_cons_of_ne_nil nonempty
    obtain ⟨first, others⟩ := List.forall_mem_cons.mp digits
    obtain ⟨printed, small⟩ := digitChar_of_isDigit first
    rw [Nat.ofDigitChars_cons, Nat.mul_zero, Nat.zero_add] at value
    by_cases zero : c.toNat - '0'.toNat = 0
    · have leading : c = '0' := by rw [← printed, zero]; rfl
      cases rest with
      | nil =>
          rw [← value, Nat.ofDigitChars_nil, zero, leading]
          rfl
      | cons second rest => exact absurd ⟨by simp, by rw [leading]; rfl⟩ canonical
    · rw [← value, toDigits_ofDigitChars others (Nat.pos_of_ne_zero zero),
        Nat.toDigits_of_lt_base small, printed, List.singleton_append]

end HartScope.Numeral
