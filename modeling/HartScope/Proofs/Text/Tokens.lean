import HartScope.Isa.Register

/-!
Reading a line of assembly back.  The tokens of a line are what stands between blanks, commas and
parentheses; names and numerals are tokens, and a numeral stands for one number only.
-/

namespace HartScope.Disassembly

def isSeparator (c : Char) : Bool :=
  c == ' ' || c == ',' || c == '(' || c == ')'

def tokens (line : String) : List String :=
  ((line.toList.splitOnP isSeparator).filter (!·.isEmpty)).map String.ofList

/-- A text that is one token. -/
def IsToken (text : String) : Prop :=
  text.toList ≠ [] ∧ ∀ c ∈ text.toList, isSeparator c = false

/-- A text that keeps tokens apart. -/
def IsGap (text : String) : Prop :=
  text.toList ≠ [] ∧ ∀ c ∈ text.toList, isSeparator c = true

-- The letters of the text are looked at, and not all letters that there are.
instance (text : String) : Decidable (IsToken text) :=
  @instDecidableAnd _ _ _ (List.decidableBAll (isSeparator · = false) text.toList)

instance (text : String) : Decidable (IsGap text) :=
  @instDecidableAnd _ _ _ (List.decidableBAll (isSeparator · = true) text.toList)

theorem splitOnP_skip {gap : List Char} (separates : ∀ c ∈ gap, isSeparator c = true)
    (rest : List Char) :
    ((gap ++ rest).splitOnP isSeparator).filter (!·.isEmpty) =
      (rest.splitOnP isSeparator).filter (!·.isEmpty) := by
  induction gap with
  | nil => rfl
  | cons c gap ih =>
      have separator : isSeparator c = true := separates c List.mem_cons_self
      have first : (c :: (gap ++ rest)).splitOnP isSeparator =
          [] :: (gap ++ rest).splitOnP isSeparator :=
        List.splitOnP_append_cons_of_forall_mem (List.forall_mem_nil _) c separator (gap ++ rest)
      have others : ∀ d ∈ gap, isSeparator d = true :=
        fun d member => separates d (List.mem_cons_of_mem c member)
      rw [List.cons_append, first]
      exact (List.filter_cons_of_neg (by simp)).trans (ih others)

variable {text gap : String}

theorem tokens_token (token : IsToken text) : tokens text = [text] := by
  obtain ⟨nonempty, plain⟩ := token
  rw [tokens, List.splitOnP_eq_singleton plain, List.filter_cons_of_pos (by simpa using nonempty)]
  simp

theorem tokens_append (token : IsToken text) (separates : IsGap gap) (rest : String) :
    tokens (text ++ (gap ++ rest)) = text :: tokens rest := by
  obtain ⟨nonempty, plain⟩ := token
  obtain ⟨present, separators⟩ := separates
  obtain ⟨c, others, spelled⟩ := List.exists_cons_of_ne_nil present
  rw [spelled, List.forall_mem_cons] at separators
  have first : (text.toList ++ c :: (others ++ rest.toList)).splitOnP isSeparator =
      text.toList :: (others ++ rest.toList).splitOnP isSeparator :=
    List.splitOnP_append_cons_of_forall_mem plain c separators.1 _
  rw [tokens, String.toList_append, String.toList_append, spelled, List.cons_append, first,
    List.filter_cons_of_pos (by simpa using nonempty), splitOnP_skip separators.2]
  simp [tokens]

/-! The three shapes of a line with operands. -/

variable {mnemonic first second third : String}

theorem tokens_pair (head : IsToken mnemonic) (left : IsToken first) (right : IsToken second) :
    tokens s!"{mnemonic} {first}, {second}" = [mnemonic, first, second] := by
  have blank : IsGap " " := by decide
  have comma : IsGap ", " := by decide
  simp only [toString, String.append_assoc, tokens_append head blank, tokens_append left comma,
    tokens_token right]

theorem tokens_triple (head : IsToken mnemonic) (left : IsToken first) (middle : IsToken second)
    (right : IsToken third) :
    tokens s!"{mnemonic} {first}, {second}, {third}" = [mnemonic, first, second, third] := by
  have blank : IsGap " " := by decide
  have comma : IsGap ", " := by decide
  simp only [toString, String.append_assoc, tokens_append head blank, tokens_append left comma,
    tokens_append middle comma, tokens_token right]

theorem tokens_indexed (head : IsToken mnemonic) (left : IsToken first) (offset : IsToken second)
    (base : IsToken third) :
    tokens s!"{mnemonic} {first}, {second}({third})" = [mnemonic, first, second, third] := by
  have blank : IsGap " " := by decide
  have comma : IsGap ", " := by decide
  have opening : IsGap "(" := by decide
  have closing : IsGap ")" := by decide
  have last : tokens (third ++ ")") = [third] := by
    have ended := tokens_append base closing ""
    rwa [String.append_empty] at ended
  simp only [toString, String.append_assoc, tokens_append head blank, tokens_append left comma,
    tokens_append offset opening, last]

/-! Names and numerals. -/

theorem name_isToken (r : Reg) : IsToken r.name := by
  revert r
  decide

theorem name_inj {r s : Reg} : r.name = s.name ↔ r = s := by
  revert r s
  decide

theorem digits_plain {base : Nat} (lower : 1 < base) (upper : base ≤ 16) (n : Nat) :
    ∀ c ∈ Nat.toDigits base n, isSeparator c = false := by
  have digit : ∀ d < 16, isSeparator d.digitChar = false := by decide
  induction n using Nat.strongRecOn with
  | ind n ih =>
      rw [Nat.toDigits_eq_if lower]
      split
      · simpa using digit n (by omega)
      · have last : n % base < base := Nat.mod_lt n (by omega)
        have earlier := ih (n / base) (Nat.div_lt_self (by omega) lower)
        simpa [or_imp, forall_and] using ⟨earlier, digit (n % base) (by omega)⟩

theorem decimal_isToken (n : Nat) : IsToken (toString n) := by
  rw [Nat.toString_eq_repr, IsToken, Nat.toList_repr]
  exact ⟨Nat.toDigits_ne_nil, digits_plain (by decide) (by decide) n⟩

theorem decimal_inj {m n : Nat} : toString m = toString n ↔ m = n := by
  refine ⟨fun same => ?_, congrArg toString⟩
  rw [Nat.toString_eq_ofList_toDigits, Nat.toString_eq_ofList_toDigits, String.ofList_inj] at same
  rw [← @Nat.ofDigitChars_ten_toDigits m, same, Nat.ofDigitChars_ten_toDigits]

theorem toList_negative (n : Nat) :
    (toString (Int.negSucc n)).toList = '-' :: (toString (n + 1)).toList :=
  String.toList_append

theorem signed_isToken (n : Int) : IsToken (toString n) := by
  cases n with
  | ofNat n => exact decimal_isToken n
  | negSucc n =>
      obtain ⟨_, plain⟩ := decimal_isToken (n + 1)
      rw [IsToken, toList_negative, List.forall_mem_cons]
      exact ⟨nofun, by decide, plain⟩

/-- The sign of a negative numeral is not a digit. -/
theorem signed_ne_negative (m n : Nat) : toString (Int.ofNat m) ≠ toString (Int.negSucc n) := by
  intro same
  have spelled : Nat.toDigits 10 m = '-' :: (toString (n + 1)).toList := by
    rw [← toList_negative, ← same, ← Nat.toList_repr]
    rfl
  have sign : '-' ∈ Nat.toDigits 10 m := spelled ▸ List.mem_cons_self
  exact absurd (Nat.isDigit_of_mem_toDigits (by decide) (by decide) sign) (by decide)

theorem signed_inj {m n : Int} : toString m = toString n ↔ m = n := by
  refine ⟨fun same => ?_, congrArg toString⟩
  cases m with
  | ofNat m =>
      cases n with
      | ofNat n => exact congrArg Int.ofNat (decimal_inj.mp same)
      | negSucc n => exact absurd same (signed_ne_negative m n)
  | negSucc m =>
      cases n with
      | ofNat n => exact absurd same.symm (signed_ne_negative n m)
      | negSucc n =>
          have digits := congrArg String.toList same
          rw [toList_negative, toList_negative, List.cons.injEq, String.toList_inj,
            decimal_inj] at digits
          rw [Nat.succ.inj digits.2]

theorem hex_isToken (n : Nat) : IsToken (Numeral.hex n) := by
  have spelled : (Numeral.hex n).toList = '0' :: 'x' :: Nat.toDigits 16 n := by
    simp [Numeral.hex]
  rw [IsToken, spelled, List.forall_mem_cons, List.forall_mem_cons]
  exact ⟨nofun, by decide, by decide, digits_plain (by decide) (by decide) n⟩

/-- A hexadecimal numeral reads back as the number that was printed. -/
theorem fold?_toDigits (n : Nat) :
    Numeral.fold? 16 Numeral.hexDigit? (Nat.toDigits 16 n) = some n := by
  have digit : ∀ d < 16, Numeral.hexDigit? d.digitChar = some d := by decide
  induction n using Nat.strongRecOn with
  | ind n ih =>
      rw [Nat.toDigits_eq_if (by decide)]
      split
      · simp [Numeral.fold?, digit n ‹_›]
      · have earlier := ih (n / 16) (by omega)
        have last := digit (n % 16) (by omega)
        have total : n / 16 * 16 + n % 16 = n := by omega
        simp only [Numeral.fold?] at earlier ⊢
        simp [List.foldlM_append, earlier, last, total]

theorem hex_inj {m n : Nat} : Numeral.hex m = Numeral.hex n ↔ m = n := by
  refine ⟨fun same => ?_, congrArg Numeral.hex⟩
  have digits : Nat.toDigits 16 m = Nat.toDigits 16 n := by
    have spelled := congrArg String.toList same
    simpa [Numeral.hex] using spelled
  have read := fold?_toDigits m
  rw [digits, fold?_toDigits n] at read
  exact (Option.some.inj read).symm

end HartScope.Disassembly
