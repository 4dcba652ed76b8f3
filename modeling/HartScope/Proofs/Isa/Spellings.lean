import HartScope.Isa.Register
import HartScope.Proofs.Text.Numerals

/-!
How a register may be written.  Its name and its number behind `x` are read back, and so are the extra
spellings of two registers.  The only other texts that are read have a plus sign between the `x` and the
number.
-/

namespace HartScope.Reg

/-- The texts that stand for a register. -/
def spellings (r : Reg) : List String :=
  r.name :: ("x" ++ toString r.val) ::
    if r = zero then ["0"] else if r.val = 8 then ["fp"] else []

/-- A text with `x`, a plus sign and any digits whose number is that of the register. -/
def PlusSpelled (r : Reg) (text : String) : Prop :=
  ∃ digits, text = String.ofList ('x' :: '+' :: digits) ∧ Numeral.Denotes digits r.val

variable {r : Reg} {text : String}

theorem ofNat?_eq_some_iff {n : Nat} : ofNat? n = some r ↔ n = r.val := by
  unfold ofNat?
  split
  · rw [Option.some.injEq, Fin.ext_iff]
  · rename_i large
    exact iff_of_false nofun fun same => large (same ▸ r.isLt)

theorem ofNumeral?_eq_some_iff {cs : List Char} :
    ofNumeral? cs = some r ↔
      cs = Nat.toDigits 10 r.val ∨ ∃ digits, cs = '+' :: digits ∧ Numeral.Denotes digits r.val := by
  have small : r.val < Numeral.wordLimit := Nat.lt_trans r.isLt (by decide)
  have read : (Numeral.ofSigned? Numeral.wordLimit cs).bind ofNat? = some r ↔
      Numeral.Denotes cs r.val ∨ ∃ digits, cs = '+' :: digits ∧ Numeral.Denotes digits r.val := by
    simp only [Option.bind_eq_some_iff, ofNat?_eq_some_iff, exists_eq_right,
      Numeral.ofSigned?_eq_some_iff, small, and_true]
  have signed : (∃ digits, cs = '+' :: digits ∧ Numeral.Denotes digits r.val) →
      Numeral.Canonical cs := by
    rintro ⟨digits, rfl, _⟩ ⟨_, zero⟩
    exact absurd (Option.some.inj zero) (by decide)
  unfold ofNumeral?
  split
  · rename_i padded
    have irregular : ¬Numeral.Canonical cs := fun canonical => canonical padded
    exact iff_of_false nofun fun spelled => irregular
      (spelled.elim (fun same => (Numeral.eq_toDigits_iff.mp same).2) signed)
  · rename_i canonical
    have whole : Numeral.Denotes cs r.val ↔ cs = Nat.toDigits 10 r.val :=
      ⟨fun denotes => Numeral.eq_toDigits_iff.mpr ⟨denotes, canonical⟩,
        fun same => (Numeral.eq_toDigits_iff.mp same).1⟩
    rw [read, whole]

theorem exists_name_of_idxOf? {index : Nat} (found : names.idxOf? text = some index) :
    ∃ r : Reg, r.val = index ∧ text = r.name := by
  obtain ⟨bound, same, _⟩ := List.findIdx?_eq_some_iff_getElem.mp found
  refine ⟨⟨index, bound⟩, rfl, ?_⟩
  rw [name, nameAt, List.getD_eq_getElem?_getD, List.getElem?_eq_getElem bound]
  exact (beq_iff_eq.mp same).symm

/-- No name starts with the letter in front of numbers. -/
theorem ofName?_numbered (numeral : List Char) :
    ofName? (String.ofList ('x' :: numeral)) = ofNumeral? numeral := by
  have initial : ∀ name ∈ "0" :: "fp" :: names, name.toList.head? ≠ some 'x' := by decide
  have unnamed : ∀ name ∈ "0" :: "fp" :: names, String.ofList ('x' :: numeral) ≠ name := by
    intro name member same
    exact initial name member (by rw [← same, String.toList_ofList]; rfl)
  have nowhere : names.idxOf? (String.ofList ('x' :: numeral)) = none :=
    List.idxOf?_eq_none_iff.mpr fun member =>
      unnamed _ (List.mem_cons_of_mem _ (List.mem_cons_of_mem _ member)) rfl
  have notZero := unnamed "0" (by simp)
  have notFrame := unnamed "fp" (by simp)
  simp only [ofName?, nowhere, notZero, notFrame, if_false, String.toList_ofList]

theorem numbered_eq (n : Nat) : "x" ++ toString n = String.ofList ('x' :: Nat.toDigits 10 n) := by
  rw [Nat.toString_eq_ofList_toDigits, ← String.toList_inj, String.toList_append]
  simp

-- The spellings are finitely many, so each can be tried.
theorem ofName?_of_mem_spellings (listed : text ∈ spellings r) : ofName? text = some r := by
  have each : ∀ r : Reg, ∀ text ∈ spellings r, ofName? text = some r := by decide +kernel
  exact each r text listed

theorem ofName?_of_spelled (spelled : text ∈ spellings r ∨ PlusSpelled r text) :
    ofName? text = some r := by
  rcases spelled with listed | ⟨digits, rfl, denotes⟩
  · exact ofName?_of_mem_spellings listed
  · rw [ofName?_numbered]
    exact ofNumeral?_eq_some_iff.mpr (.inr ⟨digits, rfl, denotes⟩)

theorem spelled_of_ofName? (found : ofName? text = some r) :
    text ∈ spellings r ∨ PlusSpelled r text := by
  unfold ofName? at found
  split at found
  · rename_i index named
    obtain ⟨other, rfl, rfl⟩ := exists_name_of_idxOf? named
    rw [Fin.ext (ofNat?_eq_some_iff.mp found)]
    exact .inl List.mem_cons_self
  · split at found
    · rename_i bare
      cases found
      have listed : "0" ∈ spellings zero := by decide +kernel
      exact .inl (bare ▸ listed)
    · split at found
      · rename_i frame
        cases found
        have listed : "fp" ∈ spellings 8 := by decide +kernel
        exact .inl (frame ▸ listed)
      · split at found
        · rename_i numeral shape
          have spelled : text = String.ofList ('x' :: numeral) := by
            rw [← shape, String.ofList_toList]
          rcases ofNumeral?_eq_some_iff.mp found with rfl | ⟨digits, rfl, denotes⟩
          · rw [spelled, ← numbered_eq]
            exact .inl (by simp [spellings])
          · exact .inr ⟨digits, spelled, denotes⟩
        · cases found

theorem plus_mem_of_plusSpelled (signed : PlusSpelled r text) : '+' ∈ text.toList := by
  obtain ⟨digits, rfl, _⟩ := signed
  simp

theorem plus_not_mem_of_mem_spellings (listed : text ∈ spellings r) : '+' ∉ text.toList := by
  have unsigned : ∀ r : Reg, ∀ text ∈ spellings r, '+' ∉ text.toList := by decide +kernel
  exact unsigned r text listed

/-- A text is read as a register exactly if it is one of the register's spellings, or has a plus sign
between `x` and digits whose number is that of the register.  So it is read as what it spells and nothing
else exactly if it is not such a signed number, as no text without a plus sign is, and each register is
read back from its name and from `x` with its number. -/
theorem spellings_read_back (text : String) :
    (∀ r, ofName? text = some r ↔ text ∈ spellings r ∨ PlusSpelled r text) ∧
    ((∀ r, ofName? text = some r ↔ text ∈ spellings r) ↔ ¬∃ r, PlusSpelled r text) ∧
    ('+' ∉ text.toList → ∀ r, ofName? text = some r ↔ text ∈ spellings r) ∧
    ∀ r : Reg, ofName? r.name = some r ∧ ofName? ("x" ++ toString r.val) = some r := by
  have read (r : Reg) : ofName? text = some r ↔ text ∈ spellings r ∨ PlusSpelled r text :=
    ⟨spelled_of_ofName?, ofName?_of_spelled⟩
  have exact_of_unsigned (unsigned : ¬∃ r, PlusSpelled r text) (r : Reg) :
      ofName? text = some r ↔ text ∈ spellings r :=
    (read r).trans (or_iff_left fun signed => unsigned ⟨r, signed⟩)
  refine ⟨read, ⟨?_, exact_of_unsigned⟩, fun signless => exact_of_unsigned ?_,
    fun r => ⟨ofName?_of_mem_spellings List.mem_cons_self,
      ofName?_of_mem_spellings (List.mem_cons_of_mem _ List.mem_cons_self)⟩⟩
  · rintro exactly ⟨r, signed⟩
    have listed := (exactly r).mp ((read r).mpr (.inr signed))
    exact plus_not_mem_of_mem_spellings listed (plus_mem_of_plusSpelled signed)
  · exact fun ⟨_, signed⟩ => signless (plus_mem_of_plusSpelled signed)

theorem frame_pointer_spelled_three_ways :
    (∀ text ∈ ["s0", "x8", "fp"], '+' ∉ text.toList ∧ ofName? text = some 8) ∧
      '+' ∉ "x08".toList ∧ ofName? "x08" ≠ some 8 := by
  have signless (text : String) := (spellings_read_back text).2.2.1
  refine ⟨fun text member => ?_, by decide, fun found => ?_⟩
  · have plain : '+' ∉ text.toList := by
      revert member text
      decide
    refine ⟨plain, (signless text plain 8).mpr ?_⟩
    revert member text
    decide +kernel
  · exact absurd ((signless "x08" (by decide) 8).mp found) (by decide +kernel)

/-- The reader of the number takes a plus sign, and nothing before it refuses one. -/
theorem plus_sign_read : ¬∀ text r, ofName? text = some r ↔ text ∈ spellings r := by
  intro exactly
  have found : ofName? "x+5" = some 5 := by decide +kernel
  exact absurd ((exactly "x+5" 5).mp found) (by decide +kernel)

end HartScope.Reg
