/-!
Numbers as bytes, least significant byte first.
-/

namespace HartScope.LittleEndian

def toNat : List UInt8 → Nat
  | [] => 0
  | byte :: rest => byte.toNat + 256 * toNat rest

/-- The `count` low bytes of `value`. -/
def ofNat : (count value : Nat) → List UInt8
  | 0, _ => []
  | count + 1, value => UInt8.ofNat value :: ofNat count (value / 256)

def wordBytes (word : UInt32) : List UInt8 :=
  ofNat 4 word.toNat

@[simp] theorem ofNat_length (count value : Nat) : (ofNat count value).length = count := by
  induction count generalizing value with
  | zero => rfl
  | succ count ih => simp [ofNat, ih]

theorem toNat_lt (bytes : List UInt8) : toNat bytes < 1 <<< (8 * bytes.length) := by
  induction bytes with
  | nil => decide
  | cons byte rest ih =>
      have := byte.toNat_lt
      simp only [toNat, List.length_cons, Nat.one_shiftLeft, Nat.mul_add, Nat.pow_add] at ih ⊢
      omega

theorem toNat_ofNat (count value : Nat) :
    toNat (ofNat count value) = value % 1 <<< (8 * count) := by
  induction count generalizing value with
  | zero => simp [ofNat, toNat, Nat.mod_one]
  | succ count ih =>
      have power : 1 <<< (8 * (count + 1)) = 256 * 1 <<< (8 * count) := by
        rw [Nat.one_shiftLeft, Nat.one_shiftLeft, Nat.mul_succ, Nat.pow_add, Nat.mul_comm]
      rw [ofNat, toNat, ih, UInt8.toNat_ofNat', power, Nat.mod_mul]

theorem ofNat_toNat (bytes : List UInt8) : ofNat bytes.length (toNat bytes) = bytes := by
  induction bytes with
  | nil => rfl
  | cons byte rest ih =>
      have small := byte.toNat_lt
      have quotient : (byte.toNat + 256 * toNat rest) / 256 = toNat rest := by omega
      have low : UInt8.ofNat (byte.toNat + 256 * toNat rest) = byte := by
        apply UInt8.toNat_inj.mp
        rw [UInt8.toNat_ofNat']
        omega
      simp only [List.length_cons, toNat, ofNat, quotient, low, ih]

end HartScope.LittleEndian
