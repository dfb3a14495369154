import Mathlib.Data.Nat.Digits.Defs
import Mathlib.Data.UInt

set_option autoImplicit false

/-!
# Foundation: decimal numerals in texts

A text is its bytes.  `leadingNumber` is what `sscanf` makes of a text with a decimal
conversion: white space, then as many digits as there are.  `decimal` and `decimalInt`
write a number; reading what was written gives it back, unless it has a sign.
-/

namespace Hydra.Foundation

/-- `isdigit`. -/
def isDigit (c : UInt8) : Bool := decide (48 ≤ c ∧ c ≤ 57)

/-- `isspace`, with the no-break space of the kernel's table. -/
def isSpace (c : UInt8) : Bool := decide ((9 ≤ c ∧ c ≤ 13) ∨ c = 32 ∨ c = 160)

/-- What a digit stands for. -/
def digitValue (c : UInt8) : Nat := c.toNat - 48

/-- The digits a text starts with, behind white space. -/
def leadingDigits (s : List UInt8) : List UInt8 := (s.dropWhile isSpace).takeWhile isDigit

/-- What digits stand for. -/
def digitsValue (ds : List UInt8) : Nat := ds.foldl (fun v c => v * 10 + digitValue c) 0

/-- The number a text starts with. -/
def leadingNumber (s : List UInt8) : Option Nat :=
  if leadingDigits s = [] then none else some (digitsValue (leadingDigits s))

/-- The number a text starts with, which may have a minus sign. -/
def leadingInt (s : List UInt8) : Option Int :=
  match s.dropWhile isSpace with
  | 45 :: rest =>
      if rest.takeWhile isDigit = [] then none else some (-digitsValue (rest.takeWhile isDigit))
  | rest =>
      if rest.takeWhile isDigit = [] then none else some (digitsValue (rest.takeWhile isDigit))

/-- The digit for a number below ten. -/
def digitByte (d : Nat) : UInt8 := UInt8.ofNat (48 + d)

/-- The numeral of a number. -/
def decimal (n : Nat) : List UInt8 :=
  if n = 0 then [48] else ((Nat.digits 10 n).map digitByte).reverse

/-- The numeral of an integer. -/
def decimalInt (i : Int) : List UInt8 :=
  if i < 0 then 45 :: decimal i.natAbs else decimal i.natAbs

theorem digitByte_toNat {d : Nat} (hd : d < 10) : (digitByte d).toNat = 48 + d := by
  show (48 + d) % 256 = 48 + d
  omega

theorem digitValue_digitByte {d : Nat} (hd : d < 10) : digitValue (digitByte d) = d := by
  rw [digitValue, digitByte_toNat hd]
  omega

theorem isDigit_digitByte {d : Nat} (hd : d < 10) : isDigit (digitByte d) = true := by
  have hnat := digitByte_toNat hd
  refine decide_eq_true ⟨?_, ?_⟩
  · rw [UInt8.le_iff_toNat_le, hnat]
    show 48 ≤ 48 + d
    omega
  · rw [UInt8.le_iff_toNat_le, hnat]
    show 48 + d ≤ 57
    omega

theorem isSpace_of_isDigit {c : UInt8} (hc : isDigit c = true) : isSpace c = false := by
  have hc := of_decide_eq_true hc
  refine decide_eq_false ?_
  rintro (⟨-, h⟩ | rfl | rfl)
  · have hle := UInt8.le_trans hc.1 h
    exact absurd hle (by decide)
  · exact absurd hc.1 (by decide)
  · exact absurd hc.2 (by decide)

theorem decimal_ne_nil (n : Nat) : decimal n ≠ [] := by
  unfold decimal
  split
  · simp
  · rename_i hn
    simpa [Nat.digits_eq_nil_iff_eq_zero] using hn

theorem isDigit_of_mem_decimal {n : Nat} : ∀ c ∈ decimal n, isDigit c = true := by
  intro c hc
  unfold decimal at hc
  split at hc
  · rw [List.mem_singleton.mp hc]
    decide
  · obtain ⟨d, hd, rfl⟩ := List.mem_map.mp (List.mem_reverse.mp hc)
    exact isDigit_digitByte (Nat.digits_lt_base (by decide) hd)

theorem digitsValue_decimal (n : Nat) : digitsValue (decimal n) = n := by
  unfold decimal
  split
  · rename_i hn
    rw [hn]
    rfl
  · have hfold : ∀ l : List Nat, (∀ d ∈ l, d < 10) →
        (l.map digitByte).foldr (fun c v => v * 10 + digitValue c) 0 = Nat.ofDigits 10 l := by
      intro l hl
      induction l with
      | nil => rfl
      | cons d rest ih =>
          rw [List.map_cons, List.foldr_cons, ih fun e he => hl e (List.mem_cons_of_mem d he),
            digitValue_digitByte (hl d List.mem_cons_self), Nat.ofDigits_cons]
          ring
    rw [digitsValue, List.foldl_reverse,
      hfold _ fun d hd => Nat.digits_lt_base (by decide) hd, Nat.ofDigits_digits]

/-- Reading a numeral. -/
theorem leadingNumber_decimal (n : Nat) {rest : List UInt8}
    (hrest : ∀ c ∈ rest.head?, isDigit c = false) :
    leadingNumber (decimal n ++ rest) = some n := by
  have hdigits : leadingDigits (decimal n ++ rest) = decimal n := by
    have hdrop : (decimal n ++ rest).dropWhile isSpace = decimal n ++ rest := by
      cases hd : decimal n with
      | nil => exact absurd hd (decimal_ne_nil n)
      | cons c tail =>
          have hc : isDigit c = true := isDigit_of_mem_decimal c (hd ▸ List.mem_cons_self)
          rw [List.cons_append, List.dropWhile_cons_of_neg (by simp [isSpace_of_isDigit hc])]
    rw [leadingDigits, hdrop, List.takeWhile_append_of_pos isDigit_of_mem_decimal]
    cases rest with
    | nil => simp
    | cons c tail =>
        rw [List.takeWhile_cons_of_neg (by simp [hrest c rfl]), List.append_nil]
  rw [leadingNumber, hdigits, if_neg (decimal_ne_nil n), digitsValue_decimal]

/-- A text that starts with a number does so without a sign. -/
theorem leadingInt_of_leadingNumber {s : List UInt8} {n : Nat} (h : leadingNumber s = some n) :
    leadingInt s = some (n : Int) := by
  unfold leadingNumber at h
  split at h
  · cases h
  · rename_i hdigits
    rw [← Option.some.inj h]
    unfold leadingInt
    unfold leadingDigits at hdigits ⊢
    split
    · rename_i rest hdrop
      rw [hdrop] at hdigits
      exact absurd (List.takeWhile_cons_of_neg (by decide)) hdigits
    · exact if_neg hdigits

/-- A sign is no digit. -/
theorem leadingNumber_decimalInt {i : Int} (hi : i < 0) (rest : List UInt8) :
    leadingNumber (decimalInt i ++ rest) = none := by
  rw [decimalInt, if_pos hi, List.cons_append, leadingNumber, if_pos]
  rfl

/-- The accumulation of a 64-bit scan wraps around. -/
theorem foldl_uint64_eq (ds : List UInt8) :
    ds.foldl (fun res c => res * 10 + UInt64.ofNat (digitValue c)) (0 : UInt64) =
      UInt64.ofNat (digitsValue ds) := by
  suffices hfrom : ∀ v : Nat,
      ds.foldl (fun res c => res * 10 + UInt64.ofNat (digitValue c)) (UInt64.ofNat v) =
        UInt64.ofNat (ds.foldl (fun v c => v * 10 + digitValue c) v) from hfrom 0
  induction ds with
  | nil => exact fun v => rfl
  | cons c rest ih =>
      intro v
      rw [List.foldl_cons, List.foldl_cons, ← ih, UInt64.ofNat_add, UInt64.ofNat_mul]
      rfl

end Hydra.Foundation
