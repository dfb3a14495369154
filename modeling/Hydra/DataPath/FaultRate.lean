/-
  DataPath/FaultRate.lean --- the rate as it is written and read.

  Source: `IS_fault_injection_set_distr` and `IS_fault_injection_distr` of
  `resilience_manager/is_fault.c`, and `fault_injection_distr_attr_store` of
  `is_configfs.c`.

  The text goes through `sscanf` with `%llu`, whose result is not looked at: without a
  number the rate is what was on the stack.  It comes back through `%d`.
-/
import Hydra.Foundation.Decimal
import Hydra.DataPath.Faults

set_option autoImplicit false

namespace Hydra.DataPath

open Hydra.Foundation

variable {Seed : Type}

/-! ## The attribute -/

/-- `sscanf(distr, "%llu", &fault_rate)` on a variable that holds `garbage`. -/
def sscanfLlu (distr : List UInt8) (garbage : UInt64) : UInt64 :=
  if leadingDigits distr = [] then garbage
  else
    (leadingDigits distr).foldl (fun res c => res * 10 + UInt64.ofNat (digitValue c)) 0

/-- `IS_fault_injection_set_distr`. -/
def isFaultInjectionSetDistr (g : Generator Seed) (ndisks : Nat) (distr : List UInt8)
    (garbage : UInt64) (f : Injector Seed) : Option (Injector Seed) :=
  initUniformDistr g ndisks (sscanfLlu distr garbage) f

/-- `IS_fault_injection_distr`: `%d` takes the low half of the argument, with its sign. -/
def isFaultInjectionDistr (f : Injector Seed) : List UInt8 :=
  decimalInt f.faultRate.toUInt32.toInt32.toInt ++ [10]

/-! ## The property -/

/-- The rate does no harm and can be read back. -/
structure RateInstalled (distr : List UInt8) (f : Injector Seed) : Prop where
  init : ∀ (g : Generator Seed) n f', (initUniformDistr g n f.faultRate f').isSome = true
  inject : ∀ (g : Generator Seed) f' d, f'.faultRate = f.faultRate →
    (isFaultInjectionInjectFault g f' d).isSome = true
  drawn : ∀ (g : Generator Seed) (d : DiskFault Seed),
    (0 ≤ (d.restart g f.faultRate).accessCountBeforeNextFault.toInt ∧
      (d.restart g f.faultRate).accessCountBeforeNextFault.toInt ≤ 2 * f.faultRate.toNat) ∧
    0 ≤ (d.inject g f.faultRate).accessCountBeforeNextFault.toInt ∧
      (d.inject g f.faultRate).accessCountBeforeNextFault.toInt ≤ 2 * f.faultRate.toNat
  printed : ∃ v, leadingNumber distr = some v ∧ isFaultInjectionDistr f = decimal v ++ [10]

/-- Writing a text leaves the injector alone or installs such a rate, whatever is on the
stack. -/
def WriteIsSafe (g : Generator Seed) (ndisks : Nat) (distr : List UInt8) : Prop :=
  ∀ garbage f, ∃ f', isFaultInjectionSetDistr g ndisks distr garbage f = some f' ∧
    (f' = f ∨ RateInstalled distr f')

/-! ## Scanning and printing -/

theorem sscanfLlu_eq (distr : List UInt8) (garbage : UInt64) :
    sscanfLlu distr garbage =
      match leadingNumber distr with
      | none => garbage
      | some v => UInt64.ofNat v := by
  unfold sscanfLlu leadingNumber
  split
  · rfl
  · rw [foldl_uint64_eq]

theorem head_newline : ∀ c ∈ ([10] : List UInt8).head?, isDigit c = false := by
  intro c hc
  obtain rfl : (10 : UInt8) = c := by simpa using hc
  rfl

theorem decimalInt_natCast (n : Nat) : decimalInt n = decimal n := by
  rw [decimalInt, if_neg (by omega), Int.natAbs_natCast]

/-- What is printed is the number only below `2^31`. -/
theorem isFaultInjectionDistr_eq_iff {f : Injector Seed} {v : Nat}
    (hrate : f.faultRate = UInt64.ofNat v) :
    isFaultInjectionDistr f = decimal v ++ [10] ↔ v < 2 ^ 31 := by
  have hbits : f.faultRate.toUInt32.toInt32.toInt = (v : Int).bmod (2 ^ 32) := by
    show f.faultRate.toUInt32.toBitVec.toInt = _
    have hnat : f.faultRate.toUInt32.toNat = v % 2 ^ 32 := by
      rw [hrate, UInt64.toNat_toUInt32, UInt64.toNat_ofNat']
      omega
    rw [BitVec.toInt_eq_toNat_bmod]
    show ((f.faultRate.toUInt32.toNat : Nat) : Int).bmod (2 ^ 32) = _
    rw [hnat]
    push_cast
    exact Int.emod_bmod ..
  constructor
  · intro hprint
    rw [isFaultInjectionDistr] at hprint
    have hread := leadingNumber_decimal v head_newline
    rw [← hprint] at hread
    by_cases hneg : f.faultRate.toUInt32.toInt32.toInt < 0
    · rw [leadingNumber_decimalInt hneg] at hread
      cases hread
    · obtain ⟨n, hn⟩ := Int.eq_ofNat_of_zero_le (Int.not_lt.mp hneg)
      rw [hn, decimalInt_natCast, leadingNumber_decimal n head_newline] at hread
      obtain rfl := Option.some.inj hread
      have hlt := f.faultRate.toUInt32.toInt32.toInt_lt
      omega
  · intro hlt
    rw [isFaultInjectionDistr, hbits, Int.bmod_eq_of_le (by omega) (by omega), decimalInt_natCast]

/-! ## Safe writes -/

theorem rateInstalled {distr : List UInt8} {f : Injector Seed} {v : Nat}
    (hnumber : leadingNumber distr = some v) (hpos : 1 ≤ v) (hlt : v < 2 ^ 31)
    (hrate : f.faultRate = UInt64.ofNat v) : RateInstalled distr f := by
  have hnat : f.faultRate.toNat = v := by
    rw [hrate, UInt64.toNat_ofNat']
    omega
  have hpos : 1 ≤ f.faultRate.toNat := by omega
  have hsmall : f.faultRate.toNat < 2 ^ 62 := by omega
  have hne := two_mul_ne_zero hpos hsmall
  refine ⟨fun g n f' => ?_, fun g f' d hsame => ?_, fun g d => ?_,
    v, hnumber, (isFaultInjectionDistr_eq_iff hrate).mpr hlt⟩
  · rw [initUniformDistr, if_neg fun hand => hne hand.2]
    rfl
  · unfold isFaultInjectionInjectFault
    rw [hsame, if_neg hne]
    split <;> rfl
  · have hfirst := Nat.mod_lt (g.next g.init).1.toNat (show 0 < 2 * f.faultRate.toNat by omega)
    have hnext := Nat.mod_lt (g.next d.seed).1.toNat (show 0 < 2 * f.faultRate.toNat by omega)
    rw [restart_countdown g hpos hsmall, inject_countdown g hpos hsmall]
    omega

/-- A rate of zero divides by zero. -/
theorem RateInstalled.faultRate_ne_zero {distr : List UInt8} {f : Injector Seed}
    (h : RateInstalled distr f) : f.faultRate ≠ 0 := by
  intro hzero
  have hinit := h.init ⟨(f.diskFault 0).seed, fun s => (0, s)⟩ 1 f
  rw [hzero, initUniformDistr, if_pos ⟨by decide, by decide⟩] at hinit
  cases hinit

/-- A text that is scanned as `rate` is handled safely only if that rate can be installed:
an injector with another rate is not left alone. -/
theorem WriteIsSafe.installed {g : Generator Seed} {ndisks : Nat} {distr : List UInt8}
    (h : WriteIsSafe g ndisks distr) (garbage : UInt64) :
    ∃ f : Injector Seed, f.faultRate = sscanfLlu distr garbage ∧ RateInstalled distr f := by
  obtain ⟨f', hset, hsafe⟩ := h garbage
    ⟨0, sscanfLlu distr garbage + 1, fun _ => ⟨0, 0, 0, g.init⟩⟩
  unfold isFaultInjectionSetDistr initUniformDistr at hset
  split at hset
  · cases hset
  obtain rfl := Option.some.inj hset
  refine ⟨_, rfl, hsafe.resolve_left fun heq => ?_⟩
  have hrate : sscanfLlu distr garbage = sscanfLlu distr garbage + 1 :=
    congrArg Injector.faultRate heq
  have hone : (1 : UInt64) = 0 := by
    have hsub := congrArg (fun x => x - sscanfLlu distr garbage) hrate
    simpa [UInt64.add_comm] using hsub.symm
  exact absurd hone (by decide)

/-- A text is handled safely exactly when it starts, behind white space, with a decimal
number from 1 to `2^31 - 1`. -/
theorem writeIsSafe_iff (g : Generator Seed) (ndisks : Nat) (distr : List UInt8) :
    WriteIsSafe g ndisks distr ↔ ∃ v, leadingNumber distr = some v ∧ 1 ≤ v ∧ v < 2 ^ 31 := by
  constructor
  · intro h
    obtain ⟨f, hrate, hinstalled⟩ := h.installed 0
    have hne := hinstalled.faultRate_ne_zero
    obtain ⟨v, hnumber, hprint⟩ := hinstalled.printed
    rw [sscanfLlu_eq, hnumber] at hrate
    refine ⟨v, hnumber, ?_, (isFaultInjectionDistr_eq_iff hrate).mp hprint⟩
    by_contra hzero
    obtain rfl : v = 0 := by omega
    exact hne hrate
  · rintro ⟨v, hnumber, hpos, hlt⟩ garbage f
    have hscan : sscanfLlu distr garbage = UInt64.ofNat v := by rw [sscanfLlu_eq, hnumber]
    have hnat : (UInt64.ofNat v).toNat = v := by
      rw [UInt64.toNat_ofNat']
      omega
    have hne : ¬ (0 < ndisks ∧ 2 * UInt64.ofNat v = 0) := fun hand =>
      two_mul_ne_zero (by omega) (by omega) hand.2
    refine ⟨_, by rw [isFaultInjectionSetDistr, hscan, initUniformDistr, if_neg hne], .inr ?_⟩
    exact rateInstalled hnumber hpos hlt rfl

/-- The texts `0`, `9223372036854775808`, which is doubled to zero, and `4294967296`,
which is printed as `0`. -/
theorem writes_not_safe :
    ¬ WriteIsSafe alwaysFive 2 [48, 10] ∧
      ¬ WriteIsSafe alwaysFive 2
        [57, 50, 50, 51, 51, 55, 50, 48, 51, 54, 56, 53, 52, 55, 55, 53, 56, 48, 56, 10] ∧
      ¬ WriteIsSafe alwaysFive 2 [52, 50, 57, 52, 57, 54, 55, 50, 57, 54, 10] := by
  refine ⟨fun h => ?_, fun h => ?_, fun h => ?_⟩
  · obtain ⟨f', hset, -⟩ := h 0 quiet
    cases hset
  · obtain ⟨f', hset, -⟩ := h 0 quiet
    cases hset
  · obtain ⟨f, hrate, hinstalled⟩ := h.installed 0
    obtain ⟨v, hnumber, hprint⟩ := hinstalled.printed
    obtain rfl : 4294967296 = v := Option.some.inj hnumber
    have hlt := (isFaultInjectionDistr_eq_iff hrate).mp hprint
    exact absurd hlt (by decide)

end Hydra.DataPath
