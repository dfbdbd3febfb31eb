import Mathlib.Data.Nat.Prime.Basic
import Mathlib.Order.Bounds.Basic
import Mathlib.Tactic.Linarith
import SoulsFormats.Archive.BinderCommon

set_option autoImplicit false

/-! # The number of groups of a hash table

`sf_is_prime` and `sfi_binder_hash_table_group_count` in the words of the machine: the candidate is a `uint32_t`
and its trial divisors are `uint64_t`. They are shown to be the functions over numbers that the rest of the
development uses, and these to find the least prime. -/

namespace SoulsFormats

/-! ## The words of the machine -/

/-- The loop of `sf_is_prime`; the division by the low word of `i` is undefined where that is zero. -/
def isPrimeLoop (candidate : UInt32) : Nat → UInt64 → Except SfError Bool
  | 0, _ => .error .nonTermination
  | fuel + 1, i =>
    if i * i ≤ candidate.toUInt64 then
      if i.toUInt32 = 0 then .error .undefinedBehaviour
      else if candidate % i.toUInt32 = 0 then .ok false
      else isPrimeLoop candidate fuel (i + 2)
    else .ok true

/-- `sf_is_prime`. The loop tries fewer divisors than a `uint32_t` has odd ones below its root. -/
def isPrimeWord (candidate : UInt32) : Except SfError Bool :=
  if candidate < 2 then .ok false
  else if candidate = 2 then .ok true
  else if candidate % 2 = 0 then .ok false
  else isPrimeLoop candidate (2 ^ 16) 3

/-- The values that the counter of the loop takes. -/
inductive TrialDivisor (candidate : UInt32) : UInt64 → Prop
  | first : TrialDivisor candidate 3
  | next {i : UInt64} : TrialDivisor candidate i → i * i ≤ candidate.toUInt64 → candidate % i.toUInt32 ≠ 0 →
      TrialDivisor candidate (i + 2)

/-- The loop of `sfi_binder_hash_table_group_count`. -/
def groupCountLoop : Nat → UInt32 → Except SfError UInt32
  | 0, _ => .error .nonTermination
  | fuel + 1, p =>
    if p ≤ 100000 then do
      let prime ← isPrimeWord p
      if prime then pure p else groupCountLoop fuel (p + 1)
    else pure 0

/-- `sfi_binder_hash_table_group_count`. -/
def groupCountWord (fileCount : UInt64) : Except SfError UInt32 :=
  groupCountLoop 100002 (fileCount / 7).toUInt32

/-! ## Trial division -/

/-- None of the numbers `i`, `i + 2` and so on whose squares `c` reaches divides `c`. -/
def NoDivisorFrom (c i : Nat) : Prop := ∀ k, (i + 2 * k) * (i + 2 * k) ≤ c → ¬ i + 2 * k ∣ c

theorem noDivisorFrom_of_lt {c i : Nat} (h : c < i * i) : NoDivisorFrom c i := by
  intro k hk
  have hmono : i * i ≤ (i + 2 * k) * (i + 2 * k) := Nat.mul_le_mul (by omega) (by omega)
  omega

theorem noDivisorFrom_succ {c i : Nat} (hle : i * i ≤ c) :
    NoDivisorFrom c i ↔ ¬ i ∣ c ∧ NoDivisorFrom c (i + 2) := by
  constructor
  · intro h
    refine ⟨h 0 hle, fun k hk => ?_⟩
    have hnext := h (k + 1)
    rw [show i + 2 * (k + 1) = i + 2 + 2 * k by ring] at hnext
    exact hnext hk
  · rintro ⟨h0, hrest⟩ k hk
    cases k with
    | zero => exact h0
    | succ k =>
        rw [show i + 2 * (k + 1) = i + 2 + 2 * k by ring] at hk ⊢
        exact hrest k hk

/-- The divisor-pair argument: an odd number without an odd divisor up to its root is prime. -/
theorem prime_iff_noDivisorFrom {c : Nat} (hc : 2 < c) (hodd : c % 2 = 1) : c.Prime ↔ NoDivisorFrom c 3 := by
  constructor
  · intro hprime k hk hdvd
    rcases (Nat.dvd_prime hprime).1 hdvd with h1 | hself
    · omega
    · have hsq : c * 1 < c * c := Nat.mul_lt_mul_of_pos_left (by omega) (by omega)
      rw [hself] at hk
      omega
  · intro hno
    by_contra hcomposite
    have hdvd := Nat.minFac_dvd c
    have hpos : 2 ≤ c.minFac := (Nat.minFac_prime (by omega)).two_le
    have hroot : c.minFac * c.minFac ≤ c := by
      have hsq := Nat.minFac_sq_le_self (by omega) hcomposite
      rwa [sq] at hsq
    -- the least divisor is odd, so the loop comes upon it
    have hminOdd : c.minFac % 2 = 1 := by
      by_contra heven
      have htwo : 2 ∣ c := (Nat.dvd_of_mod_eq_zero (by omega)).trans hdvd
      omega
    obtain ⟨k, hk⟩ : ∃ k, c.minFac = 3 + 2 * k := ⟨(c.minFac - 3) / 2, by omega⟩
    rw [hk] at hroot hdvd
    exact hno k hroot hdvd

theorem isPrimeFrom_eq_true {c fuel i : Nat} (hfuel : c < (i + 2 * fuel) * (i + 2 * fuel)) :
    isPrimeFrom c fuel i = true ↔ NoDivisorFrom c i := by
  induction fuel generalizing i with
  | zero => simpa [isPrimeFrom] using noDivisorFrom_of_lt (by simpa using hfuel)
  | succ fuel ih =>
      unfold isPrimeFrom
      by_cases hle : i * i ≤ c
      · rw [if_pos hle, noDivisorFrom_succ hle, Nat.dvd_iff_mod_eq_zero]
        by_cases hdvd : c % i = 0
        · simp [hdvd]
        · rw [if_neg hdvd, ih (by rwa [show i + 2 + 2 * fuel = i + 2 * (fuel + 1) by ring])]
          simp [hdvd]
      · rw [if_neg hle]
        simpa using noDivisorFrom_of_lt (by omega)

/-- **`sf_is_prime` over numbers.** -/
theorem sfIsPrime_eq_true (c : Nat) : sfIsPrime c = true ↔ c.Prime := by
  unfold sfIsPrime
  split
  · next hlt =>
      have hnot : ¬ c.Prime := fun hprime => by
        have htwo := hprime.two_le
        omega
      simp [hnot]
  · split
    · next heq => simp [heq, Nat.prime_two]
    · split
      · next hne heven =>
          have hnot : ¬ c.Prime := fun hprime => by
            rcases hprime.eq_two_or_odd with h | h <;> omega
          simp [hnot]
      · rw [isPrimeFrom_eq_true (by nlinarith), prime_iff_noDivisorFrom (by omega) (by omega)]

/-! ## No overflow -/

section

variable {c : UInt32} {i : UInt64}

/-- Below 2^32 the square of a word is exact. -/
theorem toNat_square (hi : i.toNat < 2 ^ 32) : (i * i).toNat = i.toNat * i.toNat := by
  rw [UInt64.toNat_mul]
  exact Nat.mod_eq_of_lt (by nlinarith)

/-- A divisor that is tried is below 2^16, so the next one is little above. -/
theorem toNat_next (hi : i.toNat < 2 ^ 32) (hle : i * i ≤ c.toUInt64) :
    i.toNat < 2 ^ 16 ∧ (i + 2).toNat = i.toNat + 2 ∧ i.toUInt32.toNat = i.toNat := by
  have hc := c.toNat_lt
  rw [UInt64.le_iff_toNat_le, toNat_square hi, UInt32.toNat_toUInt64] at hle
  have hlt : i.toNat < 2 ^ 16 := by nlinarith
  refine ⟨hlt, ?_, ?_⟩
  · rw [UInt64.toNat_add]
    exact Nat.mod_eq_of_lt (by simp; omega)
  · rw [UInt64.toNat_toUInt32]
    exact Nat.mod_eq_of_lt (by omega)

theorem TrialDivisor.bounded (h : TrialDivisor c i) : 3 ≤ i.toNat ∧ i.toNat < 2 ^ 16 + 2 := by
  induction h with
  | first => decide
  | next _ hle _ ih =>
      obtain ⟨hlt, hnext, -⟩ := toNat_next (by omega) hle
      omega

/-- The loop decides whether there is a divisor, and its fuel lasts. -/
theorem isPrimeLoop_spec {fuel : Nat} (hlow : 0 < i.toNat) (hhigh : i.toNat < 2 ^ 16 + 2)
    (hfuel : 2 ^ 16 + 2 ≤ i.toNat + 2 * fuel) :
    ∃ b, isPrimeLoop c fuel i = .ok b ∧ (b = true ↔ NoDivisorFrom c.toNat i.toNat) := by
  induction fuel generalizing i with
  | zero => omega
  | succ fuel ih =>
      unfold isPrimeLoop
      by_cases hle : i * i ≤ c.toUInt64
      · obtain ⟨hlt, hnext, hlow32⟩ := toNat_next (by omega) hle
        have hsquare : i.toNat * i.toNat ≤ c.toNat := by
          rwa [UInt64.le_iff_toNat_le, toNat_square (by omega), UInt32.toNat_toUInt64] at hle
        have hne : i.toUInt32 ≠ 0 := by
          intro h0
          rw [h0] at hlow32
          simp at hlow32
          omega
        have hmod : c % i.toUInt32 = 0 ↔ i.toNat ∣ c.toNat := by
          rw [← UInt32.toNat_inj, UInt32.toNat_mod, hlow32, Nat.dvd_iff_mod_eq_zero]
          rfl
        rw [if_pos hle, if_neg hne, noDivisorFrom_succ hsquare]
        by_cases hdvd : c % i.toUInt32 = 0
        · rw [if_pos hdvd]
          refine ⟨false, rfl, ?_⟩
          simp [hmod.1 hdvd]
        · rw [if_neg hdvd]
          obtain ⟨b, hrun, hb⟩ := ih (i := i + 2) (by omega) (by omega) (by omega)
          refine ⟨b, hrun, ?_⟩
          rw [hb, hnext]
          simp [mt hmod.2 hdvd]
      · rw [if_neg hle]
        refine ⟨true, rfl, ?_⟩
        rw [UInt64.le_iff_toNat_le, toNat_square (by omega), UInt32.toNat_toUInt64] at hle
        simpa using noDivisorFrom_of_lt (by omega)

/-- **The loop decides primality for every word.** -/
theorem isPrimeWord_spec (c : UInt32) : isPrimeWord c = .ok (sfIsPrime c.toNat) := by
  unfold isPrimeWord sfIsPrime
  have htwo : (c < 2) = (c.toNat < 2) := propext UInt32.lt_iff_toNat_lt
  have heq : (c = 2) = (c.toNat = 2) := propext UInt32.toNat_inj.symm
  have hmod : (c % 2 = 0) = (c.toNat % 2 = 0) := propext UInt32.toNat_inj.symm
  simp only [htwo, heq, hmod]
  split
  · rfl
  · split
    · rfl
    · split
      · rfl
      · obtain ⟨b, hrun, hb⟩ := @isPrimeLoop_spec c 3 (2 ^ 16) (by decide) (by decide) (by decide)
        have hfrom : isPrimeFrom c.toNat c.toNat 3 = b := by
          rw [Bool.eq_iff_iff, isPrimeFrom_eq_true (by nlinarith), hb]
          rfl
        rw [hrun, hfrom]

/-! ## The search -/

/-- The loop finds the first prime from its start, and its fuel lasts. -/
theorem groupCountLoop_spec {fuel : Nat} {p : UInt32} (hfuel : 100001 < p.toNat + fuel) (hpos : 0 < fuel) :
    ∃ g, groupCountLoop fuel p = .ok g ∧ g.toNat = groupCountFrom (100001 - p.toNat) p.toNat := by
  induction fuel generalizing p with
  | zero => omega
  | succ fuel ih =>
      unfold groupCountLoop
      by_cases hle : p ≤ 100000
      · have hbound : p.toNat ≤ 100000 := UInt32.le_iff_toNat_le.1 hle
        have hnext : (p + 1).toNat = p.toNat + 1 := by
          rw [UInt32.toNat_add]
          exact Nat.mod_eq_of_lt (by simp; omega)
        rw [if_pos hle, isPrimeWord_spec, show 100001 - p.toNat = 100001 - (p.toNat + 1) + 1 by omega]
        unfold groupCountFrom
        by_cases hprime : sfIsPrime p.toNat = true
        · refine ⟨p, ?_, ?_⟩
          · change (if sfIsPrime p.toNat then pure p else groupCountLoop fuel (p + 1)) = _
            rw [if_pos hprime]
            rfl
          · rw [if_pos hprime]
        · obtain ⟨g, hrun, hg⟩ := ih (p := p + 1) (by omega) (by omega)
          refine ⟨g, ?_, ?_⟩
          · change (if sfIsPrime p.toNat then pure p else groupCountLoop fuel (p + 1)) = _
            rw [if_neg hprime, hrun]
          · rw [if_neg hprime, hg, hnext]
      · have hbound : 100000 < p.toNat := by
          rw [UInt32.le_iff_toNat_le] at hle
          exact Nat.lt_of_not_le hle
        rw [if_neg hle, show 100001 - p.toNat = 0 by omega]
        exact ⟨0, rfl, rfl⟩

end

/-- The primes that the search is for. -/
def groupCandidates (fileCount : Nat) : Set Nat := { p | p.Prime ∧ fileCount / 7 ≤ p ∧ p ≤ 100000 }

theorem groupCountFrom_spec (fuel p : Nat) :
    ((∃ q, q.Prime ∧ p ≤ q ∧ q < p + fuel) → IsLeast { q | q.Prime ∧ p ≤ q ∧ q < p + fuel } (groupCountFrom fuel p)) ∧
      ((¬ ∃ q, q.Prime ∧ p ≤ q ∧ q < p + fuel) → groupCountFrom fuel p = 0) := by
  induction fuel generalizing p with
  | zero =>
      refine ⟨?_, fun _ => rfl⟩
      rintro ⟨q, -, hlow, hhigh⟩
      omega
  | succ fuel ih =>
      unfold groupCountFrom
      by_cases hprime : p.Prime
      · rw [if_pos ((sfIsPrime_eq_true p).2 hprime)]
        constructor
        · intro _
          exact ⟨⟨hprime, le_rfl, by omega⟩, fun q hq => hq.2.1⟩
        · intro hnone
          exact absurd ⟨p, hprime, le_rfl, by omega⟩ hnone
      · rw [if_neg (mt (sfIsPrime_eq_true p).1 hprime)]
        -- as the start is no prime, the primes from it are those from the next number
        have hsame : ∀ q, (q.Prime ∧ p + 1 ≤ q ∧ q < p + 1 + fuel) ↔ (q.Prime ∧ p ≤ q ∧ q < p + (fuel + 1)) := by
          intro q
          constructor
          · rintro ⟨hq, hlow, hhigh⟩
            exact ⟨hq, by omega, by omega⟩
          · rintro ⟨hq, hlow, hhigh⟩
            have hne : q ≠ p := fun h => hprime (h ▸ hq)
            exact ⟨hq, by omega, by omega⟩
        have hrest := ih (p + 1)
        simp only [hsame] at hrest
        exact hrest

/-- **The number of groups is the least prime from a seventh of the number of files up to 100000, or 0.** Primality
    is decided for every word, and no step of the trial division overflows. -/
theorem groupCount_least {fileCount : UInt64} (h : fileCount.toNat < 2 ^ 31) :
    (∀ c : UInt32, ∃ b, isPrimeWord c = .ok b ∧ (b = true ↔ c.toNat.Prime)) ∧
    (∀ (c : UInt32) (i : UInt64), TrialDivisor c i → i.toNat * i.toNat < 2 ^ 64 ∧
      (i + 2).toNat = i.toNat + 2 ∧ i.toUInt32.toNat = i.toNat ∧ i.toUInt32 ≠ 0) ∧
    ∃ g, groupCountWord fileCount = .ok g ∧ g.toNat = binderHashTableGroupCount fileCount.toNat ∧
      ((groupCandidates fileCount.toNat).Nonempty → IsLeast (groupCandidates fileCount.toNat) g.toNat) ∧
      (¬ (groupCandidates fileCount.toNat).Nonempty → g.toNat = 0) := by
  refine ⟨fun c => ⟨_, isPrimeWord_spec c, sfIsPrime_eq_true _⟩, fun c i hi => ?_, ?_⟩
  · obtain ⟨hlow, hhigh⟩ := hi.bounded
    have hword : i.toUInt32.toNat = i.toNat := by
      rw [UInt64.toNat_toUInt32]
      exact Nat.mod_eq_of_lt (by omega)
    refine ⟨by nlinarith, ?_, hword, fun h0 => ?_⟩
    · rw [UInt64.toNat_add]
      exact Nat.mod_eq_of_lt (by simp; omega)
    · rw [h0] at hword
      simp at hword
      omega
  · have hstart : (fileCount / 7).toUInt32.toNat = fileCount.toNat / 7 := by
      rw [UInt64.toNat_toUInt32, UInt64.toNat_div]
      exact Nat.mod_eq_of_lt (by simp; omega)
    obtain ⟨g, hrun, hg⟩ := @groupCountLoop_spec 100002 (fileCount / 7).toUInt32 (by omega) (by decide)
    rw [hstart] at hg
    have hspec := groupCountFrom_spec (100001 - fileCount.toNat / 7) (fileCount.toNat / 7)
    have hset : { q | q.Prime ∧ fileCount.toNat / 7 ≤ q ∧
        q < fileCount.toNat / 7 + (100001 - fileCount.toNat / 7) } = groupCandidates fileCount.toNat := by
      ext q
      simp only [groupCandidates, Set.mem_ofPred_eq]
      refine and_congr_right fun _ => and_congr_right fun hq => ?_
      omega
    refine ⟨g, hrun, ?_, ?_, ?_⟩
    · rw [hg, binderHashTableGroupCount, Nat.mod_eq_of_lt (show fileCount.toNat / 7 < 2 ^ 32 by omega)]
    · rintro ⟨q, hq⟩
      rw [hg, ← hset]
      rw [← hset] at hq
      exact hspec.1 ⟨q, hq⟩
    · intro hnone
      rw [hg]
      refine hspec.2 ?_
      rintro ⟨q, hq⟩
      exact hnone ⟨q, by rw [← hset]; exact hq⟩

/-- For a hundred files it is 17. -/
theorem groupCount_hundred : (100 : UInt64).toNat < 2 ^ 31 ∧ (groupCandidates 100).Nonempty ∧
    (∃ g, groupCountWord 100 = .ok g ∧ IsLeast (groupCandidates 100) g.toNat) ∧ groupCountWord 100 = .ok 17 := by
  have hsome : (groupCandidates 100).Nonempty := ⟨17, (sfIsPrime_eq_true 17).1 (by decide), by decide, by decide⟩
  obtain ⟨-, -, g, hrun, -, hleast, -⟩ := @groupCount_least 100 (by decide)
  exact ⟨by decide, hsome, ⟨g, hrun, hleast hsome⟩, by decide +kernel⟩

end SoulsFormats
