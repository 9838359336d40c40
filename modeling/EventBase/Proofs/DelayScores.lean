import EventBase.Wal

/-! What the scores of the delay index say about times. Up to the last millisecond a
double holds exactly they say the truth, and beyond it a clock that has come so far
is past every such deadline. -/

namespace EventBase.Proofs.DelayScores
open Foundations

theorem millis_nonneg (time : SystemTime) : 0 ≤ millis time := by
  rw [millis]
  split
  · exact Int.le_refl 0
  · next nonneg => exact Int.ediv_nonneg (Int.not_lt.mp nonneg) (by decide)

theorem millis_of_nonneg {time : Int} (nonneg : 0 ≤ time) : millis time = time / 1000000 := if_neg (Int.not_lt.mpr nonneg)

theorem millis_le_of_bounded {time : Int} (nonneg : 0 ≤ time) (bounded : time ≤ 2 ^ 53 * 1000000) : millis time ≤ 2 ^ 53 := by
  rw [millis_of_nonneg nonneg]
  omega

theorem asI64_of_lt {value : Int} (nonneg : 0 ≤ value) (fits : value < 2 ^ 63) : asI64 value = value :=
  Int.bmod_eq_of_le (by omega) (by omega)

theorem score_of_le {value : Int} (nonneg : 0 ≤ value) (fits : value ≤ 2 ^ 53) : score value = value :=
  roundToPrecision_of_le (by decide) nonneg fits

theorem score_millis {time : SystemTime} (exact : millis time ≤ 2 ^ 53) : score (asI64 (millis time)) = millis time := by
  have nonneg := millis_nonneg time
  rw [asI64_of_lt nonneg (by omega), score_of_le nonneg exact]

theorem millis_le_of_score {deadline now : SystemTime} (exact : millis deadline ≤ 2 ^ 53)
    (due : score (asI64 (millis deadline)) ≤ score (nowMillis now)) : millis deadline ≤ millis now := by
  by_cases early : millis now ≤ 2 ^ 53
  · rwa [nowMillis, score_millis exact, score_millis early] at due
  · omega

theorem score_deliverAtMillis_le (record : WalRecord) : score (deliverAtMillis record) ≤ 2 ^ 63 := by
  refine roundToPrecision_le_two_pow ?_
  unfold deliverAtMillis
  split
  · next deadline _ =>
    have wrapped : asI64 (millis deadline) < (((2 ^ 64 : Nat) : Int) + 1) / 2 := Int.bmod_lt (by decide)
    exact Int.lt_of_lt_of_le wrapped (by decide)
  · decide

theorem exists_highest_score (since : Int) : ∃ now : Int, since ≤ now ∧ score (nowMillis now) = 2 ^ 63 := by
  refine ⟨(2 ^ 63 - 1 + since.toNat * ((2 ^ 64 : Nat) : Int)) * 1000000, ?_, ?_⟩
  · have reached : since ≤ since.toNat := Int.self_le_toNat since
    omega
  · have divided : millis ((2 ^ 63 - 1 + since.toNat * ((2 ^ 64 : Nat) : Int)) * 1000000) =
        2 ^ 63 - 1 + since.toNat * ((2 ^ 64 : Nat) : Int) := by
      rw [millis_of_nonneg (by positivity), Int.mul_ediv_cancel _ (by decide)]
    have wrapped : asI64 (2 ^ 63 - 1 + since.toNat * ((2 ^ 64 : Nat) : Int)) = 2 ^ 63 - 1 :=
      (Int.add_mul_bmod_self_right _ _ _).trans (by decide)
    rw [nowMillis, divided, wrapped]
    decide +kernel

end EventBase.Proofs.DelayScores
