import OData.Binary64.Basic

/-!
# Whole numbers as doubles

A whole number of 64 bits is within the range of the finite doubles. Rounding may take its
significand up to the next power of two, which is one binade higher and far from the last one.
-/

namespace OData

theorem roundDiv_le (num den : Nat) : roundDiv num den ≤ num / den + 1 := by
  rw [roundDiv]
  split <;> omega

/-- The leading bit of a whole number. -/
theorem floorLog2_one {n : Nat} (pos : n ≠ 0) : floorLog2 n 1 = n.log2 := by
  have low : 1 <<< n.log2 ≤ n := by
    rw [Nat.one_shiftLeft]
    exact Nat.log2_self_le pos
  have one : Nat.log2 1 = 0 := by decide
  have estimate : ((n.log2 : Int) - (Nat.log2 1 : Nat)) = n.log2 := by rw [one]; omega
  simp only [floorLog2, estimate]
  rw [if_neg]
  simpa using low

namespace Binary.Format

/-- A number is scaled to 53 bits before it is rounded. -/
theorem scaled_lt (n : Nat) :
    (n <<< (-((n.log2 : Int) - 52)).toNat) / (1 <<< ((n.log2 : Int) - 52).toNat) <
      0x20000000000000 := by
  have high := @Nat.lt_log2_self n
  obtain wide | narrow := Nat.le_total 52 n.log2
  · have down : (-((n.log2 : Int) - 52)).toNat = 0 := by omega
    have up : ((n.log2 : Int) - 52).toNat = n.log2 - 52 := by omega
    have bits : n.log2 + 1 = 53 + (n.log2 - 52) := by omega
    rw [bits, Nat.pow_add] at high
    rw [down, up, Nat.shiftLeft_zero, Nat.one_shiftLeft,
      Nat.div_lt_iff_lt_mul (Nat.two_pow_pos _)]
    exact high
  · have down : (-((n.log2 : Int) - 52)).toNat = 52 - n.log2 := by omega
    have up : ((n.log2 : Int) - 52).toNat = 0 := by omega
    have bits : n.log2 + 1 + (52 - n.log2) = 53 := by omega
    have scaled := Nat.mul_lt_mul_of_pos_right high (Nat.two_pow_pos (52 - n.log2))
    rw [← Nat.pow_add, bits] at scaled
    rw [down, up, Nat.shiftLeft_zero, Nat.div_one, Nat.shiftLeft_eq]
    exact scaled

theorem place_whole_lt {n : Nat} (h : n < 0x10000000000000000) :
    double.place n 1 < double.limit := by
  have binade : double.binade = 0x10000000000000 := rfl
  have limit : double.limit = 2047 * 0x10000000000000 := rfl
  by_cases zero : n = 0
  · rw [place, if_pos zero, limit]
    omega
  · have bits : n.log2 < 64 := (Nat.log2_lt zero).2 h
    have normal : max ((n.log2 : Int) - 52) (-1074) = n.log2 - 52 := by omega
    have scaled := scaled_lt n
    have rounded := roundDiv_le (n <<< (-((n.log2 : Int) - 52)).toNat)
      (1 <<< ((n.log2 : Int) - 52).toNat)
    rw [place, if_neg zero, floorLog2_one zero, binade, limit]
    show ((max ((n.log2 : Int) - 52) (-1074)) + 1074).toNat * _ +
      roundDiv (n <<< (-(max ((n.log2 : Int) - 52) (-1074))).toNat)
        (1 <<< (max ((n.log2 : Int) - 52) (-1074)).toNat) < _
    rw [normal]
    omega

end Binary.Format

namespace Binary64

/-- No whole number of 64 bits is too large for a double. -/
theorem exists_ofNat_eq_finite {n : Nat} (h : n < 0x10000000000000000) :
    ∃ x, ofNat n = .finite x := by
  have fits := Binary.Format.place_whole_lt h
  rw [ofNat, ofRatio, Finite.ofRatio?, dif_pos fits]
  exact ⟨_, rfl⟩

end Binary64

end OData
