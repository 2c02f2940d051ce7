/-
ShowTree.Proofs.Decimal.Brief — the brief form of a number beside its plain form.

A number is written in two ways: plainly, by the shortest digits that read back, and briefly,
where a whole number below `10 ^ 15` is written by its own digits. A whole number whose binary
places reach the point is the only one in its neighbourhood (`eq_of_holds`), so the
shortest digits, with zeros after them, are its own (`layOut_shortest`). The two ways of
writing differ in the sign of zero alone (`brief_eq_or`), and so does user data from what is
shown of it (`display_ofUserText`).
-/
import ShowTree.Value

namespace ShowTree

namespace Decimal

/-! ## 1. Digits of a number with zeros at its end -/

theorem zeros_succ (k : Nat) : zeros (k + 1) = zeros k ++ ['0'] :=
  List.replicate_succ'

theorem toDigits_mul_pow {n : Nat} (hn : 0 < n) :
    ∀ k, Nat.toDigits 10 (n * Nat.pow 10 k) = Nat.toDigits 10 n ++ zeros k
  | 0 => by simp [zeros]
  | k + 1 => by
    have hpos : 0 < n * Nat.pow 10 k := Nat.mul_pos hn (Nat.pow_pos (by decide))
    have hshift : n * Nat.pow 10 (k + 1) = 10 * (n * Nat.pow 10 k) + 0 := by
      rw [Nat.add_zero, Nat.mul_left_comm, Nat.mul_comm 10]
      rfl
    rw [hshift, ← Nat.toDigits_append_toDigits (by decide) hpos (by decide), toDigits_mul_pow hn k,
      zeros_succ, List.append_assoc]
    rfl

/-! ## 2. Whole numbers in a neighbourhood -/

theorem Neighbourhood.holds_of_nearest? {i : Neighbourhood} {tie : Tie} {grid d : Nat}
    (h : i.nearest? tie grid = some d) : i.holds (d * grid) = true := by
  unfold nearest? at h
  dsimp only at h
  split at h
  · cases h
  · rename_i hbelow _
    exact Option.some.inj h ▸ hbelow
  · rename_i _ habove
    exact Option.some.inj h ▸ habove
  · rename_i hbelow habove
    split at h
    · exact Option.some.inj h ▸ hbelow
    · split at h
      · exact Option.some.inj h ▸ habove
      · cases tie with
        | up => exact Option.some.inj h ▸ habove
        | even =>
          dsimp only at h
          split at h
          · exact Option.some.inj h ▸ hbelow
          · exact Option.some.inj h ▸ habove

theorem Neighbourhood.isSome_nearest? {i : Neighbourhood} {grid : Nat} (tie : Tie)
    (h : i.holds (i.value / grid * grid) = true) : (i.nearest? tie grid).isSome = true := by
  unfold nearest?
  dsimp only
  rw [h]
  cases i.holds ((i.value / grid + 1) * grid) with
  | false => rfl
  | true =>
    dsimp only
    split
    · rfl
    · split
      · rfl
      · cases tie <;> rfl

namespace Binary

variable {b : Binary} {n : Nat}

/-- A whole number with binary places up to the point is its mantissa without these places. -/
theorem mantissa_of_whole? (hexp : b.exponent ≤ 0) (hn : b.whole? = some n) :
    b.mantissa = n * Nat.pow 2 (-b.exponent).toNat := by
  unfold whole? at hn
  split at hn
  · rename_i hnonneg
    have hzero : b.exponent = 0 := by omega
    rw [hzero] at hn ⊢
    simpa using hn
  · split at hn
    · rename_i hmod
      obtain rfl := Option.some.inj hn
      exact (Nat.div_mul_cancel (Nat.dvd_of_mod_eq_zero hmod)).symm
    · cases hn

/-- The unit of a neighbourhood in quarters of the last binary place. -/
theorem unit_neighbourhood (hexp : b.exponent ≤ 0) :
    b.neighbourhood.unit = 4 * Nat.pow 2 (-b.exponent).toNat := by
  have hplaces : (2 - b.exponent).toNat = (-b.exponent).toNat + 2 := by omega
  have hunit : b.neighbourhood.unit = Nat.pow 2 (2 - b.exponent).toNat := rfl
  rw [hunit, hplaces]
  exact (Nat.pow_add 2 _ 2).trans (Nat.mul_comm _ _)

/-- The value of a whole number in its neighbourhood. -/
theorem value_neighbourhood (hexp : b.exponent ≤ 0) (hn : b.whole? = some n) :
    4 * b.mantissa = n * b.neighbourhood.unit := by
  rw [unit_neighbourhood hexp, mantissa_of_whole? hexp hn, Nat.mul_left_comm]

/-- What a neighbourhood holds is at most half of the last binary place away. -/
theorem near_of_holds (hexp : b.exponent ≤ 0) {k : Nat} (h : b.neighbourhood.holds k = true) :
    4 * b.mantissa ≤ k + 2 ∧ k ≤ 4 * b.mantissa + 2 := by
  have hfactor : (b.exponent - 2).toNat = 0 := by omega
  have hlow : 4 * b.mantissa - 2 ≤ b.neighbourhood.low := by
    simp only [neighbourhood, hfactor]
    split <;> simp
    omega
  have hhigh : b.neighbourhood.high = 4 * b.mantissa + 2 := by
    simp [neighbourhood, hfactor]
  simp only [Neighbourhood.holds] at h
  split at h <;> simp only [Bool.and_eq_true, decide_eq_true_eq] at h <;> omega

/-- The only whole number in the neighbourhood of a whole number is itself. -/
theorem eq_of_holds (hexp : b.exponent ≤ 0) (hn : b.whole? = some n) {k : Nat}
    (h : b.neighbourhood.holds (k * b.neighbourhood.unit) = true) : k = n := by
  have hnear := near_of_holds hexp h
  rw [value_neighbourhood hexp hn] at hnear
  have hunit : 4 ≤ b.neighbourhood.unit := by
    rw [unit_neighbourhood hexp]
    have hpow : 0 < Nat.pow 2 (-b.exponent).toNat := Nat.pow_pos (by decide)
    omega
  -- Two whole numbers that differ do so by a unit at least, which is more than two.
  rcases Nat.lt_trichotomy k n with hlt | heq | hgt
  · have := Nat.mul_le_mul_right b.neighbourhood.unit (show k + 1 ≤ n from hlt)
    rw [Nat.add_mul] at this
    omega
  · exact heq
  · have := Nat.mul_le_mul_right b.neighbourhood.unit (show n + 1 ≤ k from hgt)
    rw [Nat.add_mul] at this
    omega

theorem holds_value (hpos : 0 < b.mantissa) :
    b.neighbourhood.holds b.neighbourhood.value = true := by
  have hfactor : 0 < Nat.pow 2 (b.exponent - 2).toNat := Nat.pow_pos (by decide)
  have hlow : b.neighbourhood.low < b.neighbourhood.value := by
    refine Nat.mul_lt_mul_of_pos_right ?_ hfactor
    split <;> omega
  have hhigh : b.neighbourhood.value < b.neighbourhood.high :=
    Nat.mul_lt_mul_of_pos_right (by omega) hfactor
  simp only [Neighbourhood.holds]
  split <;> simp only [Bool.and_eq_true, decide_eq_true_eq] <;> omega

/-! ## 3. The shortest digits of a whole number -/

theorem refine_one (i : Neighbourhood) : i.refine 1 = i := by
  simp [Neighbourhood.refine]

/-- Digits that end at the point or to the left of it are those of the number. -/
theorem eq_of_atPlace? (hexp : b.exponent ≤ 0) (hn : b.whole? = some n) {tie : Tie} {place : Int}
    (hplace : 0 ≤ place) {d : Scaled} (h : b.neighbourhood.atPlace? tie place = some d) :
    n = d.digits * Nat.pow 10 place.toNat ∧ d.exponent = place := by
  obtain ⟨digits, hnearest, rfl⟩ := Option.map_eq_some_iff.1 h
  have hnone : Nat.pow 10 (-place).toNat = 1 := by
    rw [show (-place).toNat = 0 by omega]
  rw [hnone, refine_one] at hnearest
  have hholds := Neighbourhood.holds_of_nearest? hnearest
  rw [Nat.mul_comm b.neighbourhood.unit, ← Nat.mul_assoc] at hholds
  exact ⟨(eq_of_holds hexp hn hholds).symm, rfl⟩

/-- A whole number has digits that end at the point. -/
theorem atPlace?_zero (hexp : b.exponent ≤ 0) (hn : b.whole? = some n) (hpos : 0 < b.mantissa)
    (tie : Tie) : (b.neighbourhood.atPlace? tie 0).isSome = true := by
  have hvalue : b.neighbourhood.value = n * b.neighbourhood.unit := by
    rw [← value_neighbourhood hexp hn]
    have hfactor : (b.exponent - 2).toNat = 0 := by omega
    simp [neighbourhood, hfactor]
  have hunit : 0 < b.neighbourhood.unit := by
    rw [unit_neighbourhood hexp]
    exact Nat.mul_pos (by decide) (Nat.pow_pos (by decide))
  have hgrid : b.neighbourhood.unit * Nat.pow 10 (0 : Int).toNat = b.neighbourhood.unit :=
    Nat.mul_one _
  have hone : b.neighbourhood.refine (Nat.pow 10 (-(0 : Int)).toNat) = b.neighbourhood :=
    refine_one _
  rw [Neighbourhood.atPlace?, Option.isSome_map, hgrid, hone]
  refine Neighbourhood.isSome_nearest? tie ?_
  rw [hvalue, Nat.mul_div_cancel n hunit, ← hvalue]
  exact holds_value hpos

theorem pairwise_places : places.Pairwise (· > ·) :=
  List.pairwise_map.2 (List.pairwise_lt_range.imp fun h => by omega)

theorem zero_mem_places : 0 ∈ places :=
  List.mem_map.2 ⟨308, List.mem_range.2 (by decide), rfl⟩

/-- The shortest digits of a whole number with binary places up to the point are its own without
zeros at their end. -/
theorem shortest_of_whole? (hexp : b.exponent ≤ 0) (hn : b.whole? = some n) (hpos : 0 < b.mantissa)
    (tie : Tie) : ∃ k : Nat, (b.shortest tie).exponent = k ∧
      n = (b.shortest tie).digits * Nat.pow 10 k := by
  rw [shortest, if_neg (Nat.pos_iff_ne_zero.1 hpos)]
  have hzero := atPlace?_zero hexp hn hpos tie
  cases hfound : places.findSome? (b.neighbourhood.atPlace? tie) with
  | none =>
    rw [List.findSome?_eq_none_iff.1 hfound 0 zero_mem_places] at hzero
    cases hzero
  | some d =>
    -- The places fall, and the digits can end at the point, so none further right is tried.
    obtain ⟨before, place, after, hplaces, hd, hbefore⟩ := List.findSome?_eq_some_iff.1 hfound
    have hplace : 0 ≤ place := by
      refine Int.not_lt.1 fun hneg => ?_
      have hmem := hplaces ▸ zero_mem_places
      have hpairwise := hplaces ▸ pairwise_places
      rcases List.mem_append.1 hmem with hmem | hmem
      · rw [hbefore 0 hmem] at hzero
        cases hzero
      · rcases List.mem_cons.1 hmem with heq | hmem
        · omega
        · have := (List.pairwise_cons.1 (List.pairwise_append.1 hpairwise).2.1).1 0 hmem
          omega
    obtain ⟨hdigits, hexponent⟩ := eq_of_atPlace? hexp hn hplace hd
    exact ⟨place.toNat, by rw [Option.getD_some, hexponent]; omega, hdigits⟩

theorem layOut_plain (d : Scaled) (k : Nat) (h : d.exponent = k) :
    plain.layOut d = Nat.toDigits 10 d.digits ++ zeros k := by
  have hnonneg : (0 : Int) ≤ k := by omega
  simp [Style.layOut, Style.positionally, plain, h, hnonneg]

/-- A whole number is written by its own digits. -/
theorem layOut_shortest (hexp : b.exponent ≤ 0) (hn : b.whole? = some n) :
    plain.layOut (b.shortest plain.tie) = Nat.toDigits 10 n := by
  have hmantissa := mantissa_of_whole? hexp hn
  by_cases hzero : b.mantissa = 0
  · have hshortest : b.shortest plain.tie = ⟨0, 0⟩ := if_pos hzero
    have hn0 : n = 0 := by
      rcases Nat.mul_eq_zero.1 (hmantissa.symm.trans hzero) with h | h
      · exact h
      · exact absurd h (Nat.pos_iff_ne_zero.1 (Nat.pow_pos (by decide)))
    rw [hshortest, hn0]
    rfl
  · obtain ⟨k, hk, hdigits⟩ := shortest_of_whole? hexp hn (Nat.pos_of_ne_zero hzero) plain.tie
    have hpos : 0 < (b.shortest plain.tie).digits := by
      refine Nat.pos_of_ne_zero fun h => hzero ?_
      rw [hmantissa, hdigits, h, Nat.zero_mul, Nat.zero_mul]
    rw [layOut_plain _ k hk, ← toDigits_mul_pow hpos, ← hdigits]

end Binary

/-! ## 4. Brief and plain -/

/-- The binary places of a float reach the point unless it is large. -/
theorem Number.exponent_ofFloat {x : Float} {negative : Bool} {b : Binary}
    (h : Number.ofFloat x = .finite negative b) : b.exponent ≤ 0 ∨ Nat.pow 2 52 ≤ b.mantissa := by
  unfold ofFloat at h
  dsimp only at h
  split at h
  · split at h <;> cases h
  · split at h
    · injection h with _ hb
      subst hb
      exact .inl (show (-1074 : Int) ≤ 0 by decide)
    · injection h with _ hb
      subst hb
      exact .inr (Nat.le_add_right _ _)

/-- A float below `10 ^ 15` has binary places up to the point, if it is whole. -/
theorem exponent_nonpos {b : Binary} {n : Nat} (h : b.exponent ≤ 0 ∨ Nat.pow 2 52 ≤ b.mantissa)
    (hn : b.whole? = some n) (hsmall : n < Nat.pow 10 15) : b.exponent ≤ 0 := by
  refine Int.not_lt.1 fun hexp => ?_
  have hmantissa := h.resolve_left (Int.not_le.2 hexp)
  have hwhole : n = b.mantissa * Nat.pow 2 b.exponent.toNat := by
    rw [Binary.whole?, if_pos (by omega)] at hn
    exact (Option.some.inj hn).symm
  have hpow : 0 < Nat.pow 2 b.exponent.toNat := Nat.pow_pos (by decide)
  have hle := Nat.le_mul_of_pos_right b.mantissa hpow
  have hbound : Nat.pow 10 15 < Nat.pow 2 52 := by decide
  omega

/-- The two ways to write a number differ in the sign of zero alone. -/
theorem brief_eq_or (x : Float) : brief x = plain.write x ∨ plain.write x = "-0" := by
  unfold brief
  split
  · rename_i negative b hx
    split
    · rename_i n hn
      split
      · rename_i hsmall
        have hexp := exponent_nonpos (Number.exponent_ofFloat hx) hn hsmall
        have hplain : plain.write x = String.ofList
            ((if negative then ['-'] else []) ++ Nat.toDigits 10 n) := by
          rw [Style.write, hx]
          dsimp only
          rw [Binary.layOut_shortest hexp hn]
        rw [hplain]
        by_cases hzero : n = 0
        · subst hzero
          cases negative with
          | false => exact .inl rfl
          | true => exact .inr rfl
        · have hsign : (negative && n != 0) = negative := by simp [hzero]
          rw [hsign]
          exact .inl rfl
      · exact .inl rfl
    · exact .inl rfl
  · exact .inl rfl

end Decimal

namespace Value

/-- User data is shown as it was written, whether it is surfaced as a number or as a text. The
one exception is a zero with a minus before it, which is a number and is shown without. -/
theorem display_ofUserText (text : String) :
    (ofUserText text).display = if text = "-0" then "0" else text := by
  split
  · rename_i hzero
    subst hzero
    decide +kernel
  · rename_i hzero
    unfold ofUserText
    cases Decimal.parseFloat? text with
    | none => rfl
    | some x =>
      dsimp only
      split
      · rename_i hnumber
        have hplain : Decimal.plain.write x = text := by
          simpa using (Bool.and_eq_true_iff.1 hnumber).2
        rcases Decimal.brief_eq_or x with hbrief | hminus
        · exact hbrief.trans hplain
        · exact absurd (hplain.symm.trans hminus) hzero
      · rfl

/-- The minus of a zero is lost. -/
theorem display_negative_zero_ne : (ofUserText "-0").display ≠ "-0" := by
  decide +kernel

end Value

end ShowTree
