import Mathlib.Algebra.Group.Nat.Defs
import ScriptLint.Number.Shortest
/-!
# How zero is shown

Zero without a sign is shown as `0`, and nothing else is. A value that is not
zero lies on every grid at or above the first place before the point, so the
grid point below it is not zero (`Interval.gridPoint_pos`), and neither is
the decimal that is written. Zero with a sign is shown as `-0`. NaN has no
sign and no digits: what begins with a digit is never read as NaN.

Key theorems: `Binary64.Interval.gridPoint_pos`, `Binary64.shortest_pos`,
`Binary64.render_eq_zero_iff`, `Binary64.parse?_ne_nan`.
-/

namespace ScriptLint

/-! ### Powers -/

theorem powNum_pos {base : Nat} (h : 0 < base) (exponent : Int) : 0 < powNum base exponent :=
  Nat.pow_pos h

theorem powDen_pos {base : Nat} (h : 0 < base) (exponent : Int) : 0 < powDen base exponent :=
  Nat.pow_pos h

namespace Decimal

/-! ### Digits -/

theorem digitCount_pos (n : Nat) : 0 < digitCount n :=
  Nat.length_toDigits_pos

theorem lt_pow_digitCount (n : Nat) : n < 10 ^ digitCount n :=
  (Nat.length_toDigits_le_iff (by decide) (digitCount_pos n)).mp (Nat.le_refl _)

/-- A number is at least the power of ten with as many digits. -/
theorem pow_le_of_digitCount {n : Nat} (h : 0 < n) : 10 ^ (digitCount n - 1) ≤ n := by
  rcases Nat.eq_zero_or_pos (digitCount n - 1) with hone | hmore
  · rw [hone]
    exact h
  · have hlt : ¬(Nat.toDigits 10 n).length ≤ digitCount n - 1 := by
      rw [digitCount] at hmore ⊢
      omega
    rw [Nat.length_toDigits_le_iff (by decide) hmore] at hlt
    exact Nat.le_of_not_lt hlt

theorem normalize_pos (d : Decimal) (h : 0 < d.coefficient) : 0 < d.normalize.coefficient := by
  fun_induction normalize d with
  | case1 d hzeros ih =>
    obtain ⟨hne, hmod⟩ := hzeros
    refine ih ?_
    show 0 < d.coefficient / 10
    omega
  | case2 d _ => exact h

/-! ### Places -/

/-- A decimal is written with a digit in front. -/
theorem head?_positional (d : Decimal) :
    ∃ c, d.positional.toList.head? = some c ∧ c.isDigit = true := by
  obtain ⟨c, cs, hcs⟩ : ∃ c cs, Nat.toDigits 10 d.coefficient = c :: cs :=
    List.exists_cons_of_ne_nil Nat.toDigits_ne_nil
  have hc : c.isDigit = true := by
    refine Nat.isDigit_of_mem_toDigits (b := 10) (n := d.coefficient) (by decide) (by decide) ?_
    rw [hcs]
    exact List.mem_cons_self
  unfold positional
  simp only [hcs]
  split
  · exact ⟨c, by simp, hc⟩
  · split
    next hplaces =>
      -- some digits stand before the point
      obtain ⟨k, hk⟩ : ∃ k, (c :: cs).length - (-d.exponent).toNat = k + 1 :=
        ⟨(c :: cs).length - (-d.exponent).toNat - 1, by omega⟩
      rw [hk]
      exact ⟨c, by simp, hc⟩
    next => exact ⟨'0', by simp, by decide⟩

/-- A decimal with a coefficient is not written as `0`. -/
theorem positional_ne_zero (d : Decimal) (h : 0 < d.coefficient) : d.positional ≠ "0" := by
  intro heq
  have hlist : d.positional.toList = ['0'] := by
    rw [heq]
    rfl
  have hpoint : '.' ∉ d.positional.toList := by
    rw [hlist]
    decide
  unfold positional at hlist hpoint
  simp only at hlist hpoint
  split at hlist
  next hexponent =>
    -- no point, so the digits are those of the coefficient
    rw [String.toList_ofList, List.append_eq_singleton_iff] at hlist
    have hdigits : Nat.toDigits 10 d.coefficient = ['0'] := by
      rcases hlist with ⟨hnil, -⟩ | ⟨hdigits, -⟩
      · exact absurd hnil Nat.toDigits_ne_nil
      · exact hdigits
    have hvalue := congrArg (fun digits => Nat.ofDigitChars 10 digits 0) hdigits
    simp only [Nat.ofDigitChars_ten_toDigits] at hvalue
    have hzero : Nat.ofDigitChars 10 ['0'] 0 = 0 := by decide
    omega
  next hexponent =>
    rw [if_neg hexponent] at hpoint
    split at hpoint <;> simp at hpoint

end Decimal

namespace Binary64

/-! ### The decimal that is written -/

/-- The grid point below a value is not zero, if the grid has a digit for it at all. -/
theorem Interval.gridPoint_pos (i : Interval) (hcenter : 0 < i.center) {digits : Nat}
    (hdigits : 0 < digits) : 0 < (i.gridPoint (i.places - digits)).coefficient := by
  have hnum : 0 < i.center * powNum 2 i.scale :=
    Nat.mul_pos hcenter (powNum_pos (by decide) _)
  have hden : 0 < powDen 2 i.scale := powDen_pos (by decide) _
  unfold gridPoint places
  simp only
  generalize i.center * powNum 2 i.scale = num at *
  generalize powDen 2 i.scale = den at *
  refine Nat.div_pos ?_ (Nat.mul_pos hden (powNum_pos (by decide) _))
  split
  next hle =>
    have hquotient : 0 < num / den := Nat.div_pos hle hden
    have hpow : powNum 10 (Decimal.digitCount (num / den) - digits) ≤ num / den := by
      refine Nat.le_trans (Nat.pow_le_pow_right (by decide) ?_)
        (Decimal.pow_le_of_digitCount hquotient)
      omega
    calc den * powNum 10 (Decimal.digitCount (num / den) - digits)
        ≤ den * (num / den) := Nat.mul_le_mul_left den hpow
      _ ≤ num := Nat.mul_div_le num den
      _ ≤ num * powDen 10 (Decimal.digitCount (num / den) - digits) :=
          Nat.le_mul_of_pos_right num (powDen_pos (by decide) _)
  next hlt =>
    have hbelow := Decimal.lt_pow_digitCount ((den - 1) / num)
    generalize Decimal.digitCount ((den - 1) / num) = count at *
    have hdenle : den ≤ num * 10 ^ count := by
      rw [Nat.div_lt_iff_lt_mul hnum, Nat.mul_comm] at hbelow
      omega
    have hpowNum : powNum 10 (1 - count - digits : Int) = 1 := by
      have : (1 - count - digits : Int).toNat = 0 := by omega
      rw [powNum, this, Nat.pow_eq, Nat.pow_zero]
    have hpowDen : 10 ^ count ≤ powDen 10 (1 - count - digits : Int) := by
      refine Nat.pow_le_pow_right (by decide) ?_
      omega
    calc den * powNum 10 (1 - count - digits : Int) = den := by rw [hpowNum, Nat.mul_one]
      _ ≤ num * 10 ^ count := hdenle
      _ ≤ num * powDen 10 (1 - count - digits : Int) := Nat.mul_le_mul_left num hpowDen

theorem Interval.onGrid?_pos {i : Interval} (hcenter : 0 < i.center) {digits : Nat}
    (hdigits : 0 < digits) {d : Decimal} (h : i.onGrid? digits = some d) : 0 < d.coefficient := by
  have hlower := i.gridPoint_pos hcenter hdigits
  unfold onGrid? at h
  simp only at h
  split at h
  · cases h
    split
    · exact hlower
    · exact Nat.succ_pos _
  · cases h
    exact hlower
  · cases h
    exact Nat.succ_pos _
  · cases h

/-- **The decimal that is written for a value other than zero is not zero.** -/
theorem shortest_pos {mantissa : Nat} (h : 0 < mantissa) (exponent : Int) :
    0 < (shortest mantissa exponent).coefficient := by
  have hcenter : 0 < (interval mantissa exponent).center := by
    show 0 < 4 * mantissa
    omega
  unfold shortest
  simp only
  refine Decimal.normalize_pos _ ?_
  cases hfound : ((List.range 17).map (· + 1)).findSome? (interval mantissa exponent).onGrid? with
  | none => exact Interval.gridPoint_pos _ hcenter (by decide)
  | some d =>
    obtain ⟨digits, hdigits, hd⟩ := List.exists_of_findSome?_eq_some hfound
    obtain ⟨k, -, rfl⟩ := List.mem_map.mp hdigits
    exact Interval.onGrid?_pos hcenter (Nat.succ_pos k) hd

/-! ### The text of a value -/

/-- The value is zero, with or without a sign. -/
def isZero : Binary64 → Bool
  | .finite _ mantissa _ => mantissa == 0
  | _ => false

/-- The value is zero with a sign. -/
def isMinusZero : Binary64 → Bool
  | .finite negative mantissa _ => negative && mantissa == 0
  | _ => false

theorem head?_render_negative (mantissa : Nat) (exponent : Int) :
    (finite true mantissa exponent).render.toList.head? = some '-' := by
  simp [render]

/-- A value other than zero is shown as its shortest decimal, behind its sign. -/
theorem render_of_pos {mantissa : Nat} (h : 0 < mantissa) (exponent : Int) :
    (finite false mantissa exponent).render = (shortest mantissa exponent).positional := by
  simp [render, Nat.pos_iff_ne_zero.mp h]

/-- **Zero without a sign is shown as `0`, and nothing else is.** -/
theorem render_eq_zero_iff (x : Binary64) :
    x.render = "0" ↔ x.isZero = true ∧ x.isMinusZero = false := by
  cases x with
  | nan => decide
  | infinite negative => cases negative <;> decide
  | finite negative mantissa exponent =>
    cases negative with
    | true =>
      refine iff_of_false (fun heq => ?_) (by simp [isZero, isMinusZero])
      have hhead := head?_render_negative mantissa exponent
      rw [heq] at hhead
      exact absurd hhead (by decide)
    | false =>
      rcases Nat.eq_zero_or_pos mantissa with rfl | hpos
      · exact iff_of_true rfl ⟨rfl, rfl⟩
      · refine iff_of_false ?_ (by simp [isZero, Nat.pos_iff_ne_zero.mp hpos])
        rw [render_of_pos hpos]
        exact Decimal.positional_ne_zero _ (shortest_pos hpos exponent)

/-- No number is shown as a truth value or a string is. -/
theorem head?_render (x : Binary64) : ∃ c, x.render.toList.head? = some c ∧ c ∉ ['f', '"'] := by
  cases x with
  | nan => exact ⟨'N', by decide⟩
  | infinite negative =>
    cases negative
    · exact ⟨'i', by decide⟩
    · exact ⟨'-', by decide⟩
  | finite negative mantissa exponent =>
    cases negative with
    | true => exact ⟨'-', head?_render_negative mantissa exponent, by decide⟩
    | false =>
      rcases Nat.eq_zero_or_pos mantissa with rfl | hpos
      · exact ⟨'0', by simp [render], by decide⟩
      · obtain ⟨c, hc, hdigit⟩ := (shortest mantissa exponent).head?_positional
        rw [render_of_pos hpos]
        refine ⟨c, hc, fun hmem => ?_⟩
        have hneither : ∀ c ∈ ['f', '"'], c.isDigit = false := by simp
        rw [hneither c hmem] at hdigit
        cases hdigit

/-! ### Numerals -/

theorem ofFraction_ne_nan (num den : Nat) : ofFraction num den ≠ .nan := by
  unfold ofFraction
  dsimp only
  split
  · simp [zero]
  · split
    · split <;> simp
    · split <;> simp

theorem ofDecimal_ne_nan (d : Decimal) : ofDecimal d ≠ .nan := by
  unfold ofDecimal
  dsimp only
  split
  · simp [zero]
  · split
    · simp
    · exact ofFraction_ne_nan _ _

theorem toLower_of_isDigit {c : Char} (h : c.isDigit = true) : c.toLower = c := by
  simp only [Char.isDigit, Bool.and_eq_true, decide_eq_true_eq] at h
  unfold Char.toLower
  rw [dif_neg]
  rintro ⟨hupper, -⟩
  exact absurd (UInt32.le_trans hupper h.2) (by decide)

/-- Behind a digit only a number can follow: the names of other values begin with a letter. -/
theorem parseUnsigned?_ne_nan {c : Char} {cs : List Char} (hc : c.isDigit = true) {x : Binary64}
    (h : parseUnsigned? (c :: cs) = some x) : x ≠ .nan := by
  have hname : (c :: cs).map Char.toLower ≠ "nan".toList := by
    intro heq
    have hhead : c.toLower = 'n' := (List.cons.inj heq).1
    rw [toLower_of_isDigit hc] at hhead
    rw [hhead] at hc
    exact absurd hc (by decide)
  unfold parseUnsigned? at h
  simp only [if_neg hname] at h
  split at h
  · cases h
    simp
  · obtain ⟨exponent, -, rfl⟩ := Option.map_eq_some_iff.mp (Option.ite_none_left_eq_some.mp h).2
    exact ofDecimal_ne_nan _

/-- **What begins with a digit is no NaN.** -/
theorem parse?_ne_nan {c : Char} {cs : List Char} (hc : c.isDigit = true) {x : Binary64}
    (h : parse? (c :: cs) = some x) : x ≠ .nan := by
  have hsigns : ∀ sign ∈ ['-', '+'], sign.isDigit = false := by simp
  unfold parse? at h
  split at h
  next heq =>
    rw [(List.cons.inj heq).1, hsigns '-' (by simp)] at hc
    cases hc
  next heq =>
    rw [(List.cons.inj heq).1, hsigns '+' (by simp)] at hc
    cases hc
  next => exact parseUnsigned?_ne_nan hc h

end Binary64

end ScriptLint
