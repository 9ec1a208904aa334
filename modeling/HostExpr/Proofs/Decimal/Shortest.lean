-- SUMMARY: The text of a double tells it apart from all others.
import HostExpr.Proofs.Decimal.Integer
import HostExpr.Proofs.Floating.Content

/-!
# Shortest decimals tell doubles apart

The shortest decimal of a double lies in the interval of the reals that round to it: one of the grids
that are tried is finer than the interval is wide. No two doubles share a point of their intervals, and a
text shows which decimal it is of, so different doubles have different texts.
-/

namespace HostExpr.Decimal

open Float.Model (UnpackedFloat)

namespace Interval

variable {i : Interval} {unit point : Nat}

/-! ## Points of an interval -/

/-- The point lies in the interval, if the ends are counted in the unit that the point is counted in. -/
structure Covers (i : Interval) (unit point : Nat) : Prop where
  low_le : i.low * unit ≤ point
  le_high : point ≤ i.high * unit
  low_lt : i.closed = false → i.low * unit < point
  lt_high : i.closed = false → point < i.high * unit

/-- A smaller unit does not change what lies in the interval. -/
theorem Covers.mul (h : i.Covers unit point) {c : Nat} (hc : 0 < c) :
    i.Covers (unit * c) (point * c) where
  low_le := by
    rw [← Nat.mul_assoc]
    exact Nat.mul_le_mul_right c h.low_le
  le_high := by
    rw [← Nat.mul_assoc]
    exact Nat.mul_le_mul_right c h.le_high
  low_lt hopen := by
    rw [← Nat.mul_assoc]
    exact Nat.mul_lt_mul_of_pos_right (h.low_lt hopen) hc
  lt_high hopen := by
    rw [← Nat.mul_assoc]
    exact Nat.mul_lt_mul_of_pos_right (h.lt_high hopen) hc

/-- Two intervals share no point if one ends before the other begins; where they meet, one of them is
open. -/
theorem Covers.not_covers {i' : Interval} {unit' : Nat} (h : i.Covers unit point)
    (hle : i.high * unit ≤ i'.low * unit')
    (hopen : i.closed = false ∨ i'.closed = false ∨ i.high * unit < i'.low * unit') :
    ¬ i'.Covers unit' point := by
  intro h'
  have hhigh := h.le_high
  have hlow := h'.low_le
  rcases hopen with hopen | hopen | hlt
  · have := h.lt_high hopen
    omega
  · have := h'.low_lt hopen
    omega
  · omega

/-! ## Hits on a grid -/

/-- A last place of the interval, in the unit in which a grid is compared with it. -/
def scale (i : Interval) (k : Int) : Nat := 2 ^ i.exponent.toNat * 10 ^ (-k).toNat

/-- The width of a grid, in the unit in which it is compared with the interval. -/
def step (i : Interval) (k : Int) : Nat := 2 ^ (-i.exponent).toNat * 10 ^ k.toNat

theorem scale_pos (i : Interval) (k : Int) : 0 < i.scale k :=
  Nat.mul_pos (Nat.pow_pos (by decide)) (Nat.pow_pos (by decide))

theorem step_pos (i : Interval) (k : Int) : 0 < i.step k :=
  Nat.mul_pos (Nat.pow_pos (by decide)) (Nat.pow_pos (by decide))

/-- A hit lies in the interval. -/
theorem covers_onGrid (hlow : i.low < i.mid) (hhigh : i.mid < i.high) {k : Int} {d : Digits}
    (h : i.onGrid k = some d) : i.Covers (i.scale k) (d.digits * i.step k) := by
  unfold onGrid at h
  extract_lets scale step below part belowHits aboveHits at h
  have hlow : i.low * scale < i.mid * scale := Nat.mul_lt_mul_of_pos_right hlow (i.scale_pos k)
  have hhigh : i.mid * scale < i.high * scale := Nat.mul_lt_mul_of_pos_right hhigh (i.scale_pos k)
  have hdiv : below * step + part = i.mid * scale := Nat.div_add_mod' ..
  have hpart : part < step := Nat.mod_lt _ (i.step_pos k)
  split at h
  · rename_i hhits
    cases h
    have hhits : if i.closed then i.low * scale ≤ below * step else i.low * scale < below * step :=
      hhits.1
    have hupper : below * step < i.high * scale := by omega
    refine ⟨?_, Nat.le_of_lt hupper, fun hopen => ?_, fun _ => hupper⟩
    · show i.low * scale ≤ below * step
      split at hhits <;> omega
    · rw [hopen] at hhits
      exact hhits
  · split at h
    · rename_i hhits
      cases h
      have hhits : if i.closed then (below + 1) * step ≤ i.high * scale
          else (below + 1) * step < i.high * scale := hhits
      have hlower : i.low * scale < (below + 1) * step := by
        rw [Nat.succ_mul]
        omega
      refine ⟨Nat.le_of_lt hlower, ?_, fun _ => hlower, fun hopen => ?_⟩
      · show (below + 1) * step ≤ i.high * scale
        split at hhits <;> omega
      · rw [hopen] at hhits
        exact hhits
    · cases h

/-- A grid that is narrower than half of the interval hits it. -/
theorem onGrid_ne_none {k : Int} (hhigh : i.mid + 2 ≤ i.high)
    (hstep : i.step k < 2 * i.scale k) : i.onGrid k ≠ none := by
  unfold onGrid
  extract_lets scale step below part belowHits aboveHits
  have hstep : step < 2 * scale := hstep
  have hdiv : below * step + part = i.mid * scale := Nat.div_add_mod' ..
  have hend : (i.mid + 2) * scale ≤ i.high * scale := Nat.mul_le_mul_right _ hhigh
  rw [Nat.add_mul] at hend
  have hupper : (below + 1) * step < i.high * scale := by
    rw [Nat.succ_mul]
    omega
  have hhits : aboveHits := by
    show if i.closed then _ else _
    split
    · exact Nat.le_of_lt hupper
    · exact hupper
  split <;> exact Option.some_ne_none _

end Interval

/-! ## Grids that are fine enough -/

/-- The last grid that is tried for numbers below `2 ^ bits` is narrower than twice a last place, for a
number of 55 bits in quarters of its last place. -/
def lastGridIsFine (bits : Int) : Bool :=
  let k := gridAbove bits - 24
  Nat.blt (2 ^ (-(bits - 55)).toNat * 10 ^ k.toNat) (2 * (2 ^ (bits - 55).toNat * 10 ^ (-k).toNat))

/-- It is for every number of bits that a double can have. -/
theorem lastGridIsFine_of_double {bits : Int} (hleast : -1073 ≤ bits) (hgreatest : bits ≤ 1024) :
    lastGridIsFine bits := by
  have htable : (List.range 2098).all fun n => lastGridIsFine (n - 1073) := by decide +kernel
  have hbits : bits = (bits + 1073).toNat - 1073 := by omega
  rw [hbits]
  exact List.all_eq_true.1 htable _ (List.mem_range.2 (by omega))

/-- A mantissa and an exponent that a double can have. -/
structure IsDouble (mantissa : Nat) (exponent : Int) : Prop where
  pos : 0 < mantissa
  lt : mantissa < 2 ^ 53
  least : -1074 ≤ exponent
  greatest : exponent ≤ 971
  normal : 2 ^ 52 ≤ mantissa ∨ exponent = -1074

namespace IsDouble

variable {mantissa mantissa' : Nat} {exponent exponent' : Int}

/-- The interval of a double. -/
abbrev interval (mantissa : Nat) (exponent : Int) : Interval :=
  .ofBinary (Nat.pow 2 52) mantissa exponent

theorem mid_add_two_le_high :
    (interval mantissa exponent).mid + 2 ≤ (interval mantissa exponent).high :=
  Nat.le_refl _

/-- One of the grids that are tried for a double hits its interval. -/
theorem exists_onGrid (h : IsDouble mantissa exponent) {bits : Int}
    (hbits : bits = (4 * mantissa).log2 + 1 + (exponent - 2)) :
    (interval mantissa exponent).onGrid (gridAbove bits - (24 : Nat)) ≠ none := by
  obtain ⟨hpos, hlt, hleast, hgreatest, -⟩ := h
  have hlow : 2 ≤ (4 * mantissa).log2 := (Nat.le_log2 (by omega)).2 (by omega)
  have hhigh : (4 * mantissa).log2 < 55 := (Nat.log2_lt (by omega)).2 (by omega)
  have hfine : lastGridIsFine bits := lastGridIsFine_of_double (by omega) (by omega)
  have hfine : 2 ^ (-(bits - 55)).toNat * 10 ^ (gridAbove bits - 24).toNat <
      2 * (2 ^ (bits - 55).toNat * 10 ^ (-(gridAbove bits - 24)).toNat) :=
    Nat.le_of_ble_eq_true hfine
  refine Interval.onGrid_ne_none mid_add_two_le_high ?_
  -- A mantissa of 55 bits in quarters is the case with the least exponent.
  have hsmall : 2 ^ (-(exponent - 2)).toNat ≤ 2 ^ (-(bits - 55)).toNat :=
    Nat.pow_le_pow_right (by decide) (by omega)
  have hlarge : 2 ^ (bits - 55).toNat ≤ 2 ^ (exponent - 2).toNat :=
    Nat.pow_le_pow_right (by decide) (by omega)
  calc (interval mantissa exponent).step (gridAbove bits - (24 : Nat))
      ≤ 2 ^ (-(bits - 55)).toNat * 10 ^ (gridAbove bits - 24).toNat := Nat.mul_le_mul_right _ hsmall
    _ < 2 * (2 ^ (bits - 55).toNat * 10 ^ (-(gridAbove bits - 24)).toNat) := hfine
    _ ≤ 2 * (interval mantissa exponent).scale (gridAbove bits - (24 : Nat)) :=
      Nat.mul_le_mul_left _ (Nat.mul_le_mul_right _ hlarge)

/-- The shortest decimal of a double is a hit on a grid. -/
theorem exists_shortest (h : IsDouble mantissa exponent) :
    ∃ k, (interval mantissa exponent).onGrid k = some (interval mantissa exponent).shortest := by
  unfold Interval.shortest
  simp only
  generalize htop : gridAbove _ = top
  cases hfind : (List.range 25).findSome? fun (n : Nat) =>
      (interval mantissa exponent).onGrid (top - n) with
  | none =>
    have hmiss := List.findSome?_eq_none_iff.1 hfind 24 (by decide)
    exact absurd hmiss (htop ▸ h.exists_onGrid rfl)
  | some d =>
    obtain ⟨n, -, hhit⟩ := List.exists_of_findSome?_eq_some hfind
    exact ⟨_, hhit⟩

/-! ## Intervals of different doubles -/

variable {point unit : Nat}

theorem closed_eq_false (hodd : mantissa % 2 = 1) : (interval mantissa exponent).closed = false := by
  show (mantissa % 2 == 0) = false
  rw [hodd]
  rfl

/-- Of two doubles with the same exponent, the smaller one's interval comes first. -/
theorem not_covers_of_mantissa_lt (hunit : 0 < unit) (hlt : mantissa < mantissa')
    (hcovers : (interval mantissa exponent).Covers unit point) :
    ¬ (interval mantissa' exponent).Covers unit point := by
  have hhigh : (interval mantissa exponent).high = 4 * mantissa + 2 := rfl
  have hlow : 4 * mantissa' - 2 ≤ (interval mantissa' exponent).low := by
    show _ ≤ 4 * mantissa' - if _ then 1 else 2
    split <;> omega
  refine hcovers.not_covers (Nat.mul_le_mul_right _ (by omega)) ?_
  by_cases hnext : mantissa' = mantissa + 1
  · rcases Nat.mod_two_eq_zero_or_one mantissa with heven | hodd
    · exact .inr (.inl (closed_eq_false (by omega)))
    · exact .inl (closed_eq_false hodd)
  · exact .inr (.inr (Nat.mul_lt_mul_of_pos_right (by omega) hunit))

/-- Of two doubles with different exponents, the interval of the one with the smaller exponent comes
first. -/
theorem not_covers_of_exponent_lt (hunit : 0 < unit) (h : IsDouble mantissa exponent)
    (hnormal : 2 ^ 52 ≤ mantissa') (j : Nat)
    (hcovers : (interval mantissa exponent).Covers unit point) :
    ¬ (interval mantissa' exponent').Covers (unit * 2 ^ (j + 1)) point := by
  have hhigh : (interval mantissa exponent).high = 4 * mantissa + 2 := rfl
  have hlow : 2 ^ 54 - 1 ≤ (interval mantissa' exponent').low := by
    show _ ≤ 4 * mantissa' - if mantissa' = 2 ^ 52 then 1 else 2
    split <;> omega
  have hlt := h.lt
  have hdouble : (2 ^ 55 - 2) * unit ≤ (interval mantissa' exponent').low * (unit * 2 ^ (j + 1)) := by
    calc (2 ^ 55 - 2) * unit = (2 ^ 54 - 1) * (unit * 2) := by omega
      _ ≤ (interval mantissa' exponent').low * (unit * 2 ^ (j + 1)) := by
        have hpow : 2 ^ 1 ≤ 2 ^ (j + 1) := Nat.pow_le_pow_right (by decide) (by omega)
        exact Nat.mul_le_mul hlow (Nat.mul_le_mul_left _ hpow)
  have hle : (4 * mantissa + 2) * unit ≤ (2 ^ 55 - 2) * unit := Nat.mul_le_mul_right _ (by omega)
  rw [← hhigh] at hle
  refine hcovers.not_covers (Nat.le_trans hle hdouble) ?_
  rcases Nat.mod_two_eq_zero_or_one mantissa with heven | hodd
  · have hless : (4 * mantissa + 2) * unit < (2 ^ 55 - 2) * unit :=
      Nat.mul_lt_mul_of_pos_right (by omega) hunit
    rw [← hhigh] at hless
    exact .inr (.inr (Nat.lt_of_lt_of_le hless hdouble))
  · exact .inl (closed_eq_false hodd)

/-- No point lies in the intervals of two doubles. -/
theorem eq_of_covers (h : IsDouble mantissa exponent) (h' : IsDouble mantissa' exponent')
    (hle : exponent ≤ exponent') (hunit : 0 < unit)
    (hcovers : (interval mantissa exponent).Covers (unit * 2 ^ (exponent + 1074).toNat) point)
    (hcovers' : (interval mantissa' exponent').Covers (unit * 2 ^ (exponent' + 1074).toNat) point) :
    mantissa = mantissa' ∧ exponent = exponent' := by
  have hunit : 0 < unit * 2 ^ (exponent + 1074).toNat := Nat.mul_pos hunit (Nat.pow_pos (by decide))
  rcases Int.lt_or_eq_of_le hle with hlt | rfl
  · exfalso
    have hnormal : 2 ^ 52 ≤ mantissa' := h'.normal.resolve_right (by have := h.least; omega)
    obtain ⟨j, hj⟩ : ∃ j : Nat, (exponent' + 1074).toNat = (exponent + 1074).toNat + (j + 1) :=
      ⟨(exponent' - exponent - 1).toNat, by have := h.least; omega⟩
    rw [hj, Nat.pow_add, ← Nat.mul_assoc] at hcovers'
    exact h.not_covers_of_exponent_lt hunit hnormal j hcovers hcovers'
  · refine ⟨?_, rfl⟩
    rcases Nat.lt_trichotomy mantissa mantissa' with hlt | heq | hgt
    · exact (not_covers_of_mantissa_lt hunit hlt hcovers hcovers').elim
    · exact heq
    · exact (not_covers_of_mantissa_lt hunit hgt hcovers' hcovers).elim

end IsDouble

/-! ## Decimals as fractions -/

namespace Digits

/-- The numerator of the decimal, over a power of ten. -/
def numerator (d : Digits) : Nat := d.digits * 10 ^ d.exponent.toNat

/-- The number of digits after the point. -/
def places (d : Digits) : Nat := (-d.exponent).toNat

/-- The numerator in quarters of the least double, which every end of an interval is a multiple of. -/
def point (d : Digits) : Nat := d.numerator * 2 ^ 1076

end Digits

/-- The shortest decimal of a double lies in its interval. -/
theorem IsDouble.covers_shortest {mantissa : Nat} {exponent : Int} {d : Digits}
    (h : IsDouble mantissa exponent) (hd : (interval mantissa exponent).shortest = d) :
    (interval mantissa exponent).Covers (10 ^ d.places * 2 ^ (exponent + 1074).toNat)
      d.point := by
  obtain ⟨k, hhit⟩ := h.exists_shortest
  rw [hd] at hhit
  have hleast := h.least
  have hcovers := Interval.covers_onGrid (Interval.low_lt_mid h.pos)
    (Nat.lt_of_succ_le (Nat.le_of_succ_le IsDouble.mid_add_two_le_high)) hhit
  cases Interval.exponent_onGrid hhit
  have hscaled := hcovers.mul (c := 2 ^ (1076 - (-(exponent - 2)).toNat)) (Nat.pow_pos (by decide))
  have hunit : (interval mantissa exponent).scale d.exponent *
      2 ^ (1076 - (-(exponent - 2)).toNat) = 10 ^ d.places * 2 ^ (exponent + 1074).toNat := by
    have hpow : (exponent + 1074).toNat =
        (exponent - 2).toNat + (1076 - (-(exponent - 2)).toNat) := by omega
    rw [hpow, Nat.pow_add, Nat.mul_left_comm, ← Nat.mul_assoc]
    rfl
  have hpoint : d.digits * (interval mantissa exponent).step d.exponent *
      2 ^ (1076 - (-(exponent - 2)).toNat) = d.point := by
    have hpow : 1076 = (-(exponent - 2)).toNat + (1076 - (-(exponent - 2)).toNat) := by omega
    rw [Digits.point, Digits.numerator]
    conv => rhs; rw [hpow, Nat.pow_add]
    show d.digits * (2 ^ (-(exponent - 2)).toNat * 10 ^ d.exponent.toNat) * _ = _
    rw [Nat.mul_comm (2 ^ (-(exponent - 2)).toNat), ← Nat.mul_assoc, Nat.mul_assoc]
  rwa [hunit, hpoint] at hscaled

/-! ## Decimals read off their texts -/

theorem ofDigits_append_zeros (ds : List Char) (n : Nat) :
    ofDigits (ds ++ List.replicate n '0') = ofDigits ds * 10 ^ n := by
  induction n with
  | zero => simp
  | succ n ih =>
    have hlast : ofDigits (ds ++ List.replicate (n + 1) '0') =
        10 * ofDigits (ds ++ List.replicate n '0') := by
      rw [List.replicate_succ', ← List.append_assoc]
      simp only [ofDigits, List.foldl_append, List.foldl_cons, List.foldl_nil]
      rfl
    rw [hlast, ih, Nat.pow_succ]
    grind

theorem ofDigits_zeros_append (n : Nat) (ds : List Char) :
    ofDigits (List.replicate n '0' ++ ds) = ofDigits ds := by
  induction n with
  | zero => rfl
  | succ n ih => exact ih

/-- The digits of a text, without the point among them. -/
def digitsIn (cs : List Char) : List Char := cs.filter isDigit

/-- The characters of a text after the point. -/
def afterPoint (cs : List Char) : List Char := (cs.dropWhile isDigit).tail

theorem digitsIn_of_isDigit {ds : List Char} (h : ∀ d ∈ ds, isDigit d) : digitsIn ds = ds :=
  List.filter_eq_self.2 h

theorem digitsIn_fraction {ds es : List Char} (hds : ∀ d ∈ ds, isDigit d)
    (hes : ∀ e ∈ es, isDigit e) : digitsIn (ds ++ '.' :: es) = ds ++ es := by
  rw [digitsIn, List.filter_append, List.filter_cons_of_neg (by decide)]
  exact congr (congrArg _ (digitsIn_of_isDigit hds)) (digitsIn_of_isDigit hes)

theorem afterPoint_of_isDigit {ds : List Char} (h : ∀ d ∈ ds, isDigit d) : afterPoint ds = [] := by
  have hdrop : (ds ++ []).dropWhile isDigit = _ := List.dropWhile_append_of_pos h
  rw [List.append_nil] at hdrop
  rw [afterPoint, hdrop]
  rfl

theorem afterPoint_fraction {ds es : List Char} (h : ∀ d ∈ ds, isDigit d) :
    afterPoint (ds ++ '.' :: es) = es := by
  rw [afterPoint, List.dropWhile_append_of_pos h]
  rfl

namespace Digits

/-- The text of a decimal shows its numerator and the number of its places. -/
theorem shows_positional (d : Digits) :
    ofDigits (digitsIn d.positional) = d.numerator ∧ (afterPoint d.positional).length = d.places := by
  have hall : ∀ c ∈ Decimal.digits d.digits, isDigit c := fun _ => isDigit_digits
  unfold positional numerator places
  extract_lets ds places
  have hds : ofDigits ds = d.digits := ofDigits_digits d.digits
  by_cases hwhole : places = 0
  · have hdigits : ∀ c ∈ ds ++ List.replicate d.exponent.toNat '0', isDigit c :=
      List.forall_mem_append.2 ⟨hall, fun _ => isDigit_replicate⟩
    rw [if_pos hwhole, digitsIn_of_isDigit hdigits, afterPoint_of_isDigit hdigits,
      ofDigits_append_zeros, hds]
    exact ⟨rfl, hwhole.symm⟩
  · have hexponent : d.exponent.toNat = 0 := by omega
    rw [if_neg hwhole, hexponent, Nat.pow_zero, Nat.mul_one]
    by_cases hlt : places < ds.length
    · have htake : ∀ c ∈ ds.take (ds.length - places), isDigit c :=
        fun c hc => hall c (List.mem_of_mem_take hc)
      rw [if_pos hlt, digitsIn_fraction htake fun c hc => hall c (List.mem_of_mem_drop hc),
        afterPoint_fraction htake, List.take_append_drop, hds, List.length_drop]
      exact ⟨rfl, by omega⟩
    · have hzero : ∀ c ∈ ['0'], isDigit c := List.all_eq_true.1 rfl
      have hdigits : ∀ c ∈ List.replicate (places - ds.length) '0' ++ ds, isDigit c :=
        List.forall_mem_append.2 ⟨fun _ => isDigit_replicate, hall⟩
      rw [if_neg hlt]
      show ofDigits (digitsIn (['0'] ++ '.' :: (List.replicate _ '0' ++ ds))) = _ ∧
        (afterPoint (['0'] ++ '.' :: (List.replicate _ '0' ++ ds))).length = _
      rw [digitsIn_fraction hzero hdigits, afterPoint_fraction hzero]
      refine ⟨?_, ?_⟩
      · exact (ofDigits_zeros_append _ ds).trans hds
      · rw [List.length_append, List.length_replicate]
        omega

end Digits

/-! ## Texts of doubles -/

/-- A finite double that is not negative is zero, or a mantissa and an exponent that its text shows. -/
theorem exists_of_isFinite {x : Float} (hfinite : x.isFinite)
    (hsign : Floating.isNegative (Floating.content x) = false) :
    (Floating.content x = .zero .positive ∧ (ofDouble x).toList = ['0']) ∨
      ∃ mantissa exponent hpos, Floating.content x = .finite .positive mantissa exponent hpos ∧
        IsDouble mantissa exponent ∧
        (ofDouble x).toList = (IsDouble.interval mantissa exponent).shortest.positional := by
  have hfinite : (Floating.content x).isFinite := hfinite
  have hcontent := Floating.isContent_content x
  unfold ofDouble
  generalize Floating.content x = u at *
  cases hcontent with
  | notANumber => cases hfinite
  | infinity sign => cases hfinite
  | zero sign =>
    cases sign
    · cases hsign
    · exact .inl ⟨rfl, String.toList_ofList⟩
  | @finite sign mantissa exponent hpos hlt hleast hgreatest hnormal =>
    cases sign
    · cases hsign
    · exact .inr ⟨mantissa, exponent, hpos, rfl, ⟨hpos, hlt, hleast, hgreatest, hnormal⟩,
        toList_text_positive⟩

namespace IsDouble

variable {mantissa mantissa' : Nat} {exponent exponent' : Int}

/-- The text of a double other than zero is not that of zero. -/
theorem positional_ne_zero (h : IsDouble mantissa exponent) :
    (interval mantissa exponent).shortest.positional ≠ ['0'] := by
  intro hzero
  generalize hd : (interval mantissa exponent).shortest = d at hzero
  have hnumerator : d.numerator = 0 := by
    rw [← d.shows_positional.1, hzero]
    rfl
  have hlow : 0 < (interval mantissa exponent).low := by
    have := h.pos
    show 0 < 4 * mantissa - if _ then 1 else 2
    split <;> omega
  have hunit : 0 < 10 ^ d.places * 2 ^ (exponent + 1074).toNat :=
    Nat.mul_pos (Nat.pow_pos (by decide)) (Nat.pow_pos (by decide))
  have hpoint : 0 < d.point := Nat.lt_of_lt_of_le (Nat.mul_pos hlow hunit)
    (h.covers_shortest hd).low_le
  exact absurd hnumerator (Nat.ne_of_gt (Nat.pos_of_mul_pos_right hpoint))

/-- The text of a double shows which one it is. -/
theorem eq_of_positional_eq (h : IsDouble mantissa exponent) (h' : IsDouble mantissa' exponent')
    (heq : (interval mantissa exponent).shortest.positional =
      (interval mantissa' exponent').shortest.positional) :
    mantissa = mantissa' ∧ exponent = exponent' := by
  generalize hd : (interval mantissa exponent).shortest = d at heq
  generalize hd' : (interval mantissa' exponent').shortest = d' at heq
  have hnumerator : d.numerator = d'.numerator := by
    rw [← d.shows_positional.1, heq, d'.shows_positional.1]
  have hplaces : d.places = d'.places := by
    rw [← d.shows_positional.2, heq, d'.shows_positional.2]
  have hcovers := h.covers_shortest hd
  have hcovers' := h'.covers_shortest hd'
  rw [Digits.point, ← hnumerator, ← hplaces] at hcovers'
  have hunit : 0 < 10 ^ d.places := Nat.pow_pos (by decide)
  rcases Int.le_total exponent exponent' with hle | hle
  · exact eq_of_covers h h' hle hunit hcovers hcovers'
  · obtain ⟨hmantissa, hexponent⟩ := eq_of_covers h' h hle hunit hcovers' hcovers
    exact ⟨hmantissa.symm, hexponent.symm⟩

end IsDouble

/-- Finite doubles that are not negative are the same if their texts are. -/
theorem ofDouble_injective {x y : Float} (hx : x.isFinite) (hy : y.isFinite)
    (hxsign : Floating.isNegative (Floating.content x) = false)
    (hysign : Floating.isNegative (Floating.content y) = false) (h : ofDouble x = ofDouble y) :
    x = y := by
  have htext := congrArg String.toList h
  rcases exists_of_isFinite hx hxsign with ⟨hx, hxtext⟩ | ⟨m, e, hpos, hx, hdouble, hxtext⟩ <;>
    rcases exists_of_isFinite hy hysign with ⟨hy, hytext⟩ | ⟨m', e', hpos', hy, hdouble', hytext⟩ <;>
    rw [hxtext, hytext] at htext
  · exact Floating.content_injective (hx.trans hy.symm)
  · exact absurd htext.symm hdouble'.positional_ne_zero
  · exact absurd htext hdouble.positional_ne_zero
  · obtain ⟨rfl, rfl⟩ := hdouble.eq_of_positional_eq hdouble' htext
    exact Floating.content_injective (hx.trans hy.symm)

end HostExpr.Decimal
