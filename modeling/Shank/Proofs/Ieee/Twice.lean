/-
# Rounding twice

A number that is rounded to a fine format first, and then to a coarse one, need
not come out as the nearest number of the coarse format. It does unless the fine
format has moved it onto the middle between two neighbours (`Halfway`): there a
tie is broken that was none before. That is exact: the two ways differ where the
even neighbour lies on the other side of the middle than the number that was
rounded (`rounds_iff_of_isNearest`).

Two facts about grids carry the argument. The middle between two neighbours of
the coarse grid is on the fine one (`grid_middle`), so the fine rounding can
reach the middle but not go past it. And rounding keeps the order, so on either
side of the middle both ways agree.
-/

import Shank.Proofs.Ieee.Nearest

namespace Shank
namespace Format

variable {f g : Format} {a b q y y' z : Rat}

/-- `z` is half-way between two neighbours on the grid. -/
structure Halfway (f : Format) (a b z : Rat) : Prop where
  lower : f.Grid a
  upper : f.Grid b
  lt : a < b
  next : ∀ s, f.Grid s → a < s → b ≤ s
  middle : 2 * z = a + b

namespace Halfway

/-- The middle is half the gap above the lower neighbour. -/
theorem abs_sub_lower (h : f.Halfway a b z) : |z - a| = (b - a) / 2 := by
  have := h.middle
  have := h.lt
  rw [abs_of_pos] <;> linarith

/-- The middle is half the gap below the upper neighbour. -/
theorem abs_sub_upper (h : f.Halfway a b z) : |z - b| = (b - a) / 2 := by
  have := h.middle
  have := h.lt
  rw [abs_of_neg] <;> linarith

/-- Nothing on the grid is nearer to the middle than the two neighbours are. -/
theorem le_abs_sub (h : f.Halfway a b z) {s : Rat} (hs : f.Grid s) : (b - a) / 2 ≤ |z - s| := by
  have := h.middle
  have := h.lt
  rcases le_or_gt s a with hsa | hsa
  · have := le_abs_self (z - s)
    linarith
  · have := h.next s hs hsa
    have := neg_abs_le (z - s)
    linarith

/-- A tie goes to the lower neighbour if that is even. -/
theorem isNearest_lower (h : f.Halfway a b z) (heven : f.EvenGrid a) : f.IsNearest z a :=
  ⟨h.lower, fun _ hs => h.abs_sub_lower ▸ h.le_abs_sub hs, fun _ _ _ _ => heven⟩

/-- The middle is rounded to the upper neighbour if that is the even one. -/
theorem isNearest_upper (h : f.Halfway a b z) (heven : f.EvenGrid b) : f.IsNearest z b :=
  ⟨h.upper, fun _ hs => h.abs_sub_upper ▸ h.le_abs_sub hs, fun _ _ _ _ => heven⟩

end Halfway

/-- Neighbours are one unit apart: that of the lower one. The next multiple of
this unit is held by the format, so the upper neighbour is no further off; and
what is nearer than a unit would be of a smaller one. -/
theorem exists_units_of_neighbours (hf : 2 ≤ f.precision) (ha : f.Grid a) (hb : f.Grid b) (hpos : 0 ≤ a)
    (hlt : a < b) (hnext : ∀ s, f.Grid s → a < s → b ≤ s) :
    ∃ j e : Int, a = j * 2 ^ e ∧ b = (j + 1 : Int) * 2 ^ e ∧ 0 ≤ j ∧ j < 2 ^ f.precision ∧
      f.minExponent ≤ e := by
  obtain ⟨e, he⟩ := f.exists_isUnit hpos
  obtain ⟨j, rfl, -⟩ := he.int_of_isNearest hf hpos ha.isNearest
  have hu : (0 : Rat) < 2 ^ e := by positivity
  have hj : 0 ≤ j := by
    have := nonneg_of_mul_nonneg_left hpos hu
    exact_mod_cast this
  have hj' : j < 2 ^ f.precision := by
    have hlt := he.lt
    rw [zpow_add₀ (by norm_num), zpow_natCast] at hlt
    have := lt_of_mul_lt_mul_right hlt hu.le
    exact_mod_cast this
  have hstep : (j : Rat) * 2 ^ e < (j + 1 : Int) * 2 ^ e := by
    gcongr
    exact_mod_cast lt_add_one j
  have hle := hnext _ (grid_of_le hf he.min_le (by rw [abs_of_nonneg] <;> omega)).1 hstep
  refine ⟨j, e, rfl, le_antisymm hle ?_, hj, hj', he.min_le⟩
  obtain ⟨m, e', rfl, hm, hmin⟩ := hb
  -- the upper neighbour is given in a unit of its own
  rcases multiple_or_lt e' hm e with ⟨k, hk⟩ | ⟨hlt', hsmall⟩
  · rw [hk] at hlt ⊢
    have hint : j < m * 2 ^ k := by exact_mod_cast lt_of_mul_lt_mul_right hlt hu.le
    gcongr
    exact hint
  · have hfull := he.full.resolve_left (by omega)
    exact absurd (hfull.trans hlt.le) hsmall.not_ge

section Finer

variable (hf : 2 ≤ f.precision) (hprecision : f.precision < g.precision)
  (hmin : g.minExponent < f.minExponent)

include hf hprecision hmin

/-- A format with one bit more has the middles between the neighbours of another
one. -/
theorem grid_middle (ha : f.Grid a) (hb : f.Grid b) (hpos : 0 ≤ a) (hlt : a < b)
    (hnext : ∀ s, f.Grid s → a < s → b ≤ s) : g.Grid ((a + b) / 2) := by
  obtain ⟨j, e, rfl, rfl, hj, hj', he⟩ := exists_units_of_neighbours hf ha hb hpos hlt hnext
  refine ⟨2 * j + 1, e - 1, ?_, ?_, by omega⟩
  · rw [zpow_sub_one₀ (by norm_num)]
    push_cast
    ring
  · rw [abs_of_nonneg (by omega)]
    have : (2 : Int) ^ (f.precision + 1) ≤ 2 ^ g.precision :=
      pow_le_pow_right₀ (by norm_num) hprecision
    rw [pow_succ] at this
    omega

/-- Of two numbers with nothing of the fine format between them, one is half-way
between what they are rounded to, if that differs. -/
theorem halfway_of_not_between {p r : Rat} (hp : 0 ≤ p) (ha : f.IsNearest p a) (hb : f.IsNearest r b)
    (hlt : a < b) (hnone : ∀ s, g.Grid s → p < s → r ≤ s) :
    g.Grid ((a + b) / 2) ∧ (f.Halfway a b p ∨ f.Halfway a b r) := by
  have hp' := (abs_sub_le_iff_of_lt hlt).1 (ha.nearest b hb.grid)
  have hr' := (abs_sub_ge_iff_of_lt hlt).1 (hb.nearest a ha.grid)
  have hnext : ∀ s, f.Grid s → a < s → b ≤ s := by
    intro s hs has
    by_contra hsb
    have hsb := not_le.1 hsb
    have h₁ := (abs_sub_le_iff_of_lt has).1 (ha.nearest s hs)
    have h₂ := (abs_sub_ge_iff_of_lt hsb).1 (hb.nearest s hs)
    have := hnone s (hs.widen hprecision.le hmin.le) (by linarith)
    linarith
  have hgrid := grid_middle hf hprecision hmin ha.grid hb.grid (ha.nonneg hf hp) hlt hnext
  refine ⟨hgrid, ?_⟩
  rcases hp'.lt_or_eq with h | h
  · have := hnone _ hgrid (by linarith)
    exact .inr ⟨ha.grid, hb.grid, hlt, hnext, by linarith⟩
  · exact .inl ⟨ha.grid, hb.grid, hlt, hnext, h⟩

/-- **Rounding twice is rounding once**, unless the first time leads half-way
between two neighbours. If the results differ, the number and what it was
rounded to first are on either side of the middle. The middle is held by the
wider format, so it must be what the number was rounded to. -/
theorem IsNearest.eq_or_halfway (hq : 0 ≤ q) (hz : g.IsNearest q z) (hy : f.IsNearest z y)
    (hy' : f.IsNearest q y') :
    y = y' ∨ y < y' ∧ z < q ∧ f.Halfway y y' z ∨ y' < y ∧ q < z ∧ f.Halfway y' y z := by
  have hg : 2 ≤ g.precision := by omega
  have hz0 := hz.nonneg hg hq
  rcases eq_or_ne z q with rfl | hne
  · exact .inl (hy.unique hf hq hy')
  -- what the wider format holds is not changed the first time
  have hgrid : ¬g.Grid q := fun h => hne (hz.eq_of_grid h)
  rcases lt_trichotomy y y' with hlt | rfl | hlt
  · have hzq : z < q := lt_of_not_ge fun h => hlt.not_ge (hy'.mono hf hq h hy)
    -- the wider format has nothing between the number and what it is rounded to
    have hnone : ∀ s, g.Grid s → z < s → q ≤ s := fun s hs hzs => by
      by_contra hsq
      exact hzs.not_ge (hz.ge_of_grid hg hs (hz0.trans hzs.le) (not_le.1 hsq).le)
    obtain ⟨hm, h | h⟩ := halfway_of_not_between hf hprecision hmin hz0 hy hy' hlt hnone
    · exact .inr (.inl ⟨hlt, hzq, h⟩)
    · rw [← h.middle, mul_div_cancel_left₀ _ two_ne_zero] at hm
      exact absurd hm hgrid
  · exact .inl rfl
  · have hqz : q < z := lt_of_not_ge fun h => hlt.not_ge (hy.mono hf hz0 h hy')
    have hnone : ∀ s, g.Grid s → q < s → z ≤ s := fun s hs hqs => hz.le_of_grid hg hq hs hqs.le
    obtain ⟨hm, h | h⟩ := halfway_of_not_between hf hprecision hmin hq hy' hy hlt hnone
    · rw [← h.middle, mul_div_cancel_left₀ _ two_ne_zero] at hm
      exact absurd hm hgrid
    · exact .inr (.inr ⟨hlt, hqz, h⟩)

/-- **Where rounding twice differs from rounding once.** A number is rounded to
`z` first. What that is rounded to is not what the number is rounded to, if `z`
is half-way between two neighbours, of which the lower is not too large for the
format, and the even one of them is not on the side where the number is. -/
theorem rounds_iff_of_isNearest (hmax : f.minExponent ≤ f.maxExponent + f.precision) (hq : 0 ≤ q)
    {negative : Bool} {x : Ieee} (hz : g.IsNearest q z) (hx : f.Rounds negative z x) :
    f.Rounds negative q x ↔
      ¬∃ a b, f.Halfway a b z ∧ a < 2 ^ (f.maxExponent + f.precision) ∧
        (z < q ∧ f.EvenGrid a ∨ q < z ∧ f.EvenGrid b) := by
  have hz0 := hz.nonneg (by omega) hq
  obtain ⟨y, hy, rfl⟩ := hx
  constructor
  · rintro ⟨w, hw, heq⟩ ⟨a, b, h, ha, hside⟩
    have hmiddle := h.middle
    have hsame := (ofMagnitude_eq_iff negative).1 heq
    rcases hside with ⟨hzq, heven⟩ | ⟨hqz, heven⟩
    · -- the lower neighbour is taken, but the number is nearer to the upper one
      obtain rfl := hy.unique hf hz0 (h.isNearest_lower heven)
      obtain rfl := hsame.resolve_right fun hlarge => ha.not_ge hlarge.1
      have := (abs_sub_le_iff_of_lt h.lt).1 (hw.nearest b h.upper)
      linarith
    · -- the upper neighbour is taken, but the number is nearer to the lower one
      obtain rfl := hy.unique hf hz0 (h.isNearest_upper heven)
      have hyw : y ≤ w := by
        rcases hsame with rfl | ⟨htop, htop'⟩
        · exact le_rfl
        · exact (h.next _ (grid_zpow hf hmax) ha).trans htop'
      have := (abs_sub_ge_iff_of_lt (h.lt.trans_le hyw)).1 (hw.nearest a h.lower)
      linarith
  · intro hnone
    obtain ⟨y', hy'⟩ := exists_isNearest hf hq
    refine ⟨y', hy', (ofMagnitude_eq_iff negative).2 ?_⟩
    rcases hz.eq_or_halfway hf hprecision hmin hq hy hy' with h | ⟨hlt, hzq, h⟩ | ⟨hlt, hqz, h⟩
    · exact .inl h
    -- half-way the even one is taken, and the other one was expected
    · have heven := hy.even y' h.upper hlt.ne' (h.abs_sub_upper.trans h.abs_sub_lower.symm)
      have htop : 2 ^ (f.maxExponent + f.precision) ≤ y :=
        not_lt.1 fun hsmall => hnone ⟨y, y', h, hsmall, .inl ⟨hzq, heven⟩⟩
      exact .inr ⟨htop, htop.trans hlt.le⟩
    -- the same with the sides exchanged
    · have heven := hy.even y' h.lower hlt.ne (h.abs_sub_lower.trans h.abs_sub_upper.symm)
      have htop : 2 ^ (f.maxExponent + f.precision) ≤ y' :=
        not_lt.1 fun hsmall => hnone ⟨y', y, h, hsmall, .inr ⟨hqz, heven⟩⟩
      exact .inr ⟨htop.trans hlt.le, htop⟩

end Finer

/-- A datum of a format is rounded to another one as the number that it stands
for; one that is too large for the first is too large for the other. -/
theorem Rounds.round (hf : f.Proper) (hg : 2 ≤ g.precision)
    (htop : f.maxExponent + f.precision ≤ g.maxExponent + g.precision) (hq : 0 ≤ q) {negative : Bool}
    {x : Ieee} (h : g.Rounds negative q x) :
    ∃ z, g.IsNearest q z ∧ f.Rounds negative z (f.round x) := by
  obtain ⟨z, hz, rfl⟩ := h
  have hz0 := hz.nonneg hg hq
  refine ⟨z, hz, ?_⟩
  rw [ofMagnitude]
  split
  · rename_i hzero
    rw [hzero]
    refine ⟨0, f.grid_zero.isNearest, ?_⟩
    cases negative <;> simp [ofMagnitude, Ieee.zero, Format.round, ofRat]
  rename_i hne
  -- past the largest number of the wider format
  split
  · rename_i hlarge
    obtain ⟨y, hy⟩ := exists_isNearest hf.two_le hz0
    have hmin := hf.min_le_max
    have htop' : 2 ^ (f.maxExponent + f.precision) ≤ y :=
      hy.ge_of_grid hf.two_le (grid_zpow hf.two_le (by omega)) (by positivity)
        ((zpow_le_zpow_right₀ (by norm_num) htop).trans hlarge)
    refine ⟨y, hy, ?_⟩
    rw [ofMagnitude, if_neg (lt_of_lt_of_le (by positivity) htop').ne', if_pos htop']
    rfl
  · have hpos : 0 < z := lt_of_le_of_ne hz0 (Ne.symm hne)
    have hround := roundsTo_round hf (.finite (if negative then -z else z))
    cases negative
    · simpa [RoundsTo, hz0.not_gt, abs_of_pos hpos] using hround
    · simpa [RoundsTo, hpos, abs_of_pos hpos] using hround

end Format
end Shank
