import ListQuery.Request.Paging
import Mathlib.Tactic.Linarith
import Mathlib.Tactic.Ring

/-!
# The numbers of pages and offsets

Pages of a positive limit are ranges of rows that follow one another, so every row is on one of them.
The number of pages is the least one that is enough. Divisions go toward zero, and the lemmas hold for
negative numbers of rows and offsets too.

All of these numbers have 64 bits if the numbers of rows and the offsets that they are computed from
do, but for one: the page of the greatest offset when every page has one row.

## Main statements

- `pagesFor_bounds`: the pages hold all rows, and one page less does not;
- `onPage_iff`: a row is on one page and on no other;
- `one_le_pageAt_iff`: the offsets that are on a page from the first one on;
- `fits64_pagesFor`, `fits64_pageAt_iff`: which numbers of pages have 64 bits.
-/

namespace ListQuery

/-! ## §1 Numbers of pages -/

/-- The pages hold all rows, and one page less does not, also when a number of rows is negative. -/
theorem pagesFor_bounds (count : Int) {limit : Int} (hlimit : 0 < limit) :
    count ≤ pagesFor count limit * limit ∧ (pagesFor count limit - 1) * limit < count := by
  have hdivision : count.tdiv limit * limit + count.tmod limit = count :=
    Int.tdiv_mul_add_tmod count limit
  -- What is left over is smaller than a page, whatever its sign.
  have hupper : count.tmod limit < limit := Int.tmod_lt_of_pos count hlimit
  have hlower : -limit < count.tmod limit := Int.lt_tmod_of_pos count hlimit
  have hmore : (count.tdiv limit + 1) * limit = count.tdiv limit * limit + limit := by ring
  have hless : (count.tdiv limit - 1) * limit = count.tdiv limit * limit - limit := by ring
  unfold pagesFor
  dsimp only
  split
  · rw [hmore, add_sub_cancel_right]
    omega
  · rw [hless]
    omega

/-- Whether a row is on a page; rows are counted from zero. -/
def OnPage (page limit row : Int) : Prop :=
  offsetOf page limit ≤ row ∧ row < offsetOf page limit + limit

/-- A row is on one page and on no other. -/
theorem onPage_iff {page limit row : Int} (hlimit : 0 < limit) (hrow : 0 ≤ row) :
    OnPage page limit row ↔ page = pageAt row limit := by
  have hnext : offsetOf page limit + limit = page * limit := by
    unfold offsetOf
    ring
  unfold OnPage pageAt
  rw [hnext, offsetOf, Int.tdiv_eq_ediv_of_nonneg hrow, ← Int.le_ediv_iff_mul_le hlimit,
    ← Int.ediv_lt_iff_lt_mul hlimit]
  omega

theorem onPage_offsetOf (page : Int) {limit : Int} (hlimit : 0 < limit) :
    OnPage page limit (offsetOf page limit) :=
  ⟨le_refl _, by omega⟩

theorem offsetOf_nonneg {page limit : Int} (hpage : 1 ≤ page) (hlimit : 0 < limit) :
    0 ≤ offsetOf page limit :=
  Int.mul_nonneg (by omega) (le_of_lt hlimit)

/-- The first row of a page that there is, is a row. -/
theorem offsetOf_lt {count page limit : Int} (hlimit : 0 < limit)
    (hpage : page ≤ pagesFor count limit) : offsetOf page limit < count := by
  have hle : offsetOf page limit ≤ (pagesFor count limit - 1) * limit :=
    Int.mul_le_mul_of_nonneg_right (by omega) (le_of_lt hlimit)
  exact lt_of_le_of_lt hle (pagesFor_bounds count hlimit).2

/-- The page of a row is one of the pages that there are. -/
theorem pageAt_bounds {count limit row : Int} (hlimit : 0 < limit) (hrow : 0 ≤ row)
    (hcount : row < count) : 1 ≤ pageAt row limit ∧ pageAt row limit ≤ pagesFor count limit := by
  have hfirst : 0 ≤ row / limit := Int.ediv_nonneg hrow (le_of_lt hlimit)
  have hlast : row / limit < pagesFor count limit :=
    (Int.ediv_lt_iff_lt_mul hlimit).2 (lt_of_lt_of_le hcount (pagesFor_bounds count hlimit).1)
  unfold pageAt
  rw [Int.tdiv_eq_ediv_of_nonneg hrow]
  omega

/-- An offset is on a page from the first one on, unless it is a page or more below zero. -/
theorem one_le_pageAt_iff (offset : Int) {limit : Int} (hlimit : 0 < limit) :
    1 ≤ pageAt offset limit ↔ -limit < offset := by
  have hdivision : offset.tdiv limit * limit + offset.tmod limit = offset :=
    Int.tdiv_mul_add_tmod offset limit
  have hupper : offset.tmod limit < limit := Int.tmod_lt_of_pos offset hlimit
  have hlower : -limit < offset.tmod limit := Int.lt_tmod_of_pos offset hlimit
  unfold pageAt
  constructor
  · intro h
    have hnonneg : 0 ≤ offset.tdiv limit * limit := Int.mul_nonneg (by omega) (le_of_lt hlimit)
    omega
  · intro h
    by_contra hneg
    rcases le_or_gt 0 offset with hoffset | hoffset
    · have hnonneg : 0 ≤ offset.tdiv limit := Int.tdiv_nonneg hoffset (le_of_lt hlimit)
      omega
    · -- A negative remainder does not make up for a whole page.
      have hpage : offset.tdiv limit * limit ≤ -1 * limit :=
        Int.mul_le_mul_of_nonneg_right (by omega) (le_of_lt hlimit)
      have hsign : offset.tmod limit ≤ 0 := by
        have hneg := Int.tmod_nonneg limit (a := -offset) (by omega)
        rw [Int.neg_tmod] at hneg
        omega
      omega

/-! ## §2 Numbers of 64 bits -/

/-- Whether an integer has 64 bits. -/
def Fits64 (n : Int) : Prop :=
  Int64.minValue.toInt ≤ n ∧ n ≤ Int64.maxValue.toInt

instance (n : Int) : Decidable (Fits64 n) :=
  inferInstanceAs (Decidable (_ ∧ _))

theorem fits64_toInt (n : Int64) : Fits64 n.toInt :=
  ⟨n.minValue_le_toInt, n.toInt_le⟩

theorem toInt_ofInt64 {n : Int} (h : Fits64 n) : (Int64.ofInt n).toInt = n := by
  obtain ⟨hlow, hhigh⟩ := h
  rw [Int64.toInt_minValue] at hlow
  rw [Int64.toInt_maxValue] at hhigh
  exact Int64.toInt_ofInt_of_le hlow (by omega)

theorem toInt_ofIntClamp {n : Int} (h : Fits64 n) : (Int64.ofIntClamp n).toInt = n :=
  Int64.toInt_ofIntClamp h.1 h.2

/-- An integer cut to 64 bits is the one of them that is nearest to it. -/
theorem toInt_ofIntClamp_eq (n : Int) :
    (Int64.ofIntClamp n).toInt = max Int64.minValue.toInt (min n Int64.maxValue.toInt) := by
  have horder : Int64.minValue.toInt ≤ Int64.maxValue.toInt := by decide
  unfold Int64.ofIntClamp
  split
  · rename_i hlow
    split
    · rename_i hhigh
      rw [Int64.toInt_ofIntLE, min_eq_left hhigh, max_eq_right hlow]
    · rename_i hhigh
      rw [min_eq_right (le_of_not_ge hhigh), max_eq_right horder]
  · rename_i hlow
    rw [min_eq_left (by omega), max_eq_left (by omega)]

theorem toInt_max (a b : Int64) : (max a b).toInt = max a.toInt b.toInt := by
  change (if a ≤ b then b else a).toInt = max a.toInt b.toInt
  rw [max_def, apply_ite Int64.toInt]
  simp only [Int64.le_iff_toInt_le]

/-- A number between zero and one of 64 bits has 64 bits. -/
theorem Fits64.of_le {n m : Int} (hm : Fits64 m) (hn : 0 ≤ n) (h : n ≤ m) : Fits64 n := by
  have hmin : Int64.minValue.toInt ≤ 0 := by decide
  exact ⟨le_trans hmin hn, le_trans h hm.2⟩

theorem fits64_tdiv (a : Int64) {b : Int} (hb : 0 < b) : Fits64 (a.toInt.tdiv b) := by
  obtain ⟨hlow, hhigh⟩ := fits64_toInt a
  have habs : (a.toInt.tdiv b).natAbs ≤ a.toInt.natAbs := Int.natAbs_tdiv_le_natAbs a.toInt b
  have hmin : Int64.minValue.toInt = -2 ^ 63 := Int64.toInt_minValue
  have hmax : Int64.maxValue.toInt = 2 ^ 63 - 1 := Int64.toInt_maxValue
  unfold Fits64
  rcases le_or_gt 0 a.toInt with ha | ha
  · have hnonneg : 0 ≤ a.toInt.tdiv b := Int.tdiv_nonneg ha (le_of_lt hb)
    omega
  · have hnonneg : 0 ≤ (-a.toInt).tdiv b := Int.tdiv_nonneg (by omega) (le_of_lt hb)
    rw [Int.neg_tdiv] at hnonneg
    omega

theorem fits64_tmod (a : Int64) {b : Int64} (hb : 0 < b.toInt) : Fits64 (a.toInt.tmod b.toInt) := by
  have hlower : -b.toInt < a.toInt.tmod b.toInt := Int.lt_tmod_of_pos a.toInt hb
  have hupper : a.toInt.tmod b.toInt < b.toInt := Int.tmod_lt_of_pos a.toInt hb
  obtain ⟨hlow, hhigh⟩ := fits64_toInt b
  have hmin : Int64.minValue.toInt = -2 ^ 63 := Int64.toInt_minValue
  have hmax : Int64.maxValue.toInt = 2 ^ 63 - 1 := Int64.toInt_maxValue
  unfold Fits64
  omega

/-- A number of pages has 64 bits as the number of rows does. -/
theorem fits64_pagesFor (count : Int64) {limit : Int} (hlimit : 0 < limit) :
    Fits64 (pagesFor count.toInt limit) := by
  obtain ⟨hall, hfewer⟩ := pagesFor_bounds count.toInt hlimit
  obtain ⟨hlow, hhigh⟩ := fits64_toInt count
  have hmin : Int64.minValue.toInt = -2 ^ 63 := Int64.toInt_minValue
  have hmax : Int64.maxValue.toInt = 2 ^ 63 - 1 := Int64.toInt_maxValue
  generalize pagesFor count.toInt limit = pages at hall hfewer ⊢
  rcases le_or_gt 1 pages with hpages | hpages
  · -- Each page but the last has a row.
    have hrows : pages - 1 ≤ (pages - 1) * limit :=
      le_mul_of_one_le_right (by omega) hlimit
    exact ⟨by omega, by omega⟩
  · have hrows : pages * limit ≤ pages := by
      have hle : pages * limit ≤ pages * 1 := Int.mul_le_mul_of_nonpos_left (by omega) (by omega)
      omega
    exact ⟨by omega, by omega⟩

/-- The page of an offset has a number of 64 bits, unless every page has one row and the offset is
    the greatest. -/
theorem fits64_pageAt_iff (offset : Int64) {limit : Int64} (hlimit : 0 < limit.toInt) :
    Fits64 (pageAt offset.toInt limit.toInt) ↔ ¬(limit = 1 ∧ offset = Int64.maxValue) := by
  obtain ⟨hlow, hhigh⟩ := fits64_toInt offset
  have hone : limit = 1 ↔ limit.toInt = 1 := by
    rw [← Int64.toInt_inj]
    rfl
  have hmax : offset = Int64.maxValue ↔ offset.toInt = Int64.maxValue.toInt := Int64.toInt_inj.symm
  have hmin : Int64.minValue.toInt = -2 ^ 63 := Int64.toInt_minValue
  have hvalue : Int64.maxValue.toInt = 2 ^ 63 - 1 := Int64.toInt_maxValue
  unfold pageAt Fits64
  rw [hone, hmax]
  rcases eq_or_ne limit.toInt 1 with hlimit' | hlimit'
  · rw [hlimit', Int.tdiv_one]
    omega
  · -- A page of several rows halves the offset at least.
    have hhalf : (offset.toInt.tdiv limit.toInt).natAbs ≤ offset.toInt.natAbs / 2 := by
      rw [Int.natAbs_tdiv]
      exact Nat.div_le_div_left (by omega) (by decide)
    omega

end ListQuery
