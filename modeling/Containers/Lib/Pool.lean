import Mathlib.Tactic

/-!
# Pools accounted for in capped percentages

A *pool* is a number of units of which a reserve is kept aside and the rest may be overcommitted.
Its use is not kept in units but as a percentage of the total, and that percentage is capped at
`100`; requests are admitted against what the percentage leaves open, times the overcommit factor,
and charged to the percentage *without* that factor.

The two roundings pull in opposite directions: the cap forgets what was charged beyond the total,
and the missing factor charges more than was admitted. What makes the account safe is `Account`: as
long as something has been admitted, either the percentage still tells the whole amount spent, or it
stands at the cap – and then nothing more is open. `Account.charge` is the step, and the amount
spent never exceeds the budget the pool opened with (`Account.spent_le`).
-/

namespace Containers

/-- **A pool**: its size, the percentage in use when it was opened, the percentage
kept in reserve and the overcommit factor. -/
structure Pool where
  total : ℚ
  initial : ℚ
  reserve : ℚ
  overcommit : ℚ
  total_nonneg : 0 ≤ total
  reserve_nonneg : 0 ≤ reserve
  one_le_overcommit : 1 ≤ overcommit

namespace Pool

variable (p : Pool)

/-- The units open to a request when `used` percent are in use. -/
def room (used : ℚ) : ℚ := p.total * (100 - used - p.reserve) / 100 * p.overcommit

def budget : ℚ := p.room p.initial

/-- The percentage in use once `c` more units are charged. -/
def charge (used c : ℚ) : ℚ := min (used + c / p.total * 100) 100

/-- **The account** of a pool of which `spent` units have been admitted and which
stands at `used` percent: untouched, or within budget with a percentage that tells
the amount spent or stands at the cap. -/
def Account (spent used : ℚ) : Prop :=
  spent = 0 ∧ used = p.initial ∨
    0 < spent ∧ spent ≤ p.budget ∧ (used = p.initial + spent / p.total * 100 ∨ used = 100)

theorem account_initial : p.Account 0 p.initial := Or.inl ⟨rfl, rfl⟩

variable {p}

theorem of_le_room {used c : ℚ} (hc : 0 < c) (hroom : c ≤ p.room used) :
    0 < p.total ∧ used < 100 := by
  have hpos : 0 < p.room used := lt_of_lt_of_le hc hroom
  have hover : 0 < p.overcommit := lt_of_lt_of_le one_pos p.one_le_overcommit
  have hnum : 0 < p.total * (100 - used - p.reserve) := by
    have hdiv := (mul_pos_iff_of_pos_right hover).mp hpos
    linarith
  have htotal : 0 < p.total :=
    lt_of_le_of_ne p.total_nonneg fun h => by simp [← h] at hnum
  refine ⟨htotal, ?_⟩
  have hleft := (mul_pos_iff_of_pos_left htotal).mp hnum
  have hres := p.reserve_nonneg
  linarith

/-- What is open after an exact account: the budget before overcommitting, less
what was spent, times the factor. -/
theorem room_exact (htotal : 0 < p.total) (spent : ℚ) :
    p.room (p.initial + spent / p.total * 100) = p.budget - spent * p.overcommit := by
  rw [budget, room, room]
  field_simp
  ring

/-- **One charge**: an admitted request keeps the account. -/
theorem Account.charge {spent used c : ℚ} (h : p.Account spent used) (hc : 0 < c)
    (hroom : c ≤ p.room used) : p.Account (spent + c) (p.charge used c) := by
  obtain ⟨htotal, hcap⟩ := of_le_room hc hroom
  -- below the cap the percentage is exact, whether or not something was spent before
  obtain ⟨hspent, hused⟩ : 0 ≤ spent ∧ used = p.initial + spent / p.total * 100 := by
    rcases h with ⟨rfl, rfl⟩ | ⟨hpos, -, hused | rfl⟩
    · exact ⟨le_refl _, by simp⟩
    · exact ⟨hpos.le, hused⟩
    · exact absurd hcap (lt_irrefl _)
  rw [hused, room_exact htotal] at hroom
  have hfactor : spent * 1 ≤ spent * p.overcommit :=
    mul_le_mul_of_nonneg_left p.one_le_overcommit hspent
  refine Or.inr ⟨by linarith, by linarith, ?_⟩
  have hsum : used + c / p.total * 100 = p.initial + (spent + c) / p.total * 100 := by
    rw [hused]
    ring
  rw [Pool.charge, hsum]
  rcases min_choice (p.initial + (spent + c) / p.total * 100) 100 with hm | hm
  · exact Or.inl hm
  · exact Or.inr hm

/-- **The amount spent stays within the budget**; a budget that is already negative
admits nothing. -/
theorem Account.spent_le {spent used : ℚ} (h : p.Account spent used) :
    (0 ≤ p.budget → spent ≤ p.budget) ∧ (p.budget < 0 → spent = 0) := by
  rcases h with ⟨rfl, -⟩ | ⟨hpos, hle, -⟩
  · exact ⟨fun h => h, fun _ => rfl⟩
  · exact ⟨fun _ => hle, fun hneg => absurd (lt_of_lt_of_le hpos hle) (not_lt.mpr hneg.le)⟩

end Pool

end Containers
