import Mathlib.Algebra.BigOperators.Ring.List
import Dexdo.DivisorCoins

/-! # The lots of a sell

`accumulator.rs`: an amount of whole eccUSDC is planned as lots of four sizes. -/
namespace SellPlan

open DivisorCoins

def u128 : ℕ := 2 ^ 128

def shellUnit : ℕ := 1000000000

def usdcUnit : ℕ := 1000000

def shellPerUsdcRaw : ℕ := 100 * shellUnit

def denoms : List ℕ := [1000, 100, 10, 1]

structure SellLot where
  denom : ℕ
  shellRaw : ℕ
  deriving DecidableEq

structure Plan where
  lots : List SellLot
  usdcWhole : ℕ
  shellCommittedRaw : ℕ
  usdcExpectedRaw : ℕ
  deriving DecidableEq

inductive SellPlanError where
  | zeroAmount
  | overflow
  | insufficientShell (requiredRaw availableRaw : ℕ)
  deriving DecidableEq

def checkedMul (a b : ℕ) : Option ℕ := if a * b < u128 then some (a * b) else none

def checkedAdd (a b : ℕ) : Option ℕ := if a + b < u128 then some (a + b) else none

def checkedSub (a b : ℕ) : Option ℕ := if b ≤ a then some (a - b) else none

def lotCount (usdcWhole : ℕ) : Option ℕ :=
  (denoms.foldlM (fun (total, left) denom =>
    (checkedAdd total (left / denom)).map fun total => (total, left % denom)) (0, usdcWhole)).map
      Prod.fst

def pushLots (denom : ℕ) : ℕ → Option (List SellLot)
  | 0 => some []
  | count + 1 => do
    let shellRaw ← checkedMul denom shellPerUsdcRaw
    let lots ← pushLots denom count
    return ⟨denom, shellRaw⟩ :: lots

/-- The lots of the denominations, and what is left. -/
def takeLots : List ℕ → ℕ → Option (List SellLot × ℕ)
  | [], left => some ([], left)
  | denom :: rest, left => do
    let count := left / denom
    let lots ← pushLots denom count
    let left ← checkedSub left (← checkedMul count denom)
    let (more, left) ← takeLots rest left
    return (lots ++ more, left)

/-- `usizeMax` is the largest count, and `reserve` says for which the allocator has room. -/
def forWholeUsdc (usizeMax : ℕ) (reserve : ℕ → Bool) (usdcWhole : ℕ) :
    Option (Except SellPlanError Plan) :=
  if usdcWhole = 0 then some (.error .zeroAmount)
  else
    match checkedMul usdcWhole shellPerUsdcRaw, checkedMul usdcWhole usdcUnit, lotCount usdcWhole with
    | some shellCommittedRaw, some usdcExpectedRaw, some count =>
      if usizeMax < count ∨ reserve count = false then some (.error .overflow)
      else do
        let (lots, left) ← takeLots denoms usdcWhole
        if left ≠ 0 then none
        else some (.ok ⟨lots, usdcWhole, shellCommittedRaw, usdcExpectedRaw⟩)
    | _, _, _ => some (.error .overflow)

def maxWholeUsdcFromShell (shellRaw : ℕ) : ℕ := shellRaw / shellPerUsdcRaw

def shellRemainderRaw (shellRaw : ℕ) : ℕ := shellRaw % shellPerUsdcRaw

def forAvailableShell (usizeMax : ℕ) (reserve : ℕ → Bool) (shellAvailableRaw : ℕ) :
    Option (Except SellPlanError Plan) :=
  forWholeUsdc usizeMax reserve (maxWholeUsdcFromShell shellAvailableRaw)

def Plan.requireFunded (p : Plan) (availableRaw : ℕ) : Except SellPlanError Unit :=
  if p.shellCommittedRaw > availableRaw then
    .error (.insufficientShell p.shellCommittedRaw availableRaw)
  else .ok ()

/-! ## What a plan should be -/

/-- A plan of the whole amount, in the fewest lots of the allowed sizes. -/
structure Commits (usdcWhole : ℕ) (p : Plan) : Prop where
  whole : p.usdcWhole = usdcWhole
  allowed : ∀ lot ∈ p.lots, lot.denom ∈ denoms ∧ lot.shellRaw = lot.denom * shellPerUsdcRaw
  sorted : p.lots.Pairwise fun a b => a.denom ≥ b.denom
  sum : (p.lots.map fun lot => lot.denom).sum = usdcWhole
  committed : p.shellCommittedRaw = usdcWhole * shellPerUsdcRaw
  shell : (p.lots.map fun lot => lot.shellRaw).sum = p.shellCommittedRaw
  expected : p.usdcExpectedRaw = usdcWhole * usdcUnit
  fits : p.shellCommittedRaw < u128
  fewest : ∀ l : List ℕ, (∀ d ∈ l, d ∈ denoms) → l.sum = usdcWhole → p.lots.length ≤ l.length

section Refusals

variable (usizeMax : ℕ) (reserve : ℕ → Bool)

/-- Nothing to sell, or a figure that does not fit. -/
def Refuses (usdcWhole : ℕ) (e : SellPlanError) : Prop :=
  (usdcWhole = 0 ∧ e = .zeroAmount) ∨
  (e = .overflow ∧ (u128 ≤ usdcWhole * shellPerUsdcRaw ∨
    usizeMax < (change denoms usdcWhole).length ∨ reserve (change denoms usdcWhole).length = false))

end Refusals

variable {usizeMax : ℕ} {reserve : ℕ → Bool} {n d : ℕ} {ds : List ℕ}

theorem denoms_coins : Coins denoms := ⟨by decide, by decide⟩

def lotOf (denom : ℕ) : SellLot := ⟨denom, denom * shellPerUsdcRaw⟩

theorem pushLots_eq (h : n = 0 ∨ d * shellPerUsdcRaw < u128) :
    pushLots d n = some (List.replicate n (lotOf d)) := by
  induction n with
  | zero => rfl
  | succ n ih =>
    have hfits := h.resolve_left (Nat.succ_ne_zero n)
    rw [pushLots, checkedMul, if_pos hfits, ih (.inr hfits)]
    rfl

/-- The lots are the change of the amount. -/
theorem takeLots_eq (h : n * shellPerUsdcRaw < u128) :
    takeLots ds n = some ((change ds n).map lotOf, rest ds n) := by
  induction ds generalizing n with
  | nil => rfl
  | cons d ds ih =>
    have hrate : 0 < shellPerUsdcRaw := by decide
    have hspent : n / d * d ≤ n := Nat.div_mul_le_self n d
    have hn : n ≤ n * shellPerUsdcRaw := Nat.le_mul_of_pos_right n hrate
    have hlots : n / d = 0 ∨ d * shellPerUsdcRaw < u128 := by
      rcases Nat.eq_zero_or_pos (n / d) with hzero | hpos
      · exact .inl hzero
      · have hd : d ≤ n := (Nat.le_mul_of_pos_left d hpos).trans hspent
        exact .inr ((Nat.mul_le_mul_right _ hd).trans_lt h)
    have hleft : n - n / d * d = n % d := by
      have hdiv := Nat.div_add_mod' n d
      omega
    have hmod : n % d * shellPerUsdcRaw < u128 :=
      (Nat.mul_le_mul_right _ (Nat.mod_le n d)).trans_lt h
    have hmul : checkedMul (n / d) d = some (n / d * d) :=
      if_pos (hspent.trans_lt (hn.trans_lt h))
    have hsub : checkedSub n (n / d * d) = some (n % d) := by
      rw [checkedSub, if_pos hspent, hleft]
    rw [takeLots, pushLots_eq hlots, hmul]
    dsimp only [Option.bind_eq_bind, Option.bind_some]
    rw [hsub]
    dsimp only [Option.bind_some]
    rw [ih hmod, change, rest, List.map_append, List.map_replicate]
    rfl

theorem lotCount_eq (h : n < u128) : lotCount n = some (change denoms n).length := by
  have hcount : ∀ (ds : List ℕ) (total left : ℕ), total + (change ds left).length < u128 →
      ds.foldlM (fun (p : ℕ × ℕ) denom =>
        (checkedAdd p.1 (p.2 / denom)).map fun total => (total, p.2 % denom)) (total, left) =
      some (total + (change ds left).length, rest ds left) := by
    intro ds
    induction ds with
    | nil => exact fun total left _ => rfl
    | cons d ds ih =>
      intro total left hlt
      rw [change_length] at hlt
      have hadd : checkedAdd total (left / d) = some (total + left / d) := if_pos (by omega)
      rw [List.foldlM_cons, hadd]
      change ds.foldlM _ (total + left / d, left % d) = _
      rw [ih _ _ (by omega), change_length, rest, Nat.add_assoc]
  have hlength : (change denoms n).length ≤ n := by
    have hone := change_shortest (l := List.replicate n 1) denoms_coins (by
      intro d hd
      rw [List.eq_of_mem_replicate hd]
      decide)
    rwa [List.sum_replicate, Nat.nsmul_eq_mul, Nat.mul_one, List.length_replicate] at hone
  unfold lotCount
  rw [hcount denoms 0 n (by omega)]
  simp

def planOf (usdcWhole : ℕ) : Plan where
  lots := (change denoms usdcWhole).map lotOf
  usdcWhole := usdcWhole
  shellCommittedRaw := usdcWhole * shellPerUsdcRaw
  usdcExpectedRaw := usdcWhole * usdcUnit

theorem planOf_commits (h : n * shellPerUsdcRaw < u128) : Commits n (planOf n) := by
  have hsum : (change denoms n).sum = n := by
    have hall := change_sum denoms n
    rwa [rest_eq_zero (by decide) denoms_coins.pos, Nat.add_zero] at hall
  refine ⟨rfl, ?_, ?_, ?_, rfl, ?_, rfl, h, ?_⟩
  · intro lot hlot
    obtain ⟨d, hd, rfl⟩ := List.mem_map.mp hlot
    exact ⟨mem_change d hd, rfl⟩
  · exact (change_sorted denoms_coins).map lotOf fun _ _ h => h
  · simpa [planOf, lotOf, Function.comp_def] using hsum
  · have hmap : ((change denoms n).map fun d => d * shellPerUsdcRaw).sum =
        (change denoms n).sum * shellPerUsdcRaw := by
      rw [List.sum_map_mul_right, List.map_id']
    rw [hsum] at hmap
    simpa [planOf, lotOf, Function.comp_def] using hmap
  · intro l hl hln
    have hshort := change_shortest denoms_coins hl
    rw [hln] at hshort
    simpa [planOf] using hshort

/-- No value wraps, and the amount is refused or planned. -/
theorem forWholeUsdc_eq (usizeMax : ℕ) (reserve : ℕ → Bool) (n : ℕ) : ∃ result,
    forWholeUsdc usizeMax reserve n = some result ∧
    ((result = .ok (planOf n) ∧ n * shellPerUsdcRaw < u128) ∨
      ∃ e, result = .error e ∧ Refuses usizeMax reserve n e) := by
  unfold forWholeUsdc
  by_cases hzero : n = 0
  · rw [if_pos hzero]
    exact ⟨_, rfl, .inr ⟨_, rfl, .inl ⟨hzero, rfl⟩⟩⟩
  rw [if_neg hzero]
  by_cases hfits : n * shellPerUsdcRaw < u128
  · have hn : n < u128 := (Nat.le_mul_of_pos_right n (by decide)).trans_lt hfits
    have husdc : n * usdcUnit < u128 := (Nat.mul_le_mul_left n (by decide)).trans_lt hfits
    rw [checkedMul, if_pos hfits, checkedMul, if_pos husdc, lotCount_eq hn]
    dsimp only
    by_cases hroom : usizeMax < (change denoms n).length ∨ reserve (change denoms n).length = false
    · rw [if_pos hroom]
      exact ⟨_, rfl, .inr ⟨_, rfl, .inr ⟨rfl, .inr hroom⟩⟩⟩
    · rw [if_neg hroom, takeLots_eq hfits, rest_eq_zero (by decide) denoms_coins.pos]
      exact ⟨_, rfl, .inl ⟨rfl, hfits⟩⟩
  · rw [checkedMul, if_neg hfits]
    exact ⟨_, rfl, .inr ⟨_, rfl, .inr ⟨rfl, .inl (not_lt.mp hfits)⟩⟩⟩

/-- An amount is refused, or planned exactly and in the fewest lots; a balance is refused, or the
most of it that makes whole units is planned. -/
theorem sell_plan (usizeMax : ℕ) (reserve : ℕ → Bool) :
    (∀ n, ∃ result, forWholeUsdc usizeMax reserve n = some result ∧
      ((∃ p, result = .ok p ∧ Commits n p) ∨
        ∃ e, result = .error e ∧ Refuses usizeMax reserve n e)) ∧
    ∀ balance, ∃ result, forAvailableShell usizeMax reserve balance = some result ∧
      ((∃ p, result = .ok p ∧ Commits (maxWholeUsdcFromShell balance) p ∧
          (∀ m, m * shellPerUsdcRaw ≤ balance → m ≤ p.usdcWhole) ∧
          p.shellCommittedRaw + shellRemainderRaw balance = balance ∧
          p.requireFunded balance = .ok ()) ∨
        ∃ e, result = .error e ∧ Refuses usizeMax reserve (maxWholeUsdcFromShell balance) e) := by
  constructor
  · intro n
    obtain ⟨result, hresult, ⟨rfl, hfits⟩ | hrefuses⟩ := forWholeUsdc_eq usizeMax reserve n
    · exact ⟨_, hresult, .inl ⟨_, rfl, planOf_commits hfits⟩⟩
    · exact ⟨_, hresult, .inr hrefuses⟩
  · intro balance
    have hdiv := Nat.div_add_mod' balance shellPerUsdcRaw
    obtain ⟨result, hresult, ⟨rfl, hfits⟩ | hrefuses⟩ :=
      forWholeUsdc_eq usizeMax reserve (maxWholeUsdcFromShell balance)
    · refine ⟨_, hresult, .inl ⟨_, rfl, planOf_commits hfits, ?_, hdiv, ?_⟩⟩
      · intro m hm
        exact (Nat.le_div_iff_mul_le (by decide)).mpr hm
      · have hcovered : ¬(planOf (maxWholeUsdcFromShell balance)).shellCommittedRaw > balance :=
          not_lt.mpr (Nat.div_mul_le_self balance shellPerUsdcRaw)
        rw [Plan.requireFunded, if_neg hcovered]
    · exact ⟨_, hresult, .inr hrefuses⟩

/-- A balance of less than one unit is refused, not planned as no lots. -/
theorem small_balance_refused : ¬ ∀ balance, ∃ p,
    forAvailableShell (2 ^ 64 - 1) (fun _ => true) balance = some (.ok p) ∧
      p.shellCommittedRaw + shellRemainderRaw balance = balance := by
  intro h
  obtain ⟨p, hp, -⟩ := h 0
  have hrefused : forAvailableShell (2 ^ 64 - 1) (fun _ => true) 0 = some (.error .zeroAmount) := rfl
  rw [hrefused] at hp
  cases hp

example : (forWholeUsdc (2 ^ 64 - 1) (fun _ => true) 2021).map (fun r => r.toOption.map fun p =>
    p.lots.map fun lot => lot.denom) = some (some [1000, 1000, 10, 10, 1]) := by
  decide

end SellPlan
