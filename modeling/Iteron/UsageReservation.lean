import Iteron.CostTypes
import Iteron.Rounding
import Mathlib.Algebra.BigOperators.Ring.List
import Mathlib.Algebra.Order.BigOperators.Group.List
import Mathlib.Algebra.Order.Ring.Nat
/-!
# UsageReservation — what a provider request may cost at most

A request is admitted against a bound on its input and its output.  The reservation prices that bound before the usage
is known; a bill is the usage itself, each token class rounded up to a micro-dollar on its own.
-/
namespace Iteron.Cost

open Machine (u64Max checkedAdd)
open Refuse (refuseIf bind_eq_ok refuseIf_eq_ok pure_eq_ok)
open Rounding (up)

def microtokensPerTokenClass : Nat := 1000000

/-! ## The bill -/

def u128Max : Nat := 340282366920938463463374607431768211455

/-- `u128::checked_mul` and `u128::checked_add`. -/
def checked128 (n : Nat) : Result Nat := if n ≤ u128Max then .ok n else .error .amountOverflow

def classCost (tokens rate : Nat) : Result Nat := do
  let numerator ← checked128 (tokens * rate)
  let raised ← checked128 (numerator + (microtokensPerTokenClass - 1))
  pure (raised / microtokensPerTokenClass)

/-- The token classes of a usage and their rates; thinking tokens are not billed as output again. -/
def classes (rates : TokenRateCard) (usage : Usage) : List (Nat × Nat) :=
  [(usage.input, rates.inputMicrousdPerMillion),
    (usage.output - usage.thinking, rates.outputMicrousdPerMillion),
    (usage.cacheCreation, rates.cacheCreationMicrousdPerMillion),
    (usage.cacheRead, rates.cacheReadMicrousdPerMillion),
    (usage.thinking, rates.thinkingMicrousdPerMillion)]

def projectedAmountMicrousd (rates : TokenRateCard) (usage : Usage) : Result Nat := do
  refuseIf (usage.output < usage.thinking) .thinkingExceedsOutput
  let total ← (classes rates usage).foldlM (fun total c => do
    let cost ← classCost c.1 c.2
    checked128 (total + cost)) 0
  if total ≤ u64Max then pure total else .error .amountOverflow

@[irreducible] def price (tokens rate : Nat) : Nat := up microtokensPerTokenClass (tokens * rate)

/-! ## The reservation -/

inductive KernelError where
  | budget
  | pricing (e : PricingError)
deriving DecidableEq

inductive ProviderUsageBoundSemantics where
  | independentClasses
  | partitionedInput

structure ProviderUsageReservation where
  tokens : Nat
  costMicrousd : Nat
deriving DecidableEq

def orBudget (o : Option Nat) : Except KernelError Nat :=
  match o with
  | none => .error .budget
  | some n => .ok n

def checkedMul (a b : Nat) : Option Nat := if a * b ≤ u64Max then some (a * b) else none

def inputMultiplier : ProviderUsageBoundSemantics → Nat
  | .independentClasses => 3
  | .partitionedInput => 1

def reservedTokens (semantics : ProviderUsageBoundSemantics) (input output : Nat) : Option Nat := do
  let tokens ← checkedMul input (inputMultiplier semantics)
  let out ← checkedMul output 2
  checkedAdd tokens out

/-- Tokens that classes of several rates share, priced at the dearest of them; each class after the first may round up
once more. -/
def partitionCost (tokens : Nat) (rates : List Nat) : Except KernelError Nat := do
  let maxPrice ← (projectedAmountMicrousd ⟨rates.foldl max 0, 0, 0, 0, 0⟩ { input := tokens }).mapError .pricing
  orBudget (checkedAdd maxPrice (min tokens (rates.countP (0 < ·)) - 1))

/-- The usage an independent bound is priced at: the whole output at the dearer of its two rates. -/
def boundUsage (rates : TokenRateCard) (input output : Nat) : Usage where
  input := input
  output := output
  cacheCreation := input
  cacheRead := input
  thinking := if rates.outputMicrousdPerMillion < rates.thinkingMicrousdPerMillion then output else 0

def reservedCost (rates : TokenRateCard) (input output : Nat) :
    ProviderUsageBoundSemantics → Except KernelError Nat
  | .independentClasses =>
    (projectedAmountMicrousd rates (boundUsage rates input output)).mapError .pricing
  | .partitionedInput => do
    let inputCost ← partitionCost input
      [rates.inputMicrousdPerMillion, rates.cacheCreationMicrousdPerMillion, rates.cacheReadMicrousdPerMillion]
    let outputCost ← partitionCost output [rates.outputMicrousdPerMillion, rates.thinkingMicrousdPerMillion]
    orBudget (checkedAdd inputCost outputCost)

def reservation (semantics : ProviderUsageBoundSemantics) (rates : TokenRateCard) (input output : Nat) :
    Except KernelError ProviderUsageReservation := do
  let tokens ← orBudget (reservedTokens semantics input output)
  let costMicrousd ← reservedCost rates input output semantics
  pure ⟨tokens, costMicrousd⟩

def checkedTokens (usage : Usage) : Except KernelError Nat :=
  orBudget ([usage.input, usage.output, usage.cacheCreation, usage.cacheRead, usage.thinking].foldlM checkedAdd 0)

/-! ## Prices -/

theorem price_mono {m n r s : Nat} (h : m ≤ n) (hr : r ≤ s) : price m r ≤ price n s := by
  unfold price
  exact Rounding.up_mono (Nat.mul_le_mul h hr)

variable {n : Nat}

theorem checked128_eq_ok {m : Nat} : checked128 n = .ok m ↔ n ≤ u128Max ∧ m = n := by
  unfold checked128
  by_cases h : n ≤ u128Max
  · simp [h, eq_comm]
  · simp [h]

variable {c : Nat}

theorem classCost_eq_ok {tokens rate : Nat} : classCost tokens rate = .ok c ↔
    tokens * rate + (microtokensPerTokenClass - 1) ≤ u128Max ∧ c = price tokens rate := by
  unfold classCost price
  simp only [bind_eq_ok, checked128_eq_ok, pure_eq_ok]
  constructor
  · rintro ⟨_, ⟨-, rfl⟩, _, ⟨h, rfl⟩, rfl⟩
    exact ⟨h, rfl⟩
  · rintro ⟨h, rfl⟩
    exact ⟨_, ⟨Nat.le_trans (Nat.le_add_right _ _) h, rfl⟩, _, ⟨h, rfl⟩, rfl⟩

def Fits (cs : List (Nat × Nat)) : Prop := ∀ c ∈ cs, c.1 * c.2 + (microtokensPerTokenClass - 1) ≤ u128Max

def prices (cs : List (Nat × Nat)) : Nat := (cs.map (fun c => price c.1 c.2)).sum

theorem prices_cons (c : Nat × Nat) (cs : List (Nat × Nat)) : prices (c :: cs) = price c.1 c.2 + prices cs := by
  rw [prices, List.map_cons, List.sum_cons, prices]

theorem foldlM_classCost : ∀ (cs : List (Nat × Nat)) (total n : Nat), n ≤ u64Max → (cs.foldlM (fun total c => do
      let cost ← classCost c.1 c.2
      checked128 (total + cost)) total = .ok n ↔ Fits cs ∧ n = total + prices cs)
  | [], total, n, _ => by
    rw [List.foldlM_nil, pure_eq_ok]
    constructor
    · rintro rfl
      exact ⟨fun c hc => absurd hc List.not_mem_nil, rfl⟩
    · rintro ⟨-, rfl⟩
      rfl
  | c :: cs, total, n, hn => by
    have hmax : u64Max ≤ u128Max := by
      unfold u64Max u128Max
      omega
    rw [List.foldlM_cons, bind_eq_ok]
    constructor
    · rintro ⟨t, ht, hrest⟩
      rw [bind_eq_ok] at ht
      obtain ⟨cost, hcost, ht⟩ := ht
      obtain ⟨hfits, rfl⟩ := classCost_eq_ok.1 hcost
      obtain ⟨-, rfl⟩ := checked128_eq_ok.1 ht
      obtain ⟨hall, rfl⟩ := (foldlM_classCost cs _ n hn).1 hrest
      refine ⟨List.forall_mem_cons.2 ⟨hfits, hall⟩, ?_⟩
      rw [prices_cons, Nat.add_assoc]
    · rintro ⟨hall, rfl⟩
      obtain ⟨hfits, hall⟩ := List.forall_mem_cons.1 hall
      rw [prices_cons, ← Nat.add_assoc] at hn ⊢
      refine ⟨total + price c.1 c.2, ?_, (foldlM_classCost cs _ _ hn).2 ⟨hall, rfl⟩⟩
      rw [bind_eq_ok]
      refine ⟨_, classCost_eq_ok.2 ⟨hfits, rfl⟩, checked128_eq_ok.2 ⟨?_, rfl⟩⟩
      omega

variable {rates : TokenRateCard} {a : Nat}

/-- **A bill is the sum of its classes' prices**, when that fits. -/
theorem projectedAmountMicrousd_eq_ok {usage : Usage} : projectedAmountMicrousd rates usage = .ok a ↔
      usage.thinking ≤ usage.output ∧ Fits (classes rates usage) ∧ a ≤ u64Max ∧ a = prices (classes rates usage) := by
  unfold projectedAmountMicrousd
  simp only [bind_eq_ok, refuseIf_eq_ok, Nat.not_lt]
  constructor
  · rintro ⟨-, hthinking, _, htotal, ha⟩
    split at ha
    · rename_i hle
      obtain rfl := pure_eq_ok.1 ha
      obtain ⟨hfits, rfl⟩ := (foldlM_classCost _ 0 _ hle).1 htotal
      rw [Nat.zero_add] at hle ⊢
      exact ⟨hthinking, hfits, hle, rfl⟩
    · cases ha
  · rintro ⟨hthinking, hfits, hle, rfl⟩
    refine ⟨(), hthinking, _, (foldlM_classCost _ 0 _ hle).2 ⟨hfits, (Nat.zero_add _).symm⟩, ?_⟩
    rw [if_pos hle]
    rfl

def inputPrices (rates : TokenRateCard) (input cacheCreation cacheRead : Nat) : Nat :=
  price input rates.inputMicrousdPerMillion + price cacheCreation rates.cacheCreationMicrousdPerMillion +
    price cacheRead rates.cacheReadMicrousdPerMillion

def outputPrices (rates : TokenRateCard) (visible thinking : Nat) : Nat :=
  price visible rates.outputMicrousdPerMillion + price thinking rates.thinkingMicrousdPerMillion

theorem prices_classes (rates : TokenRateCard) (usage : Usage) : prices (classes rates usage) =
    inputPrices rates usage.input usage.cacheCreation usage.cacheRead +
      outputPrices rates (usage.output - usage.thinking) usage.thinking := by
  have hnil : prices [] = 0 := rfl
  unfold classes inputPrices outputPrices
  rw [prices_cons, prices_cons, prices_cons, prices_cons, prices_cons, hnil, Nat.add_zero]
  dsimp only
  omega

@[simp] theorem price_zero (rate : Nat) : price 0 rate = 0 := by
  unfold price
  rw [Nat.zero_mul]
  exact Rounding.up_zero (by decide)

/-! ## The reserved cost -/

theorem orBudget_eq_ok {o : Option Nat} : orBudget o = .ok n ↔ o = some n := by
  cases o <;> simp [orBudget]

theorem le_foldl_max : ∀ (l : List Nat) (m : Nat), m ≤ l.foldl max m ∧ ∀ n ∈ l, n ≤ l.foldl max m
  | [], m => ⟨Nat.le_refl m, fun n hn => absurd hn List.not_mem_nil⟩
  | k :: l, m => by
    obtain ⟨hm, hl⟩ := le_foldl_max l (max m k)
    rw [List.foldl_cons]
    refine ⟨Nat.le_trans (Nat.le_max_left m k) hm, List.forall_mem_cons.2 ⟨?_, hl⟩⟩
    exact Nat.le_trans (Nat.le_max_right m k) hm

theorem partitionCost_eq_ok {tokens : Nat} {rates : List Nat} (h : partitionCost tokens rates = .ok c) :
    c = price tokens (rates.foldl max 0) + (min tokens (rates.countP (0 < ·)) - 1) := by
  unfold partitionCost at h
  rw [bind_eq_ok] at h
  obtain ⟨_, hmax, h⟩ := h
  obtain ⟨-, -, -, rfl⟩ := projectedAmountMicrousd_eq_ok.1 (Refuse.mapError_eq_ok.1 hmax)
  rw [Machine.checkedAdd_eq_some (orBudget_eq_ok.1 h), prices_classes, inputPrices, outputPrices]
  rw [Nat.sub_self, price_zero]
  dsimp only
  omega

theorem countP_le_sum : ∀ cs : List (Nat × Nat), (cs.map (fun c => c.1 * c.2)).countP (0 < ·) ≤ (cs.map Prod.fst).sum
  | [] => Nat.le_refl 0
  | c :: cs => by
    have ih := countP_le_sum cs
    rw [List.map_cons, List.map_cons, List.countP_cons, List.sum_cons]
    by_cases hc : 0 < c.1 * c.2
    · have : 0 < c.1 := Nat.pos_of_mul_pos_right hc
      rw [if_pos (decide_eq_true hc)]
      omega
    · rw [if_neg (by simpa using hc)]
      omega

theorem prices_le_partitionCost {cs : List (Nat × Nat)} {tokens c : Nat} (hsum : (cs.map Prod.fst).sum ≤ tokens)
    (h : partitionCost tokens (cs.map Prod.snd) = .ok c) : prices cs ≤ c := by
  set m := (cs.map Prod.snd).foldl max 0 with hm
  have hprices : prices cs = ((cs.map (fun c => c.1 * c.2)).map (up microtokensPerTokenClass)).sum := by
    rw [prices, List.map_map]
    congr 1
    refine List.map_congr_left (fun c _ => ?_)
    rw [Function.comp_apply, price]
  have hnumerators : (cs.map (fun c => c.1 * c.2)).sum ≤ tokens * m := by
    calc (cs.map (fun c => c.1 * c.2)).sum ≤ (cs.map (fun c => c.1 * m)).sum := by
          refine List.sum_le_sum (fun c hc => Nat.mul_le_mul_left _ ?_)
          exact (le_foldl_max _ 0).2 _ (List.mem_map_of_mem hc)
      _ = (cs.map Prod.fst).sum * m := List.sum_map_mul_right ..
      _ ≤ tokens * m := Nat.mul_le_mul_right m hsum
  have hrates : (cs.map (fun c => c.1 * c.2)).countP (0 < ·) ≤ (cs.map Prod.snd).countP (0 < ·) := by
    rw [List.countP_map, List.countP_map]
    refine List.countP_mono_left (fun c _ hc => ?_)
    simp only [Function.comp_apply, decide_eq_true_eq] at hc ⊢
    exact Nat.pos_of_mul_pos_left hc
  have hcount := countP_le_sum cs
  have hround := Rounding.sum_up_le (m := microtokensPerTokenClass) (by decide) (cs.map (fun c => c.1 * c.2))
  have hmono : up microtokensPerTokenClass (cs.map (fun c => c.1 * c.2)).sum ≤ price tokens m := by
    rw [price]
    exact Rounding.up_mono hnumerators
  rw [partitionCost_eq_ok h, ← hm, hprices]
  omega

def dearerRate (rates : TokenRateCard) : Nat :=
  max rates.outputMicrousdPerMillion rates.thinkingMicrousdPerMillion

variable {input output : Nat}

theorem independent_eq_ok (h : reservedCost rates input output .independentClasses = .ok c) :
    c ≤ u64Max ∧ c = inputPrices rates input input input + price output (dearerRate rates) ∧
      Fits [(input, rates.inputMicrousdPerMillion), (input, rates.cacheCreationMicrousdPerMillion),
        (input, rates.cacheReadMicrousdPerMillion), (output, dearerRate rates)] := by
  obtain ⟨-, hfits, hle, rfl⟩ := projectedAmountMicrousd_eq_ok.1 (Refuse.mapError_eq_ok.1 h)
  unfold Fits classes at hfits
  simp only [List.forall_mem_cons] at hfits
  obtain ⟨hinput, hvisible, hcreation, hread, hthinking, -⟩ := hfits
  rw [prices_classes] at hle ⊢
  unfold dearerRate
  unfold boundUsage outputPrices at *
  dsimp only at *
  by_cases hrate : rates.outputMicrousdPerMillion < rates.thinkingMicrousdPerMillion
  · rw [if_pos hrate] at *
    rw [Nat.sub_self, price_zero] at *
    rw [Nat.max_eq_right (Nat.le_of_lt hrate)]
    refine ⟨hle, ?_, ?_⟩
    · omega
    · simp only [Fits, List.forall_mem_cons]
      exact ⟨hinput, hcreation, hread, hthinking, fun c hc => absurd hc List.not_mem_nil⟩
  · rw [if_neg hrate] at *
    rw [Nat.sub_zero, price_zero] at *
    rw [Nat.max_eq_left (Nat.not_lt.1 hrate)]
    refine ⟨hle, ?_, ?_⟩
    · omega
    · simp only [Fits, List.forall_mem_cons]
      exact ⟨hinput, hcreation, hread, hvisible, fun c hc => absurd hc List.not_mem_nil⟩

theorem outputPrices_le (rates : TokenRateCard) {thinking : Nat} (h : thinking ≤ output) :
    outputPrices rates (output - thinking) thinking ≤ price output (dearerRate rates) + 1 := by
  have hvisible := @price_mono (output - thinking) _ rates.outputMicrousdPerMillion (dearerRate rates)
    (Nat.le_refl _) (Nat.le_max_left _ _)
  have hthinking := @price_mono thinking _ rates.thinkingMicrousdPerMillion (dearerRate rates)
    (Nat.le_refl _) (Nat.le_max_right _ _)
  have hsplit : price (output - thinking) (dearerRate rates) + price thinking (dearerRate rates) ≤
      price output (dearerRate rates) + 1 := by
    have hsum : output * dearerRate rates = (output - thinking) * dearerRate rates + thinking * dearerRate rates := by
      rw [← Nat.add_mul, Nat.sub_add_cancel h]
    unfold price
    rw [hsum]
    exact Rounding.up_add_up_le (by decide)
  unfold outputPrices
  omega

/-! ## What the reservation covers -/

def AdmissibleInput (input : Nat) (u : Usage) : ProviderUsageBoundSemantics → Prop
  | .partitionedInput => u.input + u.cacheCreation + u.cacheRead ≤ input
  | .independentClasses => u.input ≤ input ∧ u.cacheCreation ≤ input ∧ u.cacheRead ≤ input

/-- The usages the semantics allow under a bound. -/
structure Admissible (semantics : ProviderUsageBoundSemantics) (input output : Nat) (u : Usage) : Prop where
  input : AdmissibleInput input u semantics
  output : u.output ≤ output
  thinking : u.thinking ≤ u.output

/-- **A reservation covers** every bill its semantics allow, in cost and in tokens. -/
def Covers (semantics : ProviderUsageBoundSemantics) (rates : TokenRateCard) (input output : Nat)
    (r : ProviderUsageReservation) : Prop :=
  ∀ u, Admissible semantics input output u → ∀ a, projectedAmountMicrousd rates u = .ok a →
    a ≤ r.costMicrousd ∧ ∃ n, checkedTokens u = .ok n ∧ n ≤ r.tokens

/-- No division of the output bound into visible and thinking tokens, each rounded up, costs more than the whole bound at
the dearer rate; or with the whole input it costs more than 64 bits hold. -/
def RoundsWithin (rates : TokenRateCard) (input output : Nat) : Prop :=
  ∀ thinking ≤ output,
    outputPrices rates (output - thinking) thinking ≤ price output (dearerRate rates) ∨
      u64Max < inputPrices rates input input input + outputPrices rates (output - thinking) thinking

variable {u : Usage}

theorem checkedTokens_eq_ok (h : u.input + u.output + u.cacheCreation + u.cacheRead + u.thinking ≤ u64Max) :
    checkedTokens u = .ok (u.input + u.output + u.cacheCreation + u.cacheRead + u.thinking) := by
  unfold checkedTokens
  rw [orBudget_eq_ok]
  simp only [List.foldlM_cons, List.foldlM_nil, Machine.checkedAdd, Nat.zero_add, Option.bind_eq_bind]
  rw [if_pos (by omega), Option.bind_some, if_pos (by omega), Option.bind_some, if_pos (by omega), Option.bind_some,
    if_pos (by omega), Option.bind_some, if_pos (by omega), Option.bind_some]
  rfl

theorem reservedTokens_eq_some {semantics : ProviderUsageBoundSemantics} (h : reservedTokens semantics input output = some n) :
    n ≤ u64Max ∧ n = input * inputMultiplier semantics + output * 2 := by
  unfold reservedTokens checkedMul Machine.checkedAdd at h
  simp only [Option.bind_eq_bind, Option.bind_eq_some_iff, Option.ite_none_right_eq_some, Option.some.injEq] at h
  obtain ⟨_, ⟨-, rfl⟩, _, ⟨-, rfl⟩, hle, rfl⟩ := h
  exact ⟨hle, rfl⟩

theorem tokens_covered {semantics : ProviderUsageBoundSemantics}
    (h : reservedTokens semantics input output = some n) (hu : Admissible semantics input output u) :
    ∃ m, checkedTokens u = .ok m ∧ m ≤ n := by
  obtain ⟨hle, rfl⟩ := reservedTokens_eq_some h
  have hsum : u.input + u.output + u.cacheCreation + u.cacheRead + u.thinking ≤
      input * inputMultiplier semantics + output * 2 := by
    have houtput := hu.output
    have hthinking := hu.thinking
    have hinput := hu.input
    cases semantics with
    | partitionedInput =>
      simp only [AdmissibleInput] at hinput
      simp only [inputMultiplier]
      omega
    | independentClasses =>
      simp only [AdmissibleInput] at hinput
      simp only [inputMultiplier]
      omega
  exact ⟨_, checkedTokens_eq_ok (Nat.le_trans hsum hle), hsum⟩

theorem inputPrices_mono {rates : TokenRateCard} {i j k i' j' k' : Nat} (hi : i ≤ i') (hj : j ≤ j') (hk : k ≤ k') :
    inputPrices rates i j k ≤ inputPrices rates i' j' k' := by
  have hinput := @price_mono i i' rates.inputMicrousdPerMillion _ hi (Nat.le_refl _)
  have hcreation := @price_mono j j' rates.cacheCreationMicrousdPerMillion _ hj (Nat.le_refl _)
  have hread := @price_mono k k' rates.cacheReadMicrousdPerMillion _ hk (Nat.le_refl _)
  unfold inputPrices
  omega

theorem partitioned_covered
    (h : reservedCost rates input output .partitionedInput = .ok c) (hu : Admissible .partitionedInput input output u)
    (ha : projectedAmountMicrousd rates u = .ok a) : a ≤ c := by
  obtain ⟨-, -, -, rfl⟩ := projectedAmountMicrousd_eq_ok.1 ha
  unfold reservedCost at h
  simp only [bind_eq_ok, orBudget_eq_ok] at h
  obtain ⟨inputCost, hin, outputCost, hout, h⟩ := h
  rw [Machine.checkedAdd_eq_some h, prices_classes]
  have hnil : prices [] = 0 := rfl
  have hinput : inputPrices rates u.input u.cacheCreation u.cacheRead ≤ inputCost := by
    have hle := @prices_le_partitionCost [(u.input, rates.inputMicrousdPerMillion),
      (u.cacheCreation, rates.cacheCreationMicrousdPerMillion), (u.cacheRead, rates.cacheReadMicrousdPerMillion)]
      input inputCost (by have := hu.input; simp only [AdmissibleInput] at this; simp; omega) hin
    rw [prices_cons, prices_cons, prices_cons, hnil, Nat.add_zero] at hle
    dsimp only at hle
    unfold inputPrices
    omega
  have houtput : outputPrices rates (u.output - u.thinking) u.thinking ≤ outputCost := by
    have hle := @prices_le_partitionCost [(u.output - u.thinking, rates.outputMicrousdPerMillion),
      (u.thinking, rates.thinkingMicrousdPerMillion)]
      output outputCost (by have := hu.output; have := hu.thinking; simp; omega) hout
    rw [prices_cons, prices_cons, hnil, Nat.add_zero] at hle
    exact hle
  omega

theorem independent_covered (h : reservedCost rates input output .independentClasses = .ok c)
    (hu : Admissible .independentClasses input output u) (hround : RoundsWithin rates input output)
    (ha : projectedAmountMicrousd rates u = .ok a) : a ≤ c := by
  obtain ⟨-, -, hfit, rfl⟩ := projectedAmountMicrousd_eq_ok.1 ha
  obtain ⟨-, rfl, -⟩ := independent_eq_ok h
  have hthinking : u.thinking ≤ output := Nat.le_trans hu.thinking hu.output
  obtain ⟨hin, hcreation, hread⟩ := hu.input
  have hinput := @inputPrices_mono rates _ _ _ _ _ _ hin hcreation hread
  have hvisible := @price_mono (u.output - u.thinking) (output - u.thinking) rates.outputMicrousdPerMillion _
    (Nat.sub_le_sub_right hu.output _) (Nat.le_refl _)
  have houtput : outputPrices rates (u.output - u.thinking) u.thinking ≤
      outputPrices rates (output - u.thinking) u.thinking := Nat.add_le_add_right hvisible _
  rw [prices_classes] at hfit ⊢
  rcases hround u.thinking hthinking with _ | _
  · omega
  · -- the reservation is then the largest amount there is
    have := outputPrices_le rates hthinking
    omega

theorem whole_bill {thinking : Nat} (h : reservedCost rates input output .independentClasses = .ok c) (ht : thinking ≤ output)
    (hle : inputPrices rates input input input + outputPrices rates (output - thinking) thinking ≤ u64Max) :
    projectedAmountMicrousd rates ⟨input, output, input, input, thinking⟩ =
      .ok (inputPrices rates input input input + outputPrices rates (output - thinking) thinking) := by
  obtain ⟨-, -, hfits⟩ := independent_eq_ok h
  simp only [Fits, List.forall_mem_cons] at hfits
  obtain ⟨hinput, hcreation, hread, hout, -⟩ := hfits
  have hvisible := Nat.mul_le_mul (Nat.sub_le output thinking)
    (Nat.le_max_left rates.outputMicrousdPerMillion rates.thinkingMicrousdPerMillion)
  have hthinking := Nat.mul_le_mul ht (Nat.le_max_right rates.outputMicrousdPerMillion rates.thinkingMicrousdPerMillion)
  unfold dearerRate at hout
  rw [projectedAmountMicrousd_eq_ok, prices_classes]
  refine ⟨ht, ?_, hle, rfl⟩
  simp only [Fits, classes, List.forall_mem_cons]
  refine ⟨hinput, ?_, hcreation, hread, ?_, fun c hc => absurd hc List.not_mem_nil⟩
  · exact Nat.le_trans (Nat.add_le_add_right hvisible _) hout
  · exact Nat.le_trans (Nat.add_le_add_right hthinking _) hout

/-- **A reservation covers every bill exactly when** the input is partitioned, or no division of the output bound into
visible and thinking tokens rounds up past the whole bound at the dearer rate. -/
theorem reservation_covers_iff (semantics : ProviderUsageBoundSemantics) (rates : TokenRateCard) (input output : Nat)
    (r : ProviderUsageReservation) (h : reservation semantics rates input output = .ok r) :
    Covers semantics rates input output r ↔ semantics = .partitionedInput ∨ RoundsWithin rates input output := by
  unfold reservation at h
  simp only [bind_eq_ok, orBudget_eq_ok, pure_eq_ok] at h
  obtain ⟨tokens, htokens, _, hcost, rfl⟩ := h
  constructor
  · intro hcovers
    cases semantics with
    | partitionedInput => exact .inl rfl
    | independentClasses =>
      refine .inr (fun thinking ht => ?_)
      by_cases hle : inputPrices rates input input input + outputPrices rates (output - thinking) thinking ≤ u64Max
      · have hbill := (hcovers ⟨input, output, input, input, thinking⟩
          ⟨⟨Nat.le_refl _, Nat.le_refl _, Nat.le_refl _⟩, Nat.le_refl _, ht⟩ _ (whole_bill hcost ht hle)).1
        obtain ⟨-, rfl, -⟩ := independent_eq_ok hcost
        exact .inl (Nat.le_of_add_le_add_left hbill)
      · exact .inr (Nat.not_le.1 hle)
  · intro hcond u hu a ha
    refine ⟨?_, tokens_covered htokens hu⟩
    cases semantics with
    | partitionedInput => exact partitioned_covered hcost hu ha
    | independentClasses =>
      rcases hcond with hsemantics | hround
      · cases hsemantics
      · exact independent_covered hcost hu hround ha

/-- A micro-dollar and a quarter for a million output tokens, thinking or not. -/
def quarterRates : TokenRateCard := ⟨0, 1250000, 0, 0, 1250000⟩

def wholeRates : TokenRateCard := ⟨3000000, 15000000, 4000000, 1000000, 15000000⟩

/-- A partitioned bound, and an independent one at whole rates. -/
theorem reservation_covers_iff_whole :
    Covers .partitionedInput quarterRates 12 8 ⟨28, 11⟩ ∧ Covers .independentClasses wholeRates 12 8 ⟨52, 216⟩ := by
  constructor
  · exact (reservation_covers_iff .partitionedInput quarterRates 12 8 ⟨28, 11⟩ (by decide +kernel)).2 (.inl rfl)
  · refine (reservation_covers_iff .independentClasses wholeRates 12 8 ⟨52, 216⟩ (by decide +kernel)).2 (.inr ?_)
    unfold RoundsWithin
    decide +kernel

/-- **Two output tokens**, one of them thinking, cost four where three were reserved. -/
theorem not_reservation_covers : reservation .independentClasses quarterRates 0 2 = .ok ⟨4, 3⟩ ∧
      Admissible .independentClasses 0 2 ⟨0, 2, 0, 0, 1⟩ ∧
      projectedAmountMicrousd quarterRates ⟨0, 2, 0, 0, 1⟩ = .ok 4 ∧
      ¬ Covers .independentClasses quarterRates 0 2 ⟨4, 3⟩ := by
  have husage : Admissible .independentClasses 0 2 ⟨0, 2, 0, 0, 1⟩ :=
    ⟨⟨Nat.le_refl _, Nat.le_refl _, Nat.le_refl _⟩, Nat.le_refl _, by decide⟩
  have hbill : projectedAmountMicrousd quarterRates ⟨0, 2, 0, 0, 1⟩ = .ok 4 := by decide +kernel
  refine ⟨by decide +kernel, husage, hbill, fun hcovers => ?_⟩
  have hle : 4 ≤ 3 := (hcovers _ husage 4 hbill).1
  omega

end Iteron.Cost
