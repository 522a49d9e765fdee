import FusionCore.Math.FixedPoint

/-!
# Cross-oracle validation

A primary and a secondary feed, a market corridor and a canonical rate are combined into a low
and a high price and a mode.  Degraded inputs freeze minting; a price is always returned.
-/

namespace FusionCore
namespace Oracle

open Checked

/-- A difference of two `i64`. -/
def saturatingSubI64 (a b : ℤ) : ℤ := max (-2 ^ 63) (min (a - b) (2 ^ 63 - 1))

inductive OracleMode where
  | ok
  | mintFrozen
  deriving DecidableEq, Repr

/-- A feed in the common form: `price` and `conf` in units of `10 ^ expo`. -/
structure PriceView where
  price : ℕ
  conf : ℕ
  expo : ℤ
  publishTs : ℤ
  deriving DecidableEq, Repr

namespace PriceView

def confRatioBps (v : PriceView) : ℕ :=
  if v.price = 0 then 2 ^ 128 - 1 else saturatingMul 128 v.conf BPS_DENOMINATOR / v.price

def isStale (v : PriceView) (now maxAgeSecs : ℤ) : Bool :=
  decide (maxAgeSecs < saturatingSubI64 now v.publishTs)

/-- Recent and not zero. -/
def usable (v : PriceView) (now maxAgeSecs : ℤ) : Bool :=
  !v.isStale now maxAgeSecs && decide (0 < v.price)

end PriceView

/-- The high valuation: uncertainty works for the borrower whose position is at stake. -/
def debtPrice (v : PriceView) (kBps : ℕ) : ℕ :=
  saturatingAdd 128 v.price (saturatingMul 128 v.conf kBps / BPS_DENOMINATOR)

structure OracleConfig where
  maxConfBps : ℕ
  maxDeviationBps : ℕ
  twapMaxDivergenceBps : ℕ
  maxAgeSecs : ℤ
  kBps : ℕ
  bandLowerRay : ℕ
  bandUpperRay : ℕ
  liqMaxDivergenceBps : ℕ
  canonicalRequired : Bool
  twapCorridorOptional : Bool
  deriving DecidableEq, Repr

structure OracleResult where
  collateralPrice : ℕ
  debtPrice : ℕ
  mode : OracleMode
  fresh : Bool
  isPlausible : Bool
  liqDivergent : Bool
  deriving DecidableEq, Repr

/-- Relative gap of two prices, measured against the smaller one. -/
def deviationBps (a b : ℕ) : ℕ :=
  if min a b = 0 then 2 ^ 128 - 1
  else saturatingMul 128 (max a b - min a b) BPS_DENOMINATOR / min a b

section Parts

variable (pyth : PriceView) (switchboard : Option PriceView) (dexTwap canonical : Option ℕ)
  (now : ℤ) (cfg : OracleConfig)

/-- The best available view: the primary if it is usable, else the secondary if that one is, else
the more recent of the two that is not zero. -/
def chosenView : PriceView :=
  if pyth.usable now cfg.maxAgeSecs then pyth
  else
    match switchboard with
    | none => pyth
    | some s =>
      if s.usable now cfg.maxAgeSecs then s
      else if 0 < s.price ∧ (pyth.price = 0 ∨ pyth.publishTs < s.publishTs) then s
      else pyth

/-- The secondary is usable, comparable with the primary, and `p` holds of their deviation. -/
def secondarySatisfies (p : ℕ → Bool) : Bool :=
  switchboard.any fun s ↦
    s.usable now cfg.maxAgeSecs && decide (s.expo = pyth.expo) &&
      p (deviationBps pyth.price s.price)

/-- The band is a coarse rail; a zero bound is off. -/
def withinBand (price : ℕ) : Bool :=
  (decide (cfg.bandLowerRay = 0) || decide (cfg.bandLowerRay ≤ price)) &&
    (decide (cfg.bandUpperRay = 0) || decide (price ≤ cfg.bandUpperRay))

/-- A usable primary grossly disagrees with a secondary that is present. -/
def grosslyDivergent : Bool :=
  decide (0 < cfg.liqMaxDivergenceBps) && pyth.usable now cfg.maxAgeSecs &&
    (secondarySatisfies pyth switchboard now cfg
        (fun d ↦ decide (cfg.liqMaxDivergenceBps < d)) ||
      dexTwap.any fun t ↦ decide (cfg.liqMaxDivergenceBps < deviationBps pyth.price t))

/-- The corridor around the market average.  Where it is optional only a present average counts. -/
def withinCorridor : Bool :=
  match dexTwap with
  | none => cfg.twapCorridorOptional
  | some t => decide (deviationBps pyth.price t ≤ cfg.twapMaxDivergenceBps)

def mintAllowed : Bool :=
  pyth.usable now cfg.maxAgeSecs && decide (pyth.confRatioBps ≤ cfg.maxConfBps) &&
    secondarySatisfies pyth switchboard now cfg (fun d ↦ decide (d ≤ cfg.maxDeviationBps)) &&
    withinCorridor pyth dexTwap cfg &&
    withinBand cfg (chosenView pyth switchboard now cfg).price &&
    (!cfg.canonicalRequired || canonical.isSome)

/-- The canonical rate caps the low price only. -/
def collateralMid (price : ℕ) : ℕ :=
  match canonical with
  | some c => min price c
  | none => price

def aggregate : OracleResult :=
  let chosen := chosenView pyth switchboard now cfg
  { collateralPrice :=
      collateralMid canonical chosen.price
        - saturatingMul 128 chosen.conf cfg.kBps / BPS_DENOMINATOR
    debtPrice := debtPrice chosen cfg.kBps
    mode :=
      if mintAllowed pyth switchboard dexTwap canonical now cfg then .ok else .mintFrozen
    fresh := pyth.usable now cfg.maxAgeSecs ||
      switchboard.any fun s ↦ s.usable now cfg.maxAgeSecs
    isPlausible := withinBand cfg chosen.price
    liqDivergent := grosslyDivergent pyth switchboard dexTwap now cfg }

end Parts

/-! ## What the aggregate guarantees -/

section Results

variable {pyth : PriceView} {switchboard : Option PriceView} {dexTwap canonical : Option ℕ}
  {now : ℤ} {cfg : OracleConfig}

theorem collateralMid_le (price : ℕ) : collateralMid canonical price ≤ price := by
  cases canonical with
  | none => exact le_rfl
  | some c => exact min_le_left price c

theorem chosenView_mem : chosenView pyth switchboard now cfg = pyth ∨
    switchboard = some (chosenView pyth switchboard now cfg) := by
  unfold chosenView
  split
  · exact .inl rfl
  · cases switchboard with
    | none => exact .inl rfl
    | some s =>
      dsimp only
      split
      · exact .inr rfl
      · split
        · exact .inr rfl
        · exact .inl rfl

theorem aggregate_collateralPrice_le (hpyth : pyth.price < 2 ^ 128)
    (hsb : ∀ s ∈ switchboard, s.price < 2 ^ 128) :
    (aggregate pyth switchboard dexTwap canonical now cfg).collateralPrice ≤
      (aggregate pyth switchboard dexTwap canonical now cfg).debtPrice := by
  set chosen := chosenView pyth switchboard now cfg with hchosen
  have hfit : chosen.price < 2 ^ 128 := by
    rcases @chosenView_mem pyth switchboard now cfg with h | h
    · rw [hchosen, h]
      exact hpyth
    · exact hsb chosen h
  calc
    (aggregate pyth switchboard dexTwap canonical now cfg).collateralPrice
        ≤ collateralMid canonical chosen.price := Nat.sub_le _ _
    _ ≤ chosen.price := collateralMid_le chosen.price
    _ ≤ debtPrice chosen cfg.kBps := le_saturatingAdd hfit

/-- Where the pause threshold is off or above both mint thresholds, a reported divergence also
freezes minting. -/
theorem aggregate_mintFrozen_of_liqDivergent
    (hliq : cfg.liqMaxDivergenceBps = 0 ∨ cfg.twapMaxDivergenceBps ≤ cfg.liqMaxDivergenceBps ∧
      cfg.maxDeviationBps ≤ cfg.liqMaxDivergenceBps)
    (h : (aggregate pyth switchboard dexTwap canonical now cfg).liqDivergent = true) :
    (aggregate pyth switchboard dexTwap canonical now cfg).mode = .mintFrozen := by
  have hdiv : grosslyDivergent pyth switchboard dexTwap now cfg = true := h
  simp only [grosslyDivergent, Bool.and_eq_true, Bool.or_eq_true, decide_eq_true_eq] at hdiv
  obtain ⟨⟨hpos, -⟩, hwhich⟩ := hdiv
  obtain ⟨htwap, hdev⟩ := hliq.resolve_left hpos.ne'
  have hnot : mintAllowed pyth switchboard dexTwap canonical now cfg = false := by
    by_contra hmint
    simp only [mintAllowed, Bool.not_eq_false, Bool.and_eq_true] at hmint
    obtain ⟨⟨⟨⟨⟨-, -⟩, hsecond⟩, hcorridor⟩, -⟩, -⟩ := hmint
    rcases hwhich with hsb | ht
    · -- the same deviation would have to be above and below
      cases switchboard with
      | none => cases hsb
      | some s =>
        simp only [secondarySatisfies, Option.any_some, Bool.and_eq_true, decide_eq_true_eq]
          at hsb hsecond
        omega
    · cases dexTwap with
      | none => cases ht
      | some t =>
        simp only [Option.any_some, withinCorridor, decide_eq_true_eq] at ht hcorridor
        omega
  simp only [aggregate, hnot]
  rfl

end Results

end Oracle
end FusionCore
