import FusionCore.Core.Moves

/-!
# Where positions come from

Only `open_position` puts a position at an address that has none, and only at the address of the
owner it names.  Every other instruction that writes a position has read one there first.
-/

namespace FusionCore

open Checked

/-- An address without a position still has none. -/
def StaysClosed (owner : Pubkey) (a a' : Accounts) : Prop :=
  a.state.positions.lookup owner = none → a'.state.positions.lookup owner = none

section Openings

variable {clk : Clock} {cfg : Config} {owner o : Pubkey} {amount : ℕ} {a a' : Accounts}
  {p q : Position}

theorem StaysClosed.of_eq (h : a'.state.positions = a.state.positions) :
    StaysClosed owner a a' := by
  intro hnone
  rw [h]
  exact hnone

theorem StaysClosed.of_insert (hp : a.state.positions.lookup o = some p)
    (h : a'.state.positions = a.state.positions.insert o q) : StaysClosed owner a a' := by
  intro hnone
  have hne : owner ≠ o := by
    rintro rfl
    rw [hnone] at hp
    cases hp
  rw [h, AList.lookup_insert_ne hne]
  exact hnone

theorem StaysClosed.of_advance (h : Advance a.state.positions a'.state.positions) :
    StaysClosed owner a a' := by
  intro hnone
  have hrel := h owner
  rw [hnone] at hrel
  cases hafter : a'.state.positions.lookup owner with
  | none => rfl
  | some q =>
    rw [hafter] at hrel
    cases hrel

/-! ## Handlers that write one position -/

theorem closePosition_staysClosed : Ensures (closePosition o a) (StaysClosed owner a) := by
  refine .after fun _ ↦ .after fun _ ↦ .after fun _ ↦ .after fun _ ↦ .ok fun hnone ↦ ?_
  change AList.lookup owner (a.state.positions.erase o) = none
  by_cases ho : owner = o
  · rw [ho, AList.lookup_erase]
  · rw [AList.lookup_erase_ne ho]
    exact hnone

theorem deposit_staysClosed : Ensures (deposit clk o amount a) (StaysClosed owner a) := by
  intro a' h
  obtain ⟨run, rfl⟩ := exists_depositRun (of_vaultChecked h)
  exact .of_insert run.visit.position_eq rfl

theorem withdraw_staysClosed : Ensures (withdraw clk o amount a) (StaysClosed owner a) := by
  intro a' h
  obtain ⟨run, rfl⟩ := exists_withdrawRun (of_vaultChecked h)
  exact .of_insert run.visit.position_eq rfl

theorem borrow_staysClosed : Ensures (borrow clk o amount a) (StaysClosed owner a) := by
  intro a' h
  obtain ⟨run, rfl⟩ := borrow_run h
  exact .of_insert run.visit.position_eq rfl

theorem repay_staysClosed : Ensures (repay clk o amount a) (StaysClosed owner a) := by
  intro a' h
  rcases repay_run h with ⟨run, rfl⟩ | ⟨run, rfl⟩
  · exact .of_insert run.position_eq rfl
  · exact .of_insert run.visit.position_eq rfl

theorem adjustRate_staysClosed {newRateBps : ℕ} :
    Ensures (adjustRate clk o newRateBps a) (StaysClosed owner a) := by
  intro a' h
  obtain ⟨run, rfl⟩ := adjustRate_run h
  exact .of_insert run.visit.position_eq rfl

theorem claimCollSurplus_staysClosed :
    Ensures (claimCollSurplus o a) (StaysClosed owner a) := by
  apply vaultChecked_ensures
  unfold claimCollSurplusUnchecked
  refine .bind okOr_ensures fun p hp ↦ .after fun _ ↦ .after fun _ ↦ .after fun _ ↦ ?_
  exact .ok (.of_insert hp rfl)

theorem liquidate_staysClosed {liquidator : Pubkey} {withBackstop : Bool} :
    Ensures (liquidate clk liquidator o withBackstop a) (StaysClosed owner a) := by
  apply vaultChecked_ensures
  intro a' h
  obtain ⟨run, rfl⟩ := exists_liquidationRun h
  exact .of_insert run.position_eq rfl

/-! ## Redemptions -/

variable {redeemer : Pubkey} {candidates : List Candidate}

theorem redeem_staysClosed (hi : Inv clk.unixTimestamp a) :
    Ensures (redeem clk redeemer amount candidates a) (StaysClosed owner a) := by
  apply vaultChecked_ensures
  intro a' h
  obtain ⟨run, rfl⟩ := exists_redeemRun h
  exact .of_advance (run.redemptionInv hi).loop.advance

theorem urgentRedeem_staysClosed (hi : Inv clk.unixTimestamp a) :
    Ensures (urgentRedeem clk redeemer amount candidates a) (StaysClosed owner a) := by
  apply vaultChecked_ensures
  intro a' h
  obtain ⟨run, rfl⟩ := exists_urgentRun h
  exact .of_advance (run.redemptionInv hi).loop.advance

/-! ## All instructions -/

theorem storeLine_staysClosed {l : DebtCeilingLine} :
    Ensures (storeLine clk l a) (StaysClosed owner a) := by
  unfold storeLine
  exact .after fun _ ↦ .ok (.of_eq rfl)

theorem payFromCounter_staysClosed {authority : Pubkey} {counter : ℕ} {m' : Market}
    {recipient : CollHolder} :
    Ensures (payFromCounter cfg authority counter m' recipient amount a)
      (StaysClosed owner a) := by
  unfold payFromCounter
  refine .after fun _ ↦ .after fun _ ↦ .after fun _ ↦ .after fun _ ↦ .after fun _ ↦ ?_
  exact .ok (.of_eq rfl)

theorem refreshMarket_staysClosed {cranker : Option FusdHolder} {withBackstop : Bool} :
    Ensures (refreshMarket clk cranker withBackstop a) (StaysClosed owner a) := by
  unfold refreshMarket
  refine .after fun _ ↦ .after fun _ ↦ .after fun m₁ ↦ .ite (fun _ ↦ .ok (.of_eq rfl)) fun _ ↦ ?_
  refine .after fun _ ↦ .after fun _ ↦ .after fun _ ↦ .after fun _ ↦ .after fun _ ↦ ?_
  exact .ok (.of_eq rfl)

theorem MarketInstr.run_staysClosed {i : MarketInstr} (hi : Inv clk.unixTimestamp a)
    (hopen : ∀ rate, i ≠ .openPosition owner rate) :
    Ensures (i.run cfg clk a) (StaysClosed owner a) := by
  cases i with
  | openPosition o rate =>
    refine .after fun _ ↦ .after fun _ ↦ .ok fun hnone ↦ ?_
    have hne : owner ≠ o := by
      rintro rfl
      exact hopen rate rfl
    exact (AList.lookup_insert_ne hne).trans hnone
  | closePosition => exact closePosition_staysClosed
  | deposit => exact deposit_staysClosed
  | withdraw => exact withdraw_staysClosed
  | borrow => exact borrow_staysClosed
  | repay => exact repay_staysClosed
  | adjustRate => exact adjustRate_staysClosed
  | claimCollSurplus => exact claimCollSurplus_staysClosed
  | redeem => exact redeem_staysClosed hi
  | urgentRedeem => exact urgentRedeem_staysClosed hi
  | liquidate => exact liquidate_staysClosed
  | refreshMarket => exact refreshMarket_staysClosed
  | initDebtCeilingLine | setDebtCeilingLine | bumpDebtCeiling =>
    exact .after fun _ ↦ .after fun _ ↦ storeLine_staysClosed
  | sweepProtocolCollateral | withdrawSurplus =>
    exact vaultChecked_ensures payFromCounter_staysClosed
  | shutdown | provideToReactor | withdrawFromReactor | claimReactorGains =>
    exact .after fun _ ↦ .after fun _ ↦ .after fun _ ↦ .ok (.of_eq rfl)
  | openReactorDeposit | initReactorPool | initInsuranceBuffer | guardianDerisk =>
    exact .after fun _ ↦ .after fun _ ↦ .ok (.of_eq rfl)
  | settleBadDebt =>
    refine .after fun _ ↦ .after fun _ ↦ .after fun _ ↦ ?_
    exact .after fun _ ↦ .after fun _ ↦ .ok (.of_eq rfl)
  | fundBuffer =>
    exact .after fun _ ↦ .after fun _ ↦ .after fun _ ↦ .after fun _ ↦ .ok (.of_eq rfl)
  | updatePrice => exact .ok (.of_eq rfl)
  | rebindFeeds | executeParamChange | mintCollateral | burnCollateral | transferCollateral =>
    exact .after fun _ ↦ .ok (.of_eq rfl)

end Openings

end FusionCore
