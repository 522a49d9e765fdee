import FusionCore.Core.Effect

/-!
# Reactor Pool instructions

Each instruction is one operation of the pool together with the transfer that goes with it.
-/

namespace FusionCore

open Checked

/-! ## Handlers -/

def openReactorDeposit (owner : Pubkey) (a : Accounts) : Except ProgramError Accounts := do
  let rp ← okOr a.state.reactor .accountNotInitialized
  let rp₁ ← rp.openDeposit owner
  pure { a with state := { a.state with reactor := some rp₁ } }

def provideToReactor (owner : Pubkey) (amount : ℕ) (a : Accounts) :
    Except ProgramError Accounts := do
  let rp ← okOr a.state.reactor .accountNotInitialized
  let rp₁ ← rp.provide REACTOR_MAX_SCALES owner amount
  let fusd ← tokenCall (a.fusd.transfer (.wallet owner) (.reactorVault a.state.mint) amount)
  pure { a with state := { a.state with reactor := some rp₁ }, fusd }

def withdrawFromReactor (owner : Pubkey) (amount : ℕ) (a : Accounts) :
    Except ProgramError Accounts := do
  let rp ← okOr a.state.reactor .accountNotInitialized
  let (rp₁, withdrawAmt) ← rp.withdraw REACTOR_MAX_SCALES owner amount
  let fusd ← (if 0 < withdrawAmt then
      tokenCall (a.fusd.transfer (.reactorVault a.state.mint) (.wallet owner) withdrawAmt)
    else pure a.fusd)
  pure { a with state := { a.state with reactor := some rp₁ }, fusd }

def claimReactorGains (owner : Pubkey) (a : Accounts) : Except ProgramError Accounts := do
  let rp ← okOr a.state.reactor .accountNotInitialized
  let (rp₁, amount) ← rp.claim REACTOR_MAX_SCALES owner
  let coll ← (if 0 < amount then
      tokenCall (a.state.coll.transfer .reactorVault (.wallet owner) amount)
    else pure a.state.coll)
  pure { a with state := { a.state with reactor := some rp₁, coll } }

/-! ## Effects -/

section Effects

variable {now amount : ℕ} {owner : Pubkey} {a a' : Accounts}

theorem openReactorDeposit_effect (hi : Inv now a) (h : openReactorDeposit owner a = .ok a') :
    Effect now a a' := by
  simp only [openReactorDeposit, bind_eq_ok_iff, okOr_eq_ok, pure_eq_ok] at h
  obtain ⟨rp, hrp, rp₁, hopen, rfl⟩ := h
  have htotal := Pool.openDeposit_state hopen
  exact
    { inv := { hi with pool := by rintro _ ⟨⟩; rw [htotal]; exact hi.pool rp hrp }
      mint := rfl
      supply := rfl
      spares := Spares.refl _ _
      reactor := by
        rw [hrp]
        exact .exec (.openDeposit owner) _ (by simp only [Pool.exec, hopen]; rfl)
      ink := fun o ↦ .stay (Advance.refl _ o) }

theorem provideToReactor_effect (hi : Inv now a)
    (h : provideToReactor owner amount a = .ok a') : Effect now a a' := by
  simp only [provideToReactor, bind_eq_ok_iff, okOr_eq_ok, tokenCall_eq_ok, pure_eq_ok] at h
  obtain ⟨rp, hrp, rp₁, hprov, fusd, hfusd, rfl⟩ := h
  have htotal := Pool.provide_total hprov
  have hbal := TokenLedger.transfer_balance hfusd (.reactorVault a.state.mint)
  exact
    { inv :=
        { hi with
          pool := by
            rintro _ ⟨⟩
            have := hi.pool rp hrp
            simp only [reduceCtorEq, if_false, if_true] at hbal
            dsimp only
            omega }
      mint := rfl
      supply := by rw [TokenLedger.transfer_supply hfusd]
      spares := Spares.of_transfer hfusd fun k _ ↦ by simp
      reactor := by
        rw [hrp]
        exact .exec (.provide owner amount) _ (by simp only [Pool.exec, hprov]; rfl)
      ink := fun o ↦ .stay (Advance.refl _ o) }

theorem withdrawFromReactor_effect (hi : Inv now a)
    (h : withdrawFromReactor owner amount a = .ok a') : Effect now a a' := by
  simp only [withdrawFromReactor, bind_eq_ok_iff, okOr_eq_ok, pure_eq_ok, Prod.exists] at h
  obtain ⟨rp, hrp, rp₁, paid, hwith, fusd, hfusd, rfl⟩ := h
  have htotal := Pool.withdraw_total hwith
  have hpool := hi.pool rp hrp
  have hmove : PoolMove REACTOR_MAX_SCALES a.state.reactor (some rp₁) := by
    rw [hrp]
    exact .exec (.withdraw owner amount) _ (by simp only [Pool.exec, hwith]; rfl)
  rcases ite_eq_ok.mp hfusd with ⟨-, hfusd⟩ | ⟨-, hfusd⟩
  · rw [tokenCall_eq_ok] at hfusd
    have hbal := TokenLedger.transfer_balance hfusd (.reactorVault a.state.mint)
    exact
      { inv :=
          { hi with
            pool := by
              rintro _ ⟨⟩
              simp only [reduceCtorEq, if_false, if_true] at hbal
              dsimp only
              omega }
        mint := rfl
        supply := by rw [TokenLedger.transfer_supply hfusd]
        spares := Spares.of_transfer hfusd fun k hk heq ↦
          hk (FusdHolder.reactorVault.inj heq).symm
        reactor := hmove
        ink := fun o ↦ .stay (Advance.refl _ o) }
  · cases hfusd
    exact
      { inv := { hi with pool := by rintro _ ⟨⟩; dsimp only; omega }
        mint := rfl
        supply := rfl
        spares := Spares.refl _ _
        reactor := hmove
        ink := fun o ↦ .stay (Advance.refl _ o) }

theorem claimReactorGains_effect (hi : Inv now a) (h : claimReactorGains owner a = .ok a') :
    Effect now a a' := by
  simp only [claimReactorGains, bind_eq_ok_iff, okOr_eq_ok, pure_eq_ok, Prod.exists] at h
  obtain ⟨rp, hrp, rp₁, paid, hclaim, coll, hcoll, rfl⟩ := h
  have hstate := Pool.claim_state hclaim
  have hvault : coll.balance .vault = a.state.coll.balance .vault := by
    rcases ite_eq_ok.mp hcoll with ⟨-, hcoll⟩ | ⟨-, hcoll⟩
    · simpa using TokenLedger.transfer_balance (tokenCall_eq_ok.mp hcoll) .vault
    · cases hcoll
      rfl
  exact
    { inv :=
        { hi with
          vault := hvault.trans hi.vault
          pool := by
            rintro _ ⟨⟩
            rw [hstate]
            exact hi.pool rp hrp }
      mint := rfl
      supply := rfl
      spares := Spares.refl _ _
      reactor := by
        rw [hrp]
        exact .exec (.claim owner) _ (by simp only [Pool.exec, hclaim]; rfl)
      ink := fun o ↦ .stay (Advance.refl _ o) }

end Effects

end FusionCore
