import FusionCore.Core.Ledger
import FusionCore.Core.Pool

/-!
# What an instruction may do

`Inv` is the invariant of one market with its accounts.  `Effect` is what every successful
instruction on a market satisfies: the invariant holds afterwards, the fUSD supply moves with
the net debt of the market, and no other market's Reactor Pool loses fUSD.
-/

namespace FusionCore

open Checked

/-! ## Token calls -/

/-- A call into the token program. -/
def tokenCall {α : Type} (x : Except TokenError α) : Except ProgramError α :=
  x.mapError ProgramError.token

@[simp] theorem tokenCall_eq_ok {α : Type} {x : Except TokenError α} {a : α} :
    tokenCall x = .ok a ↔ x = .ok a :=
  mapError_eq_ok

/-- The Reactor Pool vaults of the markets in `ks` lose no fUSD. -/
def Spares (ks : Set Pubkey) (l l' : TokenLedger FusdHolder) : Prop :=
  ∀ k ∈ ks, l.balance (.reactorVault k) ≤ l'.balance (.reactorVault k)

namespace Spares

variable {ks ks' : Set Pubkey} {l l' l'' : TokenLedger FusdHolder} {src dst : FusdHolder}
  {amount : ℕ}

theorem refl (ks : Set Pubkey) (l : TokenLedger FusdHolder) : Spares ks l l := fun _ _ ↦ le_rfl

theorem trans (h : Spares ks l l') (h' : Spares ks l' l'') : Spares ks l l'' :=
  fun k hk ↦ (h k hk).trans (h' k hk)

theorem mono (h : Spares ks l l') (hks : ks' ⊆ ks) : Spares ks' l l' :=
  fun k hk ↦ h k (hks hk)

theorem of_mintTo (h : l.mintTo dst amount = .ok l') : Spares ks l l' := by
  intro k _
  rw [TokenLedger.mintTo_balance h]
  exact Nat.le_add_right _ _

theorem of_burn (h : l.burn src amount = .ok l') (hsrc : ∀ k ∈ ks, src ≠ .reactorVault k) :
    Spares ks l l' := by
  intro k hk
  have hb := TokenLedger.burn_balance h (.reactorVault k)
  rw [if_neg (hsrc k hk).symm] at hb
  exact hb.ge

theorem of_transfer (h : l.transfer src dst amount = .ok l')
    (hsrc : ∀ k ∈ ks, src ≠ .reactorVault k) : Spares ks l l' := by
  obtain ⟨l₁, hburn, hmint⟩ := bind_eq_ok_iff.mp h
  exact (of_burn hburn hsrc).trans (of_mintTo hmint)

end Spares

/-! ## The invariant of one market -/

/-- Debt of a market that has reached the fUSD supply. -/
def net (m : Market) : ℤ := m.aggRecordedDebt - m.unmintedInterest + m.badDebt

/-- The bounds that initialisation and governance keep on the parameters. -/
structure MarketParams.Valid (p : MarketParams) : Prop where
  mcr_ge : MIN_MCR_BPS ≤ p.mcrBps
  gas_le : p.liqGasCompBps ≤ MAX_LIQ_GAS_COMP_BPS

structure Inv (now : ℕ) (a : Accounts) : Prop where
  book : Book now a.state.market a.state.bitmap a.state.positions a.state.tally
  vault : a.state.coll.balance .vault = tracked a.state.market + a.state.donated
  pool : ∀ rp, a.state.reactor = some rp →
    rp.state.totalDeposits ≤ a.fusd.balance (.reactorVault a.state.mint)
  valid : a.state.market.Valid

theorem Inv.mono {now now' : ℕ} {a : Accounts} (hi : Inv now a) (h : now ≤ now') :
    Inv now' a :=
  { hi with book := hi.book.mono h }

/-! ## Effects -/

/-- What one instruction does to the position at one address: it stays and advances, it is
opened empty, or it is closed empty. -/
inductive InkMove : Option Position → Option Position → Prop where
  | stay {p q : Option Position} (h : Option.Rel Position.Advances p q) : InkMove p q
  | opened {q : Position} (hink : q.ink = 0) (hnonce : q.inkNonce < 2 ^ 64) :
      InkMove none (some q)
  | closed {p : Position} (hink : p.ink = 0) : InkMove (some p) none

/-- Every position of `ps` is still there in `ps'` and has advanced; none is new. -/
def Advance (ps ps' : Table Pubkey Position) : Prop :=
  ∀ owner, Option.Rel Position.Advances (ps.lookup owner) (ps'.lookup owner)

namespace Advance

variable {ps ps' : Table Pubkey Position}

theorem refl (ps : Table Pubkey Position) : Advance ps ps := by
  intro owner
  cases ps.lookup owner with
  | none => exact .none
  | some p => exact .some (.refl p)

theorem insert {owner : Pubkey} {p q : Position} (h : Advance ps ps')
    (hp : ps'.lookup owner = some p) (hq : p.Advances q) :
    Advance ps (ps'.insert owner q) := by
  intro o
  by_cases ho : o = owner
  · subst ho
    rw [AList.lookup_insert]
    have hrel := h o
    rw [hp] at hrel
    generalize ps.lookup o = before at hrel ⊢
    cases hrel with
    | some hadv => exact .some (hadv.trans hq)
  · rw [AList.lookup_insert_ne ho]
    exact h o

end Advance

theorem InkMove.at_owner {ps ps' : Table Pubkey Position} {owner : Pubkey}
    (h : InkMove (ps.lookup owner) (ps'.lookup owner))
    (hne : ∀ o, o ≠ owner → ps'.lookup o = ps.lookup o) (o : Pubkey) :
    InkMove (ps.lookup o) (ps'.lookup o) := by
  by_cases ho : o = owner
  · exact ho ▸ h
  · rw [hne o ho]
    exact .stay (Advance.refl ps o)

/-- What a successful instruction on a market does. -/
structure Effect (now : ℕ) (a a' : Accounts) : Prop where
  inv : Inv now a'
  mint : a'.state.mint = a.state.mint
  supply : (a'.fusd.supply : ℤ) - net a'.state.market = a.fusd.supply - net a.state.market
  spares : Spares {a.state.mint}ᶜ a.fusd a'.fusd
  reactor : PoolMove REACTOR_MAX_SCALES a.state.reactor a'.state.reactor
  ink : ∀ owner, InkMove (a.state.positions.lookup owner) (a'.state.positions.lookup owner)

section Accrued

variable {m m' : Market} {now x ts : ℕ}

theorem Accrued.net (ha : Accrued m m' now x ts) : net m' = net m := by
  rw [ha.eq]
  simp only [FusionCore.net]
  push_cast
  ring

theorem Accrued.tracked (ha : Accrued m m' now x ts) : tracked m' = tracked m := by
  rw [ha.eq]
  rfl

theorem Accrued.params (ha : Accrued m m' now x ts) :
    m'.toMarketParams = m.toMarketParams := by
  rw [ha.eq]

end Accrued

section Touching

variable {now x ts k : ℕ} {a : Accounts} {owner : Pubkey} {p p' : Position} {m₁ m' : Market}
  {bm : RedemptionBitmap} {debt ink : ℕ} {coll : TokenLedger CollHolder}
  {fusd : TokenLedger FusdHolder}

theorem Effect.of_touch (hi : Inv now a) (hacc : Accrued a.state.market m₁ now x ts)
    (hp : a.state.positions.lookup owner = some p) (ht : Touch k m₁ m' p p' debt ink)
    (hr : Relabel a.state.bitmap bm p p') (hparams : m'.toMarketParams = m₁.toMarketParams)
    (hvault : coll.balance .vault + tracked m₁ = a.state.coll.balance .vault + tracked m')
    (hsupply : (fusd.supply : ℤ) - net m' = a.fusd.supply - net m₁)
    (hspares : Spares Set.univ a.fusd fusd) :
    Effect now a
      { a with
        state := { a.state with
          market := m'
          bitmap := bm
          positions := a.state.positions.insert owner p'
          coll
          tally := (a.state.tally.book a.state.market m₁).realized k }
        fusd } where
  inv :=
    { book := (hi.book.accrue hacc).touch hp ht hr
      vault := by
        have h₁ := hi.vault
        have h₂ := hacc.tracked
        dsimp only
        omega
      pool := fun rp hrp ↦ (hi.pool rp hrp).trans (hspares _ trivial)
      valid := by
        rw [hparams, hacc.params]
        exact hi.valid }
  mint := rfl
  supply := by
    rw [← hacc.net]
    exact hsupply
  spares := hspares.mono (Set.subset_univ _)
  reactor := .keep _
  ink := fun o ↦ .stay (((Advance.refl _).insert hp ht.advances) o)

end Touching

end FusionCore
