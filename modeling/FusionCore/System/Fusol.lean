import FusionCore.Controller.DirectedShares
import FusionCore.Core.Openings
import FusionCore.System.MarketRuns

/-!
# The fuSOL market and the stake controller

fuSOL is the token of the stake pool and the collateral of one market.  The two programs share
nothing else: the controller reads positions of the market, and the pool is the only one to mint
and burn the token.  A run is any interleaving of the instructions of both, under one clock, with
fuSOL moving freely between holders.
-/

namespace FusionCore

open Checked StakeController

/-- How the programs are deployed: the fuSOL mint, and the address of each position, which is
derived from its mint and its owner.  `locate` inverts the derivation. -/
structure Deployment where
  fusol : Pubkey
  address : Pubkey → Pubkey → Pubkey
  locate : Pubkey → Option (Pubkey × Pubkey)
  locate_eq_some : ∀ key mint owner, locate key = some (mint, owner) ↔ address mint owner = key

structure FusolWorld where
  core : SystemWorld
  stake : CrankWorld

/-- An instruction of fusd-core, or one of the controller and the pool; `holder` owns the account
that the pool mints to or burns from. -/
inductive FusolEvent where
  | core (e : SystemEvent)
  | stake (e : CrankEvent) (holder : Pubkey)

namespace Deployment

variable (d : Deployment)

/-! ## What the controller reads -/

/-- The account at an address, as fusd-core has written it. -/
def view (w : SystemWorld) (key : Pubkey) : Option PositionView := do
  let (mint, owner) ← d.locate key
  let state ← w.system.protocol.markets.lookup mint
  let p ← state.positions.lookup owner
  some ⟨owner, mint, p.ink, p.inkNonce⟩

/-- The supply of the fuSOL mint. -/
def supply (w : SystemWorld) : ℕ :=
  (w.system.protocol.markets.lookup d.fusol).elim 0 fun state ↦ state.coll.supply

/-- The position that an instruction passes is the one at its address. -/
def ReadsPosition (w : SystemWorld) (instr : CrankInstr) : Prop :=
  ∀ read ∈ instr.reads, read.2 = d.view w read.1

/-- An update of the pool finds the supply of the mint, with the epoch fee on top. -/
def ReadsSupply (w : SystemWorld) : CrankInstr → Prop
  | .finalizePool mintSupply fee _ => mintSupply = d.supply w + fee
  | .updateStakePoolBalance mintSupply => d.supply w ≤ mintSupply
  | _ => True

instance (w : SystemWorld) (instr : CrankInstr) : Decidable (d.ReadsPosition w instr) :=
  inferInstanceAs (Decidable (∀ read ∈ instr.reads, _))

instance (w : SystemWorld) : (instr : CrankInstr) → Decidable (d.ReadsSupply w instr)
  | .finalizePool mintSupply fee _ => inferInstanceAs (Decidable (mintSupply = d.supply w + fee))
  | .updateStakePoolBalance mintSupply => inferInstanceAs (Decidable (d.supply w ≤ mintSupply))
  | .registerValidator .. | .setPreference .. | .syncPreference .. | .closePreference ..
  | .startEpoch | .reconcileBatch .. | .snapshotPreference .. | .closePreferenceWindow
  | .planDirectedBatch .. | .planNeutralBatch .. | .finalizePlan .. | .executeNextAction ..
  | .finishEpoch .. | .depositSol .. | .depositStake .. | .updateValidatorListBalance ..
  | .cleanupRemovedValidatorEntries | .user .. | .fundMaintenance .. => .isTrue trivial

/-! ## The token -/

def mintEvent (clk : Clock) (holder : Pubkey) (amount : UInt64) : SystemEvent :=
  ⟨clk, .core (.market d.fusol (.mintCollateral holder amount)) rfl⟩

def burnEvent (clk : Clock) (holder : Pubkey) (amount : UInt64) : SystemEvent :=
  ⟨clk, .core (.market d.fusol (.burnCollateral holder amount)) rfl⟩

/-- What the pool adds to its token supply is minted, what it takes away is burnt. -/
def issue (clk : Clock) (holder : Pubkey) (before after : ℕ) (w : SystemWorld) :
    Option SystemWorld :=
  if before = after then some w
  else if before < 2 ^ 64 ∧ after < 2 ^ 64 then
    if before < after then w.next (d.mintEvent clk holder (UInt64.ofNat (after - before)))
    else w.next (d.burnEvent clk holder (UInt64.ofNat (before - after)))
  else none

/-! ## Runs -/

/-- Minting and burning fuSOL is left to the pool. -/
def issues (i : SystemInstr) : Bool :=
  match i.coreOn d.fusol with
  | some (.mintCollateral _ _) => true
  | some (.burnCollateral _ _) => true
  | _ => false

def next : FusolEvent → FusolWorld → Option FusolWorld
  | .core e, w =>
    if w.stake.clock.Le e.clock ∧ d.issues e.instr = false then
      (SystemWorld.next e w.core).map fun core ↦ { w with core }
    else none
  | .stake e holder, w =>
    if w.core.clock.Le e.sys.clock ∧ d.ReadsPosition w.core e.instr ∧
        d.ReadsSupply w.core e.instr then do
      let stake ← w.stake.next e
      let core ← d.issue e.sys.clock holder w.stake.controller.pool.poolTokenSupply
        stake.controller.pool.poolTokenSupply w.core
      some ⟨core, stake⟩
    else none

/-- Any two states of the programs in which the pool knows the supply of its token and nobody has
stated a preference yet. -/
structure Start (w : FusolWorld) : Prop where
  core : fusion.Reach w.core
  stake : crank.Reach w.stake
  mint : w.stake.controller.config.fusolCollateralMint = d.fusol
  supply : w.stake.controller.pool.poolTokenSupply = d.supply w.core
  preferences : w.stake.controller.preferences = ∅
  undirected : w.stake.controller.records.All fun r ↦ r.directedShares = 0

def machine : Machine FusolWorld FusolEvent where
  init := d.Start
  step e w w' := d.next e w = some w'

/-! ## Steps -/

variable {d}

/-- One step of a run: an instruction of fusd-core, or one of the controller or the pool after
which the pool has settled its token supply. -/
inductive Step (d : Deployment) (w w' : FusolWorld) : FusolEvent → Prop where
  | core {e : SystemEvent} (hs : fusion.step e w.core w'.core) (hstake : w'.stake = w.stake) :
      Step d w w' (.core e)
  | stake {e : CrankEvent} {holder : Pubkey} (hs : crank.step e w.stake w'.stake)
      (hposition : d.ReadsPosition w.core e.instr) (hsupply : d.ReadsSupply w.core e.instr)
      (hcore : w'.core = w.core ∨ ∃ e', fusion.step e' w.core w'.core ∧
        ∀ owner rate, e'.instr.coreOn d.fusol ≠ some (.openPosition owner rate)) :
      Step d w w' (.stake e holder)

theorem issue_cases {clk : Clock} {holder : Pubkey} {before after : ℕ} {w w' : SystemWorld}
    (h : d.issue clk holder before after w = some w') :
    w' = w ∨ ∃ e, fusion.step e w w' ∧
      ∀ owner rate, e.instr.coreOn d.fusol ≠ some (.openPosition owner rate) := by
  unfold issue at h
  split at h
  · exact .inl (Option.some.inj h).symm
  · split at h
    · split at h
      · refine .inr ⟨_, fusion_step_of_next _ _ _ h, fun owner rate ↦ ?_⟩
        simp [mintEvent, SystemInstr.coreOn]
      · refine .inr ⟨_, fusion_step_of_next _ _ _ h, fun owner rate ↦ ?_⟩
        simp [burnEvent, SystemInstr.coreOn]
    · cases h

theorem machine_step {e : FusolEvent} {w w' : FusolWorld} (h : d.machine.step e w w') :
    Step d w w' e := by
  change d.next e w = some w' at h
  cases e with
  | core e =>
    simp only [next, Option.ite_none_right_eq_some, Option.map_eq_some_iff] at h
    obtain ⟨-, core, hcore, rfl⟩ := h
    exact .core (fusion_step_of_next _ _ _ hcore) rfl
  | stake e holder =>
    simp only [next, Option.ite_none_right_eq_some, Option.bind_eq_bind,
      Option.bind_eq_some_iff, Option.some.injEq] at h
    obtain ⟨⟨-, hposition, hsupply⟩, stake, hstake, core, hcore, rfl⟩ := h
    exact .stake hstake hposition hsupply (issue_cases hcore)

theorem machine_reach {G : FusolEvent → FusolWorld → Prop} {w : FusolWorld}
    (h : d.machine.Reachable G w) : fusion.Reach w.core ∧ crank.Reach w.stake := by
  induction h with
  | init h => exact ⟨h.core, h.stake⟩
  | @step w w' e hreach hg hs ih =>
    obtain ⟨hcore, hstake⟩ := ih
    cases machine_step hs with
    | core hrun hkept =>
      rw [hkept]
      exact ⟨.step _ hcore trivial hrun, hstake⟩
    | stake hrun _ _ hissue =>
      refine ⟨?_, .step _ hstake trivial hrun⟩
      obtain heq | ⟨e', hs', -⟩ := hissue
      · rw [heq]
        exact hcore
      · exact .step e' hcore trivial hs'

/-! ## Positions -/

/-- The position of the fuSOL market at an address. -/
def held (d : Deployment) (w : SystemWorld) (key : Pubkey) : Option Position := do
  let (mint, owner) ← d.locate key
  if mint = d.fusol then
    let state ← w.system.protocol.markets.lookup d.fusol
    state.positions.lookup owner
  else none

theorem held_eq_some {w : SystemWorld} {key : Pubkey} {p : Position} :
    d.held w key = some p ↔ ∃ owner state, d.address d.fusol owner = key ∧
      w.system.protocol.markets.lookup d.fusol = some state ∧
        state.positions.lookup owner = some p := by
  simp only [held, Option.bind_eq_bind, Option.bind_eq_some_iff, Prod.exists,
    Option.ite_none_right_eq_some, d.locate_eq_some]
  constructor
  · rintro ⟨mint, owner, hkey, rfl, state, hstate, hp⟩
    exact ⟨owner, state, hkey, hstate, hp⟩
  · rintro ⟨owner, state, hkey, hstate, hp⟩
    exact ⟨d.fusol, owner, hkey, rfl, state, hstate, hp⟩

theorem held_of_view {w : SystemWorld} {key : Pubkey} {pos : PositionView}
    (h : d.view w key = some pos) (hmint : pos.collateralMint = d.fusol) :
    ∃ p, d.held w key = some p ∧ pos.ink = p.ink ∧ pos.inkNonce = p.inkNonce := by
  simp only [view, Option.bind_eq_bind, Option.bind_eq_some_iff, Prod.exists, Option.some.injEq,
    d.locate_eq_some] at h
  obtain ⟨mint, owner, hkey, state, hstate, p, hp, rfl⟩ := h
  obtain rfl : mint = d.fusol := hmint
  exact ⟨p, held_eq_some.mpr ⟨owner, state, hkey, hstate, hp⟩, rfl, rfl⟩

/-- A step of fusd-core, seen from an address: the position there has advanced from one that was
there before, or `open_position` has put it there. -/
theorem fusion_held {e : SystemEvent} {w w' : SystemWorld} (hreach : fusion.Reach w)
    (hs : fusion.step e w w') {key : Pubkey} {p' : Position} (hp' : d.held w' key = some p') :
    (∃ p, d.held w key = some p ∧ p.Advances p') ∨
      ∃ owner rate, d.address d.fusol owner = key ∧
        e.instr.coreOn d.fusol = some (.openPosition owner rate) := by
  obtain ⟨owner, state', hkey, hstate', hl'⟩ := held_eq_some.mp hp'
  cases fusion_market_run hs d.fusol with
  | idle _ hsame =>
    rw [hsame] at hstate'
    exact .inl ⟨p', held_eq_some.mpr ⟨owner, state', hkey, hstate', hl'⟩, .refl p'⟩
  | birth _ _ _ _ born _ hinit hborn =>
    obtain rfl := Option.some.inj (hborn.symm.trans hstate')
    rw [initMarket_eq hinit] at hl'
    cases hl'
  | run j state after hcore hstate hrun hafter =>
    obtain rfl := Option.some.inj (hafter.symm.trans hstate')
    have hi := fusion_market_inv hreach hs.1 hstate
    cases hl : state.positions.lookup owner with
    | none =>
      by_cases hopen : ∃ rate, j = .openPosition owner rate
      · obtain ⟨rate, rfl⟩ := hopen
        obtain hcore | ⟨-, hgoverns⟩ := hcore
        · exact .inr ⟨owner, rate, hkey, hcore⟩
        · exact hgoverns.elim
      · have hclosed := MarketInstr.run_staysClosed hi (not_exists.mp hopen) _ hrun hl
        rw [show (w'.system.accounts after).state.positions.lookup owner = some p' from hl']
          at hclosed
        cases hclosed
    | some p =>
      have hmove := (MarketInstr.run_effect hi hrun).ink owner
      rw [show (w.system.accounts state).state.positions.lookup owner = some p from hl,
        show (w'.system.accounts after).state.positions.lookup owner = some p' from hl'] at hmove
      cases hmove with
      | stay hrel =>
        cases hrel with
        | some hadv =>
          exact .inl ⟨p, held_eq_some.mpr ⟨owner, state, hkey, hstate, hl⟩, hadv⟩

theorem held_address {w : SystemWorld} {state : MarketState}
    (hstate : w.system.protocol.markets.lookup d.fusol = some state) (owner : Pubkey) :
    d.held w (d.address d.fusol owner) = state.positions.lookup owner := by
  have hlocate : d.locate (d.address d.fusol owner) = some (d.fusol, owner) :=
    (d.locate_eq_some _ _ _).mpr rfl
  simp only [held, hlocate, hstate, Option.bind_eq_bind, Option.bind_some, if_true]

theorem address_injective (d : Deployment) : Function.Injective (d.address d.fusol) := by
  intro owner owner' h
  have hlocate := (d.locate_eq_some _ _ _).mpr h
  rw [(d.locate_eq_some _ _ _).mpr rfl] at hlocate
  exact congrArg Prod.snd (Option.some.inj hlocate).symm

theorem sum_held_le {w : SystemWorld} (hreach : fusion.Reach w) (s : Finset Pubkey) :
    ∑ key ∈ s, (d.held w key).elim 0 Position.ink ≤ d.supply w := by
  cases hstate : w.system.protocol.markets.lookup d.fusol with
  | none =>
    refine (Finset.sum_eq_zero fun key _ ↦ ?_).trans_le (Nat.zero_le _)
    cases hheld : d.held w key with
    | none => rfl
    | some p =>
      obtain ⟨_, _, -, hsome, -⟩ := held_eq_some.mp hheld
      rw [hstate] at hsome
      cases hsome
  | some state =>
    have hi := fusion_market_inv hreach ⟨le_rfl, le_rfl, le_rfl⟩ hstate
    set owners := state.positions.keys.toFinset
    have hcover : ∀ key ∈ s, (d.held w key).elim 0 Position.ink ≠ 0 →
        key ∈ owners.image (d.address d.fusol) := by
      intro key _ hne
      cases hheld : d.held w key with
      | none =>
        rw [hheld] at hne
        exact absurd rfl hne
      | some p =>
        obtain ⟨owner, state', rfl, hsome, hp⟩ := held_eq_some.mp hheld
        obtain rfl := Option.some.inj (hstate.symm.trans hsome)
        refine Finset.mem_image_of_mem _ (List.mem_toFinset.mpr ?_)
        exact AList.mem_keys.mp (AList.lookup_isSome.mp (Option.isSome_of_eq_some hp))
    have hvault : state.market.totalCollateral ≤ state.coll.balance .vault := by
      have hbalance := hi.vault
      unfold tracked at hbalance
      dsimp only [System.accounts] at hbalance
      omega
    calc
      ∑ key ∈ s, (d.held w key).elim 0 Position.ink
          ≤ ∑ key ∈ owners.image (d.address d.fusol), (d.held w key).elim 0 Position.ink :=
        Finset.sum_le_sum_of_ne_zero hcover
      _ = ∑ owner ∈ owners, (d.held w (d.address d.fusol owner)).elim 0 Position.ink :=
        Finset.sum_image d.address_injective.injOn
      _ = ∑ owner ∈ owners, (state.positions.lookup owner).elim 0 Position.ink :=
        Finset.sum_congr rfl fun owner _ ↦ by rw [held_address hstate]
      _ = state.positions.total Position.ink := (Table.total_eq_sum subset_rfl).symm
      _ ≤ state.market.totalCollateral := hi.book.ink_le
      _ ≤ state.coll.balance .vault := hvault
      _ ≤ state.coll.supply := state.coll.balance_le_supply _
      _ = d.supply w := by rw [supply, hstate, Option.elim_some]

end Deployment

end FusionCore
