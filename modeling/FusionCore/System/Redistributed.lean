import FusionCore.System.MarketRuns

/-!
# What redistribution conserves

A liquidation that redistributes raises one index for collateral and one for debt, and a position
collects its share of both when it is next touched.  The sums of a run read what was collected off
the stored positions: it is what these hold beyond what instructions have put in and taken out and
beyond the interest charged.  Over a whole run, what was redistributed is what was collected, what
is still to be collected, and dust.
-/

namespace FusionCore

open Checked Oracle LazyIndex

/-! ## The two sides -/

/-- The two things that are redistributed. -/
inductive Side where
  | coll
  | debt
  deriving DecidableEq

namespace Side

def snap : Side → Position → ℕ
  | coll => Position.redistLCollSnapshot
  | debt => Position.redistLArtSnapshot

def level : Side → Market → ℕ
  | coll => Market.lColl
  | debt => Market.lArt

/-- The carried error. -/
def residual : Side → Market → ℕ
  | coll => Market.lastCollRedistError
  | debt => Market.lastArtRedistError

def part : Side → ℕ × ℕ → ℕ
  | coll => Prod.fst
  | debt => Prod.snd

/-- What a position holds. -/
def stored (side : Side) (p : Position) : ℕ := side.part p.holdings

/-- The interest charged between two stored versions of a position. -/
def interest : Side → Option Position → Option Position → ℕ
  | debt, some p, some p' => interestUntil p p'.lastDebtUpdate
  | _, _, _ => 0

/-- What a position has still to collect. -/
def pending : Side → Market → Position → ℕ
  | coll => pendingColl
  | debt => pendingDebt

theorem pending_eq (side : Side) (m : Market) (p : Position) :
    side.pending m p = owed Position.stake side.snap (side.level m) p / PRECISION := by
  cases side <;> rfl

theorem part_add (side : Side) (x y : ℕ × ℕ) : side.part (x + y) = side.part x + side.part y := by
  cases side <;> rfl

theorem interest_self (side : Side) (p p' : Position) (h : p'.lastDebtUpdate = p.lastDebtUpdate) :
    side.interest (some p) (some p') = 0 := by
  cases side with
  | coll => rfl
  | debt => simp [interest, interestUntil, h]

end Side

section Steps

variable {now : ℕ} {limited : Bool} {shares : Option (ℕ × ℕ)} {m m' : Market} {a a' : Accounts}
  {t : Transfer} {moved : Pubkey → Transfer} {x y : Option Position}

/-- A position that is touched collects what was pending and starts again at the new index. -/
theorem PositionMove.settles (h : PositionMove now m m' t x y) (side : Side) :
    Move Position.stake side.snap (side.level m) (side.level m') x y := by
  cases h with
  | keep p =>
    cases x with
    | none => exact .absent
    | some p => exact .keep rfl rfl
  | claimed p collSurplus => cases side <;> exact .keep rfl rfl
  | touched h =>
    cases side with
    | coll => exact .settle h.lColl (h.raised.imp_right And.left)
    | debt => exact .settle h.lArt (h.raised.imp_right And.right)
  | opened _ hstake => exact .enter hstake
  | closed _ hstake => exact .leave hstake

/-- What an instruction stores is what was stored, what it moves, the interest and what is
realised. -/
theorem Touched.stored_eq {p p₁ p' : Position} (h : Touched now t m m' p p₁ p') (side : Side) :
    side.stored p' + side.part t.out =
      side.stored p + (side.part t.into + side.interest (some p) (some p') + side.pending m p) := by
  have hreal := realize_capped h.realized
  rw [Side.stored, ← side.part_add, h.holdings, side.part_add]
  cases side with
  | coll =>
    change p₁.ink + t.into.1 = p.ink + (t.into.1 + 0 + pendingColl m p)
    rw [hreal.ink]
    omega
  | debt =>
    change p₁.recordedDebt + t.into.2 =
      p.recordedDebt + (t.into.2 + interestUntil p p'.lastDebtUpdate + pendingDebt m p)
    rw [h.lastDebtUpdate, hreal.lastDebtUpdate, hreal.recordedDebt]
    omega

theorem PositionMove.stored_eq (h : PositionMove now m m' t x y) (side : Side)
    (hl : side.level m ≤ side.level m') :
    y.elim 0 side.stored + side.part t.out = x.elim 0 side.stored +
      (side.part t.into + side.interest x y +
        taken Position.stake side.snap PRECISION (side.level m) x y) := by
  cases h with
  | keep =>
    cases x with
    | none => cases side <;> rfl
    | some p =>
      rw [side.interest_self p p rfl]
      cases side <;> simp [Side.part, Transfer.none, taken]
  | claimed p collSurplus =>
    rw [side.interest_self p { p with collSurplus } rfl]
    cases side <;> simp [Side.part, Side.stored, Position.holdings, Transfer.none, taken, Side.snap]
  | @touched _ p _ p' h =>
    have htaken : taken Position.stake side.snap PRECISION (side.level m) (some p) (some p') =
        side.pending m p := by
      rw [taken, side.pending_eq]
      split
      next hsame =>
        -- a snapshot that is at the new index already owes nothing
        have hlevel : side.level m ≤ side.snap p := by
          rw [← hsame, show side.snap p' = side.level m' by
            cases side with
            | coll => exact h.lColl
            | debt => exact h.lArt]
          exact hl
        rw [owed, Nat.sub_eq_zero_of_le hlevel, Nat.mul_zero, Nat.zero_div]
      next => rfl
    rw [htaken]
    exact h.stored_eq side
  | opened hempty | closed hempty =>
    cases side <;> simp [Side.part, Side.stored, Side.interest, Transfer.none, taken, hempty]

theorem PositionMove.none_of_absent (h : PositionMove now m m' t none y) : t = .none := by
  cases h <;> rfl

theorem redistribute_spec {st st' : RedistState} {total coll debt : ℕ}
    (h : redistribute st total coll debt = .ok st') :
    (st.lColl ≤ st'.lColl ∧ (st'.lColl - st.lColl) * total + st'.lastCollError =
      coll * PRECISION + st.lastCollError) ∧
    st.lArt ≤ st'.lArt ∧ (st'.lArt - st.lArt) * total + st'.lastArtError =
      debt * PRECISION + st.lastArtError := by
  simp only [redistribute, bind_eq_ok_iff, require_eq_ok, pure_eq_ok, Prod.exists,
    exists_const] at h
  obtain ⟨hpos, lColl, collError, hcoll, lArt, artError, hart, rfl⟩ := h
  obtain ⟨hle, -, -, hsum⟩ := accumulate_spec (Nat.pos_of_ne_zero hpos) hcoll
  obtain ⟨hle', -, -, hsum'⟩ := accumulate_spec (Nat.pos_of_ne_zero hpos) hart
  exact ⟨⟨hle, hsum⟩, hle', hsum'⟩

/-- The rise of an index for all stakes, and the new residual, are what was handed out. -/
theorem IndexMove.distributes (h : IndexMove m m' shares) (side : Side) :
    side.level m ≤ side.level m' ∧
      shares.elim 0 side.part * PRECISION + side.residual m =
        (side.level m' - side.level m) * m'.totalStakes + side.residual m' := by
  cases h with
  | keep h =>
    have hlevel : side.level m' = side.level m := by
      cases side with
      | coll => exact congrArg RedistState.lColl h
      | debt => exact congrArg RedistState.lArt h
    have hresidual : side.residual m' = side.residual m := by
      cases side with
      | coll => exact congrArg RedistState.lastCollError h
      | debt => exact congrArg RedistState.lastArtError h
    rw [hlevel, hresidual]
    simp
  | raise h =>
    obtain ⟨⟨hcoll, hcollSum⟩, hart, hartSum⟩ := redistribute_spec h
    cases side with
    | coll => exact ⟨hcoll, hcollSum.symm⟩
    | debt => exact ⟨hart, hartSum.symm⟩

theorem Book.behind {bm : RedemptionBitmap} {ps : Table Pubkey Position} {t : Tally}
    (h : Book now m bm ps t) (side : Side) :
    ps.All (Behind Position.stake side.snap (side.level m)) := by
  cases side with
  | coll => exact h.coll_behind
  | debt => exact h.art_behind

/-- The running sums of one side of a market: what instructions have put into positions and taken
out of them, the interest charged, what was redistributed, and how often an index that had risen was
collected. -/
structure Turnover where
  into : ℕ
  out : ℕ
  interest : ℕ
  distributed : ℕ
  settlements : ℕ
  deriving DecidableEq

/-- The sums after a step in which a market goes from `s` to `s'`, hands out `shares` and moves
`moved`. -/
def Turnover.after (f : Turnover) (side : Side) (shares : Option (ℕ × ℕ))
    (moved : Pubkey → Transfer) (s s' : MarketState) : Turnover where
  into := f.into + s.positions.sumKeys fun o ↦ side.part (moved o).into
  out := f.out + s.positions.sumKeys fun o ↦ side.part (moved o).out
  interest := f.interest +
    s.positions.sumKeys fun o ↦ side.interest (s.positions.lookup o) (s'.positions.lookup o)
  distributed := f.distributed + shares.elim 0 side.part
  settlements := f.settlements +
    settlementsTotal side.snap (side.level s.market) s.positions s'.positions

/-- What the positions hold of the redistribution, and what a market has redistributed: collected,
pending or the residual. -/
def MarketState.Conserves (s : MarketState) (side : Side) (f : Turnover) : Prop :=
  ∃ realised, s.positions.total side.stored + f.out = f.into + f.interest + realised ∧
    Conserved Position.stake side.snap PRECISION (side.level s.market) (side.residual s.market)
      s.positions ⟨f.distributed, realised, f.settlements⟩

theorem Booked.conserves {side : Side} {f : Turnover} (h : Booked now limited shares moved a a')
    (hbehind : a.state.positions.All (Behind Position.stake side.snap (side.level a.state.market)))
    (hstakes : a'.state.market.totalStakes = a'.state.positions.total Position.stake)
    (hc : a.state.Conserves side f) :
    a'.state.Conserves side (f.after side shares moved a.state a'.state) := by
  obtain ⟨realised, hstored, hconserved⟩ := hc
  obtain ⟨hlevel, hamount⟩ := h.index.distributes side
  rw [hstakes] at hamount
  have hsums := Table.total_add_sumKeys
    (fun o ho ↦ by
      have hnone := (ho ▸ h.positions o).none_of_absent
      cases side <;> simp [hnone, ho, Side.part, Transfer.none, Side.interest, taken])
    fun o ↦ (h.positions o).stored_eq side hlevel
  rw [Table.sumKeys_add, Table.sumKeys_add] at hsums
  refine ⟨_, ?_, hconserved.step _ _ (fun o ↦ (h.positions o).settles side) hbehind hlevel
    PRECISION_pos hamount⟩
  simp only [Turnover.after, takenTotal]
  omega

end Steps

/-! ## Runs -/

/-- The sums of the market of `k` after a step. -/
def recordShares (k : Pubkey) (e : SystemEvent) (w w' : SystemWorld) (g : Side → Turnover)
    (side : Side) : Turnover :=
  match w.system.protocol.markets.lookup k, w'.system.protocol.markets.lookup k with
  | some s, some s' => (g side).after side (sharesOn k e w s) (movedOn k e w w' s s') s s'
  | _, _ => g side

def noShares (_ : Side) : Turnover := ⟨0, 0, 0, 0, 0⟩

section Runs

variable {k : Pubkey} {x : SystemWorld × (Side → Turnover)}

/-- A market that does not exist has redistributed nothing; one that exists conserves both sides. -/
def SharesKept (k : Pubkey) (x : SystemWorld × (Side → Turnover)) : Prop :=
  (x.1.system.protocol.markets.lookup k).elim (x.2 = noShares)
    fun s ↦ ∀ side, s.Conserves side (x.2 side)

theorem initMarket_conserves {cfg : Config} {authority mint : Pubkey} {clk : Clock}
    {freeze : Option Pubkey} {args : InitMarketArgs} {s : MarketState}
    (h : initMarket cfg authority clk mint freeze args = .ok s) (side : Side) :
    s.Conserves side (noShares side) := by
  obtain rfl := initMarket_eq h
  cases side <;> exact ⟨0, rfl, Nat.zero_le _, Nat.zero_le _⟩

theorem fusion_shares_kept (h : (fusion.withGhost noShares (recordShares k)).Reach x) :
    SharesKept k x := by
  induction h with
  | @init x h =>
    obtain ⟨⟨cfg, ids, decimals, hw⟩, hg⟩ := h
    have hnone : x.1.system.protocol.markets.lookup k = none := by
      rw [hw]
      rfl
    rw [SharesKept, hnone]
    exact hg
  | @step x x' e hreach _ hs ih =>
    obtain ⟨hstep, hghost⟩ := hs
    have hw := Machine.Reachable.forget (G := fun _ _ ↦ True) hreach
    unfold SharesKept at ih ⊢
    cases hl : x.1.system.protocol.markets.lookup k with
    | none =>
      rw [hl] at ih
      cases fusion_market_run hstep k with
      | idle hcore hsame =>
        rw [hsame, hl, hghost]
        funext side
        simp only [recordShares, hl]
        exact congrFun ih side
      | birth hcore authority freeze args s hnone hinit hstate =>
        rw [hstate, hghost]
        intro side
        simp only [recordShares, hl]
        rw [ih]
        exact initMarket_conserves hinit side
      | run j s s' hcore hstate =>
        rw [hl] at hstate
        cases hstate
    | some s =>
      rw [hl] at ih
      obtain ⟨s', limited, hl', hb⟩ := fusion_market_booked hw hstep hl
      rw [hl', hghost]
      intro side
      have hbook := ((fusion_inv hw).markets k s hl).2.book
      have hbook' := ((fusion_inv (.step e hw trivial hstep)).markets k s' hl').2.book
      simp only [recordShares, hl, hl']
      exact hb.conserves (hbook.behind side) hbook'.stakes (ih side)

/-- Both snapshots of a position are at the index as soon as one of them has moved, and the position
holds what was pending: what is stored is what was stored, the pending share, the interest, and what
the instruction itself puts in and takes out. -/
theorem fusion_collects {w w' : SystemWorld} {e : SystemEvent} {s s' : MarketState}
    {owner : Pubkey} {p p' : Position} {side : Side} (hw : fusion.Reach w)
    (hs : fusion.step e w w') (hl : w.system.protocol.markets.lookup k = some s)
    (hl' : w'.system.protocol.markets.lookup k = some s')
    (hp : s.positions.lookup owner = some p) (hp' : s'.positions.lookup owner = some p')
    (hmoved : side.snap p' ≠ side.snap p) :
    ∃ p₁, realize s.market p e.clock.unixTimestamp = .ok p₁ ∧
      p₁.ink = p.ink + Side.coll.pending s.market p ∧
      p₁.recordedDebt = p.recordedDebt + interestUntil p p'.lastDebtUpdate +
        Side.debt.pending s.market p ∧
      p'.ink + (movedOn k e w w' s s' owner).out.1 =
        p₁.ink + (movedOn k e w w' s s' owner).into.1 ∧
      p'.recordedDebt + (movedOn k e w w' s s' owner).out.2 =
        p₁.recordedDebt + (movedOn k e w w' s s' owner).into.2 ∧
      ∀ side : Side, side.snap p' = side.level s'.market := by
  obtain ⟨after, limited, hafter, hb⟩ := fusion_market_booked hw hs hl
  obtain rfl := Option.some.inj (hafter.symm.trans hl')
  have hmove := hb.positions owner
  rw [show (w.system.accounts s).state.positions.lookup owner = some p from hp,
    show (w'.system.accounts after).state.positions.lookup owner = some p' from hp'] at hmove
  generalize movedOn k e w w' s after owner = t at hmove ⊢
  cases hmove with
  | keep => exact absurd rfl hmoved
  | claimed => cases side <;> exact absurd rfl hmoved
  | touched h =>
    have hreal := realize_capped h.realized
    refine ⟨_, h.realized, hreal.ink, ?_, congrArg Prod.fst h.holdings,
      congrArg Prod.snd h.holdings, ?_⟩
    · rw [h.lastDebtUpdate, hreal.lastDebtUpdate]
      exact hreal.recordedDebt
    · rintro (_ | _)
      · exact h.lColl
      · exact h.lArt

/-- Over any run of a market and on either side, what the positions hold is what instructions have
put in, less what they have taken out, the interest charged, and what was realised.  What was
realised and what is pending is at most what was redistributed, and what is missing is less than one
unit for each collection over a risen index and for each open position, and the carried error. -/
theorem fusion_redistribution_conserved {s : MarketState}
    (h : (fusion.withGhost noShares (recordShares k)).Reach x)
    (hl : x.1.system.protocol.markets.lookup k = some s) (side : Side) :
    ∃ realised, s.positions.total side.stored + (x.2 side).out =
        (x.2 side).into + (x.2 side).interest + realised ∧
      realised + s.positions.total (side.pending s.market) ≤ (x.2 side).distributed ∧
      (x.2 side).distributed ≤ realised + s.positions.total (side.pending s.market) +
        ((x.2 side).settlements + s.positions.entries.length +
          side.residual s.market / 10 ^ 18) := by
  have hkept := fusion_shares_kept h
  rw [SharesKept, hl] at hkept
  obtain ⟨realised, hstored, hconserved⟩ := hkept side
  have hpending : side.pending s.market =
      fun p ↦ owed Position.stake side.snap (side.level s.market) p / PRECISION := by
    funext p
    exact side.pending_eq s.market p
  rw [hpending]
  exact ⟨realised, hstored, hconserved.bounds _ _ PRECISION_pos⟩

end Runs

namespace Sample

/-- One of three positions is liquidated into the other two, and one of these is touched. -/
def spread : List SystemEvent :=
  at_ clock (launch ++ drawn clock 15000 1330000000 ++
    [.core (.market 7 (.mintCollateral 200 7001000000)) rfl,
      .core (.market 7 (.openPosition 200 500)) rfl,
      .core (.market 7 (.deposit 200 7000000000)) rfl,
      .core (.market 7 (.mintCollateral 300 9000000001)) rfl,
      .core (.market 7 (.openPosition 300 500)) rfl,
      .core (.market 7 (.deposit 300 9000000001)) rfl,
      .updatePrice 7 (feeds clock 13800),
      .core (.market 7 (.liquidate 6 100 false)) rfl,
      .core (.market 7 (.deposit 200 1000000)) rfl])

end Sample

/-- What the touched position has realised is in the total of the stored debts. -/
theorem fusion_redistribution_conserved_sample : ∃ x s realised,
    (fusion.withGhost noShares (recordShares 7)).Reach x ∧
      x.1.system.protocol.markets.lookup 7 = some s ∧ (x.2 .debt).settlements = 1 ∧
      0 < s.positions.total (Side.debt.pending s.market) ∧ 0 < realised ∧
      s.positions.total Side.debt.stored + (x.2 .debt).out =
        (x.2 .debt).into + (x.2 .debt).interest + realised ∧
      realised + s.positions.total (Side.debt.pending s.market) ≤ (x.2 .debt).distributed := by
  have hrun : (Sample.history (recordShares 7) noShares Sample.spread).map (fun x ↦
      (x.1.system.protocol.markets.lookup 7).any fun s : MarketState ↦
        decide ((x.2 .debt).settlements = 1 ∧
          0 < s.positions.total (Side.debt.pending s.market) ∧
          (x.2 .debt).into + (x.2 .debt).interest <
            s.positions.total Side.debt.stored + (x.2 .debt).out)) = some true := by
    decide +kernel
  obtain ⟨x, hx, htest⟩ := Option.map_eq_some_iff.mp hrun
  simp only [Option.any_eq_true, decide_eq_true_eq] at htest
  obtain ⟨s, hl, hcount, hpending, hlt⟩ := htest
  have hreach := Sample.history_reach hx
  obtain ⟨realised, hstored, hle, -⟩ := fusion_redistribution_conserved hreach hl .debt
  exact ⟨x, s, realised, hreach, hl, hcount, hpending, by omega, hstored, hle⟩

/-- The last step of this run: the deposit and the pending collateral are both stored. -/
theorem fusion_collects_spread : ∃ e w w', ∃ s s' : MarketState, ∃ p p', fusion.step e w w' ∧
    w.system.protocol.markets.lookup 7 = some s ∧ s.positions.lookup 200 = some p ∧
    w'.system.protocol.markets.lookup 7 = some s' ∧ s'.positions.lookup 200 = some p' ∧
    0 < Side.coll.pending s.market p ∧ 0 < Side.debt.pending s.market p ∧
    p'.ink = p.ink + Side.coll.pending s.market p + 1000000 ∧
    p'.recordedDebt = p.recordedDebt + interestUntil p p'.lastDebtUpdate +
      Side.debt.pending s.market p := by
  have hrun : Sample.testLast Sample.spread.dropLast (Sample.spread.getLast (by decide)) (fun w w' ↦
      (w.system.protocol.markets.lookup 7).any fun (s : MarketState) ↦
      (s.positions.lookup 200).any fun p ↦
      (w'.system.protocol.markets.lookup 7).any fun s' ↦ (s'.positions.lookup 200).any fun p' ↦
        decide ((0 < Side.coll.pending s.market p ∧ 0 < Side.debt.pending s.market p) ∧
          Side.coll.snap p' ≠ Side.coll.snap p)) =
      some true := by decide +kernel
  obtain ⟨w, w', hw, hstep, h⟩ := Sample.of_testLast hrun
  simp only [Option.any_eq_true, decide_eq_true_eq] at h
  obtain ⟨s, hl, p, hp, s', hl', p', hp', ⟨hcoll, hdebt⟩, hne⟩ := h
  obtain ⟨p₁, -, hink, hrecorded, hink', hrecorded', -⟩ :=
    fusion_collects hw hstep hl hl' hp hp' hne
  refine ⟨_, w, w', s, s', p, p', hstep, hl, hp, hl', hp', hcoll, hdebt, ?_, ?_⟩
  · rw [hink] at hink'
    exact hink'
  · rw [hrecorded] at hrecorded'
    exact hrecorded'

end FusionCore
