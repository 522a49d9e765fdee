import FusionCore.Lib.LazyIndex
import FusionCore.Core.Bucket
import FusionCore.Core.Cdp

/-!
# The books of a market

`Book` relates the aggregates of a market to its positions.  Three kinds of writes
change what it speaks about: an accrual, the touch of one position, and a redistribution.
Each has one lemma here, and every instruction is a composition of them.

The debt of a market is compared with its positions before any rounding: a position owes its
recorded debt, its interest up to the market's clock and its share of the redistributed debt,
all counted in `1 / UNIT`.
-/

namespace FusionCore

open Checked LazyIndex

/-- Debt is compared in this fraction of a token unit. -/
def UNIT : ℕ := INTEREST_DENOM * PRECISION

theorem UNIT_pos : 0 < UNIT := Nat.mul_pos INTEREST_DENOM_pos PRECISION_pos

/-- What a position owes before rounding, in `1 / UNIT`. -/
def debtShare (m : Market) (p : Position) : ℕ :=
  (p.recordedDebt * INTEREST_DENOM
      + owed weightOf Position.lastDebtUpdate m.lastUpdateTs p) * PRECISION
    + owed Position.stake Position.redistLArtSnapshot m.lArt p * INTEREST_DENOM

/-- The collateral of a position before rounding, in `1 / PRECISION`. -/
def collShare (m : Market) (p : Position) : ℕ :=
  p.ink * PRECISION + owed Position.stake Position.redistLCollSnapshot m.lColl p

/-- What a position owes at the market's clock, each part rounded down as `realize` does. -/
def owedDebt (m : Market) (p : Position) : ℕ :=
  p.recordedDebt + interestUntil p m.lastUpdateTs + pendingDebt m p

/-- The collateral of a position with its pending share of redistributions. -/
def ownedColl (m : Market) (p : Position) : ℕ := p.ink + pendingColl m p

/-- Rounding takes less than one unit from each of the two lazily settled parts. -/
theorem owedDebt_bounds (m : Market) (p : Position) :
    owedDebt m p * UNIT ≤ debtShare m p ∧ debtShare m p ≤ (owedDebt m p + 2) * UNIT := by
  set i := owed weightOf Position.lastDebtUpdate m.lastUpdateTs p with hi
  set a := owed Position.stake Position.redistLArtSnapshot m.lArt p with ha
  have hdebt : owedDebt m p = p.recordedDebt + i / INTEREST_DENOM + a / PRECISION := rfl
  have hI := Nat.div_add_mod' i INTEREST_DENOM
  have hA := Nat.div_add_mod' a PRECISION
  have hshare : debtShare m p = owedDebt m p * UNIT
      + (i % INTEREST_DENOM) * PRECISION + (a % PRECISION) * INTEREST_DENOM := by
    rw [debtShare, ← hi, ← ha, hdebt, UNIT]
    nth_rewrite 1 [← hI, ← hA]
    ring
  have hIle : (i % INTEREST_DENOM) * PRECISION ≤ UNIT :=
    Nat.mul_le_mul_right PRECISION (Nat.mod_lt i INTEREST_DENOM_pos).le
  have hAle : (a % PRECISION) * INTEREST_DENOM ≤ UNIT := by
    rw [UNIT, Nat.mul_comm INTEREST_DENOM]
    exact Nat.mul_le_mul_right INTEREST_DENOM (Nat.mod_lt a PRECISION_pos).le
  have htwo : (owedDebt m p + 2) * UNIT = owedDebt m p * UNIT + 2 * UNIT := by ring
  constructor <;> omega

theorem ownedColl_le (m : Market) (p : Position) :
    ownedColl m p * PRECISION ≤ collShare m p := by
  have hC := Nat.div_mul_le_self
    (owed Position.stake Position.redistLCollSnapshot m.lColl p) PRECISION
  have hcoll : ownedColl m p =
      p.ink + owed Position.stake Position.redistLCollSnapshot m.lColl p / PRECISION := rfl
  rw [hcoll, add_mul, collShare]
  omega

/-- The aggregates of a market agree with its positions. -/
structure Book (now : ℕ) (m : Market) (bm : RedemptionBitmap) (ps : Table Pubkey Position)
    (t : Tally) : Prop where
  weights : m.aggWeightedDebtSum = ps.total weightOf
  weights_lt : m.aggWeightedDebtSum < 2 ^ 128
  stakes : m.totalStakes = ps.total Position.stake
  surplus : m.totalCollSurplus = ps.total Position.collSurplus
  stake_le : ps.All fun p ↦ p.stake ≤ p.ink
  snapshot_le : m.totalCollateralSnapshot = 0 ∨
    m.totalStakesSnapshot ≤ m.totalCollateralSnapshot
  size : ∀ j ≤ ZOMBIE_BUCKET, bm.size j = ps.total fun p ↦ member p.recordedDebt p.bucket j
  coupled : bm.Coupled
  label : ps.All fun p ↦ 0 < p.recordedDebt → p.bucket ≤ ZOMBIE_BUCKET
  clock : m.lastUpdateTs ≤ now
  interest_behind : ps.All (Behind weightOf Position.lastDebtUpdate m.lastUpdateTs)
  art_behind : ps.All (Behind Position.stake Position.redistLArtSnapshot m.lArt)
  coll_behind : ps.All (Behind Position.stake Position.redistLCollSnapshot m.lColl)
  debt_covered : ps.total (debtShare m) + m.lastArtRedistError * INTEREST_DENOM
    ≤ m.aggRecordedDebt * UNIT
  debt_tight : m.aggRecordedDebt * UNIT ≤ ps.total (debtShare m)
    + m.lastArtRedistError * INTEREST_DENOM + (t.bookings + 2 * t.realizes) * UNIT
  coll_covered : ps.total (collShare m) + m.lastCollRedistError
    ≤ m.totalCollateral * PRECISION

theorem total_debtShare (m : Market) (ps : Table Pubkey Position) :
    ps.total (debtShare m) =
      (ps.total Position.recordedDebt * INTEREST_DENOM
        + ps.total (owed weightOf Position.lastDebtUpdate m.lastUpdateTs)) * PRECISION
      + ps.total (owed Position.stake Position.redistLArtSnapshot m.lArt)
        * INTEREST_DENOM := by
  unfold debtShare
  simp only [Nat.mul_comm _ PRECISION, Nat.mul_comm _ INTEREST_DENOM, Table.total_add,
    Table.total_mul_left]

theorem total_collShare (m : Market) (ps : Table Pubkey Position) :
    ps.total (collShare m) = ps.total Position.ink * PRECISION
      + ps.total (owed Position.stake Position.redistLCollSnapshot m.lColl) := by
  unfold collShare
  simp only [Nat.mul_comm _ PRECISION, Table.total_add, Table.total_mul_left]

section

variable {now : ℕ} {m m' : Market} {bm bm' : RedemptionBitmap} {ps : Table Pubkey Position}
  {t : Tally}

theorem Book.mono {now' : ℕ} (hb : Book now m bm ps t) (h : now ≤ now') :
    Book now' m bm ps t :=
  { hb with clock := hb.clock.trans h }

/-! ## Accrual -/

/-- Booking the interest of all positions, rounded up once, keeps the positions covered and
adds at most one unit to the excess. -/
theorem Book.accrue {x ts : ℕ} (hb : Book now m bm ps t) (ha : Accrued m m' now x ts) :
    Book now m' bm ps (t.book m m') := by
  obtain ⟨rfl, hmono, hle, -, -, hcov, htight, -⟩ := ha
  have hraise := total_owed_raise weightOf Position.lastDebtUpdate hb.interest_behind hmono
  rw [← hb.weights] at hraise
  -- all shares together grow by the exact interest on the weighted debt sum
  have hshare : ps.total (debtShare { m with
        aggRecordedDebt := m.aggRecordedDebt + x
        unmintedInterest := m.unmintedInterest + x
        lastUpdateTs := ts }) =
      ps.total (debtShare m) + m.aggWeightedDebtSum * (ts - m.lastUpdateTs) * PRECISION := by
    rw [total_debtShare, total_debtShare, hraise]
    ring
  have hagg : (m.aggRecordedDebt + x) * UNIT
      = m.aggRecordedDebt * UNIT + x * INTEREST_DENOM * PRECISION := by
    unfold UNIT
    ring
  have hcovP := Nat.mul_le_mul_right PRECISION hcov
  refine { hb with
    clock := hle
    interest_behind := hb.interest_behind.mono fun p hp ↦ hp.raise _ _ hmono
    debt_covered := ?_
    debt_tight := ?_ }
  · have := hb.debt_covered
    simp only [hshare, hagg]
    omega
  · have hold := hb.debt_tight
    simp only [hshare, hagg, Tally.book]
    rcases Nat.eq_zero_or_pos x with rfl | hx
    · simp only [Nat.zero_mul, Nat.add_zero, lt_irrefl, if_false]
      omega
    · have htightP := Nat.mul_le_mul_right PRECISION htight.le
      have hunit : (m.aggWeightedDebtSum * (ts - m.lastUpdateTs) + INTEREST_DENOM) * PRECISION
          = m.aggWeightedDebtSum * (ts - m.lastUpdateTs) * PRECISION + UNIT := by
        unfold UNIT
        ring
      rw [if_pos (Nat.lt_add_of_pos_right hx)]
      have hcount : (t.bookings + 1 + 2 * t.realizes) * UNIT
          = (t.bookings + 2 * t.realizes) * UNIT + UNIT := by ring
      simp only [hcount]
      omega

/-! ## Touching one position -/

/-- One position is rewritten together with the aggregates of its market.  `debt` and `ink` are
what the position is worth once its shares are folded in; `k` counts the foldings. -/
structure Touch (k : ℕ) (m m' : Market) (p p' : Position) (debt ink : ℕ) : Prop where
  debt_le : debt * UNIT ≤ debtShare m p
  le_debt : debtShare m p ≤ (debt + 2 * k) * UNIT
  ink_le : ink * PRECISION ≤ collShare m p
  agg : m'.aggRecordedDebt + debt = m.aggRecordedDebt + p'.recordedDebt
  coll : m'.totalCollateral + ink = m.totalCollateral + p'.ink
  weights : m'.aggWeightedDebtSum + weightOf p = m.aggWeightedDebtSum + weightOf p'
  weights_lt : m'.aggWeightedDebtSum < 2 ^ 128
  stakes : m'.totalStakes + p.stake = m.totalStakes + p'.stake
  surplus : m'.totalCollSurplus + p.collSurplus = m.totalCollSurplus + p'.collSurplus
  stake_le : p'.stake ≤ p'.ink
  settled : 0 < weightOf p' → p'.lastDebtUpdate = m.lastUpdateTs
  art_settled : 0 < p'.stake → p'.redistLArtSnapshot = m.lArt
  coll_settled : 0 < p'.stake → p'.redistLCollSnapshot = m.lColl
  lastUpdateTs : m'.lastUpdateTs = m.lastUpdateTs
  lArt : m'.lArt = m.lArt
  lColl : m'.lColl = m.lColl
  artError : m'.lastArtRedistError = m.lastArtRedistError
  collError : m'.lastCollRedistError = m.lastCollRedistError
  snapshot_le : m'.totalCollateralSnapshot = 0 ∨
    m'.totalStakesSnapshot ≤ m'.totalCollateralSnapshot
  advances : p.Advances p'

/-- The membership of one position moves with its debt and its label. -/
structure Relabel (bm bm' : RedemptionBitmap) (p p' : Position) : Prop where
  size : ∀ j ≤ ZOMBIE_BUCKET, bm'.size j + member p.recordedDebt p.bucket j =
    bm.size j + member p'.recordedDebt p'.bucket j
  coupled : bm.Coupled → bm'.Coupled
  label : 0 < p'.recordedDebt → p'.bucket ≤ ZOMBIE_BUCKET

theorem debtShare_settled {p : Position}
    (hd : 0 < weightOf p → p.lastDebtUpdate = m.lastUpdateTs)
    (ha : 0 < p.stake → p.redistLArtSnapshot = m.lArt) :
    debtShare m p = p.recordedDebt * UNIT := by
  rw [debtShare, owed_settled _ _ hd, owed_settled _ _ ha, UNIT]
  ring

theorem collShare_settled {p : Position} (hc : 0 < p.stake → p.redistLCollSnapshot = m.lColl) :
    collShare m p = p.ink * PRECISION := by
  rw [collShare, owed_settled _ _ hc, Nat.add_zero]

theorem Book.touch {k : ℕ} {owner : Pubkey} {p p' : Position} {debt ink : ℕ}
    (hb : Book now m bm ps t) (hp : ps.lookup owner = some p) (ht : Touch k m m' p p' debt ink)
    (hr : Relabel bm bm' p p') : Book now m' bm' (ps.insert owner p') (t.realized k) := by
  have hmove : ∀ f : Position → ℕ,
      Table.total f (ps.insert owner p') + f p = ps.total f + f p' :=
    fun f ↦ Table.total_insert_of_some f p' hp
  have hshare : debtShare m' = debtShare m := by
    funext q
    simp only [debtShare, ht.lastUpdateTs, ht.lArt]
  have hcshare : collShare m' = collShare m := by
    funext q
    simp only [collShare, ht.lColl]
  have hnew : debtShare m p' = p'.recordedDebt * UNIT := debtShare_settled ht.settled ht.art_settled
  have hcnew : collShare m p' = p'.ink * PRECISION := collShare_settled ht.coll_settled
  have haggU :
      (m'.aggRecordedDebt + debt) * UNIT = (m.aggRecordedDebt + p'.recordedDebt) * UNIT := by
    rw [ht.agg]
  have hcollP :
      (m'.totalCollateral + ink) * PRECISION = (m.totalCollateral + p'.ink) * PRECISION := by
    rw [ht.coll]
  simp only [add_mul] at haggU hcollP
  constructor
  · have := hmove weightOf
    have := ht.weights
    have := hb.weights
    omega
  · exact ht.weights_lt
  · have := hmove Position.stake
    have := ht.stakes
    have := hb.stakes
    omega
  · have := hmove Position.collSurplus
    have := ht.surplus
    have := hb.surplus
    omega
  · exact hb.stake_le.insert ht.stake_le
  · exact ht.snapshot_le
  · intro j hj
    have h1 := hmove fun q ↦ member q.recordedDebt q.bucket j
    have h2 := hr.size j hj
    have h3 := hb.size j hj
    omega
  · exact hr.coupled hb.coupled
  · exact hb.label.insert hr.label
  · rw [ht.lastUpdateTs]
    exact hb.clock
  · rw [ht.lastUpdateTs]
    exact hb.interest_behind.insert fun hw ↦ (ht.settled hw).le
  · rw [ht.lArt]
    exact hb.art_behind.insert fun hw ↦ (ht.art_settled hw).le
  · rw [ht.lColl]
    exact hb.coll_behind.insert fun hw ↦ (ht.coll_settled hw).le
  · have h1 := hmove (debtShare m)
    have h2 := ht.debt_le
    have h3 := hb.debt_covered
    rw [hshare, ht.artError]
    omega
  · have h1 := hmove (debtShare m)
    have h2 := ht.le_debt
    have h3 := hb.debt_tight
    have hcount : (t.bookings + 2 * (t.realizes + k)) * UNIT
        = (t.bookings + 2 * t.realizes) * UNIT + 2 * k * UNIT := by ring
    rw [hshare, ht.artError]
    simp only [Tally.realized, hcount]
    rw [add_mul] at h2
    omega
  · have h1 := hmove (collShare m)
    have h2 := ht.ink_le
    have h3 := hb.coll_covered
    rw [hcshare, ht.collError]
    omega

end

/-! ## Empty positions and claimed surpluses -/

section

variable {now : ℕ} {m : Market} {bm : RedemptionBitmap} {ps ps' : Table Pubkey Position}
  {t : Tally}

/-- A position that no aggregate counts. -/
structure Position.Empty (p : Position) : Prop where
  recordedDebt : p.recordedDebt = 0
  ink : p.ink = 0
  stake : p.stake = 0
  collSurplus : p.collSurplus = 0

theorem Book.of_empty {q : Position} (hb : Book now m bm ps t) (hq : q.Empty)
    (htotal : ∀ f : Position → ℕ, f q = 0 → ps'.total f = ps.total f)
    (hall : ∀ P : Position → Prop, ps.All P → P q → ps'.All P) : Book now m bm ps' t := by
  obtain ⟨hd, hink, hst, hsur⟩ := hq
  have hweight : weightOf q = 0 := by simp [weightOf, hd]
  have hdebt : debtShare m q = 0 := by simp [debtShare, owed, hd, hweight, hst]
  have hcoll : collShare m q = 0 := by simp [collShare, owed, hink, hst]
  exact
    { hb with
      weights := by rw [htotal _ hweight, hb.weights]
      stakes := by rw [htotal _ hst, hb.stakes]
      surplus := by rw [htotal _ hsur, hb.surplus]
      stake_le := hall _ hb.stake_le (by omega)
      size := fun j hj ↦ by rw [htotal _ (by simp [member, hd]), hb.size j hj]
      label := hall _ hb.label (by omega)
      interest_behind := hall _ hb.interest_behind fun h ↦ by omega
      art_behind := hall _ hb.art_behind fun h ↦ by omega
      coll_behind := hall _ hb.coll_behind fun h ↦ by omega
      debt_covered := by rw [htotal _ hdebt]; exact hb.debt_covered
      debt_tight := by rw [htotal _ hdebt]; exact hb.debt_tight
      coll_covered := by rw [htotal _ hcoll]; exact hb.coll_covered }

theorem Book.claim {owner : Pubkey} {p : Position} (hb : Book now m bm ps t)
    (hp : ps.lookup owner = some p) :
    Book now { m with totalCollSurplus := m.totalCollSurplus - p.collSurplus } bm
      (ps.insert owner { p with collSurplus := 0 }) t := by
  have htotal : ∀ f : Position → ℕ, f { p with collSurplus := 0 } = f p →
      Table.total f (ps.insert owner { p with collSurplus := 0 }) = ps.total f := by
    intro f hf
    have := Table.total_insert_of_some f { p with collSurplus := 0 } hp
    omega
  have hsur := Table.total_insert_of_some Position.collSurplus { p with collSurplus := 0 } hp
  exact
    { hb with
      weights := by rw [htotal _ rfl, hb.weights]
      stakes := by rw [htotal _ rfl, hb.stakes]
      surplus := by
        have := hb.surplus
        dsimp only at hsur ⊢
        omega
      stake_le := hb.stake_le.insert (hb.stake_le owner p hp :)
      size := fun j hj ↦ by rw [htotal _ rfl, hb.size j hj]
      label := hb.label.insert (hb.label owner p hp :)
      interest_behind := hb.interest_behind.insert (hb.interest_behind owner p hp :)
      art_behind := hb.art_behind.insert (hb.art_behind owner p hp :)
      coll_behind := hb.coll_behind.insert (hb.coll_behind owner p hp :)
      debt_covered := by rw [htotal _ rfl]; exact hb.debt_covered
      debt_tight := by rw [htotal _ rfl]; exact hb.debt_tight
      coll_covered := by rw [htotal _ rfl]; exact hb.coll_covered }

end

/-! ## Touches made by the handlers -/

section

variable {m m₁ m₂ : Market} {bm bm' : RedemptionBitmap} {p pr q q' : Position}

theorem Accrued.realizable {now x ts : ℕ} (ha : Accrued m m₁ now x ts) :
    m₁.shutdown = true ∨ m₁.lastUpdateTs = now := by
  rw [ha.eq]
  exact ha.current

/-- `pr` is what `p` becomes once its shares are folded in, `k` times. -/
structure Folded (k : ℕ) (m : Market) (p pr : Position) : Prop where
  debt_le : pr.recordedDebt * UNIT ≤ debtShare m p
  le_debt : debtShare m p ≤ (pr.recordedDebt + 2 * k) * UNIT
  ink_le : pr.ink * PRECISION ≤ collShare m p
  stake : pr.stake = p.stake
  collSurplus : pr.collSurplus = p.collSurplus
  bucket : pr.bucket = p.bucket
  lastDebtUpdate : pr.lastDebtUpdate = m.lastUpdateTs
  lColl : pr.redistLCollSnapshot = m.lColl
  lArt : pr.redistLArtSnapshot = m.lArt
  advances : p.Advances pr

/-- Folding rounds twice, each time by less than one unit. -/
theorem Realized.folded (h : Realized m p pr m.lastUpdateTs) : Folded 1 m p pr := by
  have hdebt : pr.recordedDebt = owedDebt m p := h.recordedDebt
  have hink : pr.ink = ownedColl m p := h.ink
  obtain ⟨hle, hge⟩ := owedDebt_bounds m p
  exact
    { debt_le := hdebt ▸ hle
      le_debt := hdebt ▸ hge
      ink_le := hink ▸ ownedColl_le m p
      stake := h.stake
      collSurplus := h.collSurplus
      bucket := h.bucket
      lastDebtUpdate := h.lastDebtUpdate
      lColl := h.lColl
      lArt := h.lArt
      advances := h.advances }

/-- A position whose snapshots are the market's: there is nothing to fold in. -/
structure Position.Current (m : Market) (p : Position) : Prop where
  lastDebtUpdate : p.lastDebtUpdate = m.lastUpdateTs
  lColl : p.redistLCollSnapshot = m.lColl
  lArt : p.redistLArtSnapshot = m.lArt

theorem Position.Current.folded (h : p.Current m) : Folded 0 m p p where
  debt_le := (debtShare_settled (fun _ ↦ h.lastDebtUpdate) fun _ ↦ h.lArt).ge
  le_debt := (debtShare_settled (fun _ ↦ h.lastDebtUpdate) fun _ ↦ h.lArt).le
  ink_le := (collShare_settled fun _ ↦ h.lColl).ge
  stake := rfl
  collSurplus := rfl
  bucket := rfl
  lastDebtUpdate := h.lastDebtUpdate
  lColl := h.lColl
  lArt := h.lArt
  advances := .refl p

/-- What a handler does between folding a position and recomputing its weight and stake: debt
and collateral move together with the aggregates, everything else the books read stays. -/
structure Change (m m₁ : Market) (pr q : Position) : Prop where
  agg : m₁.aggRecordedDebt + pr.recordedDebt = m.aggRecordedDebt + q.recordedDebt
  coll : m₁.totalCollateral + pr.ink = m.totalCollateral + q.ink
  surplus : m₁.totalCollSurplus + pr.collSurplus = m.totalCollSurplus + q.collSurplus
  weights : m₁.aggWeightedDebtSum = m.aggWeightedDebtSum
  stakes : m₁.totalStakes = m.totalStakes
  clock : m₁.lastUpdateTs = m.lastUpdateTs
  redist : redistState m₁ = redistState m
  stakesSnapshot : m₁.totalStakesSnapshot = m.totalStakesSnapshot
  collSnapshot : m₁.totalCollateralSnapshot = m.totalCollateralSnapshot
  stake : q.stake = pr.stake
  updated : q.lastDebtUpdate = pr.lastDebtUpdate
  snapshot : snapshotOf q = snapshotOf pr
  advances : pr.Advances q

/-- Fold, change, reweight, recompute the stake: together these touch the position, and leave
it current. -/
theorem touch_of_folded {k sum : ℕ}
    (hsnap : m.totalCollateralSnapshot = 0 ∨ m.totalStakesSnapshot ≤ m.totalCollateralSnapshot)
    (hf : Folded k m p pr) (hc : Change m m₁ pr q)
    (hsum : sum + weightOf p = m₁.aggWeightedDebtSum + weightOf q ∧ sum < 2 ^ 128)
    (hs : setStake { m₁ with aggWeightedDebtSum := sum } q = .ok (m₂, q')) :
    Touch k m m₂ p q' pr.recordedDebt pr.ink ∧ q'.Current m := by
  obtain ⟨stake, total, hstake, htotal, -, -, rfl, rfl⟩ := setStake_spec hs
  have hsnap₁ : m₁.totalCollateralSnapshot = 0 ∨
      m₁.totalStakesSnapshot ≤ m₁.totalCollateralSnapshot := by
    rw [hc.collSnapshot, hc.stakesSnapshot]
    exact hsnap
  obtain ⟨hlc, hla, hec, hea⟩ := RedistState.mk.injEq _ _ _ _ _ _ _ _ ▸ hc.redist
  obtain ⟨hsc, hsa⟩ := RedistSnapshot.mk.injEq _ _ _ _ ▸ hc.snapshot
  have hcur : Position.Current m { q with stake } :=
    ⟨hc.updated.trans hf.lastDebtUpdate, hsc.trans hf.lColl, hsa.trans hf.lArt⟩
  refine ⟨?_, hcur⟩
  exact
    { debt_le := hf.debt_le
      le_debt := hf.le_debt
      ink_le := hf.ink_le
      agg := hc.agg
      coll := hc.coll
      weights := by
        rw [← hc.weights]
        exact hsum.1
      weights_lt := hsum.2
      stakes := by
        rw [← hc.stakes, ← hf.stake, ← hc.stake]
        exact htotal
      surplus := by
        rw [← hf.collSurplus]
        exact hc.surplus
      stake_le := computeStake_le hsnap₁ hstake
      settled := fun _ ↦ hcur.lastDebtUpdate
      art_settled := fun _ ↦ hcur.lArt
      coll_settled := fun _ ↦ hcur.lColl
      lastUpdateTs := hc.clock
      lArt := hla
      lColl := hlc
      artError := hea
      collError := hec
      snapshot_le := hsnap₁
      advances := hf.advances.trans hc.advances }

theorem relabel_of_reconcile (h : reconcile bm m q p.recordedDebt = .ok (bm', q'))
    (hq : q.bucket = p.bucket) (hl : 0 < p.recordedDebt → p.bucket ≤ ZOMBIE_BUCKET) :
    (∃ label, q' = { q with bucket := label }) ∧ Relabel bm bm' p q' := by
  obtain ⟨⟨label, rfl, hlabel, -⟩, hsize, hcoup⟩ := reconcile_spec h (hq ▸ hl)
  exact ⟨⟨label, rfl⟩, fun j hj ↦ hq ▸ hsize j hj, hcoup, hlabel⟩

/-- A position whose debt stays positive, or stays zero, keeps its membership and its label. -/
theorem Relabel.refl (hd : 0 < p.recordedDebt ↔ 0 < q.recordedDebt) (hq : q.bucket = p.bucket)
    (hl : 0 < p.recordedDebt → p.bucket ≤ ZOMBIE_BUCKET) : Relabel bm bm p q :=
  ⟨fun j _ ↦ by simp [member, hd, hq], id, fun h ↦ hq ▸ hl (hd.mpr h)⟩

end

/-! ## Coverage and redistribution -/

section

variable {now k : ℕ} {m : Market} {bm : RedemptionBitmap} {ps : Table Pubkey Position}
  {t : Tally} {owner : Pubkey} {p pr : Position}

/-- The aggregate covers the debt of every position, as folded. -/
theorem Book.debt_le (hb : Book now m bm ps t) (hp : ps.lookup owner = some p)
    (hf : Folded k m p pr) : pr.recordedDebt ≤ m.aggRecordedDebt := by
  have hle : debtShare m p ≤ ps.total (debtShare m) :=
    Table.le_total (fun _ ↦ Nat.zero_le _) hp
  have hcov := hb.debt_covered
  have hfold := hf.debt_le
  exact Nat.le_of_mul_le_mul_right (by omega) UNIT_pos

/-- Total collateral covers the collateral of every position, as folded. -/
theorem Book.coll_le (hb : Book now m bm ps t) (hp : ps.lookup owner = some p)
    (hf : Folded k m p pr) : pr.ink ≤ m.totalCollateral := by
  have hle : collShare m p ≤ ps.total (collShare m) :=
    Table.le_total (fun _ ↦ Nat.zero_le _) hp
  have hcov := hb.coll_covered
  have hfold := hf.ink_le
  exact Nat.le_of_mul_le_mul_right (by omega) PRECISION_pos

theorem Book.weight_le (hb : Book now m bm ps t) (hp : ps.lookup owner = some p) :
    weightOf p ≤ m.aggWeightedDebtSum := by
  rw [hb.weights]
  exact Table.le_total (fun _ ↦ Nat.zero_le _) hp

theorem Book.stake_le_totalStakes (hb : Book now m bm ps t) (hp : ps.lookup owner = some p) :
    p.stake ≤ m.totalStakes := by
  rw [hb.stakes]
  exact Table.le_total (fun _ ↦ Nat.zero_le _) hp

theorem Book.collSurplus_le (hb : Book now m bm ps t) (hp : ps.lookup owner = some p) :
    p.collSurplus ≤ m.totalCollSurplus := by
  rw [hb.surplus]
  exact Table.le_total (fun _ ↦ Nat.zero_le _) hp

theorem Book.total_owedDebt_le (hb : Book now m bm ps t) :
    ps.total (owedDebt m) ≤ m.aggRecordedDebt := by
  have hle : ps.total (fun p ↦ UNIT * owedDebt m p) ≤ ps.total (debtShare m) :=
    Table.total_le_total fun _ p _ ↦ (Nat.mul_comm _ _).trans_le (owedDebt_bounds m p).1
  rw [Table.total_mul_left] at hle
  have hcov := hb.debt_covered
  refine Nat.le_of_mul_le_mul_left ?_ UNIT_pos
  rw [Nat.mul_comm UNIT m.aggRecordedDebt]
  omega

/-- What the aggregate debt exceeds the positions by is rounding. -/
theorem Book.aggRecordedDebt_le (hb : Book now m bm ps t) :
    m.aggRecordedDebt ≤ ps.total (owedDebt m)
      + (t.bookings + 2 * t.realizes + 2 * ps.entries.length)
      + m.lastArtRedistError / PRECISION := by
  have hle : ps.total (debtShare m) ≤ ps.total (fun p ↦ UNIT * (owedDebt m p + 2 * 1)) :=
    Table.total_le_total fun _ p _ ↦ (owedDebt_bounds m p).2.trans_eq (Nat.mul_comm _ _)
  rw [Table.total_mul_left, Table.total_add, Table.total_mul_left, Table.total_one] at hle
  have htight := hb.debt_tight
  -- divide the bound in `1 / UNIT` by the interest denominator, then by the precision
  have hscaled : m.aggRecordedDebt * PRECISION ≤ (ps.total (owedDebt m)
      + (t.bookings + 2 * t.realizes + 2 * ps.entries.length)) * PRECISION
      + m.lastArtRedistError := by
    refine Nat.le_of_mul_le_mul_right ?_ INTEREST_DENOM_pos
    calc
      m.aggRecordedDebt * PRECISION * INTEREST_DENOM = m.aggRecordedDebt * UNIT := by
        rw [UNIT]
        ring
      _ ≤ ps.total (debtShare m) + m.lastArtRedistError * INTEREST_DENOM
          + (t.bookings + 2 * t.realizes) * UNIT := htight
      _ ≤ UNIT * (ps.total (owedDebt m) + 2 * ps.entries.length)
          + m.lastArtRedistError * INTEREST_DENOM
          + (t.bookings + 2 * t.realizes) * UNIT := by omega
      _ = _ := by
        rw [UNIT]
        ring
  have hexcess : m.aggRecordedDebt - (ps.total (owedDebt m)
      + (t.bookings + 2 * t.realizes + 2 * ps.entries.length)) ≤
      m.lastArtRedistError / PRECISION := by
    rw [Nat.le_div_iff_mul_le PRECISION_pos, Nat.sub_mul]
    omega
  omega

theorem Book.total_ownedColl_le (hb : Book now m bm ps t) :
    ps.total (ownedColl m) ≤ m.totalCollateral := by
  have hle : ps.total (fun p ↦ PRECISION * ownedColl m p) ≤ ps.total (collShare m) :=
    Table.total_le_total fun _ p _ ↦ (Nat.mul_comm _ _).trans_le (ownedColl_le m p)
  rw [Table.total_mul_left] at hle
  have hcov := hb.coll_covered
  refine Nat.le_of_mul_le_mul_left ?_ PRECISION_pos
  rw [Nat.mul_comm PRECISION m.totalCollateral]
  omega

theorem Book.ink_le (hb : Book now m bm ps t) : ps.total Position.ink ≤ m.totalCollateral := by
  have h := hb.coll_covered
  rw [total_collShare] at h
  exact Nat.le_of_mul_le_mul_right (by omega) PRECISION_pos

/-- Stakes are backed by collateral, so a fresh snapshot pair is in order. -/
theorem Book.stakes_le (hb : Book now m bm ps t) : m.totalStakes ≤ m.totalCollateral := by
  rw [hb.stakes]
  exact (Table.total_le_total hb.stake_le).trans hb.ink_le

/-- A redistribution hands exactly its debt and its collateral to the stakes, up to the
residuals it carries. -/
theorem Book.redistribute {st : RedistState} {coll art : ℕ} (hb : Book now m bm ps t)
    (h : redistribute (redistState m) m.totalStakes coll art = .ok st) :
    Book now { writeState m st with
      aggRecordedDebt := m.aggRecordedDebt + art
      totalCollateral := m.totalCollateral + coll } bm ps t := by
  simp only [FusionCore.redistribute, bind_eq_ok_iff, require_eq_ok, pure_eq_ok] at h
  obtain ⟨-, hts, ⟨lColl, collError⟩, hcoll, ⟨lArt, artError⟩, hart, rfl⟩ := h
  have hpos := Nat.pos_of_ne_zero hts
  obtain ⟨hlc, -, -, hceq⟩ := accumulate_spec hpos hcoll
  obtain ⟨hla, -, -, haeq⟩ := accumulate_spec hpos hart
  have hraiseA := total_owed_raise Position.stake Position.redistLArtSnapshot hb.art_behind hla
  have hraiseC := total_owed_raise Position.stake Position.redistLCollSnapshot hb.coll_behind hlc
  rw [← hb.stakes] at hraiseA hraiseC
  simp only [redistState] at hlc hla hceq haeq
  set m' : Market := { writeState m ⟨lColl, lArt, collError, artError⟩ with
      aggRecordedDebt := m.aggRecordedDebt + art
      totalCollateral := m.totalCollateral + coll } with hm'
  have hdebt : ps.total (debtShare m') + artError * INTEREST_DENOM =
      ps.total (debtShare m) + m.lastArtRedistError * INTEREST_DENOM + art * UNIT := by
    have hmul := congrArg (· * INTEREST_DENOM) haeq
    simp only [add_mul] at hmul
    rw [total_debtShare, total_debtShare]
    simp only [hm', writeState]
    rw [hraiseA, add_mul (ps.total (owed _ _ _)), UNIT]
    have : art * (INTEREST_DENOM * PRECISION) = art * PRECISION * INTEREST_DENOM := by ring
    simp only [redistState] at *
    omega
  have hcollEq : ps.total (collShare m') + collError =
      ps.total (collShare m) + m.lastCollRedistError + coll * PRECISION := by
    rw [total_collShare, total_collShare]
    simp only [hm', writeState]
    rw [hraiseC]
    simp only [redistState] at *
    omega
  have hagg : m'.aggRecordedDebt * UNIT = m.aggRecordedDebt * UNIT + art * UNIT :=
    add_mul m.aggRecordedDebt art UNIT
  have htc : m'.totalCollateral * PRECISION = m.totalCollateral * PRECISION + coll * PRECISION :=
    add_mul m.totalCollateral coll PRECISION
  exact
    { hb with
      art_behind := hb.art_behind.mono fun p hp ↦ hp.raise _ _ hla
      coll_behind := hb.coll_behind.mono fun p hp ↦ hp.raise _ _ hlc
      debt_covered := by
        have := hb.debt_covered
        rw [hagg]
        exact hdebt ▸ by omega
      debt_tight := by
        have := hb.debt_tight
        rw [hagg]
        change _ ≤ ps.total (debtShare m') + artError * INTEREST_DENOM + _
        omega
      coll_covered := by
        have := hb.coll_covered
        rw [htc]
        exact hcollEq ▸ by omega }

end

end FusionCore
