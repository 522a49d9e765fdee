import FusionCore.Controller.Effects
import FusionCore.Lib.Machine

/-!
# Conservation of the epoch plan

Every productive lamport ends in a directed target, in a neutral grant or in the recorded
shortfall, however the work is cut into calls.  The invariant ties the accumulators of the crank
state to sums over the records stamped with the planned epoch; in a capacity round it also counts
the records that can still take a grant, ahead of the cursor and behind it, so that the round's
own counters are known to agree with the records when the cursor has passed them all.
-/

namespace FusionCore
namespace StakeController

open Checked StakeMath

/-! ## Weights of planned records -/

section Weights

variable (epoch cursor : ℕ) (r : ValidatorRecord)

/-- The weight of a record if it was planned in `epoch`, else zero. -/
def plannedAt (weight : ValidatorRecord → ℕ) : ℕ := if r.planEpoch = epoch then weight r else 0

def ValidatorRecord.ordinal : ℕ := r.validatorListIndex.getD 0

/-- One for a planned record that can take a grant and that the cursor has not passed. -/
def openAhead : ℕ :=
  if r.planEpoch = epoch ∧ 0 < r.remainingCapacity ∧ cursor ≤ r.ordinal then 1 else 0

/-- One for a planned record that can take a grant and that the cursor has passed. -/
def openBehind : ℕ :=
  if r.planEpoch = epoch ∧ 0 < r.remainingCapacity ∧ r.ordinal < cursor then 1 else 0

variable {epoch r}

theorem plannedAt_of_eq {weight : ValidatorRecord → ℕ} (h : r.planEpoch = epoch) :
    plannedAt epoch r weight = weight r := if_pos h

theorem plannedAt_of_ne {weight : ValidatorRecord → ℕ} (h : r.planEpoch ≠ epoch) :
    plannedAt epoch r weight = 0 := if_neg h

end Weights

/-- What the plan guarantees of a single record. -/
structure PlannedRecord (es : EpochState) (r : ValidatorRecord) : Prop where
  final : r.finalTarget = r.directedTarget + r.neutralGranted
  room : r.finalTarget + r.remainingCapacity ≤ es.capOf r.status
  capacity : 0 < r.remainingCapacity → r.status = .active ∧ r.validatorListIndex.isSome
  granted : 0 < r.neutralGranted → r.status = .active ∧ r.validatorListIndex.isSome
  index : ∀ i, r.validatorListIndex = some i → i < es.planDirectedCursor

/-- The accumulators of a plan are the sums over its records, and no list ordinal was planned
twice. -/
structure Planned (acc : PlanAcc) : Prop where
  fits : acc.epochState.productiveLamports < 2 ^ 64
  directed : acc.records.total
    (plannedAt acc.epochState.controllerEpoch · ValidatorRecord.directedTarget) =
      acc.epochState.sumDirectedTargets
  neutral : acc.records.total
    (plannedAt acc.epochState.controllerEpoch · ValidatorRecord.neutralGranted) =
      acc.epochState.neutralGrantedTotal
  records : ∀ v r, acc.records.lookup v = some r →
    r.planEpoch = acc.epochState.controllerEpoch → PlannedRecord acc.epochState r
  unique : ∀ v w r s i, acc.records.lookup v = some r → acc.records.lookup w = some s →
    r.planEpoch = acc.epochState.controllerEpoch → s.planEpoch = acc.epochState.controllerEpoch →
    r.validatorListIndex = some i → s.validatorListIndex = some i → v = w

variable {sys : Sysvars} {list : ValidatorList} {threshold : ℕ} {es es' : EpochState}
  {records : Table Pubkey ValidatorRecord} {acc acc' : PlanAcc} {p : Pair}

theorem Planned.congr (h : Planned ⟨es, records⟩)
    (hepoch : es'.controllerEpoch = es.controllerEpoch)
    (hproductive : es'.productiveLamports = es.productiveLamports)
    (hdirected : es'.sumDirectedTargets = es.sumDirectedTargets)
    (hgranted : es'.neutralGrantedTotal = es.neutralGrantedTotal)
    (hnav : es'.navTotalLamports = es.navTotalLamports)
    (hcursor : es'.planDirectedCursor = es.planDirectedCursor) : Planned ⟨es', records⟩ := by
  have hcap : ∀ status, es'.capOf status = es.capOf status := by
    intro status
    rw [EpochState.capOf, EpochState.capOf, hnav]
  constructor
  · rw [hproductive]
    exact h.fits
  · rw [hepoch, hdirected]
    exact h.directed
  · rw [hepoch, hgranted]
    exact h.neutral
  · intro v r hv hr
    have hrecord := h.records v r hv (hr.trans hepoch)
    exact { hrecord with
      room := hcap r.status ▸ hrecord.room
      index := hcursor ▸ hrecord.index }
  · rw [hepoch]
    exact h.unique

/-! ## Directed pass -/

/-- The state of the directed pass. -/
structure DirectedInv (acc : PlanAcc) : Prop extends Planned acc where
  granted : acc.epochState.neutralGrantedTotal = 0
  round : acc.epochState.neutralRoundNumber = 0
  opens : acc.records.total (openAhead acc.epochState.controllerEpoch 0) =
    acc.epochState.unsaturatedActiveCount
  count : acc.epochState.unsaturatedActiveCount ≤ acc.epochState.planDirectedCursor

theorem sighting_cases {record : ValidatorRecord} {s : Sighting}
    (h : sight sys list es p record = .ok s) :
    (s.inList = true ∧ s.record.validatorListIndex = some es.planDirectedCursor) ∨
      (s.inList = false ∧ s.record.validatorListIndex = none ∧ s.entryStatus = none) := by
  obtain ⟨entry, -, -, rfl⟩ | ⟨-, hindex, obs, rfl⟩ := sight_eq h
  · exact .inl ⟨rfl, rfl⟩
  · exact .inr ⟨rfl, hindex, rfl⟩

theorem plannedRecord_planRecord {s : Sighting} (hnav : es'.navTotalLamports = es.navTotalLamports)
    (hindex : ∀ i, s.record.validatorListIndex = some i → i < es'.planDirectedCursor)
    (hlist : s.inList = true → s.record.validatorListIndex.isSome) :
    PlannedRecord es' (planRecord es threshold s) := by
  set r := planRecord es threshold s with hr
  have htarget : r.directedTarget ≤ es.capOf r.status := directedTarget_le_cap _ _ _ _
  have hcapOf : es'.capOf r.status = es.capOf r.status := by
    rw [EpochState.capOf, EpochState.capOf, hnav]
  have hcapacity : r.remainingCapacity =
      if s.inList then neutralCapacity r.status (es.capOf r.status) r.directedTarget else 0 := rfl
  have hfinal : r.finalTarget = r.directedTarget := rfl
  refine
    { final := rfl
      room := ?_
      capacity := ?_
      granted := fun h ↦ absurd h (Nat.lt_irrefl 0)
      index := hindex }
  · rw [hcapOf, hfinal, hcapacity]
    split
    · exact add_neutralCapacity_le _ htarget
    · exact htarget
  · intro hpos
    rw [hcapacity] at hpos
    split at hpos
    next hin => exact ⟨neutralCapacity_pos hpos, hlist hin⟩
    next => exact absurd hpos (Nat.lt_irrefl 0)

theorem DirectedInv.step (hi : DirectedInv acc)
    (h : planDirectedOne sys list threshold acc p = .ok acc') : DirectedInv acc' := by
  obtain ⟨es, records⟩ := acc
  simp only [planDirectedOne, bind_eq_ok_iff, okOr_eq_ok, require_eq_ok, pure_eq_ok, exists_const,
    checkedAdd_eq_some] at h
  obtain ⟨record, hl, -, hfresh, s, hs, shares, -, targets, ⟨-, htargets⟩, rfl⟩ := h
  have hcases := sighting_cases hs
  set planned := planRecord es threshold s with hplanned
  have hstamp : planned.planEpoch = es.controllerEpoch := rfl
  have hindex : planned.validatorListIndex = s.record.validatorListIndex := rfl
  have hgranted : planned.neutralGranted = 0 := rfl
  have hcapacity : planned.remainingCapacity =
      if s.inList then
        neutralCapacity planned.status (es.capOf planned.status) planned.directedTarget
      else 0 := rfl
  have hrecord : PlannedRecord (es.bookPlanned s.inList shares targets planned) planned := by
    apply plannedRecord_planRecord rfl
    · intro i hsome
      obtain ⟨hin, hidx⟩ | ⟨-, hidx, -⟩ := hcases
      · rw [hidx] at hsome
        obtain rfl := Option.some.inj hsome
        simp [EpochState.bookPlanned, hin]
      · rw [hidx] at hsome
        cases hsome
    · intro hin
      obtain ⟨-, hidx⟩ | ⟨hout, -, -⟩ := hcases
      · simp [hidx]
      · rw [hin] at hout
        cases hout
  suffices hbooked : DirectedInv ⟨es.bookPlanned s.inList shares targets planned,
      records.insert p.record planned⟩ by
    obtain ⟨surplus, vote, hnote⟩ :=
      (es.bookPlanned s.inList shares targets planned).noteWithdraw_eq p.record planned
    rw [hnote]
    exact { hbooked with
      records := fun v r hv hr ↦ { hbooked.records v r hv hr with } }
  refine
    { fits := hi.fits
      directed := ?_
      neutral := ?_
      records := ?_
      unique := ?_
      granted := hi.granted
      round := hi.round
      opens := ?_
      count := ?_ }
  · have hsum := Table.total_insert_of_some
      (plannedAt es.controllerEpoch · ValidatorRecord.directedTarget) planned hl
    rw [plannedAt_of_ne hfresh, plannedAt_of_eq hstamp, hi.directed, htargets] at hsum
    exact hsum
  · have hsum := Table.total_insert_of_some
      (plannedAt es.controllerEpoch · ValidatorRecord.neutralGranted) planned hl
    rw [plannedAt_of_ne hfresh, plannedAt_of_eq hstamp, hi.neutral, hgranted] at hsum
    exact hsum
  · intro v r hv hr
    by_cases hvp : v = p.record
    · subst hvp
      obtain rfl : planned = r := by simpa using hv
      exact hrecord
    · rw [AList.lookup_insert_ne hvp] at hv
      have hold := hi.records v r hv hr
      exact { hold with
        index := fun i hsome ↦ Nat.lt_of_lt_of_le (hold.index i hsome) (Nat.le_add_right _ _) }
  · -- the new record takes the ordinal at the cursor; the older ones lie below it
    have hbelow : ∀ v r i, v ≠ p.record → records.lookup v = some r →
        r.planEpoch = es.controllerEpoch → r.validatorListIndex = some i →
        planned.validatorListIndex = some i → False := by
      intro v r i _ hv hr hri hpi
      have hlt := (hi.records v r hv hr).index i hri
      rw [hindex] at hpi
      obtain ⟨-, hidx⟩ | ⟨-, hidx, -⟩ := hcases
      · rw [hidx] at hpi
        obtain rfl := Option.some.inj hpi
        exact Nat.lt_irrefl _ hlt
      · rw [hidx] at hpi
        cases hpi
    intro v w r t i hv hw hr ht hri hti
    by_cases hvp : v = p.record
    · by_cases hwp : w = p.record
      · rw [hvp, hwp]
      · subst hvp
        obtain rfl : planned = r := by simpa using hv
        rw [AList.lookup_insert_ne hwp] at hw
        exact (hbelow w t i hwp hw ht hti hri).elim
    · rw [AList.lookup_insert_ne hvp] at hv
      by_cases hwp : w = p.record
      · subst hwp
        obtain rfl : planned = t := by simpa using hw
        exact (hbelow v r i hvp hv hr hri hti).elim
      · rw [AList.lookup_insert_ne hwp] at hw
        exact hi.unique v w r t i hv hw hr ht hri hti
  · have hsum := Table.total_insert_of_some (openAhead es.controllerEpoch 0) planned hl
    rw [hi.opens] at hsum
    simp only [openAhead, hfresh, hstamp, Nat.zero_le, and_true, true_and, false_and, if_false]
      at hsum
    exact hsum
  · have hcount : es.unsaturatedActiveCount ≤ es.planDirectedCursor := hi.count
    simp only [EpochState.bookPlanned]
    obtain ⟨hin, -⟩ | ⟨hout, -, -⟩ := hcases
    · rw [hin, if_pos rfl]
      split <;> omega
    · rw [hcapacity, hout]
      simpa using hcount

/-! ## Neutral pass -/

/-- The state of an open capacity round: what is not assigned yet is what the round has left, and
the round's counters count the records that can take a grant. -/
structure NeutralInv (acc : PlanAcc) : Prop extends Planned acc where
  opened : 0 < acc.epochState.neutralRoundNumber
  round : acc.epochState.neutralRound.Inv
  conserved : acc.epochState.sumDirectedTargets + acc.epochState.neutralGrantedTotal +
    acc.epochState.neutralRound.remainingAfter = acc.epochState.productiveLamports
  ahead : acc.records.total
    (openAhead acc.epochState.controllerEpoch acc.epochState.neutralCursor) +
      acc.epochState.neutralRound.steps = acc.epochState.neutralRound.nUnsaturated
  behind : acc.records.total
    (openBehind acc.epochState.controllerEpoch acc.epochState.neutralCursor) +
      acc.epochState.neutralRound.saturated = acc.epochState.neutralRound.steps
  cursor : acc.epochState.neutralCursor ≤ acc.epochState.planDirectedCursor
  rounds : 4 ^ (acc.epochState.neutralRoundNumber - 1) *
    (acc.epochState.neutralRound.remaining * acc.epochState.neutralRound.nUnsaturated) < 2 ^ 96

/-- Moving the cursor by one matters only to a record at the cursor. -/
theorem open_shift {epoch cursor : ℕ} {r : ValidatorRecord}
    (h : r.planEpoch = epoch → 0 < r.remainingCapacity → r.ordinal ≠ cursor) :
    openAhead epoch cursor r = openAhead epoch (cursor + 1) r ∧
      openBehind epoch cursor r = openBehind epoch (cursor + 1) r := by
  unfold openAhead openBehind
  by_cases hr : r.planEpoch = epoch ∧ 0 < r.remainingCapacity
  · obtain ⟨hstamp, hpos⟩ := hr
    have hne := h hstamp hpos
    simp only [hstamp, hpos, true_and]
    constructor
    · split <;> split <;> omega
    · split <;> split <;> omega
  · have hahead : ∀ P : Prop, ¬(r.planEpoch = epoch ∧ 0 < r.remainingCapacity ∧ P) :=
      fun P h ↦ hr ⟨h.1, h.2.1⟩
    simp only [hahead, if_false, and_self]

theorem NeutralInv.deals {vote : Pubkey} {record : ValidatorRecord} (hi : NeutralInv ⟨es, records⟩)
    (hl : records.lookup vote = some record) (hstamp : record.planEpoch = es.controllerEpoch)
    (hindex : record.validatorListIndex = some es.neutralCursor) :
    let dealt := if record.status = .active ∧ 0 < record.remainingCapacity then
      StakeMath.step es.neutralRound record.remainingCapacity else (es.neutralRound, 0)
    (0 < record.remainingCapacity ∧
        StepSpec es.neutralRound dealt.1 record.remainingCapacity dealt.2) ∨
      (record.remainingCapacity = 0 ∧ dealt = (es.neutralRound, 0)) := by
  intro dealt
  by_cases hpos : 0 < record.remainingCapacity
  · have hactive := ((hi.records vote record hl hstamp).capacity hpos).1
    have hordinal : record.ordinal = es.neutralCursor := by simp [ValidatorRecord.ordinal, hindex]
    have hone : openAhead es.controllerEpoch es.neutralCursor record = 1 :=
      if_pos ⟨hstamp, hpos, hordinal.ge⟩
    have hcount : 1 ≤ records.total (openAhead es.controllerEpoch es.neutralCursor) :=
      hone.ge.trans (Table.le_total (fun _ ↦ Nat.zero_le _) hl)
    have hahead : records.total (openAhead es.controllerEpoch es.neutralCursor) +
        es.neutralRound.steps = es.neutralRound.nUnsaturated := hi.ahead
    have hopen : ¬es.neutralRound.isComplete := by
      unfold NeutralRound.isComplete
      omega
    refine .inl ⟨hpos, ?_⟩
    simp only [dealt, hactive, hpos, and_self, if_true]
    exact step_spec hi.round hopen hpos
  · refine .inr ⟨Nat.eq_zero_of_not_pos hpos, ?_⟩
    simp only [dealt, hpos, and_false, if_false]

theorem NeutralInv.step {vote : Pubkey} (hi : NeutralInv acc)
    (h : planNeutralOne acc vote = .ok acc') : NeutralInv acc' := by
  obtain ⟨es, records⟩ := acc
  simp only [planNeutralOne, bind_eq_ok_iff, okOr_eq_ok, require_eq_ok, pure_eq_ok, exists_const,
    checkedAdd_eq_some, checkedSub_eq_some] at h
  obtain ⟨record, hl, ⟨hstamp, hindex⟩, _, ⟨-, rfl⟩, _, ⟨-, rfl⟩, _, ⟨hle, rfl⟩, _, ⟨-, rfl⟩,
    rfl⟩ :=
    h
  have hdeals := hi.deals hl hstamp hindex
  dsimp only at hdeals hle
  set dealt := if record.status = .active ∧ 0 < record.remainingCapacity then
    StakeMath.step es.neutralRound record.remainingCapacity else (es.neutralRound, 0) with hdealt
  set grantee := record.grantedBy es.neutralRoundNumber dealt.2
    (record.neutralGranted + dealt.2) (record.finalTarget + dealt.2)
    (record.remainingCapacity - dealt.2) with hgrantee
  have hrecord := hi.records vote record hl hstamp
  have hordinal : record.ordinal = es.neutralCursor := by simp [ValidatorRecord.ordinal, hindex]
  have hgordinal : grantee.ordinal = es.neutralCursor := hordinal
  have hgstamp : grantee.planEpoch = es.controllerEpoch := hstamp
  have hgcap : grantee.remainingCapacity = record.remainingCapacity - dealt.2 := rfl
  have hshift : ∀ w u, w ≠ vote → records.lookup w = some u →
      openAhead es.controllerEpoch es.neutralCursor u =
          openAhead es.controllerEpoch (es.neutralCursor + 1) u ∧
        openBehind es.controllerEpoch es.neutralCursor u =
          openBehind es.controllerEpoch (es.neutralCursor + 1) u := by
    intro w u hw hu
    apply open_shift
    intro hustamp hupos heq
    obtain ⟨i, hi'⟩ := Option.isSome_iff_exists.mp ((hi.records w u hu hustamp).capacity hupos).2
    obtain rfl : i = es.neutralCursor := by simpa [ValidatorRecord.ordinal, hi'] using heq
    exact hw (hi.unique w vote u record _ hu hl hustamp hstamp hi' hindex)
  have hahead := Table.total_insert_reweigh grantee hl fun w u hw hu ↦ (hshift w u hw hu).1
  have hbehind := Table.total_insert_reweigh grantee hl fun w u hw hu ↦ (hshift w u hw hu).2
  have hlast : openAhead es.controllerEpoch (es.neutralCursor + 1) grantee = 0 := by
    simp [openAhead, hgordinal]
  have hfirst : openBehind es.controllerEpoch es.neutralCursor record = 0 := by
    simp [openBehind, hordinal]
  have hnow : openAhead es.controllerEpoch es.neutralCursor record =
      if 0 < record.remainingCapacity then 1 else 0 := by simp [openAhead, hordinal, hstamp]
  have hleft : openBehind es.controllerEpoch (es.neutralCursor + 1) grantee =
      if 0 < record.remainingCapacity - dealt.2 then 1 else 0 := by
    simp [openBehind, hgordinal, hgstamp, hgcap]
  rw [hlast, hnow] at hahead
  rw [hfirst, hleft] at hbehind
  have hiahead : records.total (openAhead es.controllerEpoch es.neutralCursor) +
      es.neutralRound.steps = es.neutralRound.nUnsaturated := hi.ahead
  have hibehind : records.total (openBehind es.controllerEpoch es.neutralCursor) +
      es.neutralRound.saturated = es.neutralRound.steps := hi.behind
  -- what the dealt round has in common with the old one
  have hround : dealt.1.Inv ∧ dealt.1.remaining = es.neutralRound.remaining ∧
      dealt.1.nUnsaturated = es.neutralRound.nUnsaturated ∧
      dealt.1.granted = es.neutralRound.granted + dealt.2 ∧
      dealt.1.steps = es.neutralRound.steps + (if 0 < record.remainingCapacity then 1 else 0) ∧
      dealt.1.saturated + (if 0 < record.remainingCapacity - dealt.2 then 1 else 0) =
        es.neutralRound.saturated + if 0 < record.remainingCapacity then 1 else 0 := by
    obtain ⟨hpos, hs⟩ | ⟨hzero, heq⟩ := hdeals
    · refine ⟨hs.inv, hs.remaining, hs.nUnsaturated, hs.granted, ?_, ?_⟩
      · rw [if_pos hpos]
        exact hs.steps
      · rw [if_pos hpos, hs.saturated]
        by_cases hcap : dealt.2 = record.remainingCapacity
        · simp [hcap]
        · have : 0 < record.remainingCapacity - dealt.2 := by have := hs.le; omega
          simp [hcap, this]
    · rw [heq, hzero]
      exact ⟨hi.round, rfl, rfl, rfl, rfl, rfl⟩
  obtain ⟨hinv, hremaining, hmembers, hgranted, hsteps, hsaturated⟩ := hround
  suffices hbooked : NeutralInv ⟨es.bookGrant dealt.1 (es.neutralGrantedTotal + dealt.2),
      records.insert vote grantee⟩ by
    obtain ⟨surplus, v, hnote⟩ := (es.bookGrant dealt.1
      (es.neutralGrantedTotal + dealt.2)).noteWithdraw_eq vote grantee
    rw [hnote]
    exact { hbooked with
      records := fun v r hv hr ↦ { hbooked.records v r hv hr with } }
  refine
    { fits := hi.fits
      directed := ?_
      neutral := ?_
      records := ?_
      unique := ?_
      opened := hi.opened
      round := hinv
      conserved := ?_
      ahead := ?_
      behind := ?_
      cursor := hrecord.index _ hindex
      rounds := ?_ }
  · have hsum := Table.total_insert_of_some
      (plannedAt es.controllerEpoch · ValidatorRecord.directedTarget) grantee hl
    rw [plannedAt_of_eq hstamp, plannedAt_of_eq hgstamp] at hsum
    exact (Nat.add_right_cancel hsum).trans hi.directed
  · have hsum := Table.total_insert_of_some
      (plannedAt es.controllerEpoch · ValidatorRecord.neutralGranted) grantee hl
    have hgn : grantee.neutralGranted = record.neutralGranted + dealt.2 := rfl
    have hold : records.total (plannedAt es.controllerEpoch · ValidatorRecord.neutralGranted) =
      es.neutralGrantedTotal := hi.neutral
    rw [plannedAt_of_eq hstamp, plannedAt_of_eq hgstamp, hgn, hold] at hsum
    change Table.total (plannedAt es.controllerEpoch · ValidatorRecord.neutralGranted)
      (records.insert vote grantee) = es.neutralGrantedTotal + dealt.2
    omega
  · intro v r hv hr
    by_cases hvv : v = vote
    · subst hvv
      obtain rfl : grantee = r := by simpa using hv
      have hroom := hrecord.room
      have hgf : grantee.finalTarget = record.finalTarget + dealt.2 := rfl
      have hfinal := hrecord.final
      refine
        { final := ?_
          room := ?_
          capacity := ?_
          granted := ?_
          index := hrecord.index }
      · change record.finalTarget + dealt.2 =
          record.directedTarget + (record.neutralGranted + dealt.2)
        omega
      · change record.finalTarget + dealt.2 + (record.remainingCapacity - dealt.2) ≤ _
        calc
          record.finalTarget + dealt.2 + (record.remainingCapacity - dealt.2)
              = record.finalTarget + record.remainingCapacity := by omega
          _ ≤ es.capOf record.status := hroom
      · intro hpos
        exact hrecord.capacity (Nat.lt_of_lt_of_le hpos (Nat.sub_le _ _))
      · intro hpos
        obtain ⟨hrpos, -⟩ | ⟨-, heq⟩ := hdeals
        · exact hrecord.capacity hrpos
        · rw [heq] at hgrantee
          have : grantee.neutralGranted = record.neutralGranted := by rw [hgrantee]; rfl
          exact hrecord.granted (this ▸ hpos)
    · rw [AList.lookup_insert_ne hvv] at hv
      exact { hi.records v r hv hr with }
  · have hkeep : ∀ v r i, (records.insert vote grantee).lookup v = some r →
        r.planEpoch = es.controllerEpoch → r.validatorListIndex = some i →
        ∃ r₀, records.lookup v = some r₀ ∧ r₀.planEpoch = es.controllerEpoch ∧
          r₀.validatorListIndex = some i := by
      intro v r i hv hr hri
      by_cases hvv : v = vote
      · subst hvv
        obtain rfl : grantee = r := by simpa using hv
        exact ⟨record, hl, hstamp, hri⟩
      · rw [AList.lookup_insert_ne hvv] at hv
        exact ⟨r, hv, hr, hri⟩
    intro v w r u i hv hw hr hu hri hui
    obtain ⟨r₀, hv₀, hr₀, hri₀⟩ := hkeep v r i hv hr hri
    obtain ⟨u₀, hw₀, hu₀, hui₀⟩ := hkeep w u i hw hu hui
    exact hi.unique v w r₀ u₀ i hv₀ hw₀ hr₀ hu₀ hri₀ hui₀
  · have hcons : es.sumDirectedTargets + es.neutralGrantedTotal +
      (es.neutralRound.remaining - es.neutralRound.granted) = es.productiveLamports := hi.conserved
    have hfunds := hinv.granted_le_remaining
    rw [hgranted, hremaining] at hfunds
    change es.sumDirectedTargets + (es.neutralGrantedTotal + dealt.2) +
      (dealt.1.remaining - dealt.1.granted) = es.productiveLamports
    rw [hgranted, hremaining]
    omega
  · change Table.total (openAhead es.controllerEpoch (es.neutralCursor + 1))
      (records.insert vote grantee) + dealt.1.steps = dealt.1.nUnsaturated
    rw [hsteps, hmembers]
    omega
  · change Table.total (openBehind es.controllerEpoch (es.neutralCursor + 1))
      (records.insert vote grantee) + dealt.1.saturated = dealt.1.steps
    rw [hsteps]
    omega
  · change 4 ^ (es.neutralRoundNumber - 1) * (dealt.1.remaining * dealt.1.nUnsaturated) < 2 ^ 96
    rw [hremaining, hmembers]
    exact hi.rounds

/-! ## From one pass to the next -/

/-- Between the passes: the neutral pool is what the directed targets leave. -/
structure ReadyInv (acc : PlanAcc) : Prop extends Planned acc where
  granted : acc.epochState.neutralGrantedTotal = 0
  round : acc.epochState.neutralRoundNumber = 0
  opens : acc.records.total (openAhead acc.epochState.controllerEpoch 0) =
    acc.epochState.unsaturatedActiveCount
  count : acc.epochState.unsaturatedActiveCount < 2 ^ 32
  conserved : acc.epochState.sumDirectedTargets + acc.epochState.neutralTotal =
    acc.epochState.productiveLamports

/-- A finished plan: a shortfall means that no record can take more. -/
structure FinishedInv (acc : PlanAcc) : Prop extends Planned acc where
  conserved : acc.epochState.sumDirectedTargets + acc.epochState.neutralGrantedTotal +
    acc.epochState.capacityShortfall = acc.epochState.productiveLamports
  shortfall : 0 < acc.epochState.capacityShortfall → ∀ v r, acc.records.lookup v = some r →
    r.planEpoch = acc.epochState.controllerEpoch → r.remainingCapacity = 0

theorem saturated_of_total_eq_zero {epoch : ℕ} (h : records.total (openAhead epoch 0) = 0)
    {v : Pubkey} {r : ValidatorRecord} (hl : records.lookup v = some r) (hr : r.planEpoch = epoch) :
    r.remainingCapacity = 0 := by
  have hle : openAhead epoch 0 r ≤ records.total (openAhead epoch 0) :=
    Table.le_total (fun _ ↦ Nat.zero_le _) hl
  by_contra hne
  have hone : openAhead epoch 0 r = 1 := if_pos ⟨hr, Nat.pos_of_ne_zero hne, Nat.zero_le _⟩
  omega

theorem NeutralInv.of_begin {remaining members : ℕ} (hp : Planned ⟨es, records⟩)
    (hbegin : beginRound remaining members es.controllerEpoch = some es.neutralRound)
    (hfits : remaining < 2 ^ 64) (hcount : members < 2 ^ 64) (hopened : 0 < es.neutralRoundNumber)
    (hcursor : es.neutralCursor = 0)
    (hconserved : es.sumDirectedTargets + es.neutralGrantedTotal + remaining =
      es.productiveLamports) (hopens : records.total (openAhead es.controllerEpoch 0) = members)
    (hrounds : 4 ^ (es.neutralRoundNumber - 1) * (remaining * members) < 2 ^ 96) :
    NeutralInv ⟨es, records⟩ := by
  obtain ⟨hinv, hremaining, hmembers, hzero, hsteps, hsaturated⟩ :=
    inv_of_beginRound hbegin hfits hcount
  have hnone : records.total (openBehind es.controllerEpoch 0) = 0 := by
    simp [openBehind, Table.total]
  exact
    { toPlanned := hp
      opened := hopened
      round := hinv
      conserved := by
        rw [NeutralRound.remainingAfter, hremaining, hzero, Nat.sub_zero]
        exact hconserved
      ahead := by
        rw [hcursor, hsteps, hmembers]
        exact hopens
      behind := by
        rw [hcursor, hsteps, hsaturated, hnone]
      cursor := hcursor ▸ Nat.zero_le _
      rounds := by
        rw [hremaining, hmembers]
        exact hrounds }

theorem DirectedInv.close {listLen : ℕ} (hi : DirectedInv ⟨es, records⟩) (hlen : listLen < 2 ^ 32)
    (h : closeDirected listLen es = .ok es') :
    (es' = es) ∨ (es'.phase = .planNeutral ∧ ReadyInv ⟨es', records⟩ ∧
      es'.controllerEpoch = es.controllerEpoch) := by
  unfold closeDirected at h
  split at h
  next hcursor =>
    simp only [bind_eq_ok_iff, okOr_eq_ok, require_eq_ok, pure_eq_ok, exists_const] at h
    obtain ⟨neutral, hneutral, -, rfl⟩ := h
    unfold StakeMath.neutralTotal at hneutral
    split at hneutral
    next => cases hneutral
    next =>
      obtain ⟨hle, rfl⟩ := checkedSub_eq_some.mp hneutral
      refine .inr ⟨rfl, ?_, rfl⟩
      exact
        { toPlanned := hi.toPlanned.congr rfl rfl rfl rfl rfl rfl
          granted := hi.granted
          round := hi.round
          opens := hi.opens
          count := lt_of_le_of_lt (hi.count.trans hcursor.le) hlen
          conserved := Nat.add_sub_cancel' hle }
  next => exact .inl (pure_eq_ok.mp h).symm

theorem ReadyInv.open (hi : ReadyInv ⟨es, records⟩) :
    ((openNeutral es).2 = true ∧ FinishedInv ⟨(openNeutral es).1, records⟩) ∨
      ((openNeutral es).2 = false ∧ NeutralInv ⟨(openNeutral es).1, records⟩) := by
  have hcons : es.sumDirectedTargets + es.neutralTotal = es.productiveLamports := hi.conserved
  have hgranted : es.neutralGrantedTotal = 0 := hi.granted
  have hfits : es.neutralTotal < 2 ^ 64 :=
    lt_of_le_of_lt (hcons ▸ Nat.le_add_left _ _) hi.fits
  rw [openNeutral, if_pos hi.round]
  split
  next hnone =>
    refine .inl ⟨rfl, ?_⟩
    exact
      { toPlanned := hi.toPlanned.congr rfl rfl rfl rfl rfl rfl
        conserved := by
          dsimp only
          omega
        shortfall := by
          intro hpos v r hv hr
          obtain hzero | hzero := beginRound_eq_none_iff.mp hnone
          · exact absurd hzero hpos.ne'
          · exact saturated_of_total_eq_zero (hi.opens.trans hzero) hv hr }
  next round hsome =>
    refine .inr ⟨rfl, ?_⟩
    refine .of_begin (hi.toPlanned.congr rfl rfl rfl rfl rfl rfl) hsome hfits
      (lt_of_lt_of_le hi.count (by norm_num)) Nat.one_pos rfl ?_ hi.opens ?_
    · change es.sumDirectedTargets + es.neutralGrantedTotal + es.neutralTotal =
        es.productiveLamports
      omega
    · change 4 ^ 0 * (es.neutralTotal * es.unsaturatedActiveCount) < 2 ^ 96
      rw [pow_zero, one_mul]
      calc
        es.neutralTotal * es.unsaturatedActiveCount
            < 2 ^ 64 * 2 ^ 32 := Nat.mul_lt_mul'' hfits hi.count
        _ = 2 ^ 96 := by norm_num

/-- When the cursor has passed every planned ordinal, the round's counters agree with the records,
so its books close: nothing is inconsistent and the next round, if one is needed, is in range. -/
theorem NeutralInv.closeRound (hi : NeutralInv ⟨es, records⟩)
    (hcursor : es.neutralCursor = es.planDirectedCursor) :
    ∃ es' fin, StakeController.closeRound es = .ok (es', fin) ∧
      ((fin = true ∧ FinishedInv ⟨es', records⟩) ∨
        (fin = false ∧ NeutralInv ⟨es', records⟩)) := by
  have hround : es.neutralRound.Inv := hi.round
  -- no planned record lies ahead of the cursor, and behind it lie all of them
  have hends : ∀ v r, records.lookup v = some r →
      openAhead es.controllerEpoch es.neutralCursor r = 0 ∧
        openBehind es.controllerEpoch es.neutralCursor r = openAhead es.controllerEpoch 0 r := by
    intro v r hv
    by_cases hr : r.planEpoch = es.controllerEpoch ∧ 0 < r.remainingCapacity
    · obtain ⟨i, hidx⟩ :=
        Option.isSome_iff_exists.mp ((hi.records v r hv hr.1).capacity hr.2).2
      have hlt : r.ordinal < es.neutralCursor := by
        simp only [ValidatorRecord.ordinal, hidx, Option.getD_some, hcursor]
        exact (hi.records v r hv hr.1).index i hidx
      simp [openAhead, openBehind, hr.1, hr.2, hlt]
    · have hnot : ∀ P : Prop, ¬(r.planEpoch = es.controllerEpoch ∧ 0 < r.remainingCapacity ∧ P) :=
        fun P h ↦ hr ⟨h.1, h.2.1⟩
      simp only [openAhead, openBehind, hnot, if_false, and_self]
  have hahead : records.total (openAhead es.controllerEpoch es.neutralCursor) = 0 := by
    rw [Table.total_congr (g := fun _ ↦ 0) fun v r hv ↦ (hends v r hv).1]
    simp [Table.total]
  have hbehind : records.total (openBehind es.controllerEpoch es.neutralCursor) =
      records.total (openAhead es.controllerEpoch 0) :=
    Table.total_congr fun v r hv ↦ (hends v r hv).2
  have hsteps : es.neutralRound.steps = es.neutralRound.nUnsaturated := by
    have : records.total (openAhead es.controllerEpoch es.neutralCursor) +
      es.neutralRound.steps = es.neutralRound.nUnsaturated := hi.ahead
    omega
  have hdone : es.neutralRound.isComplete := hsteps.ge
  have hopens : records.total (openAhead es.controllerEpoch 0) =
      es.neutralRound.nUnsaturated - es.neutralRound.saturated := by
    have : records.total (openBehind es.controllerEpoch es.neutralCursor) +
      es.neutralRound.saturated = es.neutralRound.steps := hi.behind
    omega
  have hsub : checkedSub es.neutralRound.nUnsaturated es.neutralRound.saturated =
      some (es.neutralRound.nUnsaturated - es.neutralRound.saturated) :=
    checkedSub_eq_some.mpr ⟨hround.saturated.trans hround.steps, rfl⟩
  have hcons : es.sumDirectedTargets + es.neutralGrantedTotal + es.neutralRound.remainingAfter =
    es.productiveLamports := hi.conserved
  simp only [StakeController.closeRound, require_of hdone, hsub, okOr_some, ok_bind]
  split
  next hlast =>
    refine ⟨_, true, rfl, .inl ⟨rfl, ?_⟩⟩
    exact
      { toPlanned := hi.toPlanned.congr rfl rfl rfl rfl rfl rfl
        conserved := hcons
        shortfall := by
          intro hpos v r hv hr
          obtain hzero | hzero := hlast
          · exact absurd hzero hpos.ne'
          · exact saturated_of_total_eq_zero (hopens.trans hzero) hv hr }
  next hmore =>
    push Not at hmore
    -- the product of funds and members bounds the number of rounds
    have hquarter := hround.quarter hdone
    have hnext : 4 ^ es.neutralRoundNumber * (es.neutralRound.remainingAfter *
        (es.neutralRound.nUnsaturated - es.neutralRound.saturated)) < 2 ^ 96 := by
      have hnumber : 0 < es.neutralRoundNumber := hi.opened
      obtain ⟨k, hk⟩ : ∃ k, es.neutralRoundNumber = k + 1 :=
        ⟨es.neutralRoundNumber - 1, by omega⟩
      have hrounds :
          4 ^ k * (es.neutralRound.remaining * es.neutralRound.nUnsaturated) < 2 ^ 96 := by
        have := hi.rounds
        rwa [show es.neutralRoundNumber - 1 = k by omega] at this
      rw [hk, pow_succ, mul_assoc]
      exact lt_of_le_of_lt (Nat.mul_le_mul_left _ hquarter) hrounds
    have hprod : 0 < es.neutralRound.remainingAfter *
        (es.neutralRound.nUnsaturated - es.neutralRound.saturated) :=
      Nat.mul_pos (Nat.pos_of_ne_zero hmore.1) (Nat.pos_of_ne_zero hmore.2)
    have hnumber : es.neutralRoundNumber < MAX_NEUTRAL_ROUNDS := by
      have hpow : 4 ^ es.neutralRoundNumber < 4 ^ 48 :=
        calc
          4 ^ es.neutralRoundNumber ≤ 4 ^ es.neutralRoundNumber *
              (es.neutralRound.remainingAfter *
                (es.neutralRound.nUnsaturated - es.neutralRound.saturated)) :=
            Nat.le_mul_of_pos_right _ hprod
          _ < 2 ^ 96 := hnext
          _ = 4 ^ 48 := by norm_num
      exact ((Nat.pow_lt_pow_iff_right (by norm_num)).mp hpow).trans (by decide)
    obtain ⟨round, hbegin⟩ : ∃ round, beginRound es.neutralRound.remainingAfter
        (es.neutralRound.nUnsaturated - es.neutralRound.saturated) es.controllerEpoch =
          some round := by
      rw [← Option.ne_none_iff_exists', ne_eq, beginRound_eq_none_iff]
      push Not
      exact hmore
    simp only [require_of hnumber, hbegin, okOr_some, ok_bind]
    refine ⟨_, false, rfl, .inr ⟨rfl, ?_⟩⟩
    exact .of_begin (hi.toPlanned.congr rfl rfl rfl rfl rfl rfl) hbegin
      (lt_of_le_of_lt (Nat.sub_le _ _) hround.fits) (lt_of_le_of_lt (Nat.sub_le _ _) hround.counts)
      (Nat.succ_pos _) rfl hcons hopens hnext

end StakeController
end FusionCore
