import FusionCore.Controller.RecordMoves

/-!
# Streaks of failed and healthy epochs

Reconcile observes a listed validator once an epoch; the directed pass counts what was observed and
drains or promotes on the second count in a row.  A history of reconcile's observations of one
validator shows what the counters stand for: the last epoch in which the record was planned.  That
epoch is the one before as long as a record with a running streak is planned in every epoch.  The
directed pass also counts what it sees itself of a validator without a slot in the list; these
failures are not reconcile's.
-/

namespace FusionCore
namespace StakeController

open Checked StakeMath

/-! ## Histories of observations -/

/-- What reconcile saw of a validator in an epoch. -/
structure EpochObservation where
  epoch : ℕ
  livenessOk : Bool
  hasPoolStake : Bool
  deriving DecidableEq, Repr

/-- Append the observation of `v` that a reconcile batch makes. -/
def noteObservation (v : Pubkey) (e : CrankEvent) (w w' : CrankWorld)
    (log : List EpochObservation) : List EpochObservation :=
  match w'.controller.records.lookup v with
  | none => log
  | some r =>
    if e.instr.observes v then ⟨w.epoch, r.observedLivenessOk, r.hasPoolStake⟩ :: log else log

/-- The observation of an epoch. -/
def observationOf (epoch : ℕ) (log : List EpochObservation) : Option EpochObservation :=
  log.find? fun o ↦ o.epoch = epoch

/-- Reconcile saw a failure. -/
def FailedAt (epoch : ℕ) (log : List EpochObservation) : Prop :=
  ∃ o ∈ observationOf epoch log, o.livenessOk = false

/-- Reconcile saw it healthy with pool stake. -/
def HealthyAt (epoch : ℕ) (log : List EpochObservation) : Prop :=
  ∃ o ∈ observationOf epoch log, o.livenessOk = true ∧ o.hasPoolStake = true

instance (epoch : ℕ) (log : List EpochObservation) : Decidable (FailedAt epoch log) :=
  inferInstanceAs (Decidable (∃ o ∈ observationOf epoch log, _))

instance (epoch : ℕ) (log : List EpochObservation) : Decidable (HealthyAt epoch log) :=
  inferInstanceAs (Decidable (∃ o ∈ observationOf epoch log, _))

theorem observationOf_cons_self (o : EpochObservation) (log : List EpochObservation) :
    observationOf o.epoch (o :: log) = some o := by
  simp [observationOf]

theorem observationOf_cons_of_ne {o : EpochObservation} {epoch : ℕ} (log : List EpochObservation)
    (h : o.epoch ≠ epoch) : observationOf epoch (o :: log) = observationOf epoch log := by
  simp [observationOf, h]

section

variable {v : Pubkey} {e : CrankEvent} {w w' : CrankWorld} {log : List EpochObservation}
  {r : ValidatorRecord}

theorem noteObservation_of_not (hobserves : e.instr.observes v = false) :
    noteObservation v e w w' log = log := by
  simp only [noteObservation, hobserves, Bool.false_eq_true, if_false]
  split <;> rfl

theorem noteObservation_of_observes (hr : w'.controller.records.lookup v = some r)
    (hobserves : e.instr.observes v = true) :
    noteObservation v e w w' log = ⟨w.epoch, r.observedLivenessOk, r.hasPoolStake⟩ :: log := by
  simp [noteObservation, hr, hobserves]

theorem observationOf_noteObservation_of_ne {epoch : ℕ} (h : w.epoch ≠ epoch) :
    observationOf epoch (noteObservation v e w w' log) = observationOf epoch log := by
  unfold noteObservation
  split
  · rfl
  · split
    · exact observationOf_cons_of_ne log h
    · rfl

end

/-! ## Plans -/

/-- The statuses from which a validator can be drained. -/
def inService : ValidatorStatus → Bool
  | .candidate | .active => true
  | _ => false

theorem inService_of_advance {status : ValidatorStatus} {input : LifecycleInput}
    (h : inService (advanceLifecycle status input).status = true) : inService status = true := by
  cases status with
  | registered | removable => cases h
  | draining =>
    simp only [advanceLifecycle] at h
    split at h <;> cases h
  | candidate | active => rfl

section

variable {sys : Sysvars} {list : ValidatorList} {es₀ : EpochState} {threshold : ℕ}
  {r r' : ValidatorRecord}

/-- What the directed pass counts: an observation that the record carries, or one that it makes of a
validator without a slot. -/
theorem PlannedFrom.counts (h : PlannedFrom sys list es₀ threshold r r') :
    r'.observedEpoch = r'.planEpoch ∧
      (0 < r'.consecutiveLivenessFailures → r'.poolEntryStatus ≠ none →
        r.observedEpoch = es₀.controllerEpoch ∧ r.observedLivenessOk = false) ∧
      (0 < r'.consecutiveHealthyEpochs → r.observedEpoch = es₀.controllerEpoch ∧
        r.observedLivenessOk = true ∧ r.hasPoolStake = true) := by
  obtain ⟨-, p, es, s, hsame, hsight, rfl⟩ := h
  have hfailures := advanceLifecycle_failures (rfl : lifecycleOutcome es threshold s = _)
  have hhealthy := advanceLifecycle_healthy (rfl : lifecycleOutcome es threshold s = _)
  refine ⟨observedEpoch_of_sight hsight, ?_⟩
  rw [← hsame.epoch]
  obtain ⟨entry, -, hobserved, rfl⟩ | ⟨-, -, obs, rfl⟩ := sight_eq hsight
  · exact ⟨fun hcount _ ↦ ⟨hobserved, hfailures.1 hcount⟩,
      fun hcount ↦ ⟨hobserved, hhealthy.1 hcount⟩⟩
  · exact ⟨fun _ hslot ↦ absurd rfl hslot,
      fun hcount ↦ absurd (hhealthy.1 hcount).2 (by simp)⟩

/-- A validator that enters service has just been seen live. -/
theorem PlannedFrom.inService (h : PlannedFrom sys list es₀ threshold r r')
    (hstatus : inService r'.status = true) (hcount : 0 < r'.consecutiveLivenessFailures) :
    StakeController.inService r.status = true := by
  obtain ⟨-, p, es, s, hsame, hsight, rfl⟩ := h
  obtain ⟨-, -, hsame, -⟩ := PlannedFrom.observation hsame hsight
  have hfailures := advanceLifecycle_failures (rfl : lifecycleOutcome es threshold s = _)
  rw [← hsame]
  simp only [planRecord, plannedStatus] at hstatus
  split at hstatus
  next hsupport =>
    simp only [Bool.and_eq_true] at hsupport
    exact absurd ((hfailures.1 hcount).symm.trans hsupport.1.1.2) (by simp)
  next => exact inService_of_advance hstatus

/-- A drained validator was in service, and the plan counts a second failure. -/
theorem PlannedFrom.drains (h : PlannedFrom sys list es₀ threshold r r')
    (hfrom : r.status ≠ .draining) (hto : r'.status = .draining)
    (hcommission : r'.observedCommissionOk = true) :
    StakeController.inService r.status = true ∧
      globalLivenessGuard es₀.healthyDelegatedLamports es₀.totalDelegatedLamports = false ∧
      0 < r.consecutiveLivenessFailures ∧ 0 < r'.consecutiveLivenessFailures := by
  obtain ⟨-, p, es, s, hsame, hsight, rfl⟩ := h
  obtain ⟨hobs, -, hstatus, hfailures, -⟩ := PlannedFrom.observation hsame hsight
  obtain hout | ⟨-, hout⟩ := plannedStatus_cases es s (lifecycleOutcome es threshold s)
  · obtain ⟨hservice, hguard, hcount, hcount'⟩ := advanceLifecycle_drains (hstatus ▸ hfrom)
      ((congrArg VoteObservation.commissionOk hobs).trans hcommission) (hout.symm.trans hto)
    refine ⟨?_, ?_, hfailures ▸ hcount, hcount'⟩
    · rw [← hstatus]
      obtain hcandidate | hactive := hservice
      · rw [hcandidate]
        rfl
      · rw [hactive]
        rfl
    · rw [← hsame.healthy, ← hsame.total]
      exact hguard
  · cases hout.symm.trans hto

theorem PlannedFrom.promotes (h : PlannedFrom sys list es₀ threshold r r')
    (hfrom : r.status ≠ .active) (hto : r'.status = .active) :
    0 < r.consecutiveHealthyEpochs ∧ 0 < r'.consecutiveHealthyEpochs := by
  obtain ⟨-, p, es, s, hsame, hsight, rfl⟩ := h
  obtain ⟨-, -, hstatus, -, hhealthy⟩ := PlannedFrom.observation hsame hsight
  obtain hout | ⟨-, hout⟩ := plannedStatus_cases es s (lifecycleOutcome es threshold s)
  · obtain ⟨-, hcount, hcount'⟩ :=
      advanceLifecycle_promotes (hstatus ▸ hfrom) (hout.symm.trans hto)
    exact ⟨hhealthy ▸ hcount, hcount'⟩
  · cases hout.symm.trans hto

end

/-! ## What the counters stand for -/

/-- The record carries what reconcile saw, or what the directed pass saw, and a positive counter of
a validator in service says what the last planned epoch was like. -/
structure Streaks (log : List EpochObservation) (r : ValidatorRecord) : Prop where
  stamped : r.observedEpoch = 0 ∨ r.observedEpoch = r.planEpoch ∨
    ∃ o ∈ observationOf r.observedEpoch log,
      o.livenessOk = r.observedLivenessOk ∧ o.hasPoolStake = r.hasPoolStake
  failing : inService r.status = true → 0 < r.consecutiveLivenessFailures →
    FailedAt r.planEpoch log
  healthy : 0 < r.consecutiveHealthyEpochs → HealthyAt r.planEpoch log

/-- A plan counts a failure of a validator in service only if it has a slot in the list. -/
def FailuresListed (e : CrankEvent) (w : CrankWorld) (v : Pubkey) : Prop :=
  ∀ r ∈ w.controller.records.lookup v, inService r.status = true →
    ∀ w' ∈ w.next e, ∀ r' ∈ w'.controller.records.lookup v,
      0 < r'.consecutiveLivenessFailures → r'.poolEntryStatus ≠ none

namespace Streaks

variable {v : Pubkey} {e : CrankEvent} {w w' : CrankWorld} {log : List EpochObservation}
  {r r' : ValidatorRecord}

/-- What a plan counts of a listed record is what reconcile saw in the epoch of the plan. -/
theorem counted {sys : Sysvars} {list : ValidatorList} {threshold : ℕ} (h : Streaks log r)
    (hpos : 0 < w.epoch)
    (hplan : PlannedFrom sys list w.controller.epochState threshold r r') :
    (0 < r'.consecutiveLivenessFailures → r'.poolEntryStatus ≠ none → FailedAt w.epoch log) ∧
      (0 < r'.consecutiveHealthyEpochs → HealthyAt w.epoch log) := by
  obtain ⟨-, hfailures, hhealthy⟩ := hplan.counts
  -- the record has not been planned in this epoch, so its stamp is reconcile's
  have hseen : r.observedEpoch = w.epoch → ∃ o ∈ observationOf w.epoch log,
      o.livenessOk = r.observedLivenessOk ∧ o.hasPoolStake = r.hasPoolStake := by
    intro hepoch
    obtain hzero | hself | hstamp := h.stamped
    · omega
    · exact absurd (hself.symm.trans hepoch) hplan.1
    · rwa [hepoch] at hstamp
  constructor
  · intro hcount hslot
    obtain ⟨hepoch, hlive⟩ := hfailures hcount hslot
    obtain ⟨o, ho, hok, -⟩ := hseen hepoch
    exact ⟨o, ho, hok.trans hlive⟩
  · intro hcount
    obtain ⟨hepoch, hlive, hstake⟩ := hhealthy hcount
    obtain ⟨o, ho, hok, hcarried⟩ := hseen hepoch
    exact ⟨o, ho, hok.trans hlive, hcarried.trans hstake⟩

theorem registered : Streaks log .registered where
  stamped := .inl rfl
  failing _ h := absurd h (Nat.lt_irrefl 0)
  healthy h := absurd h (Nat.lt_irrefl 0)

theorem same (h : Streaks log r)
    (hobserved : r'.observedEpoch = r.observedEpoch)
    (hlive : r'.observedLivenessOk = r.observedLivenessOk)
    (hstake : r'.hasPoolStake = r.hasPoolStake) (hstatus : r'.status = r.status)
    (hfailures : r'.consecutiveLivenessFailures = r.consecutiveLivenessFailures)
    (hhealthy : r'.consecutiveHealthyEpochs = r.consecutiveHealthyEpochs)
    (hplan : r'.planEpoch = r.planEpoch) : Streaks log r' := by
  constructor
  · rw [hobserved, hlive, hstake, hplan]
    exact h.stamped
  · rw [hfailures, hplan, hstatus]
    exact h.failing
  · rw [hhealthy, hplan]
    exact h.healthy

theorem observed (h : Streaks log r) (hne : w.epoch ≠ r.planEpoch)
    (hobserves : e.instr.observes v = true) {index : ℕ} {info : StakeInfo}
    {obs : VoteObservation}
    (hr' : w'.controller.records.lookup v = some (r.observed w.epoch index info obs)) :
    Streaks (noteObservation v e w w' log) (r.observed w.epoch index info obs) := by
  constructor
  · rw [noteObservation_of_observes hr' hobserves]
    exact .inr (.inr ⟨_, observationOf_cons_self _ _, rfl, rfl⟩)
  · intro hstatus hpos
    obtain ⟨o, ho, hok⟩ := h.failing hstatus hpos
    refine ⟨o, ?_, hok⟩
    rw [Option.mem_def, ← ho]
    exact observationOf_noteObservation_of_ne hne
  · intro hpos
    obtain ⟨o, ho, hok⟩ := h.healthy hpos
    refine ⟨o, ?_, hok⟩
    rw [Option.mem_def, ← ho]
    exact observationOf_noteObservation_of_ne hne

theorem plan {sys : Sysvars} {list : ValidatorList} {threshold : ℕ} (h : Streaks log r)
    (hpos : 0 < w.epoch) (hplan : PlannedFrom sys list w.controller.epochState threshold r r')
    (hlisted : inService r.status = true → 0 < r'.consecutiveLivenessFailures →
      r'.poolEntryStatus ≠ none) : Streaks log r' := by
  obtain ⟨hself, -⟩ := hplan.counts
  obtain ⟨hfailed, hhealthy⟩ := h.counted hpos hplan
  have hepoch : r'.planEpoch = w.epoch := hplan.planEpoch
  constructor
  · exact .inr (.inl hself)
  · intro hstatus hcount
    rw [hepoch]
    exact hfailed hcount (hlisted (hplan.inService hstatus hcount) hcount)
  · intro hcount
    rw [hepoch]
    exact hhealthy hcount

theorem step (h : Streaks log r) (hs : crank.step e w w')
    (hpos : w.phase ≠ .idle → 0 < w.epoch)
    (hunplanned : w.phase.beforePlan = true → r.planEpoch < w.epoch)
    (hmove : RecordMove e.sys w.controller v e.instr r r')
    (hr : w.controller.records.lookup v = some r) (hr' : w'.controller.records.lookup v = some r')
    (hlisted : e.instr.plans v = true → FailuresListed e w v) :
    Streaks (noteObservation v e w w' log) r' := by
  obtain ⟨sys, instr⟩ := e
  dsimp only at hmove
  cases hmove with
  | kept hobserves hplans =>
    rw [noteObservation_of_not hobserves]
    exact h.same rfl rfl rfl rfl rfl rfl rfl
  | observed hmem hphase index info obs =>
    have hphase : w.phase = .reconcile := hphase
    refine h.observed (hunplanned ?_).ne' ?_ hr'
    · rw [hphase]
      rfl
    · exact decide_eq_true hmem
  | directed =>
    rw [noteObservation_of_not rfl]
    exact h.same rfl rfl rfl rfl rfl rfl rfl
  | planned hmem hphase _ hplan =>
    rw [noteObservation_of_not rfl]
    exact h.plan (hpos (fun hidle ↦ by simp [CrankWorld.phase, hphase] at hidle)) hplan
      fun hstatus ↦ hlisted (decide_eq_true hmem) r hr hstatus w' hs r' hr'
  | granted _ hgranted =>
    obtain ⟨_, _, _, _, _, -, rfl⟩ := hgranted
    rw [noteObservation_of_not rfl]
    exact h.same rfl rfl rfl rfl rfl rfl rfl
  | acted _ hacted =>
    obtain ⟨_, _, _, _, rfl⟩ := hacted
    rw [noteObservation_of_not rfl]
    exact h.same rfl rfl rfl rfl rfl rfl rfl

end Streaks

/-! ## Runs -/

def CrankInstr.plannedPairs : CrankInstr → List Pair
  | .planDirectedBatch pairs _ => pairs
  | _ => []

/-- A record with a running streak is planned in the epoch after its last plan, and a failure of a
validator in service is counted only if it has a slot in the list. -/
def PlannedInSuccession (e : CrankEvent) (w : CrankWorld) : Prop :=
  ∀ p ∈ e.instr.plannedPairs,
    (∀ r ∈ w.controller.records.lookup p.record,
      0 < r.consecutiveLivenessFailures ∨ 0 < r.consecutiveHealthyEpochs →
        r.planEpoch + 1 = w.epoch) ∧
    FailuresListed e w p.record

instance (e : CrankEvent) (w : CrankWorld) (v : Pubkey) : Decidable (FailuresListed e w v) :=
  inferInstanceAs (Decidable (∀ r ∈ w.controller.records.lookup v, _))

instance (e : CrankEvent) (w : CrankWorld) : Decidable (PlannedInSuccession e w) :=
  inferInstanceAs (Decidable (∀ p ∈ e.instr.plannedPairs, _))

theorem PlannedInSuccession.planned {v : Pubkey} {e : CrankEvent} {w : CrankWorld}
    (h : PlannedInSuccession e w) (hplans : e.instr.plans v = true) :
    (∀ r ∈ w.controller.records.lookup v,
      0 < r.consecutiveLivenessFailures ∨ 0 < r.consecutiveHealthyEpochs →
        r.planEpoch + 1 = w.epoch) ∧
    FailuresListed e w v := by
  obtain ⟨sys, instr⟩ := e
  cases instr with
  | planDirectedBatch pairs crank =>
    obtain ⟨p, hp, rfl⟩ := List.mem_map.mp (of_decide_eq_true hplans)
    exact h p hp
  | _ => cases hplans

section

variable {v : Pubkey} {x x' : CrankWorld × List EpochObservation}

theorem streaks_of_reachable
    (h : (crank.withGhost [] (noteObservation v)).Reachable
      (fun e x ↦ PlannedInSuccession e x.1) x)
    {r : ValidatorRecord} (hr : x.1.controller.records.lookup v = some r) :
    Streaks x.2 r := by
  induction h generalizing r with
  | init hinit =>
    rw [hinit.1.records] at hr
    cases hr
  | step e hreach hg hs ih =>
    obtain ⟨hstep, hlog⟩ := hs
    have hpos := epoch_pos hreach.forget
    rw [hlog]
    obtain ⟨-, rfl⟩ | ⟨r₀, hr₀, hmove⟩ := crank_record_cases hstep hr
    · exact .registered
    · obtain ⟨-, hunplanned⟩ := crank_planEpoch hreach.forget v r₀ hr₀
      exact (ih hr₀).step hstep hpos hunplanned hmove hr₀ hr fun hplans ↦ (hg.planned hplans).2

end

namespace CrankSample

/-- Run with the observations of `v` kept beside the world. -/
def runNoted (G : CrankEvent → CrankWorld → Prop) [∀ e w, Decidable (G e w)] (v : Pubkey)
    (events : List CrankEvent) : Option (CrankWorld × List EpochObservation) :=
  Machine.execute (fun e x ↦ G e x.1) (Machine.ghostNext CrankWorld.next (noteObservation v))
    (genesis, []) events

theorem reachable_runNoted {G : CrankEvent → CrankWorld → Prop} [∀ e w, Decidable (G e w)]
    {v : Pubkey} {events : List CrankEvent} {x : CrankWorld × List EpochObservation}
    (h : runNoted G v events = some x) :
    (crank.withGhost [] (noteObservation v)).Reachable (fun e x ↦ G e x.1) x := by
  have hinit : (crank.withGhost [] (noteObservation v)).init (genesis, []) :=
    ⟨⟨rfl, rfl, rfl, rfl, le_rfl, rfl⟩, rfl⟩
  exact (Machine.Reachable.init hinit).execute (Machine.withGhost_step fun _ _ _ hs ↦ hs) h

/-- A validator whose vote account earned no credits. -/
def silent (vote epoch : ℕ) : Quad :=
  { quad vote epoch with sample := some ⟨5, false, epoch * 432000 + 10⟩ }

/-- Up to the directed pass of an epoch. -/
def upToPlan (epoch : ℕ) (quads : List Quad) : List CrankEvent :=
  observe epoch quads ++ [⟨at_ epoch 20000, .closePreferenceWindow⟩]

/-- In two epochs on end the first validator fails and the second is healthy. -/
def twoEpochs : List CrankEvent :=
  admitted ++ upToPlan 3 [silent 11 3, quad 12 3] ++ [planBoth 3] ++
    upToPlan 4 [silent 11 4, quad 12 4]

/-- In epochs 3 and 5 the first fails and the second is healthy.  In epoch 4 it is the other way
round, but epoch 5 starts before epoch 4 is planned. -/
def preempted : List CrankEvent :=
  admitted ++ upToPlan 3 [silent 11 3, quad 12 3] ++ [planBoth 3] ++
    observe 4 [quad 11 4, silent 12 4] ++ upToPlan 5 [silent 11 5, quad 12 5]

/-- The last step of a noted run: the state before it and the state after it. -/
def lastStep (G : CrankEvent → CrankWorld → Prop) [∀ e w, Decidable (G e w)] (v : Pubkey)
    (events : List CrankEvent) (e : CrankEvent) :
    Option ((CrankWorld × List EpochObservation) × (CrankWorld × List EpochObservation)) :=
  (runNoted G v events).bind fun x ↦
    (Machine.ghostNext CrankWorld.next (noteObservation v) e x).map fun x' ↦ (x, x')

/-- A change of the status of `v` without a commission breach. -/
structure Turns (v : Pubkey) (w w' : CrankWorld) (src dst : ValidatorStatus) : Prop where
  before : ∃ r ∈ w.controller.records.lookup v, r.status = src
  after : ∃ r ∈ w'.controller.records.lookup v, r.status = dst ∧ r.observedCommissionOk = true

instance (v : Pubkey) (w w' : CrankWorld) (src dst : ValidatorStatus) :
    Decidable (Turns v w w' src dst) :=
  decidable_of_iff ((∃ r ∈ w.controller.records.lookup v, r.status = src) ∧
    ∃ r ∈ w'.controller.records.lookup v, r.status = dst ∧ r.observedCommissionOk = true)
    ⟨fun h ↦ ⟨h.1, h.2⟩, fun h ↦ ⟨h.before, h.after⟩⟩

theorem lastStep_spec {G : CrankEvent → CrankWorld → Prop} [∀ e w, Decidable (G e w)]
    {v : Pubkey} {events : List CrankEvent} {e : CrankEvent}
    {P : (CrankWorld × List EpochObservation) × (CrankWorld × List EpochObservation) → Prop}
    [DecidablePred P] (h : (lastStep G v events e).map (fun y ↦ decide (P y)) = some true) :
    ∃ x x', (crank.withGhost [] (noteObservation v)).Reachable (fun e x ↦ G e x.1) x ∧
      (crank.withGhost [] (noteObservation v)).step e x x' ∧ P (x, x') := by
  obtain ⟨y, hy, hP⟩ := Option.map_eq_some_iff.mp h
  obtain ⟨x, hx, hy⟩ := Option.bind_eq_some_iff.mp hy
  obtain ⟨x', hx', rfl⟩ := Option.map_eq_some_iff.mp hy
  exact ⟨x, x', reachable_runNoted hx, Machine.withGhost_step (fun _ _ _ hs ↦ hs) e x x' hx',
    of_decide_eq_true hP⟩

end CrankSample

end StakeController
end FusionCore
