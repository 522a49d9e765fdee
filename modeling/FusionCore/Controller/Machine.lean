import FusionCore.Controller.Deposit
import FusionCore.Controller.Effects
import FusionCore.Core.Protocol
import FusionCore.Lib.Machine

/-!
# The controller and the stake pool as one machine

Anyone may send any instruction of the controller at any time, and between them the permissionless
instructions of the stake pool.  The world carries a log of what was finalized and executed, so
that a property of whole runs can be stated of the states they reach.
-/

namespace FusionCore
namespace StakeController

open Checked StakeMath

/-! ## Instructions -/

inductive CrankInstr where
  | registerValidator (vote : Pubkey) (sample : Option VoteSample)
  | setPreference (owner key : Pubkey) (position : Option PositionView) (vote : Pubkey)
  | syncPreference (key : Pubkey) (position : Option PositionView)
  | closePreference (closer rentRecipient key : Pubkey) (position : Option PositionView)
  | startEpoch
  | reconcileBatch (quads : List Quad) (crank : Pubkey)
  | finalizePool (mintSupply fee : ℕ) (crank : Pubkey)
  | snapshotPreference (key : Pubkey) (position : Option PositionView)
  | closePreferenceWindow
  | planDirectedBatch (pairs : List Pair) (crank : Pubkey)
  | planNeutralBatch (votes : List Pubkey) (crank : Pubkey)
  | finalizePlan (crank : Pubkey)
  | executeNextAction (vote crank : Pubkey)
  | finishEpoch (crank : Pubkey)
  | depositSol (lamports tokens : ℕ)
  | depositStake (depositor vote : Pubkey) (stake : UserStake) (validatorStake : Pubkey)
      (tokens : ℕ)
  -- sent to the pool, not to the controller
  | updateValidatorListBalance (startIndex : ℕ) (observations : List StakeObservation)
  | updateStakePoolBalance (mintSupply : ℕ)
  | cleanupRemovedValidatorEntries
  | user (op : UserOp)
  | fundMaintenance (amount : ℕ)

/-- What the log keeps of an instruction. -/
inductive Note where
  | finalized (totalLamports : ℕ)
  | executed (vote : Pubkey) (what : Executed)
  deriving DecidableEq, Repr

def Note.isFinalized : Note → Bool
  | .finalized _ => true
  | .executed _ _ => false

/-- Run a call of the pool from outside the controller. -/
def onPool (call : StakePool → Except PoolError StakePool) (c : Controller) :
    Except ControllerError Controller := do
  let pool ← poolCall (call c.pool)
  pure { c with pool }

/-- An instruction that leaves no note. -/
def quietly (x : Except ControllerError Controller) :
    Except ControllerError (Controller × Option Note) := do
  let c ← x
  pure (c, none)

def CrankInstr.run (sys : Sysvars) (c : Controller) :
    CrankInstr → Except ControllerError (Controller × Option Note)
  | .registerValidator vote sample => quietly (StakeController.registerValidator vote sample c)
  | .setPreference owner key position vote =>
      quietly (StakeController.setPreference sys owner key position vote c)
  | .syncPreference key position => quietly (StakeController.syncPreference sys key position c)
  | .closePreference closer rentRecipient key position =>
      quietly (StakeController.closePreference sys closer rentRecipient key position c)
  | .startEpoch => quietly (StakeController.startEpoch sys c)
  | .reconcileBatch quads crank => quietly (StakeController.reconcileBatch sys quads crank c)
  | .finalizePool mintSupply fee crank => do
      let c ← StakeController.finalizePool sys mintSupply fee crank c
      pure (c, some (.finalized c.epochState.navTotalLamports))
  | .snapshotPreference key position =>
      quietly (StakeController.snapshotPreference sys key position c)
  | .closePreferenceWindow => quietly (StakeController.closePreferenceWindow sys c)
  | .planDirectedBatch pairs crank => quietly (StakeController.planDirectedBatch sys pairs crank c)
  | .planNeutralBatch votes crank => quietly (StakeController.planNeutralBatch votes crank c)
  | .finalizePlan crank => quietly (StakeController.finalizePlan crank c)
  | .executeNextAction vote crank => do
      let done ← StakeController.executeNextAction sys vote crank c
      pure (done.1, some (.executed vote done.2))
  | .finishEpoch crank => quietly (StakeController.finishEpoch sys crank c)
  | .depositSol lamports tokens => quietly (StakeController.depositSol sys lamports tokens c)
  | .depositStake depositor vote stake validatorStake tokens =>
      quietly (StakeController.depositStake sys depositor vote stake validatorStake tokens c)
  | .updateValidatorListBalance startIndex observations =>
      quietly (onPool
        (StakePool.updateValidatorListBalance sys.clock.epoch startIndex observations) c)
  | .updateStakePoolBalance mintSupply =>
      quietly (onPool (StakePool.updateStakePoolBalance sys mintSupply) c)
  | .cleanupRemovedValidatorEntries =>
      quietly (onPool (fun p ↦ .ok p.cleanupRemovedValidatorEntries) c)
  | .user op => quietly (onPool (StakePool.user sys op) c)
  | .fundMaintenance amount => quietly (.ok { c with vault := c.vault + amount })

/-! ## The machine -/

structure LogEntry where
  sys : Sysvars
  controllerEpoch : ℕ
  note : Note
  deriving DecidableEq, Repr

structure CrankWorld where
  clock : Clock
  controller : Controller
  log : List LogEntry

structure CrankEvent where
  sys : Sysvars
  instr : CrankInstr

namespace CrankWorld

def epoch (w : CrankWorld) : ℕ := w.controller.epochState.controllerEpoch

def phase (w : CrankWorld) : Phase := w.controller.epochState.phase

def after (w : CrankWorld) (sys : Sysvars) (result : Controller × Option Note) : CrankWorld where
  clock := sys.clock
  controller := result.1
  log := w.log ++ (result.2.map fun note ↦ ⟨sys, w.epoch, note⟩).toList

def next (e : CrankEvent) (w : CrankWorld) : Option CrankWorld :=
  if w.clock.Le e.sys.clock then (e.instr.run e.sys w.controller).toOption.map (w.after e.sys)
  else none

/-- Just after the two initializations: no validator is in the pool. -/
structure Genesis (w : CrankWorld) : Prop where
  epochState : w.controller.epochState = .zeroed
  records : w.controller.records = ∅
  preferences : w.controller.preferences = ∅
  validators : w.controller.pool.validators.entries = []
  updated : w.controller.pool.lastUpdateEpoch ≤ w.clock.epoch
  log : w.log = []

end CrankWorld

def crank : Machine CrankWorld CrankEvent where
  init := CrankWorld.Genesis
  step e w w' := w.next e = some w'

/-! ## What a step can be -/

/-- The two passes that observe validators. -/
def CrankInstr.isPass : CrankInstr → Bool
  | .reconcileBatch _ _ | .planDirectedBatch _ _ => true
  | _ => false

/-- What the instructions outside the cycle of an epoch leave alone. -/
structure Quiet (sys : Sysvars) (instr : CrankInstr) (c c' : Controller) : Prop where
  noPass : instr.isPass = false
  epochState : c'.epochState = c.epochState
  registry : c'.records = c.records ∨ ∃ vote sample, instr = .registerValidator vote sample ∧
    c.records.lookup vote = none ∧ c'.records = c.records.insert vote .registered
  votes : c'.pool.validators.votes = c.pool.validators.votes ∨
    (instr = .cleanupRemovedValidatorEntries ∧ c'.pool = c.pool.cleanupRemovedValidatorEntries)
  updated : c'.pool.lastUpdateEpoch = c.pool.lastUpdateEpoch ∨
    ((∃ supply, instr = .updateStakePoolBalance supply) ∧
      c'.pool.lastUpdateEpoch = max c.pool.lastUpdateEpoch sys.clock.epoch)

variable {sys : Sysvars} {instr : CrankInstr} {c c' : Controller} {e : CrankEvent}
  {w w' : CrankWorld} {note : Option Note}

theorem Quiet.votes_sublist (h : Quiet sys instr c c') :
    c'.pool.validators.votes.Sublist c.pool.validators.votes := by
  obtain heq | ⟨-, hclean⟩ := h.votes
  · rw [heq]
  · rw [hclean]
    exact ValidatorList.votes_retain_sublist _ _

theorem Quiet.records (h : Quiet sys instr c c') (v : Pubkey) (r : ValidatorRecord)
    (hv : c.records.lookup v = some r) : c'.records.lookup v = some r := by
  obtain heq | ⟨vote, _, -, hnone, heq⟩ := h.registry
  · rw [heq]
    exact hv
  · have hne : v ≠ vote := by
      rintro rfl
      rw [hnone] at hv
      cases hv
    rw [heq, AList.lookup_insert_ne hne]
    exact hv

theorem Quiet.of_preferences (c : Controller) (hpass : instr.isPass = false)
    (preferences : Table Pubkey Preference) (vault : ℕ) :
    Quiet sys instr c { c with preferences, vault } :=
  ⟨hpass, rfl, .inl rfl, .inl rfl, .inl rfl⟩

theorem Quiet.of_onPool (hpass : instr.isPass = false)
    {call : StakePool → Except PoolError StakePool} (h : onPool call c = .ok c')
    (hvotes : ∀ p, call c.pool = .ok p → p.validators.votes = c.pool.validators.votes ∨
      (instr = .cleanupRemovedValidatorEntries ∧ p = c.pool.cleanupRemovedValidatorEntries))
    (hupdated : ∀ p, call c.pool = .ok p → p.lastUpdateEpoch = c.pool.lastUpdateEpoch ∨
      ((∃ supply, instr = .updateStakePoolBalance supply) ∧
        p.lastUpdateEpoch = max c.pool.lastUpdateEpoch sys.clock.epoch)) :
    Quiet sys instr c c' := by
  simp only [onPool, bind_eq_ok_iff, poolCall_eq_ok, pure_eq_ok] at h
  obtain ⟨p, hp, rfl⟩ := h
  exact ⟨hpass, rfl, .inl rfl, hvotes p hp, hupdated p hp⟩

theorem user_frame {op : UserOp} {p p' : StakePool} (h : p.user sys op = .ok p') :
    p'.validators.votes = p.validators.votes ∧ p'.lastUpdateEpoch = p.lastUpdateEpoch := by
  unfold StakePool.user at h
  obtain ⟨_, -, h⟩ := bind_eq_ok_iff.mp h
  cases op with
  | withdrawSol lamports tokens =>
    simp only [bind_eq_ok_iff, okOr_eq_ok, pure_eq_ok, require_eq_ok, exists_const] at h
    obtain ⟨-, _, -, _, -, rfl⟩ := h
    exact ⟨rfl, rfl⟩
  | withdrawStake source vote lamports tokens =>
    simp only [bind_eq_ok_iff, okOr_eq_ok, pure_eq_ok, require_eq_ok, exists_const] at h
    obtain ⟨_, -, -, _, -, _, -, _, -, rfl⟩ := h
    exact ⟨ValidatorList.votes_update _ _ _, rfl⟩

theorem Quiet.of_pool (c : Controller) (hpass : instr.isPass = false) {pool : StakePool}
    (hvotes : pool.validators.votes = c.pool.validators.votes)
    (hupdated : pool.lastUpdateEpoch = c.pool.lastUpdateEpoch) :
    Quiet sys instr c { c with pool } :=
  ⟨hpass, rfl, .inl rfl, .inl hvotes, .inl hupdated⟩

/-- A step is an instruction of the cycle, or quiet. -/
inductive CrankStep (sys : Sysvars) (c : Controller) :
    CrankInstr → Controller → Option Note → Prop where
  | quiet {instr : CrankInstr} {c' : Controller} (h : Quiet sys instr c c') :
      CrankStep sys c instr c' none
  | startEpoch {c' : Controller} (h : startEpoch sys c = .ok c') :
      CrankStep sys c .startEpoch c' none
  | reconcileBatch {quads : List Quad} {crank : Pubkey} {c' : Controller}
      (h : reconcileBatch sys quads crank c = .ok c') :
      CrankStep sys c (.reconcileBatch quads crank) c' none
  | finalizePool {mintSupply fee : ℕ} {crank : Pubkey} {c' : Controller}
      (h : finalizePool sys mintSupply fee crank c = .ok c') :
      CrankStep sys c (.finalizePool mintSupply fee crank) c'
        (some (.finalized c'.epochState.navTotalLamports))
  | snapshotPreference {key : Pubkey} {position : Option PositionView} {c' : Controller}
      (h : snapshotPreference sys key position c = .ok c') :
      CrankStep sys c (.snapshotPreference key position) c' none
  | closePreferenceWindow {c' : Controller} (h : closePreferenceWindow sys c = .ok c') :
      CrankStep sys c .closePreferenceWindow c' none
  | planDirectedBatch {pairs : List Pair} {crank : Pubkey} {c' : Controller}
      (h : planDirectedBatch sys pairs crank c = .ok c') :
      CrankStep sys c (.planDirectedBatch pairs crank) c' none
  | planNeutralBatch {votes : List Pubkey} {crank : Pubkey} {c' : Controller}
      (h : planNeutralBatch votes crank c = .ok c') :
      CrankStep sys c (.planNeutralBatch votes crank) c' none
  | finalizePlan {crank : Pubkey} {c' : Controller} (h : finalizePlan crank c = .ok c') :
      CrankStep sys c (.finalizePlan crank) c' none
  | executeNextAction {vote crank : Pubkey} {c' : Controller} {what : Executed}
      (h : executeNextAction sys vote crank c = .ok (c', what)) :
      CrankStep sys c (.executeNextAction vote crank) c' (some (.executed vote what))
  | finishEpoch {crank : Pubkey} {c' : Controller} (h : finishEpoch sys crank c = .ok c') :
      CrankStep sys c (.finishEpoch crank) c' none

theorem quietly_eq_ok {x : Except ControllerError Controller} :
    quietly x = .ok (c, note) ↔ x = .ok c ∧ note = none := by
  simp only [quietly, bind_eq_ok_iff, pure_eq_ok, Prod.mk.injEq]
  constructor
  · rintro ⟨d, hd, rfl, rfl⟩
    exact ⟨hd, rfl⟩
  · rintro ⟨hc, rfl⟩
    exact ⟨c, hc, rfl, rfl⟩

theorem crankStep_of_run (hrun : instr.run sys c = .ok (c', note)) :
    CrankStep sys c instr c' note := by
  cases instr with
  | registerValidator vote sample =>
    obtain ⟨h, rfl⟩ := quietly_eq_ok.mp hrun
    simp only [registerValidator, bind_eq_ok_iff, require_eq_ok, pure_eq_ok, exists_const] at h
    obtain ⟨hvote, -, rfl⟩ := h
    exact .quiet ⟨rfl, rfl, .inr ⟨vote, sample, rfl, hvote, rfl⟩, .inl rfl, .inl rfl⟩
  | setPreference owner key position vote =>
    obtain ⟨h, rfl⟩ := quietly_eq_ok.mp hrun
    simp only [setPreference, bind_eq_ok_iff, okOr_eq_ok, require_eq_ok, pure_eq_ok,
      exists_const] at h
    obtain ⟨_, -, _, -, -, -, -, _, -, _, -, rfl⟩ := h
    exact .quiet (.of_preferences c rfl _ _)
  | syncPreference key position =>
    obtain ⟨h, rfl⟩ := quietly_eq_ok.mp hrun
    simp only [syncPreference, bind_eq_ok_iff, okOr_eq_ok, require_eq_ok, exists_const] at h
    obtain ⟨_, -, _, -, -, h⟩ := h
    split at h
    · obtain rfl := pure_eq_ok.mp h
      exact .quiet (.of_preferences c rfl _ _)
    · simp only [bind_eq_ok_iff, okOr_eq_ok, pure_eq_ok] at h
      obtain ⟨_, -, rfl⟩ := h
      exact .quiet (.of_preferences c rfl _ _)
  | closePreference closer rentRecipient key position =>
    obtain ⟨h, rfl⟩ := quietly_eq_ok.mp hrun
    simp only [closePreference, bind_eq_ok_iff, okOr_eq_ok, require_eq_ok, pure_eq_ok,
      exists_const] at h
    obtain ⟨_, -, -, -, -, rfl⟩ := h
    exact .quiet (.of_preferences c rfl _ _)
  | startEpoch =>
    obtain ⟨h, rfl⟩ := quietly_eq_ok.mp hrun
    exact .startEpoch h
  | reconcileBatch quads crank =>
    obtain ⟨h, rfl⟩ := quietly_eq_ok.mp hrun
    exact .reconcileBatch h
  | finalizePool mintSupply fee crank =>
    simp only [CrankInstr.run, bind_eq_ok_iff, pure_eq_ok, Prod.mk.injEq] at hrun
    obtain ⟨d, hd, rfl, rfl⟩ := hrun
    exact .finalizePool hd
  | snapshotPreference key position =>
    obtain ⟨h, rfl⟩ := quietly_eq_ok.mp hrun
    exact .snapshotPreference h
  | closePreferenceWindow =>
    obtain ⟨h, rfl⟩ := quietly_eq_ok.mp hrun
    exact .closePreferenceWindow h
  | planDirectedBatch pairs crank =>
    obtain ⟨h, rfl⟩ := quietly_eq_ok.mp hrun
    exact .planDirectedBatch h
  | planNeutralBatch votes crank =>
    obtain ⟨h, rfl⟩ := quietly_eq_ok.mp hrun
    exact .planNeutralBatch h
  | finalizePlan crank =>
    obtain ⟨h, rfl⟩ := quietly_eq_ok.mp hrun
    exact .finalizePlan h
  | executeNextAction vote crank =>
    simp only [CrankInstr.run, bind_eq_ok_iff, pure_eq_ok, Prod.mk.injEq] at hrun
    obtain ⟨⟨d, what⟩, hd, rfl, rfl⟩ := hrun
    exact .executeNextAction hd
  | finishEpoch crank =>
    obtain ⟨h, rfl⟩ := quietly_eq_ok.mp hrun
    exact .finishEpoch h
  | depositSol lamports tokens =>
    obtain ⟨h, rfl⟩ := quietly_eq_ok.mp hrun
    obtain ⟨pool, hpool, rfl⟩ := depositSol_spec h
    simp only [StakePool.depositSol, bind_eq_ok_iff, okOr_eq_ok, pure_eq_ok] at hpool
    obtain ⟨_, -, _, -, _, -, rfl⟩ := hpool
    exact .quiet (.of_pool c rfl rfl rfl)
  | depositStake depositor vote stake validatorStake tokens =>
    obtain ⟨h, rfl⟩ := quietly_eq_ok.mp hrun
    obtain ⟨_, pool, -, -, hpool, rfl⟩ := depositStake_spec h
    simp only [StakePool.depositStake, bind_eq_ok_iff, okOr_eq_ok, require_eq_ok, pure_eq_ok,
      exists_const] at hpool
    obtain ⟨_, -, _, -, -, _, -, _, -, rfl⟩ := hpool
    exact .quiet (.of_pool c rfl (ValidatorList.votes_update _ _ _) rfl)
  | updateValidatorListBalance startIndex observations =>
    obtain ⟨h, rfl⟩ := quietly_eq_ok.mp hrun
    refine .quiet (.of_onPool rfl h ?_ ?_)
    all_goals
      intro p hp
      simp only [StakePool.updateValidatorListBalance, bind_eq_ok_iff, require_eq_ok, pure_eq_ok,
        exists_const] at hp
      obtain ⟨-, rfl⟩ := hp
    · exact .inl (ValidatorList.votes_refresh _ _)
    · exact .inl rfl
  | updateStakePoolBalance mintSupply =>
    obtain ⟨h, rfl⟩ := quietly_eq_ok.mp hrun
    refine .quiet (.of_onPool rfl h ?_ ?_)
    all_goals
      intro p hp
      simp only [StakePool.updateStakePoolBalance, bind_eq_ok_iff, require_eq_ok, okOr_eq_ok,
        pure_eq_ok, exists_const] at hp
      obtain ⟨-, _, -, rfl⟩ := hp
    · exact .inl rfl
    · exact .inr ⟨⟨mintSupply, rfl⟩, rfl⟩
  | cleanupRemovedValidatorEntries =>
    obtain ⟨h, rfl⟩ := quietly_eq_ok.mp hrun
    refine .quiet (.of_onPool rfl h ?_ ?_)
    · exact fun p hp ↦ .inr ⟨rfl, (Except.ok.inj hp).symm⟩
    · exact fun p hp ↦ .inl (Except.ok.inj hp ▸ rfl)
  | user op =>
    obtain ⟨h, rfl⟩ := quietly_eq_ok.mp hrun
    exact .quiet (.of_onPool rfl h (fun p hp ↦ .inl (user_frame hp).1) fun p hp ↦
      .inl (user_frame hp).2)
  | fundMaintenance amount =>
    obtain ⟨h, rfl⟩ := quietly_eq_ok.mp hrun
    obtain rfl := Except.ok.inj h
    exact .quiet (.of_preferences c rfl _ _)

theorem crank_step_run (h : crank.step e w w') :
    w.clock.Le e.sys.clock ∧ w'.clock = e.sys.clock ∧
      ∃ note, e.instr.run e.sys w.controller = .ok (w'.controller, note) ∧
        w'.log = w.log ++ (note.map fun n ↦ ⟨e.sys, w.epoch, n⟩).toList := by
  change w.next e = some w' at h
  unfold CrankWorld.next at h
  split at h
  next hclock =>
    simp only [Option.map_eq_some_iff, toOption_eq_some] at h
    obtain ⟨⟨c', note⟩, hrun, rfl⟩ := h
    exact ⟨hclock, rfl, note, hrun, rfl⟩
  next => cases h

theorem crank_step_cases (h : crank.step e w w') :
    w.clock.Le e.sys.clock ∧ w'.clock = e.sys.clock ∧
      ∃ note, CrankStep e.sys w.controller e.instr w'.controller note ∧
        w'.log = w.log ++ (note.map fun n ↦ ⟨e.sys, w.epoch, n⟩).toList := by
  obtain ⟨hle, hclock, note, hrun, hlog⟩ := crank_step_run h
  exact ⟨hle, hclock, note, crankStep_of_run hrun, hlog⟩

/-! ## Sample runs -/

namespace CrankSample

/-- The clock of a slot of an epoch, with the rent and the minimum delegation of a cluster. -/
def at_ (epoch slot : ℕ) : Sysvars :=
  ⟨⟨epoch * 432000 + slot, 1000000 + epoch * 172800, epoch⟩, 432000, 2282880, 1000000000⟩

theorem four_lt_indices : 4 < 2 ^ 32 := by decide

/-- An empty pool of at most four validators. -/
def genesis : CrankWorld where
  clock := (at_ 1 0).clock
  controller :=
    { config := ⟨7, 70⟩
      epochState := .zeroed
      records := ∅
      preferences := ∅
      pool := ⟨0, 0, 1, ⟨[], 4, by decide, four_lt_indices, by decide⟩, 2282880, none⟩
      vault := 0 }
  log := []

/-- A position of `sol` SOL. -/
def position (owner sol : ℕ) : PositionView := ⟨owner, 7, sol * LAMPORTS_PER_SOL, 1⟩

/-- What a healthy vote account shows at a slot. -/
def healthy (epoch slot : ℕ) : Option VoteSample := some ⟨5, true, epoch * 432000 + slot⟩

/-- What an update finds of a validator whose stake accounts do not change. -/
def steady (active transient : ℕ) : StakeObservation := ⟨active, transient, 0, false, false, false⟩

/-- A freshly admitted validator holds the minimum delegation and its rent. -/
def minimum : ℕ := 1002282880

/-- The two accounts of a validator as the pool finds them, with a healthy vote account. -/
def quad (vote epoch : ℕ) : Quad := ⟨vote, vote, healthy epoch 10, steady minimum 0⟩

/-- A hundred thousand SOL, and two validators with enough support to be admitted. -/
def onboarding : List CrankEvent :=
  [⟨at_ 1 10, .registerValidator 11 (healthy 1 0)⟩,
    ⟨at_ 1 10, .registerValidator 12 (healthy 1 0)⟩,
    ⟨at_ 1 20, .depositSol (100000 * LAMPORTS_PER_SOL) (100000 * LAMPORTS_PER_SOL)⟩,
    ⟨at_ 1 30, .setPreference 500 500 (some (position 500 45000)) 11⟩,
    ⟨at_ 1 30, .setPreference 501 501 (some (position 501 45000)) 12⟩]

/-- The instructions of a cycle up to the preference window. -/
def observe (epoch : ℕ) (quads : List Quad) : List CrankEvent :=
  [⟨at_ epoch 10, .startEpoch⟩,
    ⟨at_ epoch 20, .reconcileBatch quads 100⟩,
    ⟨at_ epoch 30, .finalizePool (100000 * LAMPORTS_PER_SOL) 0 100⟩]

/-- Both preferences are counted. -/
def count (epoch : ℕ) : List CrankEvent :=
  [⟨at_ epoch 40, .snapshotPreference 500 (some (position 500 45000))⟩,
    ⟨at_ epoch 40, .snapshotPreference 501 (some (position 501 45000))⟩]

/-- The instructions from the end of the window to an accepted plan. -/
def plan (epoch : ℕ) (pairs : List Pair) (votes : List Pubkey) : List CrankEvent :=
  [⟨at_ epoch 20000, .closePreferenceWindow⟩,
    ⟨at_ epoch 20010, .planDirectedBatch pairs 100⟩,
    ⟨at_ epoch 20020, .planNeutralBatch votes 100⟩,
    ⟨at_ epoch 20030, .finalizePlan 100⟩]

/-- The directed pass over both validators. -/
def planBoth (epoch : ℕ) : CrankEvent :=
  ⟨at_ epoch 20010, .planDirectedBatch [⟨11, 11, none⟩, ⟨12, 12, none⟩] 100⟩

/-- Calls of the rebalance phase. -/
def rebalance (epoch slot : ℕ) (votes : List Pubkey) : List CrankEvent :=
  votes.map fun vote ↦ ⟨at_ epoch slot, .executeNextAction vote 100⟩

/-- Both validators are admitted in epoch 2. -/
def admitted : List CrankEvent :=
  onboarding ++ observe 2 [] ++ count 2 ++
    plan 2 [⟨11, 11, healthy 2 20000⟩, ⟨12, 12, healthy 2 20000⟩] [] ++
    rebalance 2 20040 [11, 12]

def run (G : CrankEvent → CrankWorld → Prop) [∀ e w, Decidable (G e w)] (events : List CrankEvent) :
    Option CrankWorld :=
  Machine.execute G CrankWorld.next genesis events

theorem reachable_run {G : CrankEvent → CrankWorld → Prop} [∀ e w, Decidable (G e w)]
    {events : List CrankEvent} (h : run G events = some w) :
    crank.Reachable G w := by
  have hinit : crank.init genesis := ⟨rfl, rfl, rfl, rfl, le_rfl, rfl⟩
  exact (Machine.Reachable.init hinit).execute (fun _ _ _ hs ↦ hs) h

end CrankSample

end StakeController
end FusionCore
