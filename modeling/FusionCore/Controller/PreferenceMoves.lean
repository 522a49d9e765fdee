import FusionCore.Controller.RecordMoves

/-!
# What a step does to the preferences

Four instructions read a position, and no other instruction touches a preference.  A preference is
written from the position it is read with and counts from the next epoch on; counting adds the
position's collateral to the record of one validator and stamps the preference with the epoch.
-/

namespace FusionCore
namespace StakeController

open Checked StakeMath

/-- A counted preference: its position's collateral is added to the record of its validator. -/
structure Counted (c c' : Controller) (key : Pubkey) (pos : PositionView) (pref : Preference)
    (record : ValidatorRecord) : Prop where
  lookup : c.preferences.lookup key = some pref
  directs : c.records.lookup pref.voteAccount = some record
  phase : c.epochState.phase = .preferences
  counts : countable pref pos c.config.fusolCollateralMint c.epochState.controllerEpoch
  eq : c' = { c with
    records := c.records.insert pref.voteAccount (record.direct c.epochState.controllerEpoch
      (record.sharesAt c.epochState.controllerEpoch + pos.ink))
    preferences := c.preferences.insert key
      { pref with lastCountedEpoch := c.epochState.controllerEpoch } }

theorem snapshotPreference_counted {sys : Sysvars} {c c' : Controller} {key : Pubkey}
    {position : Option PositionView}
    (h : snapshotPreference sys key position c = .ok c') :
    ∃ pos pref record, position = some pos ∧ Counted c c' key pos pref record := by
  simp only [snapshotPreference, bind_eq_ok_iff, okOr_eq_ok, require_eq_ok, pure_eq_ok,
    exists_const, checkedAdd_eq_some] at h
  obtain ⟨pref, hpref, record, hrecord, hphase, -, pos, hpos, hcount, -, _, ⟨-, rfl⟩, heq⟩ := h
  exact ⟨pos, pref, record, hpos, hpref, hrecord, hphase, hcount, heq.symm⟩

/-! ## Frame -/

/-- The position account that an instruction reads, with what it parses to. -/
def CrankInstr.reads : CrankInstr → Option (Pubkey × Option PositionView)
  | .setPreference _ key position _ => some (key, position)
  | .syncPreference key position => some (key, position)
  | .closePreference _ _ key position => some (key, position)
  | .snapshotPreference key position => some (key, position)
  | _ => none

/-- The preferences and the configuration are as they were. -/
structure SamePreferences (c c' : Controller) : Prop where
  preferences : c'.preferences = c.preferences
  config : c'.config = c.config

theorem SamePreferences.refl (c : Controller) : SamePreferences c c := ⟨rfl, rfl⟩

section Frame

variable {sys : Sysvars} {c d : Controller} {crank vote : Pubkey} {record : ValidatorRecord}

theorem payCrankReward_preferences {taskReward : ℕ} (h : SamePreferences c d) :
    Ensures (payCrankReward taskReward crank d) (SamePreferences c) := by
  intro c' hpay
  obtain ⟨vault, used, rfl⟩ := payCrankReward_eq hpay
  exact ⟨h.preferences, h.config⟩

theorem perform_preferences {action : Action} :
    Ensures (perform sys vote action record c) (SamePreferences c) := by
  cases action with
  | skip => exact .ok (.refl c)
  | remove => exact .after fun _ ↦ .ok ⟨rfl, rfl⟩
  | decrease amount => exact .after fun _ ↦ .after fun _ ↦ .ok ⟨rfl, rfl⟩
  | increase amount => exact .after fun _ ↦ .after fun _ ↦ .ok ⟨rfl, rfl⟩

theorem executeWalk_preferences :
    Ensures (executeWalk sys vote crank record c) fun walked ↦ SamePreferences c walked.1 := by
  unfold executeWalk
  refine .after fun next ↦ .bind perform_preferences fun d hd ↦ .ite (fun _ ↦ ?_) fun _ ↦ ?_
  · exact .ok ⟨hd.preferences, hd.config⟩
  · refine .bind (payCrankReward_preferences ⟨hd.preferences, hd.config⟩) fun c' hc' ↦ ?_
    exact .ok hc'

theorem executeNextAction_preferences :
    Ensures (executeNextAction sys vote crank c) fun done ↦ SamePreferences c done.1 := by
  unfold executeNextAction
  refine .after fun r ↦ .after fun _ ↦ .after fun _ ↦ .ite (fun _ ↦ ?_) fun _ ↦ ?_
  · refine Ensures.bind (P := SamePreferences c) ?_ fun d hd ↦ .ok hd
    refine .after fun _ ↦ .after fun _ ↦ .after fun pool ↦ ?_
    exact payCrankReward_preferences ⟨rfl, rfl⟩
  · exact .bind executeWalk_preferences fun walked hwalked ↦ .ok hwalked

theorem reconcileBatch_preferences {quads : List Quad} :
    Ensures (reconcileBatch sys quads crank c) (SamePreferences c) := by
  unfold reconcileBatch
  refine .after fun _ ↦ .after fun _ ↦ .after fun _ ↦ .after fun _ ↦ .after fun pool ↦ ?_
  refine .after fun acc ↦ .after fun phase ↦ .ite (fun _ ↦ ?_) fun _ ↦ ?_
  · exact payCrankReward_preferences ⟨rfl, rfl⟩
  · exact .ok ⟨rfl, rfl⟩

theorem finalizePool_preferences {mintSupply fee : ℕ} :
    Ensures (finalizePool sys mintSupply fee crank c) (SamePreferences c) := by
  unfold finalizePool
  refine .after fun _ ↦ .after fun pool ↦ .after fun slot ↦ .after fun _ ↦ ?_
  refine .ite (fun _ ↦ ?_) fun _ ↦ ?_
  · exact payCrankReward_preferences ⟨rfl, rfl⟩
  · exact .ok ⟨rfl, rfl⟩

theorem planDirectedBatch_preferences {pairs : List Pair} :
    Ensures (planDirectedBatch sys pairs crank c) (SamePreferences c) := by
  unfold planDirectedBatch
  refine .after fun _ ↦ .after fun _ ↦ .after fun _ ↦ .after fun acc ↦ .after fun es ↦ ?_
  refine .ite (fun _ ↦ ?_) fun _ ↦ ?_
  · exact payCrankReward_preferences ⟨rfl, rfl⟩
  · exact .ok ⟨rfl, rfl⟩

theorem planNeutralBatch_preferences {votes : List Pubkey} :
    Ensures (planNeutralBatch votes crank c) (SamePreferences c) := by
  unfold planNeutralBatch
  refine .after fun _ ↦ .after fun dealt ↦ .after fun phase ↦ .ite (fun _ ↦ ?_) fun _ ↦ ?_
  · exact payCrankReward_preferences ⟨rfl, rfl⟩
  · exact .ok ⟨rfl, rfl⟩

theorem quietly_preferences {x : Except ControllerError Controller}
    (h : Ensures x (SamePreferences c)) :
    Ensures (quietly x) fun result ↦ SamePreferences c result.1 :=
  .bind h fun _ hc ↦ .ok hc

theorem onPool_preferences {call : StakePool → Except PoolError StakePool} :
    Ensures (onPool call c) (SamePreferences c) :=
  .after fun _ ↦ .ok ⟨rfl, rfl⟩

theorem CrankInstr.run_preferences {instr : CrankInstr} (h : instr.reads = none) :
    Ensures (instr.run sys c) fun result ↦ SamePreferences c result.1 := by
  cases instr with
  | setPreference | syncPreference | closePreference | snapshotPreference => cases h
  | registerValidator =>
    exact quietly_preferences (.after fun _ ↦ .after fun _ ↦ .ok ⟨rfl, rfl⟩)
  | startEpoch => exact quietly_preferences (.after fun _ ↦ .after fun _ ↦ .ok ⟨rfl, rfl⟩)
  | reconcileBatch => exact quietly_preferences reconcileBatch_preferences
  | finalizePool => exact .bind finalizePool_preferences fun _ hc ↦ .ok hc
  | closePreferenceWindow =>
    exact quietly_preferences (.after fun _ ↦ .after fun _ ↦ .after fun _ ↦ .ok ⟨rfl, rfl⟩)
  | planDirectedBatch => exact quietly_preferences planDirectedBatch_preferences
  | planNeutralBatch => exact quietly_preferences planNeutralBatch_preferences
  | finalizePlan =>
    apply quietly_preferences
    refine .after fun _ ↦ .after fun _ ↦ .after fun _ ↦ .after fun _ ↦ .after fun _ ↦ ?_
    exact .after fun _ ↦ payCrankReward_preferences ⟨rfl, rfl⟩
  | executeNextAction => exact .bind executeNextAction_preferences fun _ hd ↦ .ok hd
  | finishEpoch =>
    apply quietly_preferences
    exact .after fun _ ↦ .after fun _ ↦ .after fun _ ↦ payCrankReward_preferences ⟨rfl, rfl⟩
  | depositSol =>
    exact quietly_preferences (.after fun _ ↦ .after fun _ ↦ .ok ⟨rfl, rfl⟩)
  | depositStake =>
    intro result hrun
    obtain ⟨c', note⟩ := result
    obtain ⟨hdeposit, -⟩ := quietly_eq_ok.mp hrun
    obtain ⟨_, pool, -, -, -, rfl⟩ := depositStake_spec hdeposit
    exact ⟨rfl, rfl⟩
  | updateValidatorListBalance => exact quietly_preferences onPool_preferences
  | updateStakePoolBalance => exact quietly_preferences onPool_preferences
  | cleanupRemovedValidatorEntries => exact quietly_preferences onPool_preferences
  | user => exact quietly_preferences onPool_preferences
  | fundMaintenance => exact quietly_preferences (.ok ⟨rfl, rfl⟩)

end Frame

/-! ## Moves -/

/-- What an instruction does to the preferences: nothing, it writes one from the position it reads,
it closes one, or it counts one.  What is written counts from the next epoch on. -/
inductive PreferenceMove (sys : Sysvars) (c c' : Controller) : CrankInstr → Prop where
  | kept {instr : CrankInstr} (hinstr : ∀ key position, instr ≠ .snapshotPreference key position)
      (heq : c'.preferences = c.preferences) : PreferenceMove sys c c' instr
  | synced {instr : CrankInstr} {key : Pubkey} {pos : PositionView} {pref : Preference}
      (hinstr : ∀ key position, instr ≠ .snapshotPreference key position)
      (hreads : instr.reads = some (key, some pos))
      (hmint : pos.collateralMint = c.config.fusolCollateralMint)
      (hnonce : pref.observedInkNonce = pos.inkNonce)
      (heligible : sys.clock.epoch < pref.eligibleFromEpoch)
      (heq : c'.preferences = c.preferences.insert key pref) : PreferenceMove sys c c' instr
  | closed {instr : CrankInstr} (hinstr : ∀ key position, instr ≠ .snapshotPreference key position)
      (key : Pubkey) (heq : c'.preferences = c.preferences.erase key) :
      PreferenceMove sys c c' instr
  | counted {key : Pubkey} {pos : PositionView} {pref : Preference} {record : ValidatorRecord}
      (h : Counted c c' key pos pref record) :
      PreferenceMove sys c c' (.snapshotPreference key (some pos))

section Moves

variable {sys : Sysvars} {c c' : Controller} {key : Pubkey} {position : Option PositionView}

theorem setPreference_move {owner vote : Pubkey}
    (h : setPreference sys owner key position vote c = .ok c') :
    c'.config = c.config ∧
      PreferenceMove sys c c' (.setPreference owner key position vote) := by
  simp only [setPreference, bind_eq_ok_iff, okOr_eq_ok, require_eq_ok, pure_eq_ok, exists_const,
    checkedAdd_eq_some] at h
  obtain ⟨_, -, pos, rfl, hmint, -, -, last, -, _, ⟨-, rfl⟩, rfl⟩ := h
  exact ⟨rfl, .synced (by simp) rfl hmint rfl (Nat.lt_succ_self _) rfl⟩

theorem syncPreference_move (h : syncPreference sys key position c = .ok c') :
    c'.config = c.config ∧ PreferenceMove sys c c' (.syncPreference key position) := by
  simp only [syncPreference, bind_eq_ok_iff, okOr_eq_ok, require_eq_ok, exists_const] at h
  obtain ⟨pref, -, pos, rfl, hmint, h⟩ := h
  split at h
  · obtain rfl := pure_eq_ok.mp h
    exact ⟨rfl, .kept (by simp) rfl⟩
  · simp only [bind_eq_ok_iff, okOr_eq_ok, pure_eq_ok, checkedAdd_eq_some] at h
    obtain ⟨_, ⟨-, rfl⟩, rfl⟩ := h
    exact ⟨rfl, .synced (by simp) rfl hmint rfl (Nat.lt_succ_self _) rfl⟩

theorem closePreference_move {closer rentRecipient : Pubkey}
    (h : closePreference sys closer rentRecipient key position c = .ok c') :
    c'.config = c.config ∧
      PreferenceMove sys c c' (.closePreference closer rentRecipient key position) := by
  simp only [closePreference, bind_eq_ok_iff, okOr_eq_ok, require_eq_ok, pure_eq_ok,
    exists_const] at h
  obtain ⟨_, -, -, -, -, rfl⟩ := h
  exact ⟨rfl, .closed (by simp) key rfl⟩

theorem crank_preference_step {e : CrankEvent} {w w' : CrankWorld} (h : crank.step e w w') :
    w'.controller.config = w.controller.config ∧
      PreferenceMove e.sys w.controller w'.controller e.instr := by
  obtain ⟨-, -, note, hrun, -⟩ := crank_step_run h
  cases hreads : e.instr.reads with
  | none =>
    have hsame := CrankInstr.run_preferences hreads _ hrun
    refine ⟨hsame.config, .kept ?_ hsame.preferences⟩
    intro key position heq
    rw [heq] at hreads
    cases hreads
  | some read =>
    generalize e.instr = instr at hrun hreads ⊢
    cases instr with
    | setPreference => exact setPreference_move (quietly_eq_ok.mp hrun).1
    | syncPreference => exact syncPreference_move (quietly_eq_ok.mp hrun).1
    | closePreference => exact closePreference_move (quietly_eq_ok.mp hrun).1
    | snapshotPreference key position =>
      obtain ⟨pos, pref, record, rfl, hcounted⟩ :=
        snapshotPreference_counted (quietly_eq_ok.mp hrun).1
      refine ⟨?_, .counted hcounted⟩
      rw [hcounted.eq]
    | _ => cases hreads

end Moves

end StakeController
end FusionCore
