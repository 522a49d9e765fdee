import FusionCore.Controller.Machine

/-!
# What a step does to one validator record

Registration creates the record of a vote account and nothing removes it.  After that every
instruction rewrites its own group of fields: reconcile the observations, the preference window the
directed shares, the directed pass the lifecycle and the targets, the neutral pass the grants, the
walk the list slot and the stamps of moves.  One relation says all of it, and every property of a
record over whole runs is read off that relation.
-/

namespace FusionCore
namespace StakeController

open Checked StakeMath

namespace CrankInstr

/-- The reconcile pass observes the record of `v`. -/
def observes (v : Pubkey) : CrankInstr → Bool
  | .reconcileBatch quads _ => v ∈ quads.map Quad.record
  | _ => false

/-- The directed pass plans the record of `v`. -/
def plans (v : Pubkey) : CrankInstr → Bool
  | .planDirectedBatch pairs _ => v ∈ pairs.map Pair.record
  | _ => false

end CrankInstr

/-- What the lifecycle reads of the crank state stays as it is during the directed pass. -/
structure SameEpoch (es es' : EpochState) : Prop where
  epoch : es'.controllerEpoch = es.controllerEpoch
  healthy : es'.healthyDelegatedLamports = es.healthyDelegatedLamports
  total : es'.totalDelegatedLamports = es.totalDelegatedLamports

/-- The directed pass plans a record from what it sights of it, once an epoch. -/
def PlannedFrom (sys : Sysvars) (list : ValidatorList) (es₀ : EpochState) (threshold : ℕ)
    (r r' : ValidatorRecord) : Prop :=
  r.planEpoch ≠ es₀.controllerEpoch ∧ ∃ p es s, SameEpoch es₀ es ∧
    sight sys list es p r = .ok s ∧ r' = planRecord es threshold s

/-- Visits of the neutral pass; only an active record receives a grant. -/
def Granted (r r' : ValidatorRecord) : Prop :=
  ∃ neutralGranted finalTarget remainingCapacity saturatedThisRound saturatedRound,
    (r.status ≠ .active → neutralGranted = r.neutralGranted ∧ finalTarget = r.finalTarget) ∧
    r' = { r with neutralGranted, finalTarget, remainingCapacity, saturatedThisRound,
                  saturatedRound }

/-- A call of the rebalance phase. -/
def Acted (r r' : ValidatorRecord) : Prop :=
  ∃ validatorListIndex poolEntryStatus lastIncreaseEpoch lastDecreaseEpoch,
    r' = { r with validatorListIndex, poolEntryStatus, lastIncreaseEpoch, lastDecreaseEpoch }

/-- The drained threshold of an instruction. -/
def Sysvars.drainedThreshold (sys : Sysvars) : Option ℕ :=
  checkedAdd 64 sys.stakeRent (saturatingMul 64 sys.effectiveMinimumDelegation 2)

inductive RecordMove (sys : Sysvars) (c : Controller) (v : Pubkey) :
    CrankInstr → ValidatorRecord → ValidatorRecord → Prop where
  | kept {instr : CrankInstr} {r : ValidatorRecord} (hobserves : instr.observes v = false)
      (hplans : instr.plans v = false) : RecordMove sys c v instr r r
  | observed {quads : List Quad} {crank : Pubkey} {r : ValidatorRecord}
      (hmem : v ∈ quads.map Quad.record) (hphase : c.epochState.phase = .reconcile) (index : ℕ)
      (info : StakeInfo) (obs : VoteObservation) :
      RecordMove sys c v (.reconcileBatch quads crank) r
        (r.observed c.epochState.controllerEpoch index info obs)
  | directed {key : Pubkey} {position : Option PositionView} {r : ValidatorRecord}
      (hphase : c.epochState.phase = .preferences) (hstatus : ¬deadEnd r.status) (shares : ℕ) :
      RecordMove sys c v (.snapshotPreference key position) r
        (r.direct c.epochState.controllerEpoch shares)
  | planned {pairs : List Pair} {crank : Pubkey} {threshold : ℕ} {r r' : ValidatorRecord}
      (hmem : v ∈ pairs.map Pair.record) (hphase : c.epochState.phase = .planDirected)
      (hthreshold : sys.drainedThreshold = some threshold)
      (h : PlannedFrom sys c.pool.validators c.epochState threshold r r') :
      RecordMove sys c v (.planDirectedBatch pairs crank) r r'
  | granted {votes : List Pubkey} {crank : Pubkey} {r r' : ValidatorRecord}
      (hphase : c.epochState.phase = .planNeutral) (h : Granted r r') :
      RecordMove sys c v (.planNeutralBatch votes crank) r r'
  | acted {vote crank : Pubkey} {r r' : ValidatorRecord}
      (hphase : c.epochState.phase = .rebalance) (h : Acted r r') :
      RecordMove sys c v (.executeNextAction vote crank) r r'

/-! ## Passes over records -/

variable {sys : Sysvars} {list : ValidatorList} {es₀ : EpochState} {threshold : ℕ}
  {c c' : Controller} {v : Pubkey} {instr : CrankInstr} {r r' r'' : ValidatorRecord}
  {e : CrankEvent} {w w' : CrankWorld} {acc acc' : PlanAcc}

theorem SameEpoch.refl (es : EpochState) : SameEpoch es es := ⟨rfl, rfl, rfl⟩

theorem reconcileOne_record {before after : ValidatorList} {epoch : ℕ} {acc acc' : ReconcileAcc}
    {q : Quad × ℕ} (hepoch : acc.epochState.controllerEpoch = epoch)
    (h : reconcileOne sys before after acc q = .ok acc') :
    acc'.epochState.controllerEpoch = epoch ∧ ∃ r r', acc.records.lookup q.1.record = some r ∧
      (∃ index info obs, r' = r.observed epoch index info obs) ∧
        acc'.records = acc.records.insert q.1.record r' := by
  obtain ⟨entry, r, obs, _, -, hr, -, hes, hrecords⟩ := reconcileOne_spec h
  rw [hepoch] at hrecords
  refine ⟨?_, r, _, hr, ⟨q.2, entry.toStakeInfo, obs, rfl⟩, hrecords⟩
  rw [hes]
  exact hepoch

theorem planDirectedOne_record {p : Pair} (hsame : SameEpoch es₀ acc.epochState)
    (h : planDirectedOne sys list threshold acc p = .ok acc') :
    SameEpoch es₀ acc'.epochState ∧ ∃ r r', acc.records.lookup p.record = some r ∧
      PlannedFrom sys list es₀ threshold r r' ∧
        acc'.records = acc.records.insert p.record r' := by
  simp only [planDirectedOne, bind_eq_ok_iff, okOr_eq_ok, require_eq_ok, pure_eq_ok,
    exists_const] at h
  obtain ⟨r, hr, -, hnew, s, hs, shares, -, targets, -, rfl⟩ := h
  rw [hsame.epoch] at hnew
  obtain ⟨_, _, hnote⟩ := EpochState.noteWithdraw_eq
    (acc.epochState.bookPlanned s.inList shares targets (planRecord acc.epochState threshold s))
    p.record (planRecord acc.epochState threshold s)
  constructor
  · dsimp only
    rw [hnote]
    exact ⟨hsame.epoch, hsame.healthy, hsame.total⟩
  · exact ⟨r, _, hr, ⟨hnew, p, acc.epochState, s, hsame, hs, rfl⟩, rfl⟩

theorem planNeutralOne_record {vote : Pubkey} (h : planNeutralOne acc vote = .ok acc') :
    ∃ r r', acc.records.lookup vote = some r ∧ Granted r r' ∧
      acc'.records = acc.records.insert vote r' := by
  simp only [planNeutralOne, bind_eq_ok_iff, okOr_eq_ok, require_eq_ok, pure_eq_ok, exists_const,
    checkedAdd_eq_some] at h
  obtain ⟨r, hr, -, _, ⟨-, rfl⟩, _, ⟨-, rfl⟩, capacity, -, _, -, rfl⟩ := h
  refine ⟨r, _, hr, ⟨_, _, _, _, _, ?_, rfl⟩, rfl⟩
  intro hactive
  rw [if_neg fun hmember ↦ hactive hmember.1]
  exact ⟨rfl, rfl⟩

theorem Granted.trans (h : Granted r r') (h' : Granted r' r'') :
    Granted r r'' := by
  obtain ⟨_, _, _, _, _, hidle, rfl⟩ := h
  obtain ⟨_, _, _, _, _, hidle', rfl⟩ := h'
  refine ⟨_, _, _, _, _, ?_, rfl⟩
  intro hactive
  obtain ⟨hgranted, htarget⟩ := hidle hactive
  obtain ⟨hgranted', htarget'⟩ := hidle' hactive
  exact ⟨hgranted'.trans hgranted, htarget'.trans htarget⟩

/-- A record is planned at most once in an epoch. -/
theorem PlannedFrom.trans (h : PlannedFrom sys list es₀ threshold r r')
    (h' : PlannedFrom sys list es₀ threshold r' r'') :
    PlannedFrom sys list es₀ threshold r r'' := by
  obtain ⟨-, _, _, _, hsame, -, rfl⟩ := h
  exact absurd hsame.epoch h'.1

/-! ## Instructions -/

/-- One step, seen from the record of `v`. -/
inductive RecordStep (sys : Sysvars) (c : Controller) (v : Pubkey) :
    CrankInstr → Option ValidatorRecord → Option ValidatorRecord → Prop where
  | absent {instr : CrankInstr} : RecordStep sys c v instr none none
  | registered {sample : Option VoteSample} :
      RecordStep sys c v (.registerValidator v sample) none (some .registered)
  | moved {instr : CrankInstr} {r r' : ValidatorRecord} (h : RecordMove sys c v instr r r') :
      RecordStep sys c v instr (some r) (some r')

theorem RecordStep.refl (c : Controller) (v : Pubkey) (hpass : instr.isPass = false) :
    RecordStep sys c v instr (c.records.lookup v) (c.records.lookup v) := by
  cases c.records.lookup v with
  | none => exact .absent
  | some r =>
    refine .moved (.kept ?_ ?_)
    · cases instr with
      | reconcileBatch => cases hpass
      | _ => rfl
    · cases instr with
      | planDirectedBatch => cases hpass
      | _ => rfl

theorem RecordStep.of_eq (v : Pubkey) (hpass : instr.isPass = false)
    (hrecords : c'.records = c.records) :
    RecordStep sys c v instr (c.records.lookup v) (c'.records.lookup v) := by
  rw [hrecords]
  exact .refl c v hpass

theorem RecordStep.of_insert {vote : Pubkey} (v : Pubkey) (hpass : instr.isPass = false)
    (hr : c.records.lookup vote = some r) (hmove : RecordMove sys c vote instr r r')
    (hrecords : c'.records = c.records.insert vote r') :
    RecordStep sys c v instr (c.records.lookup v) (c'.records.lookup v) := by
  rw [hrecords]
  by_cases hv : v = vote
  · subst hv
    rw [AList.lookup_insert, hr]
    exact .moved hmove
  · rw [AList.lookup_insert_ne hv]
    exact .refl c v hpass

theorem RecordStep.of_quiet (v : Pubkey) (h : Quiet sys instr c c') :
    RecordStep sys c v instr (c.records.lookup v) (c'.records.lookup v) := by
  obtain heq | ⟨vote, sample, rfl, hnone, heq⟩ := h.registry
  · exact .of_eq v h.noPass heq
  · rw [heq]
    by_cases hv : v = vote
    · subst hv
      rw [AList.lookup_insert, hnone]
      exact .registered
    · rw [AList.lookup_insert_ne hv]
      exact .refl c v h.noPass

section

variable {crank : Pubkey} (v)

/-- A pass over records: the visits of one record compose to its move. -/
theorem RecordStep.of_foldlM {β γ : Type} {t : β → Table Pubkey ValidatorRecord} {n : γ → Pubkey}
    {R : ValidatorRecord → ValidatorRecord → Prop} {P : β → Prop}
    {body : β → γ → Except ControllerError β} {xs : List γ} {b b' : β}
    (hcomp : ∀ r r' r'', R r r' → R r' r'' → R r r'')
    (hbody : ∀ x ∈ xs, ∀ b b', P b → body b x = .ok b' → P b' ∧
      ∃ r r', (t b).lookup (n x) = some r ∧ R r r' ∧ t b' = (t b).insert (n x) r') (hb : P b)
    (hstart : t b = c.records) (hfold : xs.foldlM body b = .ok b')
    (hkept : v ∉ xs.map n → ∀ r, RecordMove sys c v instr r r)
    (hmoved : v ∈ xs.map n → ∀ r r', R r r' → RecordMove sys c v instr r r') :
    RecordStep sys c v instr (c.records.lookup v) ((t b').lookup v) := by
  cases hv : c.records.lookup v with
  | none =>
    rw [← hstart] at hv
    have hnone : (t b').lookup v = none := by
      refine Table.foldlM_lookup_eq_none (P := P) (n := n) ?_ hb hfold hv
      intro x hx d d' hd hstep
      obtain ⟨hd', r, r', hr, -, hinsert⟩ := hbody x hx d d' hd hstep
      exact ⟨hd', r, r', hr, hinsert⟩
    rw [hnone]
    exact .absent
  | some r =>
    rw [← hstart] at hv
    obtain ⟨r', hr', hcase⟩ := Table.foldlM_lookup (R := fun _ ↦ R) (n := n)
      (fun _ ↦ hcomp) hbody hb hfold hv
    rw [hr']
    obtain ⟨hnot, rfl⟩ | ⟨hmem, hR⟩ := hcase
    · exact .moved (hkept hnot _)
    · exact .moved (hmoved hmem _ _ hR)

theorem reconcileBatch_record {quads : List Quad} (h : reconcileBatch sys quads crank c = .ok c') :
    RecordStep sys c v (.reconcileBatch quads crank) (c.records.lookup v)
      (c'.records.lookup v) := by
  obtain ⟨hphase, -, -, acc, -, hfold, hrecords, -⟩ := reconcileBatch_spec h
  have hmap : (quads.zipIdx c.epochState.reconcileCursor).map (Quad.record ∘ Prod.fst) =
      quads.map Quad.record := by
    rw [← List.map_map, List.zipIdx_map_fst]
  rw [hrecords]
  refine RecordStep.of_foldlM (t := ReconcileAcc.records) (n := Quad.record ∘ Prod.fst)
    (P := fun a ↦ a.epochState.controllerEpoch = c.epochState.controllerEpoch)
    (R := fun r r' ↦ ∃ index info obs,
      r' = r.observed c.epochState.controllerEpoch index info obs)
    v ?_ ?_ rfl rfl hfold ?_ ?_
  · rintro r _ _ ⟨_, _, _, rfl⟩ ⟨index, info, obs, rfl⟩
    exact ⟨index, info, obs, rfl⟩
  · exact fun q _ a a' hepoch hq ↦ reconcileOne_record hepoch hq
  · rw [hmap]
    exact fun hnot r ↦ .kept (decide_eq_false hnot) rfl
  · rw [hmap]
    rintro hmem r _ ⟨index, info, obs, rfl⟩
    exact .observed hmem hphase index info obs

theorem planDirectedBatch_record {pairs : List Pair}
    (h : planDirectedBatch sys pairs crank c = .ok c') :
    RecordStep sys c v (.planDirectedBatch pairs crank) (c.records.lookup v)
      (c'.records.lookup v) := by
  simp only [planDirectedBatch, bind_eq_ok_iff, okOr_eq_ok, require_eq_ok, exists_const] at h
  obtain ⟨threshold, hthreshold, hphase, -, acc, hfold, es', -, h⟩ := h
  have hrecords : c'.records = acc.records := by
    obtain ⟨vault, used, rfl⟩ := rewarded_eq h
    rfl
  rw [hrecords]
  refine RecordStep.of_foldlM (t := PlanAcc.records) (n := Pair.record)
    (P := fun a ↦ SameEpoch c.epochState a.epochState)
    (R := PlannedFrom sys c.pool.validators c.epochState threshold)
    v ?_ ?_ (.refl _) rfl hfold ?_ ?_
  · exact fun r r' r'' hr hr' ↦ hr.trans hr'
  · exact fun p _ a a' hsame hp ↦ planDirectedOne_record hsame hp
  · exact fun hnot r ↦ .kept rfl (decide_eq_false hnot)
  · exact fun hmem r r' hplanned ↦ .planned hmem hphase hthreshold hplanned

theorem planNeutralBatch_record {votes : List Pubkey}
    (h : planNeutralBatch votes crank c = .ok c') :
    RecordStep sys c v (.planNeutralBatch votes crank) (c.records.lookup v)
      (c'.records.lookup v) := by
  simp only [planNeutralBatch, bind_eq_ok_iff, require_eq_ok, exists_const] at h
  obtain ⟨hphase, dealt, hpass, _, -, h⟩ := h
  have hrecords : c'.records = dealt.1.records := by
    obtain ⟨vault, used, rfl⟩ := rewarded_eq h
    rfl
  rw [hrecords]
  simp only [neutralPass] at hpass
  split at hpass
  · obtain rfl := pure_eq_ok.mp hpass
    exact .refl c v rfl
  · simp only [dealNeutral, bind_eq_ok_iff, require_eq_ok, exists_const] at hpass
    obtain ⟨-, -, acc, hfold, hpass⟩ := hpass
    have hacc : dealt.1.records = acc.records := by
      split at hpass
      · obtain ⟨closed, -, hpass⟩ := bind_eq_ok_iff.mp hpass
        obtain rfl := pure_eq_ok.mp hpass
        rfl
      · obtain rfl := pure_eq_ok.mp hpass
        rfl
    rw [hacc]
    refine RecordStep.of_foldlM (t := PlanAcc.records) (n := id) (P := fun _ ↦ True) (R := Granted)
      v ?_ ?_ trivial rfl hfold ?_ ?_
    · exact fun r r' r'' hr hr' ↦ hr.trans hr'
    · exact fun vote _ a a' _ hvote ↦ ⟨trivial, planNeutralOne_record hvote⟩
    · exact fun _ r ↦ .kept rfl rfl
    · exact fun _ r r' hgranted ↦ .granted hphase hgranted

theorem snapshotPreference_record {key : Pubkey} {position : Option PositionView}
    (h : snapshotPreference sys key position c = .ok c') :
    RecordStep sys c v (.snapshotPreference key position) (c.records.lookup v)
      (c'.records.lookup v) := by
  simp only [snapshotPreference, bind_eq_ok_iff, okOr_eq_ok, require_eq_ok, pure_eq_ok,
    exists_const] at h
  obtain ⟨pref, -, r, hr, hphase, -, _, -, -, hstatus, shares, -, rfl⟩ := h
  exact .of_insert v rfl hr (.directed hphase hstatus shares) rfl

theorem perform_record {vote : Pubkey} {action : Action}
    (h : perform sys vote action r c = .ok c') :
    c'.records = c.records ∨ ∃ r', Acted r r' ∧ c'.records = c.records.insert vote r' := by
  cases action with
  | skip =>
    obtain rfl := pure_eq_ok.mp h
    exact .inl rfl
  | remove =>
    simp only [perform, bind_eq_ok_iff, pure_eq_ok] at h
    obtain ⟨_, -, rfl⟩ := h
    exact .inr ⟨_, ⟨_, _, _, _, rfl⟩, rfl⟩
  | decrease amount | increase amount =>
    simp only [perform, bind_eq_ok_iff, pure_eq_ok] at h
    obtain ⟨_, -, _, -, rfl⟩ := h
    exact .inr ⟨_, ⟨_, _, _, _, rfl⟩, rfl⟩

theorem executeWalk_records {vote : Pubkey} {walked : Controller × RebalanceSlot × Action}
    (h : executeWalk sys vote crank r c = .ok walked) :
    walked.1.records = c.records ∨
      ∃ r', Acted r r' ∧ walked.1.records = c.records.insert vote r' := by
  simp only [executeWalk, bind_eq_ok_iff] at h
  obtain ⟨next, -, d, hperform, h⟩ := h
  have hd : walked.1.records = d.records := by
    split at h
    · obtain rfl := pure_eq_ok.mp h
      rfl
    · obtain ⟨d', hpay, h⟩ := bind_eq_ok_iff.mp h
      obtain rfl := pure_eq_ok.mp h
      obtain ⟨vault, used, rfl⟩ := payCrankReward_eq hpay
      rfl
  rw [hd]
  exact perform_record hperform

theorem executeNextAction_record {vote : Pubkey} {what : Executed}
    (h : executeNextAction sys vote crank c = .ok (c', what)) :
    RecordStep sys c v (.executeNextAction vote crank) (c.records.lookup v)
      (c'.records.lookup v) := by
  simp only [executeNextAction, bind_eq_ok_iff, okOr_eq_ok, require_eq_ok, exists_const] at h
  obtain ⟨r, hr, hphase, -, h⟩ := h
  have key : c'.records = c.records ∨ ∃ r', Acted r r' ∧ c'.records = c.records.insert vote r' := by
    split at h
    · simp only [executeAdmission, bind_eq_ok_iff, require_eq_ok, exists_const, pure_eq_ok,
        Prod.mk.injEq] at h
      obtain ⟨d, ⟨-, -, _, -, hpay⟩, rfl, -⟩ := h
      obtain ⟨vault, used, rfl⟩ := payCrankReward_eq hpay
      exact .inr ⟨_, ⟨_, _, _, _, rfl⟩, rfl⟩
    · simp only [bind_eq_ok_iff, pure_eq_ok, Prod.mk.injEq] at h
      obtain ⟨walked, hwalk, rfl, -⟩ := h
      exact executeWalk_records hwalk
  obtain heq | ⟨r', hacted, heq⟩ := key
  · exact .of_eq v rfl heq
  · exact .of_insert v rfl hr (.acted hphase hacted) heq

end

theorem crank_record_step (h : crank.step e w w') (v : Pubkey) :
    RecordStep e.sys w.controller v e.instr (w.controller.records.lookup v)
      (w'.controller.records.lookup v) := by
  obtain ⟨-, -, note, hstep, -⟩ := crank_step_cases h
  generalize e.instr = instr at hstep
  cases hstep with
  | quiet hq => exact .of_quiet v hq
  | startEpoch h => exact .of_eq v rfl (by rw [(startEpoch_eq h).2])
  | reconcileBatch h => exact reconcileBatch_record v h
  | finalizePool h =>
    obtain ⟨-, -, hrecords, -⟩ := finalizePool_spec h
    exact .of_eq v rfl hrecords
  | snapshotPreference h => exact snapshotPreference_record v h
  | closePreferenceWindow h => exact .of_eq v rfl (by rw [(closePreferenceWindow_eq h).2])
  | planDirectedBatch h => exact planDirectedBatch_record v h
  | planNeutralBatch h => exact planNeutralBatch_record v h
  | finalizePlan h =>
    simp only [finalizePlan, bind_eq_ok_iff, okOr_eq_ok, require_eq_ok, exists_const] at h
    obtain ⟨-, _, -, _, -, -, _, -, -, h⟩ := h
    obtain ⟨vault, used, heq⟩ := payCrankReward_eq h
    exact .of_eq v rfl (by rw [heq])
  | executeNextAction h => exact executeNextAction_record v h
  | finishEpoch h =>
    obtain ⟨-, vault, used, heq⟩ := finishEpoch_spec h
    exact .of_eq v rfl (by rw [heq])

theorem RecordStep.cases_some {before : Option ValidatorRecord}
    (h : RecordStep sys c v instr before (some r')) :
    (before = none ∧ r' = .registered) ∨
      ∃ r, before = some r ∧ RecordMove sys c v instr r r' := by
  cases h with
  | registered => exact .inl ⟨rfl, rfl⟩
  | moved hmove => exact .inr ⟨_, rfl, hmove⟩

theorem RecordStep.of_some {after : Option ValidatorRecord}
    (h : RecordStep sys c v instr (some r) after) :
    ∃ r', after = some r' ∧ RecordMove sys c v instr r r' := by
  cases h with
  | moved hmove => exact ⟨_, rfl, hmove⟩

theorem crank_record_kept (h : crank.step e w w') (hr : w.controller.records.lookup v = some r) :
    ∃ r', w'.controller.records.lookup v = some r' ∧
      RecordMove e.sys w.controller v e.instr r r' := by
  have hstep := crank_record_step h v
  rw [hr] at hstep
  exact hstep.of_some

theorem crank_record_cases (h : crank.step e w w')
    (hr' : w'.controller.records.lookup v = some r') :
    (w.controller.records.lookup v = none ∧ r' = .registered) ∨
      ∃ r, w.controller.records.lookup v = some r ∧
        RecordMove e.sys w.controller v e.instr r r' := by
  have hstep := crank_record_step h v
  rw [hr'] at hstep
  exact hstep.cases_some

theorem crank_record_move (h : crank.step e w w') (hr : w.controller.records.lookup v = some r)
    (hr' : w'.controller.records.lookup v = some r') :
    RecordMove e.sys w.controller v e.instr r r' := by
  obtain ⟨hnone, -⟩ | ⟨r₀, hr₀, hmove⟩ := crank_record_cases h hr'
  · rw [hr] at hnone
    cases hnone
  · rw [hr] at hr₀
    obtain rfl := Option.some.inj hr₀
    exact hmove

/-! ## Statuses -/

theorem RecordMove.plannedFrom (h : RecordMove sys c v instr r r') (hne : r'.status ≠ r.status) :
    instr.plans v = true ∧ c.epochState.phase = .planDirected ∧ ∃ threshold,
      sys.drainedThreshold = some threshold ∧
        PlannedFrom sys c.pool.validators c.epochState threshold r r' := by
  cases h with
  | kept | observed | directed => exact absurd rfl hne
  | planned hmem hphase hthreshold hplan =>
    exact ⟨decide_eq_true hmem, hphase, _, hthreshold, hplan⟩
  | granted _ hgranted =>
    obtain ⟨_, _, _, _, _, -, rfl⟩ := hgranted
    exact absurd rfl hne
  | acted _ hacted =>
    obtain ⟨_, _, _, _, rfl⟩ := hacted
    exact absurd rfl hne

/-- What the directed pass decides from is what the record shows afterwards. -/
theorem PlannedFrom.observation {es : EpochState} {p : Pair} {s : Sighting}
    (hsame : SameEpoch es₀ es) (h : sight sys list es p r = .ok s) :
    s.observation = ⟨s.record.observedCommissionOk, s.record.observedLivenessOk⟩ ∧
      s.record.observedEpoch = es₀.controllerEpoch ∧ s.record.status = r.status ∧
      s.record.consecutiveLivenessFailures = r.consecutiveLivenessFailures ∧
      s.record.consecutiveHealthyEpochs = r.consecutiveHealthyEpochs := by
  obtain ⟨entry, -, hobserved, rfl⟩ | ⟨-, -, obs, rfl⟩ := sight_eq h
  · exact ⟨rfl, hobserved.trans hsame.epoch, rfl, rfl, rfl⟩
  · exact ⟨rfl, hsame.epoch, rfl, rfl, rfl⟩

/-- Support turns a registered validator into a candidate; every other status is the lifecycle's. -/
theorem plannedStatus_cases (es : EpochState) (s : Sighting) (outcome : LifecycleOutcome) :
    plannedStatus es s outcome = outcome.status ∨
      (outcome.status = .registered ∧ plannedStatus es s outcome = .candidate) := by
  unfold plannedStatus
  split
  next hsupport =>
    simp only [Bool.and_eq_true, decide_eq_true_eq] at hsupport
    exact .inr ⟨hsupport.1.1.1.1, rfl⟩
  next => exact .inl rfl

/-! ## Phases -/

/-- No record has been planned in the epoch yet. -/
def Phase.beforePlan : Phase → Bool
  | .reconcile | .finalize | .preferences => true
  | _ => false

/-- A step inside an epoch that does not open the window: the phase stays or goes on, the window
leaves the crank state alone, and the finalized supply stays until the directed pass is over. -/
structure Onward (w w' : CrankWorld) : Prop where
  epoch : w'.epoch = w.epoch
  phase : w'.phase = w.phase ∨ (phaseTransitionAllowed w.phase w'.phase = true ∧
    w'.phase ≠ .reconcile ∧ w'.phase ≠ .preferences)
  window : w'.phase = .preferences → w'.controller.epochState = w.controller.epochState
  supply : w'.phase = .planDirected →
    w'.controller.epochState.navFusolSupply = w.controller.epochState.navFusolSupply

namespace Onward

theorem of_epochState (h : w'.controller.epochState = w.controller.epochState) : Onward w w' where
  epoch := congrArg EpochState.controllerEpoch h
  phase := .inl (congrArg EpochState.phase h)
  window _ := h
  supply _ := congrArg EpochState.navFusolSupply h

theorem of_phases {p q : Phase} (hp : w.phase = p) (hq : w'.phase = q) (hepoch : w'.epoch = w.epoch)
    (hsupply : q = .planDirected →
      w'.controller.epochState.navFusolSupply = w.controller.epochState.navFusolSupply)
    (hpq : (q = p ∨ phaseTransitionAllowed p q = true ∧ q ≠ .reconcile) ∧ q ≠ .preferences) :
    Onward w w' := by
  subst hp hq
  obtain ⟨hphase, hne⟩ := hpq
  refine ⟨hepoch, hphase.imp_right fun h ↦ ⟨h.1, h.2, hne⟩, fun hw ↦ absurd hw hne, hsupply⟩

theorem early (h : Onward w w') (hw' : w'.phase = .reconcile ∨ w'.phase = .finalize) :
    w.phase = .reconcile ∨ w.phase = .finalize := by
  obtain hsame | ⟨hallowed, hrec, -⟩ := h.phase
  · rwa [hsame] at hw'
  · rw [hw'.resolve_left hrec] at hallowed
    revert hallowed
    cases w.phase <;> decide

theorem beforePlan (h : Onward w w') (hw' : w'.phase.beforePlan = true) :
    w.phase.beforePlan = true := by
  obtain hsame | ⟨hallowed, hrec, hpref⟩ := h.phase
  · rwa [hsame] at hw'
  · generalize w'.phase = q at *
    cases q with
    | reconcile => exact absurd rfl hrec
    | preferences => exact absurd rfl hpref
    | finalize =>
      revert hallowed
      cases w.phase <;> decide
    | _ => cases hw'

theorem counted (h : Onward w w') (hw' : w'.phase = .preferences ∨ w'.phase = .planDirected) :
    (w.phase = .preferences ∨ w.phase = .planDirected) ∧
      w'.controller.epochState.navFusolSupply = w.controller.epochState.navFusolSupply := by
  obtain hw' | hw' := hw'
  · have hes := h.window hw'
    exact ⟨.inl ((congrArg EpochState.phase hes).symm.trans hw'),
      congrArg EpochState.navFusolSupply hes⟩
  · refine ⟨?_, h.supply hw'⟩
    obtain hsame | ⟨hallowed, -⟩ := h.phase
    · exact .inr (hsame.symm.trans hw')
    · rw [hw'] at hallowed
      revert hallowed
      cases w.phase <;> decide

theorem idle (h : Onward w w') (hw : w.phase = .idle) : w'.phase = .idle := by
  obtain hsame | ⟨hallowed, hrec, -⟩ := h.phase
  · exact hsame.trans hw
  · rw [hw] at hallowed
    revert hallowed hrec
    cases w'.phase <;> decide

end Onward

/-- A step starts an epoch, opens the window, or goes on in its epoch. -/
inductive PhaseStep (sys : Sysvars) (w w' : CrankWorld) : CrankInstr → Prop where
  | starts (hlt : w.epoch < w'.epoch) (hepoch : w'.epoch = sys.clock.epoch)
      (hphase' : w'.phase = .reconcile) : PhaseStep sys w w' .startEpoch
  | opens {mintSupply fee : ℕ} {crank : Pubkey} (hphase : w.phase = .finalize)
      (hphase' : w'.phase = .preferences) (hepoch : w'.epoch = w.epoch)
      (hsupply : w'.controller.epochState.navFusolSupply = mintSupply)
      (hfits : w'.controller.epochState.productiveLamports < 2 ^ 64) :
      PhaseStep sys w w' (.finalizePool mintSupply fee crank)
  | onward {instr : CrankInstr}
      (hinstr : ∀ mintSupply fee crank, instr ≠ .finalizePool mintSupply fee crank)
      (h : Onward w w') : PhaseStep sys w w' instr

theorem crank_phase_step (h : crank.step e w w') :
    PhaseStep e.sys w w' e.instr := by
  obtain ⟨-, -, note, hrun, -⟩ := crank_step_run h
  generalize e.instr = instr at hrun
  by_cases hfinal : ∃ mintSupply fee crank, instr = .finalizePool mintSupply fee crank
  · obtain ⟨mintSupply, fee, crank, rfl⟩ := hfinal
    simp only [CrankInstr.run, bind_eq_ok_iff, pure_eq_ok, Prod.mk.injEq] at hrun
    obtain ⟨c', hpool, hc', -⟩ := hrun
    obtain ⟨hphase, hphase', -, hepoch, -, -, hsupply, hfits, -⟩ := finalizePool_spec hpool
    rw [hc'] at hphase' hepoch hsupply hfits
    exact .opens hphase hphase' hepoch hsupply hfits
  simp only [not_exists] at hfinal
  cases crankStep_of_run hrun with
  | quiet hq => exact .onward hfinal (.of_epochState hq.epochState)
  | startEpoch h =>
    obtain ⟨hlt, heq⟩ := startEpoch_eq h
    have hepoch : w'.epoch = e.sys.clock.epoch := by rw [CrankWorld.epoch, heq]
    exact .starts (hepoch ▸ hlt) hepoch (by rw [CrankWorld.phase, heq])
  | reconcileBatch h =>
    obtain ⟨hphase, -, -, _, -, -, -, hepoch, -, -, -, hphase'⟩ := reconcileBatch_spec h
    obtain ⟨hphase', -⟩ | hphase' := hphase'
    · exact .onward hfinal (.of_phases hphase hphase' hepoch (by simp) (by decide))
    · exact .onward hfinal (.of_phases hphase hphase' hepoch (by simp) (by decide))
  | @finalizePool mintSupply fee crank => exact absurd rfl (hfinal mintSupply fee crank)
  | snapshotPreference h =>
    obtain ⟨-, hes, -⟩ := snapshotPreference_spec h
    exact .onward hfinal (.of_epochState hes)
  | closePreferenceWindow h =>
    obtain ⟨hphase, heq⟩ := closePreferenceWindow_eq h
    have hphase' : w'.phase = .planDirected := by rw [CrankWorld.phase, heq]
    exact .onward hfinal (.of_phases hphase hphase' (by rw [CrankWorld.epoch, heq]; rfl)
      (fun _ ↦ by rw [heq]; rfl) (by decide))
  | planDirectedBatch h =>
    obtain ⟨hphase, hframe, hphase' | ⟨hphase', -⟩, -⟩ := planDirectedBatch_spec h
    · exact .onward hfinal
        (.of_phases hphase hphase' hframe.epoch (fun _ ↦ hframe.supply) (by decide))
    · exact .onward hfinal (.of_phases hphase hphase' hframe.epoch (by simp) (by decide))
  | planNeutralBatch h =>
    obtain ⟨hphase, hframe, hphase' | hphase', -⟩ := planNeutralBatch_spec h
    · exact .onward hfinal (.of_phases hphase hphase' hframe.epoch (by simp) (by decide))
    · exact .onward hfinal (.of_phases hphase hphase' hframe.epoch (by simp) (by decide))
  | finalizePlan h =>
    obtain ⟨hphase, hphase', -, hepoch, -⟩ := finalizePlan_spec h
    exact .onward hfinal (.of_phases hphase hphase' hepoch (by simp) (by decide))
  | executeNextAction h =>
    obtain ⟨hphase, hframe, -⟩ := executeNextAction_spec h
    exact .onward hfinal (.of_phases hphase (hframe.phase.trans hphase) hframe.epoch (by simp)
      (by decide))
  | finishEpoch h =>
    obtain ⟨hphase, vault, used, heq⟩ := finishEpoch_spec h
    have hphase' : w'.phase = .idle := by rw [CrankWorld.phase, heq]
    exact .onward hfinal (.of_phases hphase hphase' (by rw [CrankWorld.epoch, heq]; rfl) (by simp)
      (by decide))

/-- A step starts a later epoch, or stays in its epoch without leaving the idle phase or returning
to the reconcile phase. -/
theorem crank_epoch_step (h : crank.step e w w') :
    (w.epoch < w'.epoch ∧ w'.epoch = e.sys.clock.epoch ∧ w'.phase = .reconcile) ∨
      (w'.epoch = w.epoch ∧ (w.phase = .idle → w'.phase = .idle) ∧
        (w'.phase = .reconcile → w.phase = .reconcile)) := by
  have hstep := crank_phase_step h
  generalize e.instr = instr at hstep
  cases hstep with
  | starts hlt hepoch hphase' => exact .inl ⟨hlt, hepoch, hphase'⟩
  | opens hphase hphase' hepoch =>
    exact .inr ⟨hepoch, fun hidle ↦ by simp [hphase] at hidle, fun hrec ↦ by simp [hphase'] at hrec⟩
  | onward _ h => exact .inr ⟨h.epoch, h.idle, fun hrec ↦
      h.phase.elim (fun hsame ↦ hsame.symm.trans hrec) fun hnext ↦ absurd hrec hnext.2.1⟩

theorem epoch_pos {G : CrankEvent → CrankWorld → Prop} (h : crank.Reachable G w) :
    w.phase ≠ .idle → 0 < w.epoch := by
  induction h with
  | init hgenesis =>
    intro hphase
    rw [CrankWorld.phase, hgenesis.epochState] at hphase
    exact absurd rfl hphase
  | step e _ _ hs ih =>
    obtain ⟨hlater, -, -⟩ | ⟨hsame, hidle, -⟩ := crank_epoch_step hs
    · exact fun _ ↦ Nat.zero_lt_of_lt hlater
    · rw [hsame]
      exact fun hphase ↦ ih fun hi ↦ hphase (hidle hi)

theorem PlannedFrom.planEpoch (h : PlannedFrom sys list es₀ threshold r r') :
    r'.planEpoch = es₀.controllerEpoch := by
  obtain ⟨-, p, es, s, hsame, -, rfl⟩ := h
  exact hsame.epoch

theorem RecordMove.planEpoch (h : RecordMove sys c v instr r r') :
    r'.planEpoch = r.planEpoch ∨
      (c.epochState.phase = .planDirected ∧ r'.planEpoch = c.epochState.controllerEpoch) := by
  cases h with
  | kept | observed | directed => exact .inl rfl
  | planned _ hphase _ hplan => exact .inr ⟨hphase, hplan.planEpoch⟩
  | granted _ hgranted =>
    obtain ⟨_, _, _, _, _, -, rfl⟩ := hgranted
    exact .inl rfl
  | acted _ hacted =>
    obtain ⟨_, _, _, _, rfl⟩ := hacted
    exact .inl rfl

/-- A stamp stays behind the epoch, strictly until the epoch is planned. -/
theorem planEpoch_step (hs : crank.step e w w') {n : ℕ} (hle : n ≤ w.epoch)
    (hlt : w.phase.beforePlan = true → n < w.epoch) :
    n ≤ w'.epoch ∧ (w'.phase.beforePlan = true → n < w'.epoch) := by
  have hstep := crank_phase_step hs
  generalize e.instr = instr at hstep
  cases hstep with
  | starts hlater => exact ⟨hle.trans hlater.le, fun _ ↦ lt_of_le_of_lt hle hlater⟩
  | opens hphase _ hepoch =>
    rw [hepoch]
    exact ⟨hle, fun _ ↦ hlt (by rw [hphase]; rfl)⟩
  | onward _ h =>
    rw [h.epoch]
    exact ⟨hle, fun hw' ↦ hlt (h.beforePlan hw')⟩

theorem crank_planEpoch {G : CrankEvent → CrankWorld → Prop} (h : crank.Reachable G w) :
    w.controller.records.All fun r ↦
      r.planEpoch ≤ w.epoch ∧ (w.phase.beforePlan = true → r.planEpoch < w.epoch) := by
  induction h with
  | init hgenesis =>
    intro v r hr
    rw [hgenesis.records] at hr
    cases hr
  | @step w w' e hreach hg hs ih =>
    intro v r' hr'
    obtain ⟨-, rfl⟩ | ⟨r, hr, hmove⟩ := crank_record_cases hs hr'
    · refine ⟨Nat.zero_le _, fun hphase ↦ epoch_pos (hreach.step e hg hs) fun hidle ↦ ?_⟩
      rw [hidle] at hphase
      cases hphase
    · obtain ⟨hle, hlt⟩ := ih v r hr
      obtain hsame | ⟨hphase, hepoch⟩ := hmove.planEpoch
      · rw [hsame]
        exact planEpoch_step hs hle hlt
      · rw [hepoch]
        refine planEpoch_step hs le_rfl fun hbefore ↦ ?_
        rw [CrankWorld.phase, hphase] at hbefore
        cases hbefore

end StakeController
end FusionCore
