import FusionCore.Controller.RecordMoves
import FusionCore.Controller.Walk

/-!
# The churn cap of a cluster epoch

The log of a run shows which plan every move belongs to.  For each plan the moves stay within the
budget of the total it was finalized with; that a move also falls into the cluster epoch of its
plan is a matter of when the pool was last updated, since the pool refuses to move stake for a
later epoch than that of its last update.
-/

namespace FusionCore
namespace StakeController

open Checked StakeMath

/-! ## Sums over the log -/

namespace LogEntry

/-- The call that an entry is about, if it is one of the rebalance phase. -/
def performed (e : LogEntry) : List Performed := performedBy e.sys (some e.note)

/-- The lamports that an entry moved. -/
def moved (e : LogEntry) : ℕ := churn e.performed

/-- The entry is an increase or a decrease. -/
def isMove (e : LogEntry) : Bool := e.performed.any fun p ↦ p.amount?.isSome

theorem isMove_executed (sys : Sysvars) (epoch : ℕ) (vote : Pubkey) (slot : RebalanceSlot)
    (action : Action) :
    isMove ⟨sys, epoch, .executed vote (.walk slot action)⟩ = action.amount?.isSome := by
  simp [isMove, performed, performedBy, Performed.amount?]

theorem moved_eq_zero {e : LogEntry} (h : e.isMove = false) : e.moved = 0 := by
  simp only [isMove, List.any_eq_false, Option.not_isSome_iff_eq_none] at h
  refine List.sum_eq_zero fun x hx ↦ ?_
  obtain ⟨p, hp, rfl⟩ := List.mem_map.mp hx
  rw [Performed.moved, h p hp, Option.getD_none]

end LogEntry

/-- The calls of the rebalance phase under one plan. -/
def performedIn (epoch : ℕ) (log : List LogEntry) : List Performed :=
  (log.filter fun e ↦ e.controllerEpoch = epoch).flatMap LogEntry.performed

/-- The lamports moved while the cluster was in `epoch`. -/
def churnAt (epoch : ℕ) (log : List LogEntry) : ℕ :=
  ((log.filter fun e ↦ e.sys.clock.epoch = epoch).map LogEntry.moved).sum

@[simp] theorem performedIn_append (epoch : ℕ) (log log' : List LogEntry) :
    performedIn epoch (log ++ log') = performedIn epoch log ++ performedIn epoch log' := by
  simp [performedIn]

variable {epoch : ℕ} {log : List LogEntry} {w w' : CrankWorld}

theorem performedIn_singleton_of_ne {e : LogEntry} (h : e.controllerEpoch ≠ epoch) :
    performedIn epoch [e] = [] := by
  simp [performedIn, h]

theorem performedIn_eq_nil (h : ∀ e ∈ log, e.controllerEpoch ≠ epoch) :
    performedIn epoch log = [] := by
  simp only [performedIn, List.flatMap_eq_nil_iff, List.mem_filter, decide_eq_true_eq]
  exact fun e he ↦ absurd he.2 (h e he.1)

theorem churn_performedIn (epoch : ℕ) (log : List LogEntry) :
    churn (performedIn epoch log) =
      (log.map fun e ↦ if e.controllerEpoch = epoch then e.moved else 0).sum := by
  induction log with
  | nil => rfl
  | cons e log ih =>
    rw [← List.singleton_append, performedIn_append, churn_append, ih, List.singleton_append,
      List.map_cons, List.sum_cons]
    congr 1
    by_cases he : e.controllerEpoch = epoch
    · simp [performedIn, he, LogEntry.moved]
    · simp [performedIn, he, churn]

theorem churnAt_eq (epoch : ℕ) (log : List LogEntry) :
    churnAt epoch log =
      (log.map fun e ↦ if e.sys.clock.epoch = epoch then e.moved else 0).sum := by
  induction log with
  | nil => rfl
  | cons e log ih =>
    rw [List.map_cons, List.sum_cons, ← ih]
    by_cases he : e.sys.clock.epoch = epoch
    · simp [churnAt, he]
    · simp [churnAt, he]

/-- Where moves fall into the epoch of their plan, the two ways of counting agree. -/
theorem churnAt_eq_churn_performedIn
    (h : ∀ e ∈ log, e.isMove → e.controllerEpoch = e.sys.clock.epoch) (epoch : ℕ) :
    churnAt epoch log = churn (performedIn epoch log) := by
  rw [churnAt_eq, churn_performedIn]
  congr 1
  apply List.map_congr_left
  intro e he
  cases hmove : e.isMove with
  | false => simp [LogEntry.moved_eq_zero hmove]
  | true => rw [h e he hmove]

/-! ## Every plan keeps to its budget -/

/-- The plan of an epoch was made from one finalized total, and its moves stay within the budget. -/
structure Capped (epoch : ℕ) (log : List LogEntry) : Prop where
  bound : ∀ e ∈ log, e.controllerEpoch = epoch → ∀ total, e.note = .finalized total →
    churn (performedIn epoch log) ≤ globalChurnBudget total GLOBAL_CHURN_CAP_BPS
  planned : performedIn epoch log ≠ [] →
    ∃ e ∈ log, e.controllerEpoch = epoch ∧ ∃ total, e.note = .finalized total

theorem Capped.of_fresh (h : ∀ e ∈ log, e.controllerEpoch ≠ epoch) : Capped epoch log where
  bound e he hepoch := absurd hepoch (h e he)
  planned hne := absurd (performedIn_eq_nil h) hne

theorem Capped.append {e : LogEntry} (h : Capped epoch log) (he : e.controllerEpoch ≠ epoch) :
    Capped epoch (log ++ [e]) := by
  have hsame : performedIn epoch (log ++ [e]) = performedIn epoch log := by
    rw [performedIn_append, performedIn_singleton_of_ne he, List.append_nil]
  constructor
  · intro e' he' hepoch
    rw [hsame]
    obtain hmem | hmem := List.mem_append.mp he'
    · exact h.bound e' hmem hepoch
    · exact absurd (List.mem_singleton.mp hmem ▸ hepoch) he
  · intro hne
    rw [hsame] at hne
    obtain ⟨e', hmem, hrest⟩ := h.planned hne
    exact ⟨e', List.mem_append_left _ hmem, hrest⟩

/-- The current plan knows the total it was finalized with. -/
structure Budgeted (w : CrankWorld) : Prop where
  budget : w.controller.epochState.churnBudgetTotal =
    globalChurnBudget w.controller.epochState.navTotalLamports GLOBAL_CHURN_CAP_BPS
  total : ∀ e ∈ w.log, e.controllerEpoch = w.epoch → ∀ total, e.note = .finalized total →
    total = w.controller.epochState.navTotalLamports
  planned : ∃ e ∈ w.log, e.controllerEpoch = w.epoch ∧ ∃ total, e.note = .finalized total

/-- Where the current epoch stands. -/
inductive EpochStage (w : CrankWorld) : Prop where
  | untouched (phase : w.phase = .idle) (log : ∀ e ∈ w.log, e.controllerEpoch ≠ w.epoch)
  | observing (phase : w.phase = .reconcile ∨ w.phase = .finalize)
      (used : w.controller.epochState.churnBudgetUsed = 0)
      (log : ∀ e ∈ w.log, e.controllerEpoch ≠ w.epoch)
  | planning (phase : w.phase = .preferences ∨ w.phase = .planDirected ∨
        ((w.phase = .planNeutral ∨ w.phase = .planFinalize) ∧
          w.controller.epochState.planDirectedCursor < 2 ^ 32))
      (used : w.controller.epochState.churnBudgetUsed = 0)
      (log : performedIn w.epoch w.log = []) (budgeted : Budgeted w)
  | walking (phase : w.phase = .rebalance ∨ w.phase = .idle)
      (walked : Walked w.controller (performedIn w.epoch w.log)) (budgeted : Budgeted w)

theorem EpochStage.capped (h : EpochStage w) : Capped w.epoch w.log := by
  cases h with
  | untouched _ log => exact .of_fresh log
  | observing _ _ log => exact .of_fresh log
  | planning _ _ log budgeted =>
    constructor
    · intro e he hepoch total htotal
      rw [log]
      exact Nat.zero_le _
    · exact fun hne ↦ absurd log hne
  | walking _ walked budgeted =>
    constructor
    · intro e he hepoch total htotal
      rw [walked.sum, budgeted.total e he hepoch total htotal, ← budgeted.budget]
      exact walked.budget
    · exact fun _ ↦ budgeted.planned

/-- The state of a run: all plans kept to their budgets, and the current one is in some stage. -/
structure ChurnInv (w : CrankWorld) : Prop where
  clock : w.epoch ≤ w.clock.epoch
  logged : ∀ e ∈ w.log, e.controllerEpoch ≤ w.epoch
  stage : EpochStage w
  history : ∀ epoch ≠ w.epoch, Capped epoch w.log

theorem ChurnInv.capped (h : ChurnInv w) (epoch : ℕ) : Capped epoch w.log := by
  by_cases hepoch : epoch = w.epoch
  · exact hepoch ▸ h.stage.capped
  · exact h.history epoch hepoch

/-! ## Steps -/

theorem Budgeted.append {notes : List LogEntry} (h : Budgeted w)
    (hlog : w'.log = w.log ++ notes) (hnotes : ∀ e ∈ notes, ∀ total, e.note ≠ .finalized total)
    (hepoch : w'.epoch = w.epoch)
    (hnav : w'.controller.epochState.navTotalLamports = w.controller.epochState.navTotalLamports)
    (hbudget : w'.controller.epochState.churnBudgetTotal =
      w.controller.epochState.churnBudgetTotal) : Budgeted w' := by
  constructor
  · rw [hbudget, hnav]
    exact h.budget
  · intro e he hctrl total htotal
    rw [hlog] at he
    obtain he | he := List.mem_append.mp he
    · rw [hnav]
      exact h.total e he (hctrl.trans hepoch) total htotal
    · exact absurd htotal (hnotes e he total)
  · obtain ⟨e, he, hctrl, htotal⟩ := h.planned
    rw [hlog, hepoch]
    exact ⟨e, List.mem_append_left _ he, hctrl, htotal⟩

theorem Budgeted.same (h : Budgeted w) (hlog : w'.log = w.log) (hepoch : w'.epoch = w.epoch)
    (hnav : w'.controller.epochState.navTotalLamports = w.controller.epochState.navTotalLamports)
    (hbudget : w'.controller.epochState.churnBudgetTotal =
      w.controller.epochState.churnBudgetTotal) : Budgeted w' :=
  h.append (hlog.trans (List.append_nil _).symm) (by simp) hepoch hnav hbudget

namespace EpochStage

variable {w w' : CrankWorld}

theorem early (h : EpochStage w) (hphase : w.phase = .reconcile ∨ w.phase = .finalize) :
    w.controller.epochState.churnBudgetUsed = 0 ∧ ∀ e ∈ w.log, e.controllerEpoch ≠ w.epoch := by
  cases h with
  | untouched phase => simp [phase] at hphase
  | observing _ used log => exact ⟨used, log⟩
  | planning phase | walking phase =>
    exfalso
    rcases hphase with hphase | hphase <;> simp [hphase] at phase

theorem finalized {sys : Sysvars} (h : EpochStage w) (hphase : w.phase = .finalize)
    (hphase' : w'.phase = .preferences)
    (hlog : w'.log = w.log ++
      [⟨sys, w.epoch, .finalized w'.controller.epochState.navTotalLamports⟩])
    (hepoch : w'.epoch = w.epoch)
    (hused : w'.controller.epochState.churnBudgetUsed = w.controller.epochState.churnBudgetUsed)
    (hbudget : w'.controller.epochState.churnBudgetTotal =
      globalChurnBudget w'.controller.epochState.navTotalLamports GLOBAL_CHURN_CAP_BPS) :
    EpochStage w' := by
  obtain ⟨hzero, hfresh⟩ := h.early (.inr hphase)
  refine .planning (.inl hphase') (hused.trans hzero) ?_
    ⟨hbudget, ?_, by simp [hlog, hepoch, or_and_right, exists_or]⟩
  · rw [hlog, hepoch, performedIn_append, performedIn_eq_nil hfresh]
    simp [performedIn, LogEntry.performed, performedBy]
  · intro entry hentry hctrl total htotal
    rw [hlog] at hentry
    obtain hentry | hentry := List.mem_append.mp hentry
    · exact absurd (hctrl.trans hepoch) (hfresh entry hentry)
    · obtain rfl := List.mem_singleton.mp hentry
      exact (Note.finalized.inj htotal).symm

theorem planned (h : EpochStage w) (hphase : w.phase = .preferences ∨ w.phase = .planDirected ∨
      w.phase = .planNeutral ∨ w.phase = .planFinalize) :
    w.controller.epochState.churnBudgetUsed = 0 ∧ performedIn w.epoch w.log = [] ∧ Budgeted w ∧
      (w.phase = .planNeutral ∨ w.phase = .planFinalize →
        w.controller.epochState.planDirectedCursor < 2 ^ 32) := by
  cases h with
  | untouched phase => simp [phase] at hphase
  | planning phase used log budgeted =>
    refine ⟨used, log, budgeted, ?_⟩
    intro hlate
    obtain hphase | hphase | hphase := phase
    · simp [hphase] at hlate
    · simp [hphase] at hlate
    · exact hphase.2
  | observing phase | walking phase =>
    exfalso
    rcases hphase with hphase | hphase | hphase | hphase <;> simp [hphase] at phase

theorem plan (h : EpochStage w) (hphase : w.phase = .preferences ∨ w.phase = .planDirected ∨
      w.phase = .planNeutral ∨ w.phase = .planFinalize)
    (hlog : w'.log = w.log) (hepoch : w'.epoch = w.epoch)
    (hused : w'.controller.epochState.churnBudgetUsed = w.controller.epochState.churnBudgetUsed)
    (hnav : w'.controller.epochState.navTotalLamports = w.controller.epochState.navTotalLamports)
    (hbudget : w'.controller.epochState.churnBudgetTotal =
      w.controller.epochState.churnBudgetTotal)
    (hphase' : w'.phase = .preferences ∨ w'.phase = .planDirected ∨
      ((w'.phase = .planNeutral ∨ w'.phase = .planFinalize) ∧
        w'.controller.epochState.planDirectedCursor < 2 ^ 32)) : EpochStage w' := by
  obtain ⟨hzero, hnone, hbudgeted, -⟩ := h.planned hphase
  exact .planning hphase' (hused.trans hzero) (by rwa [hlog, hepoch])
    (hbudgeted.same hlog hepoch hnav hbudget)

theorem walked (h : EpochStage w) (hphase : w.phase = .rebalance) :
    Walked w.controller (performedIn w.epoch w.log) ∧ Budgeted w := by
  cases h with
  | untouched phase => simp [phase] at hphase
  | observing phase | planning phase => simp [hphase] at phase
  | walking _ walked budgeted => exact ⟨walked, budgeted⟩

theorem quiet {sys : Sysvars} {instr : CrankInstr} (h : EpochStage w) (hlog : w'.log = w.log)
    (hq : Quiet sys instr w.controller w'.controller) : EpochStage w' := by
  have hes := hq.epochState
  have hepoch : w'.epoch = w.epoch := by rw [CrankWorld.epoch, hes, CrankWorld.epoch]
  have hphase : w'.phase = w.phase := by rw [CrankWorld.phase, hes, CrankWorld.phase]
  have hbudgeted : Budgeted w → Budgeted w' :=
    fun hb ↦ hb.same hlog hepoch (by rw [hes]) (by rw [hes])
  cases h with
  | untouched phase log => exact .untouched (hphase.trans phase) (by rwa [hlog, hepoch])
  | observing phase used log =>
    exact .observing (by rwa [hphase]) (by rwa [hes]) (by rwa [hlog, hepoch])
  | planning phase used log budgeted =>
    exact .planning (by rwa [hphase, hes]) (by rwa [hes]) (by rwa [hlog, hepoch])
      (hbudgeted budgeted)
  | walking phase walked budgeted =>
    refine .walking (by rwa [hphase]) ?_ (hbudgeted budgeted)
    rw [hlog, hepoch]
    exact walked.quiet hq

end EpochStage

theorem ChurnInv.stay {notes : List LogEntry} (h : ChurnInv w)
    (hclock : w.clock.epoch ≤ w'.clock.epoch) (hlog : w'.log = w.log ++ notes)
    (hnotes : ∀ e ∈ notes, e.controllerEpoch = w.epoch) (hlen : notes.length ≤ 1)
    (hepoch : w'.epoch = w.epoch) (hstage : EpochStage w') : ChurnInv w' where
  clock := by
    rw [hepoch]
    exact h.clock.trans hclock
  logged := by
    intro e he
    rw [hlog] at he
    rw [hepoch]
    obtain he | he := List.mem_append.mp he
    · exact h.logged e he
    · exact (hnotes e he).le
  stage := hstage
  history := by
    intro epoch hne
    rw [hepoch] at hne
    rw [hlog]
    match notes, hlen with
    | [], _ =>
      rw [List.append_nil]
      exact h.history epoch hne
    | [e], _ =>
      refine (h.history epoch hne).append ?_
      rw [hnotes e (List.mem_singleton_self e)]
      exact hne.symm

theorem ChurnInv.step {e : CrankEvent} (h : ChurnInv w) (hs : crank.step e w w') : ChurnInv w' := by
  obtain ⟨hle, hclock, note, hstep, hlog⟩ := crank_step_cases hs
  obtain ⟨sys, instr⟩ := e
  dsimp only at hle hclock hstep hlog
  have hadvance : w.clock.epoch ≤ w'.clock.epoch := hclock ▸ hle.epoch
  have hsame : note = none → w'.log = w.log := by
    rintro rfl
    exact hlog.trans (List.append_nil _)
  -- everything but a new epoch stays in the current one
  have hstay : w'.epoch = w.epoch → EpochStage w' → ChurnInv w' := by
    intro hepoch hstage
    refine h.stay hadvance hlog ?_ ?_ hepoch hstage
    · intro entry hentry
      cases note with
      | none => simp at hentry
      | some n =>
        obtain rfl : entry = ⟨sys, w.epoch, n⟩ := by simpa using hentry
        rfl
    · cases note <;> simp
  cases hstep with
  | quiet hq =>
    exact hstay (congrArg EpochState.controllerEpoch hq.epochState)
      (h.stage.quiet (hsame rfl) hq)
  | startEpoch hrun =>
    obtain ⟨hlater, hc⟩ := startEpoch_eq hrun
    have hepoch : w'.epoch = sys.clock.epoch := by rw [CrankWorld.epoch, hc]
    have hnew : ∀ entry ∈ w'.log, entry.controllerEpoch < w'.epoch := by
      intro entry hentry
      rw [hsame rfl] at hentry
      rw [hepoch]
      exact lt_of_le_of_lt (h.logged entry hentry) hlater
    refine ⟨by rw [hepoch, hclock], fun entry hentry ↦ (hnew entry hentry).le, ?_, ?_⟩
    · refine .observing (.inl ?_) ?_ fun entry hentry ↦ (hnew entry hentry).ne
      · rw [CrankWorld.phase, hc]
      · rw [hc]
        rfl
    · intro epoch _
      rw [hsame rfl]
      exact h.capped epoch
  | reconcileBatch hrun =>
    obtain ⟨hphase, -, -, acc, -, -, -, hepoch, hused, -, -, hphase'⟩ := reconcileBatch_spec hrun
    obtain ⟨hzero, hfresh⟩ := h.stage.early (.inl hphase)
    refine hstay hepoch (.observing ?_ (hused.trans hzero) ?_)
    · exact hphase'.symm.imp_right And.left
    · rw [hsame rfl]
      intro entry hentry
      rw [CrankWorld.epoch, hepoch]
      exact hfresh entry hentry
  | finalizePool hrun =>
    obtain ⟨hphase, hphase', -, hepoch, hused, hbudget, -⟩ := finalizePool_spec hrun
    exact hstay hepoch (h.stage.finalized hphase hphase' hlog hepoch hused hbudget)
  | snapshotPreference hrun =>
    obtain ⟨hphase, hes, -⟩ := snapshotPreference_spec hrun
    have hepoch : w'.epoch = w.epoch := congrArg EpochState.controllerEpoch hes
    refine hstay hepoch (h.stage.plan (.inl hphase) (hsame rfl) hepoch
      (by rw [hes]) (by rw [hes]) (by rw [hes]) (.inl ?_))
    rw [CrankWorld.phase, hes]
    exact hphase
  | closePreferenceWindow hrun =>
    obtain ⟨hphase, hc⟩ := closePreferenceWindow_eq hrun
    have hepoch : w'.epoch = w.epoch := by rw [CrankWorld.epoch, hc]; rfl
    exact hstay hepoch (h.stage.plan (.inl hphase) (hsame rfl) hepoch
      (by rw [hc]; rfl) (by rw [hc]; rfl) (by rw [hc]; rfl)
      (.inr (.inl (by rw [CrankWorld.phase, hc]))))
  | planDirectedBatch hrun =>
    obtain ⟨hphase, hframe, hphase', -⟩ := planDirectedBatch_spec hrun
    exact hstay hframe.epoch (h.stage.plan (.inr (.inl hphase)) (hsame rfl)
      hframe.epoch hframe.used hframe.nav hframe.budget
      (.inr (hphase'.imp_right fun hneutral ↦ ⟨.inl hneutral.1, hneutral.2⟩)))
  | planNeutralBatch hrun =>
    obtain ⟨hphase, hframe, hphase', hlen⟩ := planNeutralBatch_spec hrun
    obtain ⟨-, -, -, hfits⟩ := h.stage.planned (.inr (.inr (.inl hphase)))
    exact hstay hframe.epoch (h.stage.plan (.inr (.inr (.inl hphase)))
      (hsame rfl) hframe.epoch hframe.used hframe.nav hframe.budget
      (.inr (.inr ⟨hphase', hlen.trans_lt (hfits (.inl hphase))⟩)))
  | finalizePlan hrun =>
    obtain ⟨hphase, hphase', -, hepoch, hnav, hbudget, hused, hlen, hcursor⟩ :=
      finalizePlan_spec hrun
    obtain ⟨hzero, hnone, hbudgeted, hfits⟩ := h.stage.planned (.inr (.inr (.inr hphase)))
    refine hstay hepoch (.walking (.inl hphase') ?_
      (hbudgeted.same (hsame rfl) hepoch hnav hbudget))
    have hnone' : performedIn w'.epoch w'.log = [] := by
      rw [hsame rfl, show w'.epoch = w.epoch from hepoch]
      exact hnone
    rw [hnone']
    exact .nil (hlen ▸ hfits (.inr hphase)) hcursor (hused.trans hzero)
  | executeNextAction hrun =>
    obtain ⟨hphase, hframe, -⟩ := executeNextAction_spec hrun
    obtain ⟨hwalked, hbudgeted⟩ := h.stage.walked hphase
    have hepoch : w'.epoch = w.epoch := hframe.epoch
    refine hstay hepoch (.walking (.inl (hframe.phase.trans hphase)) ?_
      (hbudgeted.append hlog (by simp) hepoch hframe.nav hframe.budget))
    have hnext := hwalked.execute hrun
    rw [hlog, hepoch, performedIn_append]
    simpa [performedIn, LogEntry.performed, performedBy] using hnext
  | finishEpoch hrun =>
    obtain ⟨hphase, vault, used, hc⟩ := finishEpoch_spec hrun
    obtain ⟨hwalked, hbudgeted⟩ := h.stage.walked hphase
    have hepoch : w'.epoch = w.epoch := by rw [CrankWorld.epoch, hc]; rfl
    refine hstay hepoch (.walking (.inr ?_) ?_
      (hbudgeted.same (hsame rfl) hepoch (by rw [hc]) (by rw [hc])))
    · rw [CrankWorld.phase, hc]
    · rw [hsame rfl, hepoch, hc]
      exact { hwalked with }

theorem ChurnInv.of_reach {G : CrankEvent → CrankWorld → Prop} (h : crank.Reachable G w) :
    ChurnInv w := by
  refine h.invariant ?_ fun e w w' hi _ hs ↦ hi.step hs
  intro w hinit
  refine ⟨?_, ?_, .untouched ?_ ?_, ?_⟩
  · rw [CrankWorld.epoch, hinit.epochState]
    exact Nat.zero_le _
  · simp [hinit.log]
  · rw [CrankWorld.phase, hinit.epochState]
    rfl
  · simp [hinit.log]
  · intro epoch _
    rw [hinit.log]
    exact .of_fresh (by simp)

/-! ## When the pool is updated -/

/-- The pool is updated in the epoch of the controller, or between two cycles. -/
def UpdatedInEpoch (e : CrankEvent) (w : CrankWorld) : Prop :=
  match e.instr with
  | .updateStakePoolBalance _ | .finalizePool _ _ _ =>
    e.sys.clock.epoch = w.epoch ∨ w.phase = .idle
  | _ => True

instance (e : CrankEvent) (w : CrankWorld) : Decidable (UpdatedInEpoch e w) := by
  obtain ⟨_, instr⟩ := e
  unfold UpdatedInEpoch
  cases instr <;> infer_instance

/-- The pool is not ahead of the controller, and what is logged fell into its own epoch. -/
structure UpdateInv (w : CrankWorld) : Prop where
  clock : w.controller.pool.lastUpdateEpoch ≤ w.clock.epoch
  cycle : w.phase ≠ .idle → w.controller.pool.lastUpdateEpoch ≤ w.epoch
  finalized : ∀ e ∈ w.log, ∀ total, e.note = .finalized total →
    e.controllerEpoch = e.sys.clock.epoch
  moved : ∀ e ∈ w.log, e.isMove → e.controllerEpoch = e.sys.clock.epoch

theorem UpdateInv.same {e : CrankEvent} (h : UpdateInv w) (hs : crank.step e w w')
    (hupdated : w'.controller.pool.lastUpdateEpoch = w.controller.pool.lastUpdateEpoch)
    (hlog : w'.log = w.log) : UpdateInv w' := by
  obtain ⟨hle, hclock, -⟩ := crank_step_run hs
  have hadvance : w.clock.epoch ≤ w'.clock.epoch := hclock ▸ hle.epoch
  refine ⟨hupdated ▸ h.clock.trans hadvance, fun hbusy ↦ ?_, hlog ▸ h.finalized, hlog ▸ h.moved⟩
  rw [hupdated]
  obtain ⟨-, hepoch, -⟩ | ⟨hepoch, hidle, -⟩ := crank_epoch_step hs
  · rw [hepoch, ← hclock]
    exact h.clock.trans hadvance
  · rw [hepoch]
    exact h.cycle fun hi ↦ hbusy (hidle hi)

theorem UpdateInv.step {e : CrankEvent} (h : UpdateInv w) (hc : ChurnInv w)
    (hg : UpdatedInEpoch e w) (hs : crank.step e w w') : UpdateInv w' := by
  obtain ⟨hle, hclock, note, hstep, hlog⟩ := crank_step_cases hs
  obtain ⟨sys, instr⟩ := e
  dsimp only at hle hclock hstep hlog
  have hadvance : w.clock.epoch ≤ w'.clock.epoch := hclock ▸ hle.epoch
  have hsame : w'.controller.pool.lastUpdateEpoch = w.controller.pool.lastUpdateEpoch →
      note = none → UpdateInv w' := by
    rintro hupdated rfl
    exact h.same hs hupdated (hlog.trans (List.append_nil _))
  cases hstep with
  | quiet hq =>
    obtain hupdated | ⟨⟨supply, rfl⟩, hupdated⟩ := hq.updated
    · exact hsame hupdated rfl
    · have hlog' : w'.log = w.log := hlog.trans (List.append_nil _)
      refine ⟨?_, fun hbusy ↦ ?_, hlog' ▸ h.finalized, hlog' ▸ h.moved⟩
      · rw [hupdated, hclock]
        exact max_le (h.clock.trans hle.epoch) le_rfl
      · rw [CrankWorld.phase, hq.epochState] at hbusy
        rw [hupdated, CrankWorld.epoch, hq.epochState]
        exact max_le (h.cycle hbusy) (hg.resolve_right hbusy).le
  | startEpoch hrun => exact hsame (by rw [(startEpoch_eq hrun).2]) rfl
  | reconcileBatch hrun =>
    obtain ⟨-, -, -, acc, hpool, -⟩ := reconcileBatch_spec hrun
    simp only [StakePool.updateValidatorListBalance, bind_eq_ok_iff, require_eq_ok, pure_eq_ok,
      exists_const] at hpool
    exact hsame (by rw [← hpool.2]) rfl
  | finalizePool hrun =>
    obtain ⟨hphase, -, -, hepoch, -, -, -, -, hupdated, -⟩ := finalizePool_spec hrun
    have hbusy : w.phase ≠ .idle := by
      rw [CrankWorld.phase, hphase]
      decide
    have hnow : sys.clock.epoch = w.epoch := hg.resolve_right hbusy
    have hbound : w'.controller.pool.lastUpdateEpoch ≤ w.epoch := by
      rw [hupdated]
      exact max_le (h.cycle hbusy) hnow.le
    refine ⟨?_, fun _ ↦ (show w'.epoch = w.epoch from hepoch) ▸ hbound, ?_, ?_⟩
    · exact hbound.trans (hc.clock.trans hadvance)
    · rw [hlog]
      exact List.forall_mem_append.mpr ⟨h.finalized, by simpa using hnow.symm⟩
    · rw [hlog]
      exact List.forall_mem_append.mpr ⟨h.moved, by simpa using fun _ ↦ hnow.symm⟩
  | snapshotPreference hrun => exact hsame (by rw [(snapshotPreference_spec hrun).2.2.1]) rfl
  | closePreferenceWindow hrun => exact hsame (by rw [(closePreferenceWindow_eq hrun).2]) rfl
  | planDirectedBatch hrun => exact hsame (by rw [(planDirectedBatch_spec hrun).2.1.pool]) rfl
  | planNeutralBatch hrun => exact hsame (by rw [(planNeutralBatch_spec hrun).2.1.pool]) rfl
  | finalizePlan hrun => exact hsame (finalizePlan_spec hrun).2.2.1 rfl
  | executeNextAction hrun =>
    obtain ⟨hphase, hframe, hcases⟩ := executeNextAction_spec hrun
    have hbusy : w.phase ≠ .idle := by
      rw [CrankWorld.phase, hphase]
      decide
    refine ⟨?_, fun _ ↦ ?_, ?_, ?_⟩
    · rw [hframe.updated]
      exact h.clock.trans hadvance
    · rw [hframe.updated, CrankWorld.epoch, hframe.epoch]
      exact h.cycle hbusy
    · rw [hlog]
      exact List.forall_mem_append.mpr ⟨h.finalized, by simp⟩
    · rw [hlog]
      refine List.forall_mem_append.mpr ⟨h.moved, List.forall_mem_singleton.mpr fun hmoved ↦ ?_⟩
      -- the pool was fresh, so its last update is not before this epoch
      obtain ⟨rfl, -⟩ | ⟨_, _, _, -, -, action, -, rfl, -, -, hmove⟩ := hcases
      · cases hmoved
      · have hfresh := (hmove ((LogEntry.isMove_executed ..).symm.trans hmoved)).1
        exact le_antisymm (hc.clock.trans hle.epoch) (hfresh.trans (h.cycle hbusy))
  | finishEpoch hrun =>
    obtain ⟨-, vault, used, hcon⟩ := finishEpoch_spec hrun
    exact hsame (by rw [hcon]) rfl

theorem UpdateInv.of_reachable (h : crank.Reachable UpdatedInEpoch w) :
    UpdateInv w ∧ ChurnInv w := by
  refine h.invariant (P := fun w ↦ UpdateInv w ∧ ChurnInv w) ?_ ?_
  · intro w hinit
    refine ⟨⟨hinit.updated, ?_, by simp [hinit.log], by simp [hinit.log]⟩,
      ChurnInv.of_reach (.init (G := UpdatedInEpoch) hinit)⟩
    intro hbusy
    exact absurd (by rw [CrankWorld.phase, hinit.epochState]; rfl) hbusy
  · rintro e w w' ⟨hu, hc⟩ hg hs
    exact ⟨hu.step hc hg hs, hc.step hs⟩

/-- In every run in which the pool is updated only in the epoch of the controller or between two
cycles, each move falls into the cluster epoch of its plan, and the moves of a cluster epoch stay
within the budget of the total that was finalized in it. -/
theorem churn_capped {w : CrankWorld} (h : crank.Reachable UpdatedInEpoch w) :
    (∀ e ∈ w.log, e.isMove → e.controllerEpoch = e.sys.clock.epoch) ∧
    ∀ epoch,
      (∀ e ∈ w.log, e.sys.clock.epoch = epoch → ∀ total, e.note = .finalized total →
        churnAt epoch w.log ≤ globalChurnBudget total GLOBAL_CHURN_CAP_BPS) ∧
      (0 < churnAt epoch w.log → ∃ e ∈ w.log, e.sys.clock.epoch = epoch ∧
        e.controllerEpoch = epoch ∧ ∃ total, e.note = .finalized total) := by
  obtain ⟨hu, hc⟩ := UpdateInv.of_reachable h
  refine ⟨hu.moved, fun epoch ↦ ?_⟩
  have hcapped := hc.capped epoch
  have hchurn : churnAt epoch w.log = churn (performedIn epoch w.log) :=
    churnAt_eq_churn_performedIn hu.moved epoch
  constructor
  · intro e he hepoch total htotal
    rw [hchurn]
    exact hcapped.bound e he ((hu.finalized e he total htotal).trans hepoch) total htotal
  · intro hpos
    have hne : performedIn epoch w.log ≠ [] := by
      intro hnil
      rw [hchurn, hnil] at hpos
      exact absurd hpos (by decide)
    obtain ⟨e, he, hepoch, total, htotal⟩ := hcapped.planned hne
    exact ⟨e, he, (hu.finalized e he total htotal).symm.trans hepoch, hepoch, total, htotal⟩

namespace CrankSample

/-- The plan of epoch 3 lets both candidates grow. -/
def grown : List CrankEvent :=
  admitted ++
    observe 3
      [⟨11, 11, healthy 3 10, steady minimum 0⟩, ⟨12, 12, healthy 3 10, steady minimum 0⟩] ++
    count 3 ++ plan 3 [⟨11, 11, none⟩, ⟨12, 12, none⟩] []

/-- The walk of epoch 3 is still going on when the pool is updated for epoch 4. -/
def overtaken : List CrankEvent :=
  grown ++ rebalance 3 20040 [12, 11] ++
    [⟨at_ 4 10, .updateValidatorListBalance 0 [steady minimum 0, steady minimum 0]⟩,
      ⟨at_ 4 20, .updateStakePoolBalance (100000 * LAMPORTS_PER_SOL)⟩] ++
    rebalance 4 30 [12, 11]

end CrankSample

/-- Both increases come in epoch 3, within the budget of the total finalized in it. -/
theorem churn_capped_sample : ∃ w,
    CrankSample.run UpdatedInEpoch
      (CrankSample.grown ++ CrankSample.rebalance 3 20040 [12, 11, 12, 11]) = some w ∧
    churnAt 3 w.log = 497995434240 ∧
    ∀ e ∈ w.log, e.isMove → e.controllerEpoch = e.sys.clock.epoch := by
  have hrun : (CrankSample.run UpdatedInEpoch
      (CrankSample.grown ++ CrankSample.rebalance 3 20040 [12, 11, 12, 11])).map
        (fun w ↦ churnAt 3 w.log) = some 497995434240 := by decide +kernel
  obtain ⟨w, hw, hchurn⟩ := Option.map_eq_some_iff.mp hrun
  exact ⟨w, hw, hchurn, (churn_capped (CrankSample.reachable_run hw)).1⟩

/-- Anyone may update the pool as soon as epoch 4 begins; until the next cycle is started, the walk
of epoch 3 then goes on in epoch 4, where no total was finalized. -/
theorem churn_escapes : ∃ w, crank.Reach w ∧
    (∃ e ∈ w.log, e.isMove ∧ e.controllerEpoch = 3 ∧ e.sys.clock.epoch = 4) ∧
    0 < churnAt 4 w.log ∧
    ∀ e ∈ w.log, e.sys.clock.epoch = 4 → e.note.isFinalized = false := by
  have hrun : (CrankSample.run (fun _ _ ↦ True) CrankSample.overtaken).map (fun w ↦ decide (
      (∃ e ∈ w.log, e.isMove ∧ e.controllerEpoch = 3 ∧ e.sys.clock.epoch = 4) ∧
      0 < churnAt 4 w.log ∧
      ∀ e ∈ w.log, e.sys.clock.epoch = 4 → e.note.isFinalized = false)) = some true := by
    decide +kernel
  obtain ⟨w, hw, hfacts⟩ := Option.map_eq_some_iff.mp hrun
  exact ⟨w, CrankSample.reachable_run hw, of_decide_eq_true hfacts⟩

end StakeController
end FusionCore
