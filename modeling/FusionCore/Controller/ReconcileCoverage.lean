import FusionCore.Controller.RecordMoves

/-!
# Reconcile covers the validator list

The reconcile cursor counts entries of a list that the pool may compact in between.  As long as no
entry below the cursor is removed, the entries below it are those that were observed, each counted
once in the delegated total, and the phase ends when that is the whole list.
-/

namespace FusionCore
namespace StakeController

open Checked StakeMath

/-- The stake that reconcile recorded for a validator. -/
def delegatedOf (records : Table Pubkey ValidatorRecord) (vote : Pubkey) : ℕ :=
  match records.lookup vote with
  | some r => r.lastActiveLamports + r.lastTransientLamports
  | none => 0

/-- The validators are observed in the epoch, and their recorded stake makes up the total. -/
structure Covered (epoch total : ℕ) (records : Table Pubkey ValidatorRecord)
    (votes : List Pubkey) : Prop where
  observed : ∀ v ∈ votes, ObservedAt epoch records v
  sum : (votes.map (delegatedOf records)).sum = total

variable {sys : Sysvars} {list before after : ValidatorList} {quads : List Quad}
  {cursor epoch total : ℕ} {records : Table Pubkey ValidatorRecord} {votes : List Pubkey}
  {acc acc' : ReconcileAcc} {c c' : Controller} {e : CrankEvent} {w w' : CrankWorld}

theorem Covered.nil (epoch : ℕ) (records : Table Pubkey ValidatorRecord) :
    Covered epoch 0 records [] :=
  ⟨by simp, rfl⟩

theorem Covered.mono {records' : Table Pubkey ValidatorRecord}
    (h : Covered epoch total records votes)
    (hrecords : ∀ v r, records.lookup v = some r → records'.lookup v = some r) :
    Covered epoch total records' votes := by
  constructor
  · intro v hv
    obtain ⟨r, hr, hepoch⟩ := h.observed v hv
    exact ⟨r, hrecords v r hr, hepoch⟩
  · rw [← h.sum]
    congr 1
    apply List.map_congr_left
    intro v hv
    obtain ⟨r, hr, -⟩ := h.observed v hv
    simp only [delegatedOf, hr, hrecords v r hr]

theorem Covered.snoc {index : ℕ} {vote : Pubkey} {record : ValidatorRecord} {s : StakeInfo}
    {obs : VoteObservation} (h : Covered epoch total records votes) (hnew : vote ∉ votes) :
    Covered epoch (total + s.stakeLamports)
      (records.insert vote (record.observed epoch index s obs)) (votes ++ [vote]) := by
  constructor
  · intro v hv
    obtain hv | hv := List.mem_append.mp hv
    · exact Table.HoldsAt.insert (h.observed v hv) fun _ ↦ rfl
    · rw [List.mem_singleton.mp hv]
      exact Table.holdsAt_insert_self _ _ rfl
  · rw [List.map_append, List.sum_append, ← h.sum]
    congr 1
    · congr 1
      apply List.map_congr_left
      intro v hv
      have hne : v ≠ vote := fun heq ↦ hnew (heq ▸ hv)
      simp only [delegatedOf, AList.lookup_insert_ne hne]
    · simp [delegatedOf, AList.lookup_insert, ValidatorRecord.observed, StakeInfo.stakeLamports]

/-- The loop of one batch: every pass covers the entry it is bound to. -/
theorem Covered.batch
    (h : Covered acc.epochState.controllerEpoch acc.epochState.totalDelegatedLamports acc.records
      (after.votes.take cursor))
    (hbound : ∀ i q, quads[i]? = some q → after.votes[cursor + i]? = some q.vote)
    (hfold : (quads.zipIdx cursor).foldlM (reconcileOne sys before after) acc = .ok acc') :
    Covered acc.epochState.controllerEpoch acc'.epochState.totalDelegatedLamports acc'.records
      (after.votes.take (cursor + quads.length)) := by
  induction quads generalizing cursor acc with
  | nil =>
    obtain rfl := pure_eq_ok.mp hfold
    exact h
  | cons q quads ih =>
    rw [List.zipIdx_cons, List.foldlM_cons] at hfold
    obtain ⟨mid, hone, hrest⟩ := bind_eq_ok_iff.mp hfold
    obtain ⟨entry, record, obs, healthy, hentry, hrecord, hvote, hes, hrecords⟩ :=
      reconcileOne_spec hone
    dsimp only at hentry hrecord hvote hes hrecords
    have hhere : after.votes[cursor]? = some q.vote := hbound 0 q rfl
    have htake : after.votes.take (cursor + 1) = after.votes.take cursor ++ [q.vote] := by
      rw [List.take_add_one, hhere]
      rfl
    -- the votes of the list are distinct, so this one was not covered before
    have hnew : q.vote ∉ after.votes.take cursor := by
      have hnodup : (after.votes.take (cursor + 1)).Nodup :=
        after.distinct.sublist (List.take_sublist _ _)
      rw [htake, List.nodup_append] at hnodup
      intro hmem
      exact hnodup.2.2 _ hmem _ (List.mem_singleton_self _) rfl
    have hmid : Covered mid.epochState.controllerEpoch mid.epochState.totalDelegatedLamports
        mid.records (after.votes.take (cursor + 1)) := by
      rw [htake, hes, hrecords, hvote]
      exact h.snoc hnew
    have hepoch : mid.epochState.controllerEpoch = acc.epochState.controllerEpoch := by rw [hes]
    have hnext := ih hmid (fun i q' hq' ↦ by
      rw [Nat.add_assoc, Nat.add_comm 1]
      exact hbound (i + 1) q' hq') hrest
    rw [hepoch, Nat.add_assoc, Nat.add_comm 1] at hnext
    exact hnext

theorem bound_of_forM (h : (quads.zipIdx cursor).forM (bindQuad list) = .ok ()) :
    ∀ i q, quads[i]? = some q → list.votes[cursor + i]? = some q.vote := by
  induction quads generalizing cursor with
  | nil => simp
  | cons q quads ih =>
    rw [List.zipIdx_cons, List.forM_eq_forM, List.forM_cons] at h
    obtain ⟨_, hone, hrest⟩ := bind_eq_ok_iff.mp h
    intro i q' hq'
    cases i with
    | zero =>
      obtain rfl : q = q' := by simpa using hq'
      simp only [bindQuad, bind_eq_ok_iff, okOr_eq_ok, require_eq_ok] at hone
      obtain ⟨entry, hentry, hvote⟩ := hone
      rw [Nat.add_zero, ValidatorList.votes, List.getElem?_map, hentry, hvote]
      rfl
    | succ i =>
      have := ih hrest i q' (by simpa using hq')
      rwa [Nat.add_assoc, Nat.add_comm 1] at this

/-- What a batch records of an entry that it passes is the stake of the entry. -/
theorem delegatedOf_batch {i : ℕ} {entry : ValidatorEntry}
    (hbound : ∀ i q, quads[i]? = some q → after.votes[cursor + i]? = some q.vote)
    (hfold : (quads.zipIdx cursor).foldlM (reconcileOne sys before after) acc = .ok acc')
    (hle : cursor ≤ i) (hlt : i < cursor + quads.length) (hentry : after.entries[i]? = some entry) :
    delegatedOf acc'.records entry.voteAccountAddress = entry.stakeLamports := by
  have hvotes : after.votes[i]? = some entry.voteAccountAddress := by
    rw [ValidatorList.votes, List.getElem?_map, hentry]
    rfl
  -- the last quad of the batch passes the entry, or leaves its record alone
  induction quads using List.reverseRecOn generalizing acc' with
  | nil => exact absurd hlt (Nat.not_lt.mpr hle)
  | append_singleton quads q ih =>
    rw [List.zipIdx_append, List.foldlM_append] at hfold
    obtain ⟨mid, hmid, hlast⟩ := bind_eq_ok_iff.mp hfold
    simp only [List.zipIdx_singleton, List.foldlM_cons, List.foldlM_nil, bind_pure] at hlast
    obtain ⟨last, record, obs, healthy, hlast, -, hvote, -, hrecords⟩ := reconcileOne_spec hlast
    dsimp only at hlast hvote hrecords
    have hhere : after.votes[cursor + quads.length]? = some q.vote :=
      hbound quads.length q (by simp)
    rw [hrecords, hvote]
    by_cases hi : i = cursor + quads.length
    · subst hi
      obtain rfl := Option.some.inj (hentry.symm.trans hlast)
      rw [Option.some.inj (hvotes.symm.trans hhere), delegatedOf, AList.lookup_insert]
      rfl
    · have hne : entry.voteAccountAddress ≠ q.vote := by
        intro heq
        rw [heq, ← hhere] at hvotes
        have hlen : i < after.votes.length := by
          rw [ValidatorList.votes, List.length_map]
          exact (List.getElem?_eq_some_iff.mp hentry).1
        exact hi ((List.getElem?_inj hlen after.distinct).mp hvotes)
      simp only [delegatedOf, AList.lookup_insert_ne hne]
      refine ih (fun j q' hq' ↦ hbound j q' ?_) hmid ?_
      · rw [List.getElem?_append_left (List.getElem?_eq_some_iff.mp hq').1]
        exact hq'
      · rw [List.length_append, List.length_singleton] at hlt
        omega

/-! ## Runs -/

theorem RecordMove.delegated {v : Pubkey} {instr : CrankInstr} {r r' : ValidatorRecord}
    (h : RecordMove sys c v instr r r')
    (hinstr : ∀ quads payee, instr ≠ .reconcileBatch quads payee) :
    r'.lastActiveLamports + r'.lastTransientLamports =
      r.lastActiveLamports + r.lastTransientLamports := by
  cases h with
  | kept | directed => rfl
  | @observed quads payee => exact absurd rfl (hinstr quads payee)
  | planned _ _ _ hplan =>
    obtain ⟨-, p, es, s, -, hsight, rfl⟩ := hplan
    obtain ⟨entry, -, -, rfl⟩ | ⟨-, -, obs, rfl⟩ := sight_eq hsight
    · rfl
    · rfl
  | granted _ hgranted =>
    obtain ⟨_, _, _, _, _, -, rfl⟩ := hgranted
    rfl
  | acted _ hacted =>
    obtain ⟨_, _, _, _, rfl⟩ := hacted
    rfl

theorem delegatedOf_step (hs : crank.step e w w')
    (hinstr : ∀ quads payee, e.instr ≠ .reconcileBatch quads payee) (v : Pubkey) :
    delegatedOf w'.controller.records v = delegatedOf w.controller.records v := by
  have hstep := crank_record_step hs v
  generalize e.instr = instr at hstep hinstr
  unfold delegatedOf
  generalize w.controller.records.lookup v = before at hstep ⊢
  generalize w'.controller.records.lookup v = after at hstep ⊢
  cases hstep with
  | absent | registered => rfl
  | moved hmove => exact hmove.delegated hinstr

/-- A cleanup during the reconcile phase removes no entry below the cursor. -/
def CleanupAhead (e : CrankEvent) (w : CrankWorld) : Prop :=
  match e.instr with
  | .cleanupRemovedValidatorEntries => w.phase = .reconcile →
    ∀ entry ∈ w.controller.pool.validators.entries.take w.controller.epochState.reconcileCursor,
      entry.toStakeInfo.isRemoved = false
  | _ => True

instance (e : CrankEvent) (w : CrankWorld) : Decidable (CleanupAhead e w) := by
  unfold CleanupAhead
  split <;> infer_instance

/-- What is known of the records in the phases that observe the list or rely on it. -/
inductive CoverStage (c : Controller) : Prop where
  | reconciling (phase : c.epochState.phase = .reconcile)
      (fits : c.epochState.reconcileCursor ≤ c.pool.validators.votes.length)
      (covered : Covered c.epochState.controllerEpoch c.epochState.totalDelegatedLamports c.records
        (c.pool.validators.votes.take c.epochState.reconcileCursor))
  | observed (phase : c.epochState.phase = .finalize ∨ c.epochState.phase = .preferences ∨
        c.epochState.phase = .planDirected)
      (observed : ∀ v ∈ c.pool.validators.votes,
        ObservedAt c.epochState.controllerEpoch c.records v)
  | later (phase : c.epochState.phase = .planNeutral ∨ c.epochState.phase = .planFinalize ∨
        c.epochState.phase = .rebalance ∨ c.epochState.phase = .idle)

namespace CoverStage

variable {c c' : Controller}

theorem covered (h : CoverStage c) (hphase : c.epochState.phase = .reconcile) :
    Covered c.epochState.controllerEpoch c.epochState.totalDelegatedLamports c.records
      (c.pool.validators.votes.take c.epochState.reconcileCursor) := by
  cases h with
  | reconciling _ _ covered => exact covered
  | observed phase => simp [hphase] at phase
  | later phase => simp [hphase] at phase

theorem votes_observed (h : CoverStage c) (hphase : c.epochState.phase = .finalize ∨
      c.epochState.phase = .preferences ∨ c.epochState.phase = .planDirected) :
    ∀ v ∈ c.pool.validators.votes, ObservedAt c.epochState.controllerEpoch c.records v := by
  cases h with
  | reconciling phase => simp [phase] at hphase
  | observed _ observed => exact observed
  | later phase =>
    exfalso
    rcases hphase with hphase | hphase | hphase <;> simp [hphase] at phase

end CoverStage

theorem take_votes_retain {l : ValidatorList} {keep : ValidatorEntry → Bool} {n : ℕ}
    (hn : n ≤ l.votes.length) (h : ∀ entry ∈ l.entries.take n, keep entry = true) :
    (l.retain keep).votes.take n = l.votes.take n ∧ n ≤ (l.retain keep).votes.length := by
  have hlen : n ≤ l.entries.length := by simpa [ValidatorList.votes] using hn
  have hfilter : (l.entries.take n).filter keep = l.entries.take n := List.filter_eq_self.mpr h
  have hsplit : l.entries.filter keep = l.entries.take n ++ (l.entries.drop n).filter keep := by
    conv_lhs => rw [← List.take_append_drop n l.entries, List.filter_append, hfilter]
  change ((l.entries.filter keep).map _).take n = (l.entries.map _).take n ∧
    n ≤ ((l.entries.filter keep).map _).length
  rw [hsplit, List.map_append, ← List.map_take]
  constructor
  · exact List.take_left' (by simp [hlen])
  · simp [hlen]

theorem CoverStage.quiet (h : CoverStage w.controller) (hg : CleanupAhead e w)
    (hq : Quiet e.sys e.instr w.controller w'.controller) :
    CoverStage w'.controller := by
  have hes := hq.epochState
  cases h with
  | reconciling phase fits covered =>
    have hvotes : w'.controller.pool.validators.votes.take
          w.controller.epochState.reconcileCursor =
        w.controller.pool.validators.votes.take w.controller.epochState.reconcileCursor ∧
        w.controller.epochState.reconcileCursor ≤ w'.controller.pool.validators.votes.length := by
      obtain hsame | ⟨hinstr, hclean⟩ := hq.votes
      · rw [hsame]
        exact ⟨rfl, fits⟩
      · unfold CleanupAhead at hg
        rw [hinstr] at hg
        rw [hclean]
        refine take_votes_retain fits ?_
        intro entry hentry
        rw [hg phase entry hentry]
        rfl
    refine .reconciling (by rw [hes]; exact phase) (by rw [hes]; exact hvotes.2) ?_
    rw [hes, hvotes.1]
    exact covered.mono hq.records
  | observed phase observed =>
    refine .observed (by rw [hes]; exact phase) ?_
    intro v hv
    obtain ⟨r, hr, hepoch⟩ := observed v (hq.votes_sublist.subset hv)
    rw [hes]
    exact ⟨r, hq.records v r hr, hepoch⟩
  | later phase => exact .later (by rw [hes]; exact phase)

theorem CoverStage.reconcile {crank : Pubkey} (h : CoverStage c)
    (hrun : reconcileBatch sys quads crank c = .ok c') :
    c'.epochState.reconcileCursor ≤ c'.pool.validators.votes.length ∧
      Covered c'.epochState.controllerEpoch c'.epochState.totalDelegatedLamports c'.records
        (c'.pool.validators.votes.take c'.epochState.reconcileCursor) ∧
      (c'.epochState.phase = .finalize → c'.pool.validators.votes.take
        c'.epochState.reconcileCursor = c'.pool.validators.votes) ∧
      (c'.epochState.phase = .finalize ∨ c'.epochState.phase = .reconcile) ∧
      ∀ i entry, c.epochState.reconcileCursor ≤ i → i < c'.epochState.reconcileCursor →
        c'.pool.validators.entries[i]? = some entry →
        delegatedOf c'.records entry.voteAccountAddress = entry.stakeLamports := by
  obtain ⟨hphase, hfit, hbind, acc, hpool, hfold, hrecords, hepoch, -, htotal, hcursor, hphase'⟩ :=
    reconcileBatch_spec hrun
  simp only [StakePool.updateValidatorListBalance, bind_eq_ok_iff, require_eq_ok, pure_eq_ok,
    exists_const] at hpool
  have hvotes : c'.pool.validators.votes = c.pool.validators.votes := by
    rw [← hpool.2]
    exact ValidatorList.votes_refresh _ _
  have hlen : c'.pool.validators.votes.length = c.pool.validators.entries.length := by
    rw [hvotes, ValidatorList.votes, List.length_map]
  have hbound := bound_of_forM hbind
  rw [← hvotes] at hbound
  have hcovered := h.covered hphase
  rw [← hvotes] at hcovered
  refine ⟨?_, ?_, ?_, hphase'.imp_left And.left, ?_⟩
  · rw [hcursor, hlen]
    exact hfit
  · rw [hepoch, htotal, hrecords, hcursor]
    let acc₀ : ReconcileAcc := ⟨c.epochState, c.records, false⟩
    have hstart : Covered acc₀.epochState.controllerEpoch acc₀.epochState.totalDelegatedLamports
        acc₀.records (c'.pool.validators.votes.take c.epochState.reconcileCursor) := hcovered
    exact hstart.batch hbound hfold
  · intro hfin
    obtain ⟨-, hall⟩ | hstay := hphase'
    · rw [hall, ← hlen, List.take_length]
    · rw [hfin] at hstay
      cases hstay
  · intro i entry hle hlt hentry
    rw [hcursor] at hlt
    rw [hrecords]
    exact delegatedOf_batch hbound hfold hle hlt hentry

theorem CoverStage.step (h : CoverStage w.controller) (hg : CleanupAhead e w)
    (hs : crank.step e w w') : CoverStage w'.controller := by
  obtain ⟨-, -, note, hstep, -⟩ := crank_step_cases hs
  generalize hinstr : e.instr = instr at hstep
  cases hstep with
  | quiet hq => exact h.quiet hg (hinstr ▸ hq)
  | startEpoch hrun =>
    rw [(startEpoch_eq hrun).2]
    exact .reconciling rfl (Nat.zero_le _) (.nil _ _)
  | reconcileBatch hrun =>
    obtain ⟨hfits, hcovered, hall, hfin | hstay, -⟩ := h.reconcile hrun
    · refine .observed (.inl hfin) ?_
      rw [hall hfin] at hcovered
      exact hcovered.observed
    · exact .reconciling hstay hfits hcovered
  | finalizePool hrun =>
    obtain ⟨hphase, hphase', hrecords, hepoch, -, -, -, -, -, hsub⟩ := finalizePool_spec hrun
    refine .observed (.inr (.inl hphase')) ?_
    intro v hv
    rw [hrecords, hepoch]
    exact h.votes_observed (.inl hphase) v (hsub.subset hv)
  | snapshotPreference hrun =>
    obtain ⟨hphase, hes, hpool, vote, record, shares, hrecord, hrecords⟩ :=
      snapshotPreference_spec hrun
    refine .observed (.inr (.inl (by rw [hes]; exact hphase))) ?_
    intro v hv
    rw [hpool] at hv
    rw [hrecords, hes]
    exact Table.HoldsAt.replace (h.votes_observed (.inr (.inl hphase)) v hv) hrecord id
  | closePreferenceWindow hrun =>
    obtain ⟨hphase, hc⟩ := closePreferenceWindow_eq hrun
    rw [hc]
    exact .observed (.inr (.inr rfl)) (h.votes_observed (.inr (.inl hphase)))
  | planDirectedBatch hrun =>
    obtain ⟨hphase, hframe, hphase', hkeep⟩ := planDirectedBatch_spec hrun
    obtain hstay | ⟨hneutral, -⟩ := hphase'
    · refine .observed (.inr (.inr hstay)) ?_
      intro v hv
      rw [hframe.pool] at hv
      rw [hframe.epoch]
      exact hkeep v (h.votes_observed (.inr (.inr hphase)) v hv)
    · exact .later (.inl hneutral)
  | planNeutralBatch hrun =>
    obtain ⟨-, -, hneutral | hfin, -⟩ := planNeutralBatch_spec hrun
    · exact .later (.inl hneutral)
    · exact .later (.inr (.inl hfin))
  | finalizePlan hrun => exact .later (.inr (.inr (.inl (finalizePlan_spec hrun).2.1)))
  | executeNextAction hrun =>
    obtain ⟨hphase, hframe, -⟩ := executeNextAction_spec hrun
    exact .later (.inr (.inr (.inl (hframe.phase.trans hphase))))
  | finishEpoch hrun =>
    obtain ⟨-, vault, used, hc⟩ := finishEpoch_spec hrun
    exact .later (.inr (.inr (.inr (by rw [hc]))))

theorem CoverStage.of_reachable (h : crank.Reachable CleanupAhead w) :
    CoverStage w.controller := by
  refine h.invariant (P := fun w ↦ CoverStage w.controller) ?_ fun e w w' hi hg hs ↦ hi.step hg hs
  intro w hinit
  refine .later (.inr (.inr (.inr ?_)))
  rw [hinit.epochState]
  rfl

/-! ## Planning finds every entry observed -/

theorem planDirectedOne_ne_stale {threshold : ℕ} {acc : PlanAcc} {p : Pair}
    (h : ∀ v ∈ list.votes, ObservedAt acc.epochState.controllerEpoch acc.records v) :
    planDirectedOne sys list threshold acc p ≠ .error .staleValidatorRecord := by
  intro herr
  simp only [planDirectedOne, bind_eq_error_iff, okOr_eq_error, require_eq_error, reduceCtorEq,
    and_false, false_or, okOr_eq_ok, require_eq_ok, exists_const, pure_ne_error, exists_false,
    or_false] at herr
  obtain ⟨record, hrecord, hvote, -, herr⟩ := herr
  unfold sight at herr
  split at herr
  next entry hentry =>
    simp only [sightListed, bind_eq_error_iff, require_eq_error, reduceCtorEq, and_false, false_or,
      require_eq_ok, exists_const, pure_ne_error, or_false, and_true] at herr
    obtain ⟨hbound, hstale⟩ := herr
    have hmem : p.record ∈ list.votes := by
      rw [hvote, ← hbound]
      exact List.mem_map_of_mem (List.mem_of_getElem? hentry)
    obtain ⟨r, hr, hepoch⟩ := h p.record hmem
    obtain rfl : record = r := Option.some.inj (hrecord.symm.trans hr)
    exact hstale hepoch
  next =>
    simp only [sightExtra, bind_eq_error_iff, require_eq_error, reduceCtorEq, and_false,
      pure_ne_error, exists_false, or_self] at herr

theorem planDirectedBatch_ne_stale {pairs : List Pair} {crank : Pubkey}
    (h : ∀ v ∈ c.pool.validators.votes, ObservedAt c.epochState.controllerEpoch c.records v) :
    planDirectedBatch sys pairs crank c ≠ .error .staleValidatorRecord := by
  intro herr
  simp only [planDirectedBatch, bind_eq_error_iff, okOr_eq_error, require_eq_error, reduceCtorEq,
    and_false, false_or, okOr_eq_ok, require_eq_ok, exists_const] at herr
  obtain ⟨threshold, -, -, -, herr | ⟨acc, -, herr | ⟨es, -, herr⟩⟩⟩ := herr
  · -- what was observed stays observed while the batch runs
    refine foldlM_ne_error (P := fun acc ↦
      acc.epochState.controllerEpoch = c.epochState.controllerEpoch ∧
        ∀ v ∈ c.pool.validators.votes, ObservedAt c.epochState.controllerEpoch acc.records v)
      ?_ ?_ ⟨rfl, h⟩ herr
    · rintro p - a a' ⟨hepoch, hobs⟩ hstep
      obtain ⟨hsame, hkeep⟩ := samePass_planDirectedOne hstep
      rw [hepoch] at hkeep
      exact ⟨hsame.epoch.trans hepoch, fun v hv ↦ hkeep v (hobs v hv)⟩
    · rintro p - a ⟨hepoch, hobs⟩
      rw [← hepoch] at hobs
      exact planDirectedOne_ne_stale hobs
  · unfold closeDirected at herr
    split at herr
    · simp only [bind_eq_error_iff, okOr_eq_error, require_eq_error, reduceCtorEq, and_false,
        pure_ne_error, exists_false, or_self] at herr
    · exact pure_ne_error herr
  · split at herr
    · cases (payCrankReward_error herr).2
    · exact pure_ne_error herr

/-- In every run in which cleanups of the reconcile phase stay above the cursor, a batch records the
active and transient stake of each entry it passes, no other instruction touches what is recorded,
the batch that ends the phase leaves every entry of the list observed with the recorded stakes
counted once, and planning never meets a stale record. -/
theorem reconcile_covers {w : CrankWorld} (h : crank.Reachable CleanupAhead w) :
    (∀ sys quads payee w', crank.step ⟨sys, .reconcileBatch quads payee⟩ w w' →
      (∀ i entry, w.controller.epochState.reconcileCursor ≤ i →
        i < w'.controller.epochState.reconcileCursor →
        w'.controller.pool.validators.entries[i]? = some entry →
        delegatedOf w'.controller.records entry.voteAccountAddress =
          entry.activeStakeLamports + entry.transientStakeLamports) ∧
      (w'.phase = .finalize →
        (∀ entry ∈ w'.controller.pool.validators.entries,
          ObservedAt w'.epoch w'.controller.records entry.voteAccountAddress) ∧
        (w'.controller.pool.validators.entries.map fun entry ↦
            delegatedOf w'.controller.records entry.voteAccountAddress).sum =
          w'.controller.epochState.totalDelegatedLamports)) ∧
    (∀ e w', crank.step e w w' → (∀ quads payee, e.instr ≠ .reconcileBatch quads payee) →
      ∀ v, delegatedOf w'.controller.records v = delegatedOf w.controller.records v) ∧
    (w.phase = .planDirected → ∀ sys pairs payee,
      planDirectedBatch sys pairs payee w.controller ≠ .error .staleValidatorRecord) := by
  have hstage := CoverStage.of_reachable h
  refine ⟨?_, fun e w' hs hinstr ↦ delegatedOf_step hs hinstr, ?_⟩
  · intro sys quads payee w' hs
    obtain ⟨-, -, note, hrun, -⟩ := crank_step_run hs
    obtain ⟨-, hcovered, hall, -, hrecorded⟩ := hstage.reconcile (quietly_eq_ok.mp hrun).1
    refine ⟨hrecorded, fun hfin ↦ ?_⟩
    rw [hall hfin] at hcovered
    refine ⟨?_, ?_⟩
    · exact fun entry hentry ↦ hcovered.observed _ (List.mem_map_of_mem hentry)
    · rw [← hcovered.sum, ValidatorList.votes, List.map_map]
      rfl
  · intro hphase sys pairs payee
    exact planDirectedBatch_ne_stale (hstage.votes_observed (.inr (.inr hphase)))

namespace CrankSample

/-- The first validator raises its commission in epoch 3, is removable in epoch 5, and is then
removed from the pool. -/
def removed : List CrankEvent :=
  admitted ++
    observe 3 [{ quad 11 3 with sample := some ⟨50, true, 1296010⟩ }, quad 12 3] ++
    (plan 3 [⟨11, 11, none⟩, ⟨12, 12, none⟩] []).take 2 ++
    observe 5 [quad 11 5, quad 12 5] ++
    plan 5 [⟨11, 11, none⟩, ⟨12, 12, none⟩] [11, 12] ++ rebalance 5 20040 [12, 11]

/-- In epoch 6 the first batch finds its stake gone; a cleanup then moves the second validator
below the cursor, and the next batch ends the phase. -/
def skipped : List CrankEvent :=
  removed ++
    [⟨at_ 6 10, .startEpoch⟩,
      ⟨at_ 6 20, .reconcileBatch
        [{ quad 11 6 with observation := ⟨0, 0, minimum, false, true, false⟩ }] 100⟩,
      ⟨at_ 6 25, .cleanupRemovedValidatorEntries⟩,
      ⟨at_ 6 30, .reconcileBatch [] 100⟩]

def stalled : List CrankEvent :=
  skipped ++
    [⟨at_ 6 35, .updateValidatorListBalance 0 [steady minimum 0]⟩,
      ⟨at_ 6 40, .finalizePool (100000 * LAMPORTS_PER_SOL) 0 100⟩,
      ⟨at_ 6 20000, .closePreferenceWindow⟩]

end CrankSample

/-- Two batches cover a list of two. -/
theorem reconcile_covers_sample : ∃ w w' entry,
    CrankSample.run CleanupAhead (CrankSample.admitted ++
      [⟨CrankSample.at_ 3 10, .startEpoch⟩,
        ⟨CrankSample.at_ 3 20, .reconcileBatch [CrankSample.quad 11 3] 100⟩]) = some w ∧
    w.next ⟨CrankSample.at_ 3 30, .reconcileBatch [CrankSample.quad 12 3] 100⟩ = some w' ∧
    w'.phase = .finalize ∧ w'.controller.pool.validators.entries[1]? = some entry ∧
    0 < entry.activeStakeLamports ∧
    delegatedOf w'.controller.records entry.voteAccountAddress =
      entry.activeStakeLamports + entry.transientStakeLamports ∧
    (w'.controller.pool.validators.entries.map fun entry ↦
        delegatedOf w'.controller.records entry.voteAccountAddress).sum =
      w'.controller.epochState.totalDelegatedLamports := by
  have hrun : (CrankSample.run CleanupAhead (CrankSample.admitted ++
      [⟨CrankSample.at_ 3 10, .startEpoch⟩,
        ⟨CrankSample.at_ 3 20, .reconcileBatch [CrankSample.quad 11 3] 100⟩])).any (fun w ↦
      (w.next ⟨CrankSample.at_ 3 30, .reconcileBatch [CrankSample.quad 12 3] 100⟩).any fun w' ↦
        decide (w.controller.epochState.reconcileCursor = 1 ∧
          w'.controller.epochState.reconcileCursor = 2 ∧ w'.phase = .finalize ∧
          ∃ entry ∈ w'.controller.pool.validators.entries[1]?,
            0 < entry.activeStakeLamports)) = true := by decide +kernel
  simp only [Option.any_eq_true, decide_eq_true_eq] at hrun
  obtain ⟨w, hw, w', hw', hcursor, hcursor', hphase, entry, hentry, hactive⟩ := hrun
  obtain ⟨hrecorded, hcovers⟩ :=
    (reconcile_covers (CrankSample.reachable_run hw)).1 _ _ _ w' hw'
  exact ⟨w, w', entry, hw, hw', hphase, hentry, hactive,
    hrecorded 1 entry hcursor.le (hcursor' ▸ Nat.one_lt_two) hentry, (hcovers hphase).2⟩

/-- A cleanup below the cursor lets the phase end with an entry that was never observed, and the
plan of the epoch fails on it. -/
theorem reconcile_skips :
    (∃ w, crank.Reach w ∧ w.phase = .finalize ∧
      ∃ entry ∈ w.controller.pool.validators.entries,
        ¬ObservedAt w.epoch w.controller.records entry.voteAccountAddress) ∧
    ∃ w, crank.Reach w ∧ w.phase = .planDirected ∧
      planDirectedBatch (CrankSample.at_ 6 20010) [⟨12, 12, none⟩] 100 w.controller =
        .error .staleValidatorRecord := by
  have hskipped : (CrankSample.run (fun _ _ ↦ True) CrankSample.skipped).map (fun w ↦ decide (
      w.phase = .finalize ∧ ∃ entry ∈ w.controller.pool.validators.entries,
        ¬ObservedAt w.epoch w.controller.records entry.voteAccountAddress)) = some true := by
    decide +kernel
  have hplanned : (CrankSample.run (fun _ _ ↦ True) CrankSample.stalled).map (fun w ↦ decide (
      w.phase = .planDirected ∧
      planDirectedBatch (CrankSample.at_ 6 20010) [⟨12, 12, none⟩] 100 w.controller =
        .error .staleValidatorRecord)) = some true := by
    decide +kernel
  obtain ⟨w, hw, hfacts⟩ := Option.map_eq_some_iff.mp hskipped
  obtain ⟨w', hw', hfacts'⟩ := Option.map_eq_some_iff.mp hplanned
  exact ⟨⟨w, CrankSample.reachable_run hw, of_decide_eq_true hfacts⟩,
    w', CrankSample.reachable_run hw', of_decide_eq_true hfacts'⟩

end StakeController
end FusionCore
