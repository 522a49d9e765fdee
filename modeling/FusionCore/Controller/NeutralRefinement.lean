import FusionCore.Controller.PlanRuns
import FusionCore.Math.NeutralDistribution

/-!
# The neutral pass refines the reference distribution

A batch deals to the next records of the planned list, from the round that the crank state
persists; the reference deals to all slots of a list in one call.  The relation between the two
says where in the loop of the reference the crank stands: the slots before the cursor have been
dealt to in this round, the others are as the round found them.
-/

namespace FusionCore
namespace StakeController

open Checked StakeMath

/-! ## The planned list -/

/-- The record planned at ordinal `i` of the list. -/
def ListedAt (es : EpochState) (records : Table Pubkey ValidatorRecord) (i : ℕ) (v : Pubkey)
    (r : ValidatorRecord) : Prop :=
  records.lookup v = some r ∧ r.planEpoch = es.controllerEpoch ∧ r.validatorListIndex = some i

variable {es : EpochState} {records : Table Pubkey ValidatorRecord} {batch : List Pubkey}
  {crank vote : Pubkey} {c c' : Controller} {acc acc' : PlanAcc} {slots₀ : List Slot}
  {fin : Bool} {call : PlanCall}

theorem listedAt_register {v : Pubkey} {i : ℕ} {r : ValidatorRecord}
    (hvote : records.lookup vote = none) :
    ListedAt es (records.insert vote .registered) i v r ↔ ListedAt es records i v r := by
  by_cases hv : v = vote
  · subst hv
    constructor
    · rintro ⟨hl, -, hi⟩
      obtain rfl : ValidatorRecord.registered = r := by simpa using hl
      cases hi
    · rintro ⟨hl, -⟩
      rw [hvote] at hl
      cases hl
  · rw [ListedAt, ListedAt, AList.lookup_insert_ne hv]

def ValidatorRecord.slot (r : ValidatorRecord) : Slot := ⟨r.remainingCapacity, r.finalTarget⟩

def slotAt (records : Table Pubkey ValidatorRecord) (v : Pubkey) : Slot :=
  ((records.lookup v).map ValidatorRecord.slot).getD ⟨0, 0⟩

/-- Capacities and targets in list order. -/
def slotsOf (records : Table Pubkey ValidatorRecord) (votes : List Pubkey) : List Slot :=
  votes.map (slotAt records)

/-- `votes` names the planned records in list order; only active ones have capacity. -/
structure PlannedList (es : EpochState) (records : Table Pubkey ValidatorRecord)
    (votes : List Pubkey) : Prop where
  length : votes.length = es.planDirectedCursor
  listed : ∀ i v, votes[i]? = some v ↔ ∃ r, ListedAt es records i v r
  active : ∀ i v r, ListedAt es records i v r → 0 < r.remainingCapacity → r.status = .active

/-- The state in which the neutral pass is entered: the records are planned, no round was opened,
and the open records are counted. -/
structure NeutralStart (c : Controller) (votes : List Pubkey) : Prop where
  phase : c.epochState.phase = .planNeutral
  round : c.epochState.neutralRoundNumber = 0
  list : PlannedList c.epochState c.records votes
  count : c.epochState.unsaturatedActiveCount = unsaturated (slotsOf c.records votes)
  funds : c.epochState.neutralTotal < 2 ^ 64
  length_lt : votes.length < 2 ^ 64
  fits : ∀ s ∈ slotsOf c.records votes, s.target < 2 ^ 64

theorem slotAt_of_lookup {v : Pubkey} {r : ValidatorRecord} (h : records.lookup v = some r) :
    slotAt records v = r.slot := by
  simp [slotAt, h]

namespace PlannedList

variable {es es' : EpochState} {records : Table Pubkey ValidatorRecord} {votes : List Pubkey}
  {vote : Pubkey} {record grantee : ValidatorRecord}

/-- The list depends on the length of the plan and on the epoch only. -/
theorem congr (h : PlannedList es records votes)
    (hlen : es'.planDirectedCursor = es.planDirectedCursor)
    (hepoch : es'.controllerEpoch = es.controllerEpoch) : PlannedList es' records votes := by
  have hlisted : ∀ i v r, ListedAt es' records i v r ↔ ListedAt es records i v r := by
    intro i v r
    rw [ListedAt, ListedAt, hepoch]
  refine ⟨h.length.trans hlen.symm, ?_, ?_⟩
  · intro i v
    simp only [hlisted]
    exact h.listed i v
  · intro i v r hl
    exact h.active i v r ((hlisted i v r).mp hl)

theorem insert (h : PlannedList es records votes) (hl : records.lookup vote = some record)
    (hstamp : grantee.planEpoch = record.planEpoch)
    (hindex : grantee.validatorListIndex = record.validatorListIndex)
    (hstatus : grantee.status = record.status)
    (hcap : grantee.remainingCapacity ≤ record.remainingCapacity) :
    PlannedList es (records.insert vote grantee) votes := by
  refine ⟨h.length, ?_, ?_⟩
  · intro i v
    rw [h.listed]
    by_cases hv : v = vote
    · subst hv
      simp [ListedAt, hl, hstamp, hindex]
    · simp [ListedAt, AList.lookup_insert_ne hv]
  · rintro i v r ⟨hlookup, hr, hi⟩ hpos
    by_cases hv : v = vote
    · subst hv
      obtain rfl : grantee = r := by simpa using hlookup
      rw [hstatus]
      rw [hstamp] at hr
      rw [hindex] at hi
      exact h.active i v record ⟨hl, hr, hi⟩ (hpos.trans_le hcap)
    · rw [AList.lookup_insert_ne hv] at hlookup
      exact h.active i v r ⟨hlookup, hr, hi⟩ hpos

theorem register (h : PlannedList es records votes) (hvote : records.lookup vote = none) :
    PlannedList es (records.insert vote .registered) votes ∧
      slotsOf (records.insert vote .registered) votes = slotsOf records votes := by
  refine ⟨⟨h.length, ?_, ?_⟩, ?_⟩
  · intro i v
    simp only [listedAt_register hvote]
    exact h.listed i v
  · intro i v r hl
    exact h.active i v r ((listedAt_register hvote).mp hl)
  · apply List.map_congr_left
    intro v hv
    obtain ⟨i, hi⟩ := List.mem_iff_getElem?.mp hv
    obtain ⟨r, hl, -⟩ := (h.listed i v).mp hi
    have hne : v ≠ vote := by
      rintro rfl
      rw [hvote] at hl
      cases hl
    rw [slotAt, AList.lookup_insert_ne hne, slotAt]

theorem slotsOf_insert (h : PlannedList es records votes) {i : ℕ}
    (hl : ListedAt es records i vote record) (grantee : ValidatorRecord) :
    slotsOf (records.insert vote grantee) votes = (slotsOf records votes).set i grantee.slot := by
  apply List.ext_getElem?
  intro j
  rw [slotsOf, slotsOf, List.getElem?_map, List.getElem?_set, List.getElem?_map]
  have hvote : votes[i]? = some vote := (h.listed i vote).mpr ⟨record, hl⟩
  have hlt : i < votes.length := (List.getElem?_eq_some_iff.mp hvote).1
  by_cases hij : i = j
  · subst hij
    rw [if_pos rfl, hvote, List.length_map, if_pos hlt, Option.map_some,
      slotAt_of_lookup (AList.lookup_insert records)]
  · rw [if_neg hij]
    cases hv : votes[j]? with
    | none => rfl
    | some v =>
      have hne : v ≠ vote := by
        rintro rfl
        obtain ⟨r, hr, -, hindex⟩ := (h.listed j v).mp hv
        obtain rfl := Option.some.inj (hr.symm.trans hl.1)
        exact hij (Option.some.inj (hl.2.2.symm.trans hindex))
      simp [slotAt, AList.lookup_insert_ne hne]

end PlannedList

/-! ## The relation -/

/-- The crank stands in a round of the reference loop that has dealt to `start` and not yet to
`rest`. -/
structure Dealing (neutral : ℕ) (slots₀ : List Slot) (es : EpochState) (slots : List Slot)
    (remaining : ℕ) (opening : NeutralRound) (start rest : List Slot) : Prop where
  loop : LoopAt es.controllerEpoch neutral slots₀ remaining (es.neutralRoundNumber - 1)
    (start ++ rest)
  opened : 0 < es.neutralRoundNumber
  begun : beginRound remaining (unsaturated (start ++ rest)) es.controllerEpoch = some opening
  round : (pass opening start).1 = es.neutralRound
  slots : slots = (pass opening start).2 ++ rest
  cursor : start.length = es.neutralCursor

/-- Some round of the reference loop is under way. -/
def UnderWay (neutral : ℕ) (slots₀ : List Slot) (es : EpochState) (slots : List Slot) : Prop :=
  ∃ remaining opening start rest, Dealing neutral slots₀ es slots remaining opening start rest

/-- The reference returns what the crank state and the slots say. -/
def Returned (neutral : ℕ) (slots₀ : List Slot) (es : EpochState) (slots : List Slot) : Prop :=
  distributeNeutral neutral es.controllerEpoch slots₀ =
    some (⟨es.neutralRoundNumber, es.capacityShortfall⟩, slots)

/-- A round that is opened from a state of the loop. -/
theorem UnderWay.enter {neutral remaining number : ℕ} {slots : List Slot} {round : NeutralRound}
    (hloop : LoopAt es.controllerEpoch neutral slots₀ remaining number slots)
    (hbegin : beginRound remaining (unsaturated slots) es.controllerEpoch = some round) :
    UnderWay neutral slots₀ (es.enterRound round (number + 1)) slots :=
  ⟨remaining, round, [], slots, hloop, Nat.succ_pos _, hbegin, rfl, rfl, rfl⟩

theorem deal_slot (round : NeutralRound) {record : ValidatorRecord}
    (hactive : 0 < record.remainingCapacity → record.status = .active) :
    let dealt := if record.status = .active ∧ 0 < record.remainingCapacity then
      StakeMath.step round record.remainingCapacity else (round, 0)
    record.finalTarget + dealt.2 < 2 ^ 64 →
    deal round record.slot =
      (dealt.1, ⟨record.remainingCapacity - dealt.2, record.finalTarget + dealt.2⟩) := by
  intro dealt hfits
  by_cases hpos : 0 < record.remainingCapacity
  · have hdealt : dealt = StakeMath.step round record.remainingCapacity :=
      if_pos ⟨hactive hpos, hpos⟩
    rw [hdealt] at hfits ⊢
    have hopen : ¬record.slot.capacity = 0 := hpos.ne'
    rw [deal, if_neg hopen, ← saturatingAdd_of_lt hfits]
    rfl
  · have hdealt : dealt = (round, 0) := if_neg fun h ↦ hpos h.2
    have hzero : record.slot.capacity = 0 := Nat.eq_zero_of_not_pos hpos
    rw [hdealt, deal, if_pos hzero]
    rfl

section Visits

variable {neutral : ℕ} {slots₀ : List Slot} {votes : List Pubkey}

/-- The state of the pass while a round is open. -/
structure InRound (neutral : ℕ) (slots₀ : List Slot) (votes : List Pubkey) (acc : PlanAcc) :
    Prop where
  list : PlannedList acc.epochState acc.records votes
  underWay : UnderWay neutral slots₀ acc.epochState (slotsOf acc.records votes)

theorem InRound.step (hi : InRound neutral slots₀ votes acc)
    (h : planNeutralOne acc vote = .ok acc') : InRound neutral slots₀ votes acc' := by
  obtain ⟨es, records⟩ := acc
  obtain ⟨hlist, remaining, opening, start, rest, hdealing⟩ := hi
  simp only [planNeutralOne, bind_eq_ok_iff, okOr_eq_ok, require_eq_ok, pure_eq_ok, exists_const,
    checkedAdd_eq_some, checkedSub_eq_some] at h
  obtain ⟨record, hl, ⟨hstamp, hindex⟩, _, ⟨-, rfl⟩, _, ⟨hfits, rfl⟩, _, ⟨hle, rfl⟩, _, ⟨-, rfl⟩,
    rfl⟩ := h
  have hlisted : ListedAt es records es.neutralCursor vote record := ⟨hl, hstamp, hindex⟩
  have hdeal := deal_slot es.neutralRound (hlist.active _ _ _ hlisted) hfits
  set dealt := if record.status = .active ∧ 0 < record.remainingCapacity then
    StakeMath.step es.neutralRound record.remainingCapacity else (es.neutralRound, 0)
  set grantee := record.grantedBy es.neutralRoundNumber dealt.2
    (record.neutralGranted + dealt.2) (record.finalTarget + dealt.2)
    (record.remainingCapacity - dealt.2) with hgrantee
  obtain ⟨surplus, v, hnote⟩ := (es.bookGrant dealt.1
    (es.neutralGrantedTotal + dealt.2)).noteWithdraw_eq vote grantee
  rw [hnote]
  have hlist' : PlannedList es (records.insert vote grantee) votes :=
    hlist.insert hl rfl rfl rfl (Nat.sub_le _ _)
  refine ⟨hlist'.congr rfl rfl, ?_⟩
  -- the slot at the cursor is the first of the rest
  have hlength : (pass opening start).2.length = es.neutralCursor :=
    (length_pass opening start).trans hdealing.cursor
  have hvote : votes[es.neutralCursor]? = some vote := (hlist.listed _ vote).mpr ⟨record, hlisted⟩
  have hslot : (slotsOf records votes)[es.neutralCursor]? = some record.slot := by
    rw [slotsOf, List.getElem?_map, hvote, Option.map_some, slotAt_of_lookup hl]
  have hslots := hdealing.slots
  dsimp only at hslots
  rw [hslots, ← hlength, List.getElem?_append_right le_rfl, Nat.sub_self] at hslot
  cases rest with
  | nil => cases hslot
  | cons s rest =>
    obtain rfl : s = record.slot := by simpa using hslot
    have happend : start ++ record.slot :: rest = start ++ [record.slot] ++ rest := by simp
    refine ⟨remaining, opening, start ++ [record.slot], rest, ?_⟩
    exact
      { loop := happend ▸ hdealing.loop
        opened := hdealing.opened
        begun := happend ▸ hdealing.begun
        round := by
          rw [pass_concat, hdealing.round, hdeal]
          rfl
        slots := by
          dsimp only
          rw [hlist.slotsOf_insert hlisted, hslots, pass_concat, hdealing.round, hdeal, ← hlength]
          simp [hgrantee, ValidatorRecord.slot, ValidatorRecord.grantedBy]
        cursor := by
          rw [List.length_append, hdealing.cursor]
          rfl }

end Visits

/-! ## Rounds and calls -/

/-- How the pass may go on: it is finished with the result of the reference, or in a round. -/
structure GoesOn (neutral : ℕ) (slots₀ : List Slot) (votes : List Pubkey) (acc : PlanAcc)
    (fin : Bool) : Prop where
  list : PlannedList acc.epochState acc.records votes
  state : (fin = true ∧ Returned neutral slots₀ acc.epochState (slotsOf acc.records votes)) ∨
    (fin = false ∧ UnderWay neutral slots₀ acc.epochState (slotsOf acc.records votes))

section Calls

variable {neutral : ℕ} {slots₀ : List Slot} {votes : List Pubkey}
  (hneutral : neutral < 2 ^ 64) (hlen : votes.length < 2 ^ 64)
  (hsize : slots₀.length = votes.length) (hfits : ∀ s ∈ slots₀, s.target < 2 ^ 64)

include hneutral hlen hsize hfits

/-- What the books of a completed round say of the reference: where its loop stands, and how many
slots are open there. -/
theorem InRound.complete (hi : InRound neutral slots₀ votes ⟨es, records⟩)
    (hcursor : es.neutralCursor = es.planDirectedCursor) :
    LoopAt es.controllerEpoch neutral slots₀ es.neutralRound.remainingAfter es.neutralRoundNumber
        (slotsOf records votes) ∧
      es.neutralRound.isComplete ∧
      checkedSub es.neutralRound.nUnsaturated es.neutralRound.saturated =
        some (unsaturated (slotsOf records votes)) := by
  obtain ⟨hlist, remaining, opening, start, rest, hdealing⟩ := hi
  have hslots := hdealing.slots
  have hnumber := hdealing.opened
  have hround := hdealing.round
  dsimp only at hslots hnumber hround
  obtain rfl : rest = [] := by
    have hlength := congrArg List.length hslots
    have hplanned := hlist.length
    have hdealt := hdealing.cursor
    rw [slotsOf, List.length_map, List.length_append, length_pass] at hlength
    dsimp only at hplanned hdealt
    exact List.eq_nil_of_length_eq_zero (by omega)
  have hloop := hdealing.loop
  have hbegun := hdealing.begun
  rw [List.append_nil] at hloop hbegun hslots
  have hbounds := hloop.bounds hneutral (hsize ▸ hlen) hfits
  have hcount : unsaturated slots₀ ≤ slots₀.length := List.countP_le_length
  have hopen := hbounds.count
  obtain ⟨-, hspec⟩ := round_spec hbounds.funds (by omega) hbounds.fits hbegun
  have hnext := hloop.round hbegun
  have hcomplete := hspec.complete
  have hmembers := hspec.spec.nUnsaturated
  have hsaturated := hspec.spec.saturated
  rw [← hslots, hround, Nat.sub_add_cancel hnumber] at hnext
  rw [hround] at hcomplete hmembers
  rw [hround, ← hslots] at hsaturated
  refine ⟨hnext, hcomplete, ?_⟩
  have hzero := hspec.saturated
  have hopened := hspec.opened
  rw [checkedSub_eq_some]
  omega

theorem InRound.close (hi : InRound neutral slots₀ votes ⟨es, records⟩)
    (hcursor : es.neutralCursor = es.planDirectedCursor) :
    (votes.length ≤ MAX_NEUTRAL_ROUNDS →
        StakeController.closeRound es ≠ .error .neutralRoundInconsistent) ∧
      ∀ closed, StakeController.closeRound es = .ok closed →
        GoesOn neutral slots₀ votes ⟨closed.1, records⟩ closed.2 := by
  obtain ⟨hloop, hcomplete, hsub⟩ := hi.complete hneutral hlen hsize hfits hcursor
  have hlist := hi.list
  simp only [StakeController.closeRound, require_of hcomplete, hsub, okOr_some, ok_bind]
  split
  next hlast =>
    refine ⟨fun _ ↦ pure_ne_error, ?_⟩
    intro closed h
    obtain rfl := pure_eq_ok.mp h
    refine ⟨hlist.congr rfl rfl, .inl ⟨rfl, ?_⟩⟩
    exact hloop.returns hneutral (hsize ▸ hlen) hfits hlast
  next hmore =>
    constructor
    · intro hmax h
      have hbounds := hloop.bounds hneutral (hsize ▸ hlen) hfits
      have hneeded := hbounds.needed
      have hmost := roundsNeeded_le neutral slots₀
      have hcount : unsaturated slots₀ ≤ slots₀.length := List.countP_le_length
      push Not at hmore
      rw [roundsNeeded, if_neg hmore.1] at hneeded
      have hnumber : es.neutralRoundNumber < MAX_NEUTRAL_ROUNDS := by omega
      have hsome : beginRound es.neutralRound.remainingAfter (unsaturated (slotsOf records votes))
          es.controllerEpoch ≠ none := by
        rw [ne_eq, beginRound_eq_none_iff]
        push Not
        exact hmore
      obtain ⟨round, hround⟩ := Option.ne_none_iff_exists'.mp hsome
      rw [require_of hnumber, ok_bind, hround, okOr_some, ok_bind] at h
      exact pure_ne_error h
    · intro closed h
      simp only [bind_eq_ok_iff, okOr_eq_ok, require_eq_ok, pure_eq_ok, exists_const] at h
      obtain ⟨-, round, hround, rfl⟩ := h
      exact ⟨hlist.congr rfl rfl, .inr ⟨rfl, .enter hloop hround⟩⟩

theorem passRule_inRound :
    PassRule (InRound neutral slots₀ votes) (GoesOn neutral slots₀ votes) where
  visit _ _ _ hi h := hi.step h
  stay _ hi := ⟨hi.list, .inr ⟨rfl, hi.underWay⟩⟩
  close _ closed hi hcursor h := (hi.close hneutral hlen hsize hfits hcursor).2 closed h

end Calls

/-- Where the pass stands, from its entry to its end. -/
inductive Refines (neutral : ℕ) (slots₀ : List Slot) (es : EpochState) (slots : List Slot) :
    Prop where
  | ready (phase : es.phase = .planNeutral) (round : es.neutralRoundNumber = 0)
      (funds : es.neutralTotal = neutral) (count : es.unsaturatedActiveCount = unsaturated slots₀)
      (slots_eq : slots = slots₀)
  | dealing (phase : es.phase = .planNeutral) (underWay : UnderWay neutral slots₀ es slots)
  | finished (phase : es.phase = .planFinalize) (returned : Returned neutral slots₀ es slots)

section Runs

variable {c₀ c c' : Controller} {votes : List Pubkey}

/-- What a run from `c₀` keeps. -/
structure RefinesFrom (c₀ : Controller) (votes : List Pubkey) (c : Controller) : Prop where
  epoch : c.epochState.controllerEpoch = c₀.epochState.controllerEpoch
  list : PlannedList c.epochState c.records votes
  stage : Refines c₀.epochState.neutralTotal (slotsOf c₀.records votes) c.epochState
    (slotsOf c.records votes)

/-- The opening of the pass finds nothing to deal out, as the reference does, or opens its first
round; a later call leaves the round as it is. -/
theorem Refines.open {neutral : ℕ} (hneutral : neutral < 2 ^ 64)
    (hlen : slots₀.length < 2 ^ 64) (hfits : ∀ s ∈ slots₀, s.target < 2 ^ 64)
    (hlist : PlannedList es records votes)
    (h : Refines neutral slots₀ es (slotsOf records votes)) (hphase : es.phase = .planNeutral) :
    GoesOn neutral slots₀ votes ⟨(openNeutral es).1, records⟩ (openNeutral es).2 := by
  obtain ⟨hsame, hcursor⟩ := samePass_openNeutral es
  refine ⟨hlist.congr hcursor hsame.epoch, ?_⟩
  cases h with
  | ready _ round funds count slots_eq =>
    rw [openNeutral, if_pos round, funds, count, slots_eq]
    split
    next hnone =>
      refine .inl ⟨rfl, ?_⟩
      have hstart : LoopAt es.controllerEpoch neutral slots₀ neutral 0 slots₀ := .start
      rw [Returned, hstart.returns hneutral hlen hfits (beginRound_eq_none_iff.mp hnone)]
      simp [round]
    next round hsome => exact .inr ⟨rfl, .enter .start hsome⟩
  | dealing _ underWay =>
    have hopened : es.neutralRoundNumber ≠ 0 := by
      obtain ⟨_, _, _, _, hdealing⟩ := underWay
      exact hdealing.opened.ne'
    rw [openNeutral, if_neg hopened]
    exact .inr ⟨rfl, underWay⟩
  | finished phase => exact absurd (hphase.symm.trans phase) (by decide)

theorem NeutralStart.length_slots (h : NeutralStart c₀ votes) :
    (slotsOf c₀.records votes).length < 2 ^ 64 := by
  rw [slotsOf, List.length_map]
  exact h.length_lt

theorem RefinesFrom.open (hstart : NeutralStart c₀ votes) (h : RefinesFrom c₀ votes c)
    (hphase : c.epochState.phase = .planNeutral) :
    GoesOn c₀.epochState.neutralTotal (slotsOf c₀.records votes) votes
      ⟨(openNeutral c.epochState).1, c.records⟩ (openNeutral c.epochState).2 :=
  h.stage.open hstart.funds hstart.length_slots hstart.fits h.list hphase

theorem GoesOn.inRound {neutral : ℕ} (h : GoesOn neutral slots₀ votes acc fin)
    (hfin : fin = false) : InRound neutral slots₀ votes acc := by
  refine ⟨h.list, ?_⟩
  obtain ⟨htrue, -⟩ | ⟨-, hunder⟩ := h.state
  · rw [hfin] at htrue
    cases htrue
  · exact hunder

theorem RefinesFrom.neutral (hstart : NeutralStart c₀ votes) (hi : RefinesFrom c₀ votes c)
    (h : planNeutralBatch batch crank c = .ok c') :
    RefinesFrom c₀ votes c' := by
  obtain ⟨hphase, acc, fin, vault, used, hpass, rfl⟩ := planNeutralBatch_eq h
  obtain ⟨hsame, -⟩ := samePass_neutralPass hpass
  have hopened := hi.open hstart hphase
  have hrule := passRule_inRound hstart.funds hstart.length_lt
    (List.length_map (slotAt c₀.records)) hstart.fits
  have hends := hrule.pass (fun hflag ↦ hflag ▸ hopened) hopened.inRound hpass
  refine ⟨hsame.epoch.trans hi.epoch, hends.list.congr rfl rfl, ?_⟩
  obtain ⟨hflag, hreturned⟩ | ⟨hflag, hunder⟩ := hends.state
  · exact .finished (if_pos hflag) hreturned
  · dsimp only at hflag
    subst hflag
    obtain ⟨remaining, opening, start, rest, hdealing⟩ := hunder
    exact .dealing rfl ⟨remaining, opening, start, rest, { hdealing with }⟩

theorem RefinesFrom.step (hstart : NeutralStart c₀ votes) (hi : RefinesFrom c₀ votes c)
    (h : call.run c = .ok c') : RefinesFrom c₀ votes c' := by
  cases call with
  | directed sys pairs crank =>
    obtain ⟨hphase, -⟩ := planDirectedBatch_spec h
    cases hi.stage with
    | ready phase | dealing phase | finished phase =>
      exact absurd (hphase.symm.trans phase) (by decide)
  | neutral batch crank => exact hi.neutral hstart h
  | register vote sample =>
    simp only [PlanCall.run, registerValidator, bind_eq_ok_iff, require_eq_ok, pure_eq_ok,
      exists_const] at h
    obtain ⟨hvote, -, rfl⟩ := h
    obtain ⟨hlist, hslots⟩ := hi.list.register hvote
    exact ⟨hi.epoch, hlist, hslots.symm ▸ hi.stage⟩
  | environment other =>
    cases h
    exact ⟨hi.epoch, hi.list, hi.stage⟩

theorem NeutralStart.refinesFrom (h : NeutralStart c₀ votes) : RefinesFrom c₀ votes c₀ :=
  ⟨rfl, h.list, .ready h.phase h.round rfl h.count rfl⟩

theorem NeutralStart.leads (hstart : NeutralStart c₀ votes)
    (h : planner.Leads (fun _ _ ↦ True) c₀ c) : RefinesFrom c₀ votes c := by
  induction h with
  | refl => exact hstart.refinesFrom
  | step call _ _ hs ih => exact ih.step hstart hs

/-- However the rounds are cut into calls, and whatever happens between them: the neutral pass ends
with the targets, capacities, shortfall and number of rounds of one call of the reference.  With no
more validators than the pool admits, no round is found inconsistent. -/
theorem planNeutral_refines_distributeNeutral (hstart : NeutralStart c₀ votes)
    (h : planner.Leads (fun _ _ ↦ True) c₀ c) :
    (c.epochState.phase ≠ .planNeutral →
      distributeNeutral c₀.epochState.neutralTotal c₀.epochState.controllerEpoch
          (slotsOf c₀.records votes) =
        some (⟨c.epochState.neutralRoundNumber, c.epochState.capacityShortfall⟩,
          slotsOf c.records votes)) ∧
      (votes.length ≤ MAX_VALIDATORS → ∀ batch crank,
        planNeutralBatch batch crank c ≠ .error .neutralRoundInconsistent) := by
  have hi := hstart.leads h
  constructor
  · intro hphase
    cases hi.stage with
    | ready phase => exact absurd phase hphase
    | dealing phase => exact absurd phase hphase
    | finished phase returned => exact hi.epoch ▸ returned
  · intro hmax batch crank
    apply planNeutralBatch_ne_inconsistent_of
    intro hphase
    have hopened := hi.open hstart hphase
    have hsize : (slotsOf c₀.records votes).length = votes.length := List.length_map _
    unfold neutralPass
    dsimp only
    split
    next => exact pure_ne_error
    next hflag =>
      have hrule := passRule_inRound hstart.funds hstart.length_lt hsize hstart.fits
      apply hrule.deal_ne_inconsistent (hopened.inRound (Bool.eq_false_iff.mpr hflag))
      intro acc hround hcursor
      exact (hround.close hstart.funds hstart.length_lt hsize hstart.fits hcursor).1 hmax

end Runs

/-! ## Every plan enters the pass so -/

/-- The list that the directed pass has planned so far, with its open records counted. -/
structure Listing (acc : PlanAcc) (votes : List Pubkey) : Prop where
  list : PlannedList acc.epochState acc.records votes
  count : acc.epochState.unsaturatedActiveCount = unsaturated (slotsOf acc.records votes)

section Listing

variable {es : EpochState} {records : Table Pubkey ValidatorRecord} {votes : List Pubkey}
  {vote : Pubkey} {record planned : ValidatorRecord}

theorem PlannedList.not_mem (h : PlannedList es records votes)
    (hl : records.lookup vote = some record) (hfresh : record.planEpoch ≠ es.controllerEpoch) :
    vote ∉ votes := by
  intro hmem
  obtain ⟨i, hi⟩ := List.mem_iff_getElem?.mp hmem
  obtain ⟨r, hr, hstamp, -⟩ := (h.listed i vote).mp hi
  obtain rfl := Option.some.inj (hl.symm.trans hr)
  exact hfresh hstamp

theorem slotsOf_insert_of_not_mem (records : Table Pubkey ValidatorRecord)
    (planned : ValidatorRecord) (hmem : vote ∉ votes) :
    slotsOf (records.insert vote planned) votes = slotsOf records votes := by
  apply List.map_congr_left
  intro v hv
  have hne : v ≠ vote := fun heq ↦ hmem (heq ▸ hv)
  rw [slotAt, AList.lookup_insert_ne hne, slotAt]

theorem PlannedList.skip (h : PlannedList es records votes) (hmem : vote ∉ votes)
    (hindex : planned.validatorListIndex = none) :
    PlannedList es (records.insert vote planned) votes := by
  refine ⟨h.length, ?_, ?_⟩
  · intro i v
    rw [h.listed]
    by_cases hv : v = vote
    · subst hv
      constructor
      · intro hlisted
        exact absurd (List.mem_of_getElem? ((h.listed i v).mpr hlisted)) hmem
      · rintro ⟨r, hl, -, hi⟩
        obtain rfl : planned = r := by simpa using hl
        rw [hindex] at hi
        cases hi
    · simp [ListedAt, AList.lookup_insert_ne hv]
  · rintro i v r ⟨hl, hr, hi⟩
    by_cases hv : v = vote
    · subst hv
      obtain rfl : planned = r := by simpa using hl
      rw [hindex] at hi
      cases hi
    · rw [AList.lookup_insert_ne hv] at hl
      exact h.active i v r ⟨hl, hr, hi⟩

theorem PlannedList.append {es' : EpochState} (h : PlannedList es records votes)
    (hmem : vote ∉ votes) (hepoch : es'.controllerEpoch = es.controllerEpoch)
    (hcursor : es'.planDirectedCursor = es.planDirectedCursor + 1)
    (hstamp : planned.planEpoch = es.controllerEpoch)
    (hindex : planned.validatorListIndex = some es.planDirectedCursor)
    (hactive : 0 < planned.remainingCapacity → planned.status = .active) :
    PlannedList es' (records.insert vote planned) (votes ++ [vote]) := by
  refine ⟨by rw [List.length_append, h.length, hcursor]; rfl, ?_, ?_⟩
  · intro i v
    by_cases hv : v = vote
    · subst hv
      have hplace : (∃ r, ListedAt es' (records.insert v planned) i v r) ↔
          es.planDirectedCursor = i := by
        simp [ListedAt, hindex, hstamp, hepoch]
      rw [hplace, List.getElem?_append, h.length]
      split
      next hlt =>
        constructor
        · exact fun hi ↦ absurd (List.mem_of_getElem? hi) hmem
        · omega
      next hge =>
        rw [List.getElem?_singleton]
        split
        next hzero =>
          simp only [true_iff]
          omega
        next hne =>
          simp only [reduceCtorEq, false_iff]
          omega
    · have hsame : (∃ r, ListedAt es' (records.insert vote planned) i v r) ↔
          ∃ r, ListedAt es records i v r := by
        simp [ListedAt, AList.lookup_insert_ne hv, hepoch]
      rw [hsame, ← h.listed, List.getElem?_append]
      split
      next => rfl
      next hge =>
        have hnone : votes[i]? = none := List.getElem?_eq_none_iff.mpr (not_lt.mp hge)
        rw [hnone, List.getElem?_singleton]
        split
        next => simp [Ne.symm hv]
        next => rfl
  · rintro i v r ⟨hl, hr, hi⟩
    by_cases hv : v = vote
    · subst hv
      obtain rfl : planned = r := by simpa using hl
      exact hactive
    · rw [AList.lookup_insert_ne hv] at hl
      rw [hepoch] at hr
      exact h.active i v r ⟨hl, hr, hi⟩

theorem Listing.step {sys : Sysvars} {list : ValidatorList} {threshold : ℕ} {p : Pair}
    (hi : Listing acc votes) (h : planDirectedOne sys list threshold acc p = .ok acc') :
    ∃ votes', Listing acc' votes' := by
  obtain ⟨es, records⟩ := acc
  obtain ⟨hlist, hcount⟩ := hi
  simp only [planDirectedOne, bind_eq_ok_iff, okOr_eq_ok, require_eq_ok, pure_eq_ok,
    exists_const] at h
  obtain ⟨record, hl, -, hfresh, s, hs, shares, -, targets, -, rfl⟩ := h
  have hmem : p.record ∉ votes := hlist.not_mem hl hfresh
  set planned := planRecord es threshold s with hplanned
  obtain ⟨surplus, v, hnote⟩ :=
    (es.bookPlanned s.inList shares targets planned).noteWithdraw_eq p.record planned
  rw [hnote]
  have hcapacity : planned.remainingCapacity =
      if s.inList then
        neutralCapacity planned.status (es.capOf planned.status) planned.directedTarget
      else 0 := rfl
  have hslots := slotsOf_insert_of_not_mem records planned hmem
  dsimp only at hlist hcount
  obtain ⟨hin, hindex⟩ | ⟨hout, hindex, -⟩ := sighting_cases hs
  · have hactive : 0 < planned.remainingCapacity → planned.status = .active := by
      rw [hcapacity, if_pos hin]
      exact neutralCapacity_pos
    refine ⟨votes ++ [p.record], hlist.append hmem rfl ?_ rfl hindex hactive, ?_⟩
    · simp [EpochState.bookPlanned, hin]
    · have hlast : slotAt (records.insert p.record planned) p.record = planned.slot :=
        slotAt_of_lookup (AList.lookup_insert records)
      have happend : slotsOf (records.insert p.record planned) (votes ++ [p.record]) =
          slotsOf records votes ++ [planned.slot] := by
        rw [slotsOf, List.map_append, List.map_singleton, hlast]
        exact congrArg (· ++ _) hslots
      dsimp only
      rw [happend, unsaturated, List.countP_append]
      simp [EpochState.bookPlanned, hcount, unsaturated, List.countP_cons, ValidatorRecord.slot]
  · have hlist' : PlannedList es (records.insert p.record planned) votes := hlist.skip hmem hindex
    refine ⟨votes, hlist'.congr ?_ rfl, ?_⟩
    · simp [EpochState.bookPlanned, hout]
    · dsimp only
      rw [hslots, ← hcount]
      simp [EpochState.bookPlanned, hcapacity, hout]

end Listing

/-- The list of a plan that has not opened a round. -/
structure Listed (c : Controller) : Prop where
  listing : c.epochState.neutralRoundNumber = 0 → c.epochState.phase ≠ .planFinalize →
    ∃ votes, Listing ⟨c.epochState, c.records⟩ votes
  length_lt : c.epochState.phase = .planNeutral → c.epochState.planDirectedCursor < 2 ^ 64

theorem passRule_opened : PassRule (fun acc ↦ 0 < acc.epochState.neutralRoundNumber)
    (fun acc fin ↦ fin = false → 0 < acc.epochState.neutralRoundNumber) where
  visit acc vote acc' hi h := by
    simp only [planNeutralOne, bind_eq_ok_iff, okOr_eq_ok, require_eq_ok, pure_eq_ok,
      exists_const] at h
    obtain ⟨_, -, -, _, -, _, -, _, -, _, -, rfl⟩ := h
    obtain ⟨surplus, v, hnote⟩ := EpochState.noteWithdraw_eq (EpochState.bookGrant _ _ _) vote _
    rw [hnote]
    exact hi
  stay _ hi _ := hi
  close acc closed hi _ h := by
    simp only [closeRound, bind_eq_ok_iff, okOr_eq_ok, require_eq_ok, exists_const] at h
    obtain ⟨-, _, -, h⟩ := h
    split at h
    · obtain rfl := pure_eq_ok.mp h
      exact fun _ ↦ hi
    · simp only [bind_eq_ok_iff, okOr_eq_ok, require_eq_ok, pure_eq_ok, exists_const] at h
      obtain ⟨-, _, -, rfl⟩ := h
      exact fun _ ↦ Nat.succ_pos _

theorem neutralPass_opened (h : neutralPass batch c = .ok (acc, fin)) (hfin : fin = false) :
    0 < acc.epochState.neutralRoundNumber := by
  refine passRule_opened.pass ?_ ?_ h hfin
  · exact fun _ hfalse ↦ absurd hfalse (by decide)
  · intro hflag
    obtain ⟨-, -, heq⟩ | ⟨round, -, -, heq⟩ | ⟨hopen, heq⟩ := openNeutral_cases c.epochState
    · rw [heq] at hflag
      cases hflag
    · rw [heq]
      exact Nat.one_pos
    · rw [heq]
      exact hopen

theorem Listed.directed {sys : Sysvars} {pairs : List Pair}
    (hround : c.epochState.neutralRoundNumber = 0) (hi : Listed c)
    (h : planDirectedBatch sys pairs crank c = .ok c') : Listed c' := by
  obtain ⟨hphase, -, hphase', -⟩ := planDirectedBatch_spec h
  have hlength : c'.epochState.phase = .planNeutral →
      c'.epochState.planDirectedCursor < 2 ^ 64 := by
    intro hneutral
    obtain hdirected | ⟨-, hlt⟩ := hphase'
    · exact absurd (hneutral.symm.trans hdirected) (by decide)
    · exact hlt.trans (by norm_num)
  refine ⟨fun _ _ ↦ ?_, hlength⟩
  simp only [planDirectedBatch, bind_eq_ok_iff, okOr_eq_ok, require_eq_ok, exists_const] at h
  obtain ⟨_, -, -, -, acc, hfold, es, hclose, h⟩ := h
  have hbefore := hi.listing hround (by rw [hphase]; decide)
  obtain ⟨votes, hlisting⟩ : ∃ votes, Listing acc votes :=
    foldlM_invariant (P := fun a ↦ ∃ votes, Listing a votes)
      (fun _ _ _ _ ha hstep ↦ ha.elim fun _ hl ↦ hl.step hstep) hbefore hfold
  have hclosed : Listing ⟨es, acc.records⟩ votes := by
    unfold closeDirected at hclose
    split at hclose
    · simp only [bind_eq_ok_iff, okOr_eq_ok, require_eq_ok, pure_eq_ok, exists_const] at hclose
      obtain ⟨neutral, -, -, rfl⟩ := hclose
      exact ⟨hlisting.list.congr rfl rfl, hlisting.count⟩
    · obtain rfl := pure_eq_ok.mp hclose
      exact hlisting
  refine ⟨votes, ?_⟩
  obtain ⟨vault, used, rfl⟩ := rewarded_eq h
  exact ⟨hclosed.list.congr rfl rfl, hclosed.count⟩

theorem Listed.neutral (hi : Listed c) (h : planNeutralBatch batch crank c = .ok c') :
    Listed c' := by
  obtain ⟨-, -, -, hcursor⟩ := planNeutralBatch_spec h
  obtain ⟨hphase, acc, fin, vault, used, hpass, rfl⟩ := planNeutralBatch_eq h
  refine ⟨?_, fun _ ↦ lt_of_eq_of_lt hcursor (hi.length_lt hphase)⟩
  intro hzero hopen
  cases fin with
  | true => exact absurd rfl hopen
  | false => exact absurd hzero (neutralPass_opened hpass rfl).ne'

theorem Listed.step (hplan : PlanInv c) (hi : Listed c) (h : call.run c = .ok c') : Listed c' := by
  cases call with
  | directed sys pairs crank =>
    obtain ⟨hphase, -⟩ := planDirectedBatch_spec h
    exact hi.directed (hplan.stage.unplanned hphase).round h
  | neutral batch crank => exact hi.neutral h
  | register vote sample =>
    simp only [PlanCall.run, registerValidator, bind_eq_ok_iff, require_eq_ok, pure_eq_ok,
      exists_const] at h
    obtain ⟨hvote, -, rfl⟩ := h
    refine ⟨?_, hi.length_lt⟩
    intro hzero hopen
    obtain ⟨votes, hlisting⟩ := hi.listing hzero hopen
    obtain ⟨hlist, hslots⟩ := hlisting.list.register hvote
    exact ⟨votes, hlist, hlisting.count.trans (congrArg unsaturated hslots.symm)⟩
  | environment other =>
    cases h
    exact ⟨hi.listing, hi.length_lt⟩

theorem Listed.of_reach (h : planner.Reach c) : Listed c := by
  suffices hboth : PlanInv c ∧ Listed c from hboth.2
  refine h.invariant (P := fun c ↦ PlanInv c ∧ Listed c) ?_
    fun call c c' hi _ hs ↦ ⟨hi.1.step hs, hi.2.step hi.1 hs⟩
  intro c hstart
  refine ⟨PlanInv.of_reach (.init hstart), ⟨fun _ _ ↦ ⟨[], ?_⟩, ?_⟩⟩
  · have hcursor : c.epochState.planDirectedCursor = 0 := by
      rw [hstart.reset]
      rfl
    have hcount : c.epochState.unsaturatedActiveCount = 0 := by
      rw [hstart.reset]
      rfl
    refine ⟨⟨hcursor.symm, ?_, ?_⟩, hcount⟩
    · intro i v
      simp only [List.getElem?_nil, reduceCtorEq, false_iff]
      rintro ⟨r, hl, hr, -⟩
      exact hstart.unplanned v r hl hr
    · rintro i v r ⟨hl, hr, -⟩
      exact absurd hr (hstart.unplanned v r hl)
  · intro hphase
    exact absurd (hphase.symm.trans hstart.phase) (by decide)

/-- Every plan that has come to the neutral pass enters it in such a state. -/
theorem NeutralStart.of_reach (h : planner.Reach c) (hphase : c.epochState.phase = .planNeutral)
    (hround : c.epochState.neutralRoundNumber = 0) :
    ∃ votes, NeutralStart c votes := by
  have hlisted := Listed.of_reach h
  obtain ⟨votes, hlist, hcount⟩ := hlisted.listing hround (by rw [hphase]; decide)
  obtain hready | hdealing := (PlanInv.of_reach h).stage.neutral hphase
  · have hconserved := hready.conserved
    have hproductive := hready.fits
    have hgranted := hready.granted
    have hdirected := hready.directed
    have hneutral := hready.neutral
    dsimp only at hconserved hproductive hgranted hdirected hneutral
    refine ⟨votes, hphase, hround, hlist, hcount, by omega, ?_, ?_⟩
    · rw [hlist.length]
      exact hlisted.length_lt hphase
    · intro s hs
      obtain ⟨v, hv, rfl⟩ := List.mem_map.mp hs
      obtain ⟨i, hi⟩ := List.mem_iff_getElem?.mp hv
      obtain ⟨r, hl, hr, -⟩ := (hlist.listed i v).mp hi
      have hfinal := (hready.records v r hl hr).final
      have hle : ∀ weight : ValidatorRecord → ℕ, weight r ≤
          c.records.total (plannedAt c.epochState.controllerEpoch · weight) := by
        intro weight
        have hweight : plannedAt c.epochState.controllerEpoch r weight = weight r :=
          plannedAt_of_eq hr
        rw [← hweight]
        exact Table.le_total (f := (plannedAt c.epochState.controllerEpoch · weight))
          (fun _ ↦ Nat.zero_le _) hl
      have hd := hle ValidatorRecord.directedTarget
      have hn := hle ValidatorRecord.neutralGranted
      rw [slotAt_of_lookup hl]
      change r.finalTarget < 2 ^ 64
      omega
  · exact absurd hround hdealing.opened.ne'

namespace PlanSample

/-- Thirty SOL for two active validators; eighteen are directed to the first, which leaves it two
SOL of room. -/
def narrow : Controller :=
  { start with
    epochState :=
      { start.epochState with
        reserveTarget := 970 * LAMPORTS_PER_SOL
        productiveLamports := 30 * LAMPORTS_PER_SOL }
    records :=
      ((∅ : Table Pubkey ValidatorRecord).insert 11
        (record .active 0 (600 * LAMPORTS_PER_SOL))).insert 12 (record .active 1 0) }

theorem planStart_narrow : PlanStart narrow :=
  ⟨rfl, by decide, by decide, rfl, by decide⟩

def directBoth : PlanCall := .directed sys [⟨11, 11, none⟩, ⟨12, 12, none⟩] 100

/-- The calls of the neutral pass: two for the first round, one for the second. -/
def dealOut (c₀ : Controller) : Option Controller :=
  Machine.execute (fun _ _ ↦ True) (fun call c ↦ (PlanCall.run call c).toOption) c₀
    [.neutral [11] 100, .neutral [12] 100, .neutral [11, 12] 100]

end PlanSample

/-- Three calls deal in two rounds what the reference deals in one go. -/
theorem planNeutral_refines_distributeNeutral_sample : ∃ c₀ c votes,
    planner.step PlanSample.directBoth PlanSample.narrow c₀ ∧ PlanSample.dealOut c₀ = some c ∧
    NeutralStart c₀ votes ∧ votes.length = 2 ∧ c.epochState.phase = .planFinalize ∧
    c.epochState.neutralRoundNumber = 2 ∧
    distributeNeutral c₀.epochState.neutralTotal c₀.epochState.controllerEpoch
        (slotsOf c₀.records votes) =
      some (⟨2, c.epochState.capacityShortfall⟩, slotsOf c.records votes) ∧
    ∀ batch crank, planNeutralBatch batch crank c ≠ .error .neutralRoundInconsistent := by
  have hrun : ((PlanSample.directBoth.run PlanSample.narrow).toOption.bind fun c₀ ↦
      (PlanSample.dealOut c₀).map fun c ↦
        (c₀.epochState.phase, c₀.epochState.neutralRoundNumber, c₀.epochState.planDirectedCursor,
          c.epochState.phase, c.epochState.neutralRoundNumber)) =
      some (.planNeutral, 0, 2, .planFinalize, 2) := by decide +kernel
  obtain ⟨c₀, hc₀, hrun⟩ := Option.bind_eq_some_iff.mp hrun
  obtain ⟨c, hc, hfacts⟩ := Option.map_eq_some_iff.mp hrun
  simp only [Prod.mk.injEq] at hfacts
  obtain ⟨hphase₀, hround₀, hcursor, hphase, hround⟩ := hfacts
  have hstep : planner.step PlanSample.directBoth PlanSample.narrow c₀ := toOption_eq_some.mp hc₀
  obtain ⟨votes, hstart⟩ := NeutralStart.of_reach
    (.step _ (.init PlanSample.planStart_narrow) trivial hstep) hphase₀ hround₀
  have hlength : votes.length = 2 := hstart.list.length.trans hcursor
  have hleads : planner.Leads (fun _ _ ↦ True) c₀ c :=
    Machine.Leads.refl.execute (fun _ _ _ hs ↦ toOption_eq_some.mp hs) hc
  obtain ⟨hrefines, hconsistent⟩ := planNeutral_refines_distributeNeutral hstart hleads
  refine ⟨c₀, c, votes, hstep, hc, hstart, hlength, hphase, hround, ?_, ?_⟩
  · rw [← hround]
    exact hrefines (by rw [hphase]; decide)
  · exact hconsistent (by rw [hlength]; decide)

end StakeController
end FusionCore
