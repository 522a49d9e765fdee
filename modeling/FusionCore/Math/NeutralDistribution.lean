import FusionCore.Math.CapacityRound
import Mathlib.Data.List.Forall2

/-!
# The neutral distribution in one call

The reference loop deals the neutral lamports out over all validators, round after round, until
nothing is left or nobody can take more.  Every round that leaves something saturates a validator,
so the loop returns; and in every round each validator that stays open takes the whole tranche, so
no other gets more than one lamport a round above it.
-/

namespace FusionCore
namespace StakeMath

open Checked

/-! ## The loop -/

/-- What is left of a validator's neutral capacity, and its target. -/
structure Slot where
  capacity : ℕ
  target : ℕ
  deriving DecidableEq, Repr

/-- Visit one validator; a saturated one is not part of the round. -/
def deal (round : NeutralRound) (s : Slot) : NeutralRound × Slot :=
  if s.capacity = 0 then (round, s)
  else
    let dealt := step round s.capacity
    (dealt.1, ⟨s.capacity - dealt.2, saturatingAdd 64 s.target dealt.2⟩)

/-- One canonical pass over the validators. -/
def pass (round : NeutralRound) : List Slot → NeutralRound × List Slot
  | [] => (round, [])
  | s :: slots =>
    let dealt := deal round s
    let rest := pass dealt.1 slots
    (rest.1, dealt.2 :: rest.2)

/-- The validators that can still take something. -/
def unsaturated (slots : List Slot) : ℕ := slots.countP fun s ↦ 0 < s.capacity

structure NeutralOutcome where
  rounds : ℕ
  shortfall : ℕ
  deriving DecidableEq, Repr

/-- The rounds from the given state on; `none` if `fuel` of them were not enough. -/
def distributeFrom (epoch : ℕ) : ℕ → ℕ → ℕ → List Slot → Option (NeutralOutcome × List Slot)
  | 0, _, _, _ => none
  | fuel + 1, remaining, rounds, slots =>
    match beginRound remaining (unsaturated slots) epoch with
    | none => some (⟨rounds, remaining⟩, slots)
    | some round =>
      let passed := pass round slots
      distributeFrom epoch fuel passed.1.remainingAfter (saturatingAdd 64 rounds 1) passed.2

/-- Distribute `neutral` over the slots; as the theorems below show, one round for every open slot
and the call that finds nothing to do are enough. -/
def distributeNeutral (neutral epoch : ℕ) (slots : List Slot) :
    Option (NeutralOutcome × List Slot) :=
  distributeFrom epoch (unsaturated slots + 1) neutral 0 slots

/-! ## What a slot receives -/

/-- What a slot has received between two states. -/
def Slot.grant (s s' : Slot) : ℕ := s.capacity - s'.capacity

/-- Between `s` and `s'` the slot received at most `base + extra`, and at least `base` if it can
still take more. -/
structure Dealt (base extra : ℕ) (s s' : Slot) : Prop where
  capacity : s'.capacity ≤ s.capacity
  target : s'.target = saturatingAdd 64 s.target (s.grant s')
  le : s.grant s' ≤ base + extra
  ge : 0 < s'.capacity → base ≤ s.grant s'

theorem saturatingAdd_saturatingAdd (w a b c : ℕ) :
    saturatingAdd w (saturatingAdd w a b) c = saturatingAdd w a (b + c) := by
  unfold saturatingAdd
  omega

namespace Dealt

variable {base base' extra extra' : ℕ} {s s' s'' : Slot}

theorem refl (hfits : s.target < 2 ^ 64) : Dealt 0 0 s s := by
  refine ⟨le_rfl, ?_, by simp [Slot.grant], fun _ ↦ Nat.zero_le _⟩
  rw [Slot.grant, Nat.sub_self, saturatingAdd_of_lt hfits, Nat.add_zero]

theorem closed (hzero : s.capacity = 0) (hfits : s.target < 2 ^ 64) : Dealt base extra s s := by
  have hrefl := refl hfits
  refine ⟨le_rfl, hrefl.target, by simp [Slot.grant], ?_⟩
  intro hopen
  omega

theorem fits (h : Dealt base extra s s') : s'.target < 2 ^ 64 := by
  rw [h.target, saturatingAdd]
  omega

theorem trans (h : Dealt base extra s s') (h' : Dealt base' extra' s' s'') :
    Dealt (base + base') (extra + extra') s s'' := by
  have hsum : s.grant s'' = s.grant s' + s'.grant s'' := by
    have := h.capacity
    have := h'.capacity
    simp only [Slot.grant]
    omega
  have hle := h.le
  have hle' := h'.le
  refine ⟨h'.capacity.trans h.capacity, ?_, by omega, ?_⟩
  · rw [h'.target, h.target, hsum, saturatingAdd_saturatingAdd]
  · intro hopen
    have hge := h.ge (hopen.trans_le h'.capacity)
    have hge' := h'.ge hopen
    omega

end Dealt

/-! ## One pass -/

/-- The capacity of all slots. -/
def totalCapacity (slots : List Slot) : ℕ := (slots.map Slot.capacity).sum

@[simp] theorem totalCapacity_cons (s : Slot) (slots : List Slot) :
    totalCapacity (s :: slots) = s.capacity + totalCapacity slots := by
  simp [totalCapacity]

@[simp] theorem unsaturated_cons (s : Slot) (slots : List Slot) :
    unsaturated (s :: slots) = unsaturated slots + if 0 < s.capacity then 1 else 0 := by
  simp [unsaturated, List.countP_cons]

variable {r : NeutralRound} {slots : List Slot}

/-- A grant is the tranche or one lamport more, unless the capacity is less. -/
theorem step_grant (capacity : ℕ) (h : r.Inv) (hopen : ¬r.isComplete) :
    (step r capacity).2 ≤ r.tranche + 1 ∧
      ((step r capacity).2 < capacity → r.tranche ≤ (step r capacity).2) := by
  have htranche : r.tranche < 2 ^ 64 := by
    rw [h.tranche]
    exact (Nat.div_le_self _ _).trans_lt h.fits
  rw [step, if_neg hopen]
  dsimp only
  split
  · simp only [saturatingAdd]
    omega
  · simp only [saturatingAdd]
    omega

/-- Everything a pass does to the round and to the slots. -/
structure PassSpec (r r' : NeutralRound) (slots slots' : List Slot) : Prop where
  inv : r'.Inv
  remaining : r'.remaining = r.remaining
  nUnsaturated : r'.nUnsaturated = r.nUnsaturated
  tranche : r'.tranche = r.tranche
  steps : r'.steps = r.steps + unsaturated slots
  granted : r'.granted + totalCapacity slots' = r.granted + totalCapacity slots
  saturated : r'.saturated + unsaturated slots' = r.saturated + unsaturated slots
  slots : List.Forall₂ (Dealt r.tranche 1) slots slots'

theorem deal_spec {s : Slot} (h : r.Inv) (hfits : s.target < 2 ^ 64)
    (hroom : r.steps + unsaturated [s] ≤ r.nUnsaturated) :
    PassSpec r (deal r s).1 [s] [(deal r s).2] := by
  by_cases hzero : s.capacity = 0
  · have hdeal : deal r s = (r, s) := if_pos hzero
    rw [hdeal]
    exact ⟨h, rfl, rfl, rfl, by simp [unsaturated, hzero], rfl, rfl,
      .cons (.closed hzero hfits) .nil⟩
  · have hpos : 0 < s.capacity := Nat.pos_of_ne_zero hzero
    have hopen : ¬r.isComplete := by
      simp only [unsaturated_cons, hpos, if_true] at hroom
      unfold NeutralRound.isComplete
      omega
    have hstep := step_spec h hopen hpos
    obtain ⟨hle, hge⟩ := step_grant s.capacity h hopen
    have hdeal : deal r s = ((step r s.capacity).1,
        ⟨s.capacity - (step r s.capacity).2, saturatingAdd 64 s.target (step r s.capacity).2⟩) :=
      if_neg hzero
    have htranche : (step r s.capacity).1.tranche = r.tranche := by
      rw [hstep.inv.tranche, hstep.remaining, hstep.nUnsaturated, h.tranche]
    rw [hdeal]
    generalize (step r s.capacity).2 = grant at hstep hle hge
    have hgrant : s.grant ⟨s.capacity - grant, saturatingAdd 64 s.target grant⟩ = grant := by
      have := hstep.le
      simp only [Slot.grant]
      omega
    refine ⟨hstep.inv, hstep.remaining, hstep.nUnsaturated, htranche, ?_, ?_, ?_,
      .cons ⟨Nat.sub_le _ _, ?_, ?_, ?_⟩ .nil⟩
    · rw [hstep.steps]
      simp [unsaturated, hpos]
    · have := hstep.granted
      have := hstep.le
      simp only [totalCapacity_cons]
      omega
    · have hsat := hstep.saturated
      have := hstep.le
      by_cases hfull : grant = s.capacity
      · rw [if_pos hfull] at hsat
        simp [unsaturated, hsat, hfull, hpos]
      · rw [if_neg hfull] at hsat
        have hleft : grant < s.capacity := by omega
        simp [unsaturated, hsat, hleft, hpos]
    · rw [hgrant]
    · rw [hgrant]
      exact hle
    · intro hleft
      rw [hgrant]
      exact hge (Nat.lt_of_sub_pos hleft)

theorem pass_spec (h : r.Inv) (hfits : ∀ s ∈ slots, s.target < 2 ^ 64)
    (hroom : r.steps + unsaturated slots ≤ r.nUnsaturated) :
    PassSpec r (pass r slots).1 slots (pass r slots).2 := by
  induction slots generalizing r with
  | nil => exact ⟨h, rfl, rfl, rfl, rfl, rfl, rfl, .nil⟩
  | cons s slots ih =>
    rw [unsaturated_cons] at hroom
    have hone : unsaturated [s] = if 0 < s.capacity then 1 else 0 := by simp [unsaturated]
    have hdeal := deal_spec h (hfits s List.mem_cons_self) (by rw [hone]; omega)
    have hsteps := hdeal.steps
    have hn := hdeal.nUnsaturated
    rw [hone] at hsteps
    have hrest := ih hdeal.inv (fun t ht ↦ hfits t (List.mem_cons_of_mem s ht)) (by omega)
    have hslot : Dealt r.tranche 1 s (deal r s).2 := (List.forall₂_cons.mp hdeal.slots).1
    rw [pass]
    generalize deal r s = dealt at hdeal hsteps hn hrest hslot
    generalize pass dealt.1 slots = passed at hrest
    refine ⟨hrest.inv, hrest.remaining.trans hdeal.remaining, hrest.nUnsaturated.trans hn,
      hrest.tranche.trans hdeal.tranche, ?_, ?_, ?_, .cons hslot ?_⟩
    · rw [hrest.steps, hsteps, unsaturated_cons]
      omega
    · have hg := hdeal.granted
      have hg' := hrest.granted
      simp only [totalCapacity_cons] at hg ⊢
      simp only [totalCapacity, List.map_nil, List.sum_nil] at hg
      simp only [totalCapacity] at hg' ⊢
      omega
    · have hsat := hdeal.saturated
      have hsat' := hrest.saturated
      simp only [unsaturated_cons] at hsat ⊢
      simp only [unsaturated, List.countP_nil] at hsat hsat' ⊢
      omega
    · rw [← hdeal.tranche]
      exact hrest.slots

/-! ## All rounds -/

theorem totalCapacity_eq_zero (h : unsaturated slots = 0) :
    totalCapacity slots = 0 := by
  rw [totalCapacity, List.sum_eq_zero_iff]
  intro c hc
  obtain ⟨s, hs, rfl⟩ := List.mem_map.mp hc
  have hnot := List.countP_eq_zero.mp h s hs
  simpa using hnot

theorem forall₂_trans {α : Type} {R S T : α → α → Prop} {l l' l'' : List α}
    (hT : ∀ a b c, R a b → S b c → T a c) (h : List.Forall₂ R l l') (h' : List.Forall₂ S l' l'') :
    List.Forall₂ T l l'' := by
  induction h generalizing l'' with
  | nil =>
    cases h' with
    | nil => exact .nil
  | cons hab _ ih =>
    cases h' with
    | cons hbc hrest => exact .cons (hT _ _ _ hab hbc) (ih hrest)

/-- The rounds that the loop can still need. -/
def roundsNeeded (remaining : ℕ) (slots : List Slot) : ℕ :=
  if remaining = 0 then 0 else unsaturated slots

/-- What the loop returns, from the state with `remaining` lamports after `rounds` rounds. -/
structure Distributed (remaining rounds : ℕ) (slots : List Slot) (out : NeutralOutcome)
    (slots' : List Slot) : Prop where
  ge : rounds ≤ out.rounds
  le : out.rounds ≤ rounds + roundsNeeded remaining slots
  conserved : totalCapacity slots' + remaining = totalCapacity slots + out.shortfall
  exhausted : 0 < out.shortfall → totalCapacity slots' = 0
  slots : ∃ base, List.Forall₂ (Dealt base (out.rounds - rounds)) slots slots'

theorem Distributed.done {remaining rounds : ℕ} (hfits : ∀ s ∈ slots, s.target < 2 ^ 64)
    (h : remaining = 0 ∨ unsaturated slots = 0) :
    Distributed remaining rounds slots ⟨rounds, remaining⟩ slots where
  ge := le_rfl
  le := Nat.le_add_right _ _
  conserved := rfl
  exhausted hpos := totalCapacity_eq_zero (h.resolve_left hpos.ne')
  slots := by
    refine ⟨0, ?_⟩
    rw [Nat.sub_self, List.forall₂_same]
    exact fun s hs ↦ .refl (hfits s hs)

section Rounds

variable {rounds : ℕ} {r r' : NeutralRound} {slots slots' slots'' : List Slot}
  {out : NeutralOutcome}

/-- A round that leaves something has saturated a slot. -/
theorem PassSpec.roundsNeeded_lt (h : PassSpec r r' slots slots') (hdone : r'.isComplete)
    (hfunds : 0 < r.remaining) (hsteps : r.steps = 0) (hsaturated : r.saturated = 0) :
    roundsNeeded r'.remainingAfter slots' < roundsNeeded r.remaining slots := by
  have hmembers := h.inv.members
  have hcount := h.steps
  have hsat := h.saturated
  have hafter := h.inv.remainingAfter_le hdone
  unfold NeutralRound.isComplete at hdone
  rw [roundsNeeded, roundsNeeded, if_neg hfunds.ne']
  split
  · omega
  next hleft =>
    have hsome : 0 < r'.saturated := by
      by_contra hnone
      rw [Nat.eq_zero_of_not_pos hnone, Nat.zero_mul] at hafter
      exact hleft (Nat.le_zero.mp hafter)
    omega

theorem Distributed.round (hpass : PassSpec r r' slots slots') (hgranted : r.granted = 0)
    (hneeded : roundsNeeded r'.remainingAfter slots' < roundsNeeded r.remaining slots)
    (h : Distributed r'.remainingAfter (rounds + 1) slots' out slots'') :
    Distributed r.remaining rounds slots out slots'' := by
  have hge := h.ge
  refine ⟨by omega, ?_, ?_, h.exhausted, ?_⟩
  · have := h.le
    omega
  · have hconserved := h.conserved
    have hpassed := hpass.granted
    have hle := hpass.inv.granted_le_remaining
    have hremaining := hpass.remaining
    unfold NeutralRound.remainingAfter at hconserved
    omega
  · obtain ⟨base, hrest⟩ := h.slots
    refine ⟨r.tranche + base, forall₂_trans ?_ hpass.slots hrest⟩
    intro a b c hab hbc
    rw [show out.rounds - rounds = 1 + (out.rounds - (rounds + 1)) by omega]
    exact hab.trans hbc

end Rounds

/-- A round of the loop, from its opening to the state that it leaves. -/
structure RoundSpec (r : NeutralRound) (slots : List Slot) : Prop where
  spec : PassSpec r (pass r slots).1 slots (pass r slots).2
  granted : r.granted = 0
  saturated : r.saturated = 0
  opened : r.nUnsaturated = unsaturated slots
  complete : (pass r slots).1.isComplete
  needed : roundsNeeded (pass r slots).1.remainingAfter (pass r slots).2 <
    roundsNeeded r.remaining slots
  fits : ∀ s ∈ (pass r slots).2, s.target < 2 ^ 64

theorem round_spec {epoch remaining : ℕ} (hremaining : remaining < 2 ^ 64)
    (hcount : unsaturated slots < 2 ^ 64) (hfits : ∀ s ∈ slots, s.target < 2 ^ 64)
    (hbegin : beginRound remaining (unsaturated slots) epoch = some r) :
    r.remaining = remaining ∧ RoundSpec r slots := by
  obtain ⟨hinv, rfl, hn, hgranted, hsteps, hsaturated⟩ :=
    inv_of_beginRound hbegin hremaining hcount
  have hpass := pass_spec hinv hfits (by omega)
  have hdone : (pass r slots).1.isComplete := by
    have := hpass.steps
    have := hpass.nUnsaturated
    unfold NeutralRound.isComplete
    omega
  refine ⟨rfl, hpass, hgranted, hsaturated, hn, hdone, ?_, ?_⟩
  · exact hpass.roundsNeeded_lt hdone hinv.funds hsteps hsaturated
  · have hback := hpass.slots.flip.imp fun s' s (h : Dealt r.tranche 1 s s') ↦
      And.intro h.fits h
    exact ((List.forall₂_and_left _ _).mp hback).1

theorem RoundSpec.remainingAfter_le (h : RoundSpec r slots) :
    (pass r slots).1.remainingAfter ≤ r.remaining := by
  rw [NeutralRound.remainingAfter, h.spec.remaining]
  exact Nat.sub_le _ _

theorem roundsNeeded_le (remaining : ℕ) (slots : List Slot) :
    roundsNeeded remaining slots ≤ unsaturated slots := by
  unfold roundsNeeded
  split <;> omega

theorem roundsNeeded_of_beginRound {epoch remaining : ℕ}
    (hbegin : beginRound remaining (unsaturated slots) epoch = some r) :
    roundsNeeded remaining slots = unsaturated slots := by
  apply if_neg
  intro hzero
  have hnone : beginRound remaining (unsaturated slots) epoch = none :=
    beginRound_eq_none_iff.mpr (.inl hzero)
  rw [hnone] at hbegin
  cases hbegin

theorem distributeFrom_spec {fuel remaining rounds : ℕ} (epoch : ℕ)
    (hremaining : remaining < 2 ^ 64) (hrounds : rounds + roundsNeeded remaining slots < 2 ^ 64)
    (hfits : ∀ s ∈ slots, s.target < 2 ^ 64) (hfuel : roundsNeeded remaining slots < fuel) :
    ∃ out slots', distributeFrom epoch fuel remaining rounds slots = some (out, slots') ∧
      Distributed remaining rounds slots out slots' := by
  induction fuel generalizing remaining rounds slots with
  | zero => exact absurd hfuel (Nat.not_lt_zero _)
  | succ fuel ih =>
    rw [distributeFrom]
    cases hbegin : beginRound remaining (unsaturated slots) epoch with
    | none => exact ⟨_, _, rfl, .done hfits (beginRound_eq_none_iff.mp hbegin)⟩
    | some r =>
      have hneeded := roundsNeeded_of_beginRound hbegin
      obtain ⟨rfl, hround⟩ := round_spec hremaining (by omega) hfits hbegin
      have hlt := hround.needed
      have hafter := hround.remainingAfter_le
      have hrounds' : rounds + 1 +
          roundsNeeded (pass r slots).1.remainingAfter (pass r slots).2 < 2 ^ 64 := by omega
      dsimp only
      rw [saturatingAdd_of_lt (by omega)]
      obtain ⟨out, slots', heq, hout⟩ :=
        ih (hafter.trans_lt hremaining) hrounds' hround.fits (by omega)
      exact ⟨out, slots', heq, hout.round hround.spec hround.granted hlt⟩

/-! ## States of the loop -/

/-- The states in which the loop stands between two rounds: what remains, how many rounds there
were, and the slots. -/
inductive LoopAt (epoch neutral : ℕ) (slots₀ : List Slot) : ℕ → ℕ → List Slot → Prop where
  | start : LoopAt epoch neutral slots₀ neutral 0 slots₀
  | round {remaining rounds : ℕ} {slots : List Slot} {r : NeutralRound}
      (h : LoopAt epoch neutral slots₀ remaining rounds slots)
      (hbegin : beginRound remaining (unsaturated slots) epoch = some r) :
      LoopAt epoch neutral slots₀ (pass r slots).1.remainingAfter (rounds + 1) (pass r slots).2

/-- The bounds that the loop keeps. -/
structure LoopBounds (neutral : ℕ) (slots₀ : List Slot) (remaining rounds : ℕ)
    (slots : List Slot) : Prop where
  funds : remaining < 2 ^ 64
  needed : rounds + roundsNeeded remaining slots ≤ roundsNeeded neutral slots₀
  count : unsaturated slots ≤ unsaturated slots₀
  fits : ∀ s ∈ slots, s.target < 2 ^ 64

namespace LoopAt

variable {epoch neutral remaining rounds : ℕ} {slots₀ slots : List Slot}
  (hneutral : neutral < 2 ^ 64) (hlen : slots₀.length < 2 ^ 64)
  (hfits : ∀ s ∈ slots₀, s.target < 2 ^ 64)

include hneutral hlen hfits

theorem bounds (h : LoopAt epoch neutral slots₀ remaining rounds slots) :
    LoopBounds neutral slots₀ remaining rounds slots := by
  have hcount : unsaturated slots₀ ≤ slots₀.length := List.countP_le_length
  induction h with
  | start => exact ⟨hneutral, (Nat.zero_add _).le, le_rfl, hfits⟩
  | round h hbegin ih =>
    have hopen := ih.count
    obtain ⟨rfl, hround⟩ := round_spec ih.funds (by omega) ih.fits hbegin
    have hneeded := hround.needed
    have hrounds := ih.needed
    refine ⟨hround.remainingAfter_le.trans_lt ih.funds, by omega, ?_, hround.fits⟩
    have hsat := hround.spec.saturated
    have hzero := hround.saturated
    omega

theorem exists_fuel (h : LoopAt epoch neutral slots₀ remaining rounds slots) :
    ∃ fuel, distributeNeutral neutral epoch slots₀ =
      distributeFrom epoch (fuel + 1) remaining rounds slots := by
  have hcount : unsaturated slots₀ ≤ slots₀.length := List.countP_le_length
  have hneeded := roundsNeeded_le neutral slots₀
  have hresult : ∃ out slots', distributeNeutral neutral epoch slots₀ = some (out, slots') ∧
      Distributed neutral 0 slots₀ out slots' :=
    distributeFrom_spec epoch hneutral (by omega) hfits (by omega)
  obtain ⟨out, slots', hresult, -⟩ := hresult
  induction h with
  | start => exact ⟨unsaturated slots₀, rfl⟩
  | round h hbegin ih =>
    obtain ⟨fuel, hfuel⟩ := ih
    have hrounds := ((h.round hbegin).bounds hneutral hlen hfits).needed
    rw [distributeFrom, hbegin] at hfuel
    dsimp only at hfuel
    rw [saturatingAdd_of_lt (by omega)] at hfuel
    cases fuel with
    | zero =>
      rw [hresult] at hfuel
      cases hfuel
    | succ fuel => exact ⟨fuel, hfuel⟩

theorem returns (h : LoopAt epoch neutral slots₀ remaining rounds slots)
    (hend : remaining = 0 ∨ unsaturated slots = 0) :
    distributeNeutral neutral epoch slots₀ = some (⟨rounds, remaining⟩, slots) := by
  obtain ⟨fuel, hfuel⟩ := h.exists_fuel hneutral hlen hfits
  have hnone : beginRound remaining (unsaturated slots) epoch = none :=
    beginRound_eq_none_iff.mpr hend
  rw [hfuel, distributeFrom, hnone]

end LoopAt

theorem pass_concat (r : NeutralRound) (slots : List Slot) (s : Slot) :
    pass r (slots ++ [s]) =
      ((deal (pass r slots).1 s).1, (pass r slots).2 ++ [(deal (pass r slots).1 s).2]) := by
  induction slots generalizing r with
  | nil => rfl
  | cons t slots ih => simp only [List.cons_append, pass, ih]

theorem length_pass (r : NeutralRound) (slots : List Slot) :
    (pass r slots).2.length = slots.length := by
  induction slots generalizing r with
  | nil => rfl
  | cons s slots ih => simp only [pass, List.length_cons, ih]

/-! ## Fairness -/

theorem sum_grants {base extra : ℕ} {slots' : List Slot}
    (h : List.Forall₂ (Dealt base extra) slots slots') :
    ((slots.zip slots').map fun x ↦ x.1.grant x.2).sum + totalCapacity slots' =
      totalCapacity slots := by
  induction h with
  | nil => rfl
  | cons hdealt _ ih =>
    have := hdealt.capacity
    simp only [List.zip_cons_cons, List.map_cons, List.sum_cons, totalCapacity_cons, Slot.grant]
      at ih ⊢
    omega

/-- The distribution returns after at most one round for every open slot.  What the slots receive
and the shortfall add up to the neutral amount, the shortfall is what exceeds all capacities, and
no slot receives more than one lamport a round above a slot that could have taken more. -/
theorem distributeNeutral_fair (neutral epoch : UInt64) {slots : List Slot}
    (hlen : slots.length < 2 ^ 64) (hfits : ∀ s ∈ slots, s.target < 2 ^ 64) :
    ∃ out slots', distributeNeutral neutral.toNat epoch.toNat slots = some (out, slots') ∧
      out.rounds ≤ unsaturated slots ∧ slots'.length = slots.length ∧
      (∀ x ∈ slots.zip slots', x.1.grant x.2 ≤ x.1.capacity ∧
        x.2.capacity = x.1.capacity - x.1.grant x.2 ∧
        x.2.target = saturatingAdd 64 x.1.target (x.1.grant x.2)) ∧
      ((slots.zip slots').map fun x ↦ x.1.grant x.2).sum + out.shortfall = neutral.toNat ∧
      out.shortfall = neutral.toNat - totalCapacity slots ∧
      ∀ x ∈ slots.zip slots', ∀ y ∈ slots.zip slots', 0 < x.2.capacity →
        y.1.grant y.2 ≤ x.1.grant x.2 + out.rounds := by
  have hneeded := roundsNeeded_le neutral.toNat slots
  have hcount : unsaturated slots ≤ slots.length := List.countP_le_length
  have hrounds : 0 + roundsNeeded neutral.toNat slots < 2 ^ 64 := by omega
  obtain ⟨out, slots', heq, hout⟩ := distributeFrom_spec epoch.toNat
    neutral.toNat_lt hrounds hfits (Nat.lt_succ_of_le hneeded)
  have hle := hout.le
  have hconserved := hout.conserved
  obtain ⟨base, hslots⟩ := hout.slots
  rw [Nat.sub_zero] at hslots
  have hsum := sum_grants hslots
  obtain ⟨hlength, hzip⟩ := List.forall₂_iff_zip.mp hslots
  refine ⟨out, slots', heq, by omega, hlength.symm, ?_, by omega, ?_, ?_⟩
  · rintro ⟨s, s'⟩ hx
    have hdealt := hzip hx
    have hcap := hdealt.capacity
    have hgrant : s.grant s' = s.capacity - s'.capacity := rfl
    dsimp only
    exact ⟨by omega, by omega, hdealt.target⟩
  · obtain hzero | hpos := Nat.eq_zero_or_pos out.shortfall
    · omega
    · have := hout.exhausted hpos
      omega
  · rintro ⟨s, s'⟩ hx ⟨t, t'⟩ hy hopen
    have hgive := (hzip hx).ge hopen
    have htake := (hzip hy).le
    dsimp only
    omega

/-- Four slots, one of them full; eleven lamports take two rounds. -/
theorem distributeNeutral_fair_sample :
    ∃ out slots', distributeNeutral 11 5 [⟨3, 0⟩, ⟨100, 7⟩, ⟨0, 9⟩, ⟨5, 0⟩] = some (out, slots') ∧
      out = ⟨2, 0⟩ ∧ slots' = [⟨0, 3⟩, ⟨97, 10⟩, ⟨0, 9⟩, ⟨0, 5⟩] ∧
      out.rounds ≤ unsaturated [⟨3, 0⟩, ⟨100, 7⟩, ⟨0, 9⟩, ⟨5, 0⟩] := by
  obtain ⟨out, slots', heq, hrounds, -⟩ := distributeNeutral_fair 11 5
    (show [(⟨3, 0⟩ : Slot), ⟨100, 7⟩, ⟨0, 9⟩, ⟨5, 0⟩].length < 2 ^ 64 by decide) (by decide)
  have hrun : distributeNeutral 11 5 [⟨3, 0⟩, ⟨100, 7⟩, ⟨0, 9⟩, ⟨5, 0⟩] =
      some (⟨2, 0⟩, [⟨0, 3⟩, ⟨97, 10⟩, ⟨0, 9⟩, ⟨0, 5⟩]) := by decide
  obtain ⟨rfl, rfl⟩ := Prod.mk.inj (Option.some.inj (hrun.symm.trans heq))
  exact ⟨_, _, heq, rfl, rfl, hrounds⟩

end StakeMath
end FusionCore
