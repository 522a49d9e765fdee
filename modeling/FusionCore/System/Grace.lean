import FusionCore.System.Steps

/-!
# The liquidation pauses

Raising the minimum ratio, resuming prices after a stall or a rebind, a fallen pool rate and a
divergence of the feeds each hold liquidations back for a number of slots.  All writers only extend
the two pauses of a market, so along every run each liquidation has waited for every pause that was
armed before it.  The pauses are compared with a history of the market that is read off the
instructions and never off the fields of the pauses or of the freshness clock.

This file has the history, what it asks for, and the functions that write the pauses; the
runs follow in `GraceRuns`.
-/

namespace FusionCore

open Checked Oracle

/-! ## The history of a market -/

/-- The latest moment at which one of the two pauses ends. -/
def Market.pausedUntil (m : Market) : ℕ := max m.liqGraceUntil m.liqDivergenceUntil

/-- The update commits a price. -/
def PriceCommit.commits (c : PriceCommit) : Bool := c.price.any fun price ↦ decide (0 < price.1)

/-- What happened to a market, as far as its pauses are concerned.  `rate` is the pool rate that a
commit of a canonical-primary market stored. -/
inductive GraceNote where
  | priced (divergent committed : Bool) (rate : Option ℕ)
  | rebound
  | mcrRaised
  | liquidated
  deriving DecidableEq

structure GraceEntry where
  slot : ℕ
  note : GraceNote
  deriving DecidableEq

def GraceEntry.commits (e : GraceEntry) : Bool :=
  match e.note with
  | .priced _ committed _ => committed
  | _ => false

def GraceNote.rate : GraceNote → Option ℕ
  | .priced _ _ rate => rate
  | _ => none

def priceNote (c : PriceCommit) (oracle : MarketOracle) : GraceNote :=
  .priced c.liqDivergent c.commits
    (if c.commits && oracle.canonicalPrimary then some oracle.lastCanonicalRateRay else none)

/-- The minimum ratio of the market of `k` is higher afterwards. -/
def System.raisesMcr (s s' : System) (k : Pubkey) : Bool :=
  (s.protocol.markets.lookup k).any fun state ↦
    (s'.protocol.markets.lookup k).any fun state' ↦
      decide (state.market.mcrBps < state'.market.mcrBps)

/-- What a step adds to the history of the market of `k`. -/
def graceNote (k : Pubkey) (e : SystemEvent) (s s' : System) : Option GraceNote :=
  match e.instr with
  | .updatePrice mint accs =>
    if mint = k then do
      let acc ← s.oracles.lookup k
      let (commit, oracle) ← (priceUpdate s.programs e.clock k (s.decimals k) accs acc.oracle
        acc.ring).toOption
      commit.map (priceNote · oracle)
    else none
  | .rebindMarketOracleFeeds _ mint _ => if mint = k then some .rebound else none
  | .executeParamChange _ mint _ =>
    if mint = k ∧ s.raisesMcr s' k = true then some .mcrRaised else none
  | .core (.market mint (.liquidate _ _ _)) _ => if mint = k then some .liquidated else none
  | _ => none

def addNote (slot : ℕ) (note : Option GraceNote) (log : List GraceEntry) : List GraceEntry :=
  match note with
  | some note => ⟨slot, note⟩ :: log
  | none => log

def recordGrace (k : Pubkey) (e : SystemEvent) (w w' : SystemWorld) (log : List GraceEntry) :
    List GraceEntry :=
  addNote e.clock.slot (graceNote k e w.system w'.system) log

/-! ## What the history asks for -/

/-- The pool rate stored last. -/
def lastRate (log : List GraceEntry) : Option ℕ := log.findSome? fun e ↦ e.note.rate

/-- A commit at slot `r` after the history `earlier` resumes prices: the market was priced before,
and all of its commits are too old, or its feeds were rebound since the last one.  A rebind counts
when its slot leaves room to date the freshness clock back. -/
def ResumesAfter (r : ℕ) (earlier : List GraceEntry) : Prop :=
  (∃ e ∈ earlier, e.commits = true) ∧
    ((∀ e ∈ earlier, e.commits = true → MAX_PRICE_STALENESS_SLOTS < r - e.slot) ∨
      ∃ since b before, earlier = since ++ b :: before ∧ b.note = .rebound ∧
        MAX_PRICE_STALENESS_SLOTS < b.slot ∧ ∀ e ∈ since, e.commits = false)

/-- The entry `e`, after the history `earlier`, holds liquidations back for a number of slots. -/
inductive Arms (e : GraceEntry) (earlier : List GraceEntry) : ℕ → Prop where
  | raised (h : e.note = .mcrRaised) : Arms e earlier MCR_RAISE_GRACE_SLOTS
  | resumed (h : e.commits = true) (hresumes : ResumesAfter e.slot earlier) :
      Arms e earlier LIQ_RESUME_GRACE_SLOTS
  | rateFell (new old : ℕ) (hnew : e.note.rate = some new) (hold : lastRate earlier = some old)
      (hlt : new < old) : Arms e earlier LIQ_RESUME_GRACE_SLOTS
  | diverged (committed : Bool) (rate : Option ℕ) (h : e.note = .priced true committed rate) :
      Arms e earlier LIQ_DIVERGENCE_GRACE_SLOTS

/-- A market and its history: all pauses that the history asks for are armed, and its liquidations
have waited for the ones before them. -/
structure GraceInv (now : ℕ) (m : Market) (log : List GraceEntry) : Prop where
  past : ∀ e ∈ log, e.slot ≤ now
  priced : (∃ e ∈ log, e.commits = true) → 0 < m.spot
  resumes : ∀ r, now ≤ r → ResumesAfter r log → m.Resumes r
  armed : ∀ e earlier d, e :: earlier <:+ log → Arms e earlier d →
    saturatingAdd 64 e.slot d ≤ m.pausedUntil
  respected : ∀ e earlier, e :: earlier <:+ log → e.note = .liquidated →
    ∀ f before d, f :: before <:+ earlier → Arms f before d → saturatingAdd 64 f.slot d ≤ e.slot

section Rules

variable {now now' : ℕ} {m m' : Market} {log : List GraceEntry} {e : GraceEntry}

theorem GraceInv.nil (now : ℕ) (m : Market) : GraceInv now m [] where
  past := by simp
  priced := by simp
  resumes := by simp [ResumesAfter]
  armed := by simp
  respected := by simp

theorem GraceInv.frame (h : GraceInv now m log) (hnow : now ≤ now') (hspot : m'.spot = m.spot)
    (hslot : m'.spotUpdatedSlot = m.spotUpdatedSlot) (hpaused : m.pausedUntil ≤ m'.pausedUntil) :
    GraceInv now' m' log where
  past := fun e he ↦ (h.past e he).trans hnow
  priced := by
    rw [hspot]
    exact h.priced
  resumes := by
    intro r hr hresumes
    have hm := h.resumes r (hnow.trans hr) hresumes
    exact ⟨hspot ▸ hm.1, hslot ▸ hm.2⟩
  armed := fun e earlier d hsuffix harms ↦ (h.armed e earlier d hsuffix harms).trans hpaused
  respected := h.respected

theorem GraceInv.cons (h : GraceInv now m log) (hnow : now ≤ now') (hslot : e.slot = now')
    (hpriced : (∃ f ∈ e :: log, f.commits = true) → 0 < m'.spot)
    (hresumes : ∀ r, now' ≤ r → ResumesAfter r (e :: log) → m'.Resumes r)
    (hpaused : m.pausedUntil ≤ m'.pausedUntil)
    (harmed : ∀ d, Arms e log d → saturatingAdd 64 e.slot d ≤ m'.pausedUntil)
    (hliquidated : e.note = .liquidated → m.pausedUntil ≤ e.slot) :
    GraceInv now' m' (e :: log) where
  past := by
    intro f hf
    rcases List.mem_cons.mp hf with rfl | hf
    · exact hslot.le
    · exact (h.past f hf).trans hnow
  priced := hpriced
  resumes := hresumes
  armed := by
    intro f earlier d hsuffix harms
    rcases List.suffix_cons_iff.mp hsuffix with heq | hsuffix
    · obtain ⟨rfl, rfl⟩ := List.cons.inj heq
      exact harmed d harms
    · exact (h.armed f earlier d hsuffix harms).trans hpaused
  respected := by
    intro f earlier hsuffix hnote g before d hbefore harms
    rcases List.suffix_cons_iff.mp hsuffix with heq | hsuffix
    · obtain ⟨rfl, rfl⟩ := List.cons.inj heq
      exact (h.armed g before d hbefore harms).trans (hliquidated hnote)
    · exact h.respected f earlier hsuffix hnote g before d hbefore harms

/-- An entry that is neither a commit nor a rebind leaves open what the next commit resumes. -/
theorem ResumesAfter.of_cons {r : ℕ} (h : ResumesAfter r (e :: log)) (hcommits : e.commits = false)
    (hnote : e.note ≠ .rebound) : ResumesAfter r log := by
  obtain ⟨⟨f, hf, hfc⟩, hwhy⟩ := h
  have hmem : f ∈ log := by
    rcases List.mem_cons.mp hf with rfl | hf
    · rw [hcommits] at hfc
      cases hfc
    · exact hf
  refine ⟨⟨f, hmem, hfc⟩, ?_⟩
  rcases hwhy with hold | ⟨since, b, before, heq, hb, hbslot, hsince⟩
  · exact .inl fun g hg ↦ hold g (List.mem_cons_of_mem e hg)
  · cases since with
    | nil =>
      obtain ⟨rfl, -⟩ := List.cons.inj heq
      exact absurd hb hnote
    | cons g since =>
      obtain ⟨-, rfl⟩ := List.cons.inj heq
      exact .inr ⟨since, b, before, rfl, hb, hbslot, fun f hf ↦
        hsince f (List.mem_cons_of_mem g hf)⟩

theorem ResumesAfter.of_commit {r : ℕ} (h : ResumesAfter r (e :: log))
    (hcommits : e.commits = true) :
    MAX_PRICE_STALENESS_SLOTS < r - e.slot := by
  rcases h.2 with hold | ⟨since, b, before, heq, hb, -, hsince⟩
  · exact hold e List.mem_cons_self hcommits
  · cases since with
    | nil =>
      obtain ⟨rfl, -⟩ := List.cons.inj heq
      simp [GraceEntry.commits, hb] at hcommits
    | cons g since =>
      obtain ⟨rfl, -⟩ := List.cons.inj heq
      rw [hsince _ List.mem_cons_self] at hcommits
      cases hcommits

theorem ResumesAfter.of_rebound {r : ℕ} (h : ResumesAfter r (e :: log)) (hnote : e.note = .rebound)
    (hpast : ∀ f ∈ log, f.slot ≤ e.slot) (hr : e.slot ≤ r) :
    MAX_PRICE_STALENESS_SLOTS < r - (e.slot - (MAX_PRICE_STALENESS_SLOTS + 1)) := by
  have hlate : MAX_PRICE_STALENESS_SLOTS < r := by
    obtain ⟨⟨f, hf, hfc⟩, hwhy⟩ := h
    rcases hwhy with hold | ⟨since, b, before, heq, -, hbslot, -⟩
    · have := hold f hf hfc
      omega
    · have hb : b ∈ e :: log := by
        rw [heq]
        simp
      rcases List.mem_cons.mp hb with rfl | hb
      · omega
      · have := hpast b hb
        omega
  omega

end Rules

/-! ## The writers of the pauses -/

section Writers

variable {m : Market} {slot : ℕ} {c : PriceCommit}

theorem Market.le_divergenceAfter : m.liqDivergenceUntil ≤ m.divergenceAfter slot c := by
  unfold Market.divergenceAfter
  split
  · exact le_max_left _ _
  · exact le_rfl

theorem Market.divergenceAfter_armed (h : c.liqDivergent = true) :
    saturatingAdd 64 slot LIQ_DIVERGENCE_GRACE_SLOTS ≤ m.divergenceAfter slot c := by
  rw [Market.divergenceAfter, if_pos h]
  exact le_max_right _ _

theorem Market.le_graceAfter : m.liqGraceUntil ≤ m.graceAfter slot c := by
  have hresumed : m.liqGraceUntil ≤ if m.Resumes slot then
      max m.liqGraceUntil (saturatingAdd 64 slot LIQ_RESUME_GRACE_SLOTS) else m.liqGraceUntil := by
    split
    · exact le_max_left _ _
    · exact le_rfl
  unfold Market.graceAfter
  dsimp only
  split
  next => exact hresumed.trans (le_max_left _ _)
  next => exact hresumed

theorem Market.graceAfter_armed (h : m.Resumes slot ∨ c.rateFell = true) :
    saturatingAdd 64 slot LIQ_RESUME_GRACE_SLOTS ≤ m.graceAfter slot c := by
  unfold Market.graceAfter
  dsimp only
  rcases h with h | h
  · rw [if_pos h]
    split
    next => exact (le_max_right _ _).trans (le_max_left _ _)
    next => exact le_max_right _ _
  · rw [if_pos h]
    exact le_max_right _ _

theorem Market.le_graceAfterChange {param : MarketParam} {value : ℕ} :
    m.liqGraceUntil ≤ m.graceAfterChange slot param value := by
  unfold Market.graceAfterChange
  split
  · exact le_max_left _ _
  · exact le_rfl

theorem Market.graceAfterChange_armed {param : MarketParam} {value : ℕ}
    (h : m.mcrBps < (applyParam m param value).mcrBps) :
    saturatingAdd 64 slot MCR_RAISE_GRACE_SLOTS ≤ m.graceAfterChange slot param value := by
  have hraise : param = .mcr ∧ m.mcrBps < truncate 16 value := by
    cases param with
    | mcr => exact ⟨rfl, h⟩
    | _ => exact absurd h (lt_irrefl _)
  rw [Market.graceAfterChange, if_pos hraise]
  exact le_max_right _ _

end Writers

/-! ## Stored rates -/

section Rates

variable {ids : OraclePrograms} {clk : Clock} {mint : Pubkey} {decimals : ℕ}
  {accs : PriceAccounts} {o o' : MarketOracle} {ring : DexTwap}

/-- Exactly a canonical-primary market composes a rate. -/
theorem readViews_rate {v : Views} (h : readViews ids clk mint accs o = .ok (some v)) :
    v.rate.isSome = o.canonicalPrimary := by
  simp only [readViews, bind_eq_ok_iff] at h
  obtain ⟨pyth, -, switchboard, -, h⟩ := h
  rcases ite_eq_ok.mp h with ⟨hcanonical, h⟩ | ⟨hcanonical, h⟩
  · simp only [composeViews, bind_eq_ok_iff] at h
    obtain ⟨sample, -, h⟩ := h
    split at h
    next => cases pure_eq_ok.mp h
    next =>
      simp only [bind_eq_ok_iff, pure_eq_ok, Option.some.injEq] at h
      obtain ⟨rate, -, _, -, _, -, rfl⟩ := h
      exact hcanonical.symm
  · simp only [bind_eq_ok_iff, pure_eq_ok, Option.some.injEq] at h
    obtain ⟨canonical, -, rfl⟩ := h
    simpa using hcanonical

/-- A commit of a canonical-primary market stores its rate and compares it with the one before;
every other update leaves the stored rate alone. -/
theorem priceUpdate_rate {c : PriceCommit}
    (h : priceUpdate ids clk mint decimals accs o ring = .ok (some c, o')) :
    o'.canonicalPrimary = o.canonicalPrimary ∧
      ((c.commits && o.canonicalPrimary) = true → o'.lastCanonicalRateRay < o.lastCanonicalRateRay →
        c.rateFell = true) ∧
      ((c.commits && o.canonicalPrimary) = false →
        o'.lastCanonicalRateRay = o.lastCanonicalRateRay) := by
  cases priceUpdate_cases h with
  | assessed v price hviews hprice =>
    have hrate := readViews_rate hviews
    cases price with
    | none => exact ⟨rfl, fun hc ↦ (by cases hc), fun _ ↦ rfl⟩
    | some price =>
      obtain ⟨spot, debtSpot⟩ := price
      cases hv : v.rate with
      | none =>
        rw [hv, Option.isSome_none] at hrate
        refine ⟨rfl, fun hc ↦ ?_, fun _ ↦ rfl⟩
        rw [← hrate, Bool.and_false] at hc
        cases hc
      | some new =>
        rw [hv, Option.isSome_some] at hrate
        simp only [PriceCommit.commits, Option.any_some, ← hrate, Bool.and_true,
          decide_eq_true_eq, decide_eq_false_iff_not, MarketOracle.remember]
        by_cases hspot : 0 < spot
        · simp only [hspot, if_true, not_true_eq_false, false_imp_iff, and_true, true_imp_iff,
            MarketOracle.rateFell, Option.any_some, Bool.and_eq_true, decide_eq_true_eq]
          exact ⟨trivial, fun hlt ↦ ⟨Nat.zero_lt_of_lt hlt, hlt⟩⟩
        · simp only [hspot, if_false, false_imp_iff, not_false_eq_true, imp_self, and_true]
          exact hrate.symm

/-- The oracle of `k` stores the rate that the history recorded last. -/
def RateKept (s : System) (k : Pubkey) (log : List GraceEntry) : Prop :=
  ∀ old, lastRate log = some old →
    ∃ acc, s.oracles.lookup k = some acc ∧ acc.oracle.lastCanonicalRateRay = old

end Rates

end FusionCore
