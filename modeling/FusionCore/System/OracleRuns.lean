import FusionCore.Oracle.TwapRing
import FusionCore.System.Steps
import Mathlib.Algebra.Order.Floor.Div

/-!
# Oracles along a run

The window of an oracle never changes, so the sampler keeps one least distance for the whole life
of a ring, and a ring that spans the window once spans it for ever.  The bindings of an oracle are
checked at its birth and written once more by a rebind, whose checks are those of a market-feed
oracle.
-/

namespace FusionCore

open Checked Oracle

section Ring

variable {clk : Clock} {s : System} {i : SystemInstr} {k : Pubkey}

theorem applyOracleParam_fixed (o : MarketOracle) (param : OracleParam) (value : ℕ) :
    (applyOracleParam o param value).fixed = o.fixed := by
  cases param <;> rfl

theorem Oracle.sampleTwap_cases {pool : FeedAccount PoolSample} {o : MarketOracle}
    {ring ring' : DexTwap} (h : Oracle.sampleTwap clk k pool o ring = .ok ring') :
    ∃ price, ring.push price clk.unixTimestamp = .ok ring' ∧
      ∀ last ∈ ring.last, last.ts + o.minInterval ≤ clk.unixTimestamp := by
  simp only [Oracle.sampleTwap, bind_eq_ok_iff, okOr_eq_ok, require_eq_ok, mapError_eq_ok,
    exists_const] at h
  obtain ⟨venue, -, -, sample, -, -, price, -, -, hgap, hpush⟩ := h
  refine ⟨price, hpush, ?_⟩
  intro last hlast
  have hdist := hgap last hlast
  linarith

theorem OracleStep.ring {after : Option OracleAccounts} (h : OracleStep clk s i k after)
    {acc : OracleAccounts} (hacc : s.oracles.lookup k = some acc) :
    ∃ acc', after = some acc' ∧ acc'.oracle.fixed = acc.oracle.fixed ∧
      (acc'.ring = acc.ring ∨
        ∃ price, acc.ring.push price clk.unixTimestamp = .ok acc'.ring ∧
          ∀ last ∈ acc.ring.last, last.ts + acc.oracle.minInterval ≤ clk.unixTimestamp) := by
  cases h with
  | keep hi => exact ⟨acc, hacc, rfl, .inl rfl⟩
  | birth authority quoteMint args oracle hi hnone hinit =>
    rw [hacc] at hnone
    cases hnone
  | sampled pool hi acc₀ ring hacc₀ hsample =>
    obtain rfl : acc₀ = acc := Option.some.inj (hacc₀.symm.trans hacc)
    exact ⟨_, rfl, rfl, .inr (Oracle.sampleTwap_cases hsample)⟩
  | priced accs hi acc₀ commit oracle hacc₀ hprice =>
    obtain rfl : acc₀ = acc := Option.some.inj (hacc₀.symm.trans hacc)
    refine ⟨_, rfl, ?_, .inl rfl⟩
    cases priceUpdate_cases hprice with
    | withheld hviews => rfl
    | assessed v price hviews hp => exact (MarketOracle.remember_current _ price v.rate).2
  | rebound authority b hi acc₀ oracle hacc₀ hrebind =>
    obtain rfl : acc₀ = acc := Option.some.inj (hacc₀.symm.trans hacc)
    exact ⟨_, rfl, (MarketOracle.rebind_spec hrebind).2.1, .inl rfl⟩
  | governed nonce withOracle param value hi acc₀ hacc₀ hparam =>
    obtain rfl : acc₀ = acc := Option.some.inj (hacc₀.symm.trans hacc)
    exact ⟨_, rfl, applyOracleParam_fixed _ _ _, .inl rfl⟩

theorem MarketOracle.window_of_fixed {o o' : MarketOracle} (h : o'.fixed = o.fixed) :
    o'.twapWindowSecs = o.twapWindowSecs :=
  (Prod.mk.inj h).1

theorem MarketOracle.minInterval_of_fixed {o o' : MarketOracle} (h : o'.fixed = o.fixed) :
    o'.minInterval = o.minInterval := by
  unfold MarketOracle.minInterval
  rw [MarketOracle.window_of_fixed h]

/-- The samples of a ring keep the distance of its oracle, and none lies in the future. -/
structure OracleAccounts.Sampled (acc : OracleAccounts) (now : ℤ) : Prop where
  spaced : acc.ring.Spaced acc.oracle.minInterval
  past : ∀ last ∈ acc.ring.last, last.ts ≤ now

theorem OracleAccounts.Sampled.mono {acc : OracleAccounts} {now now' : ℤ} (h : acc.Sampled now)
    (hle : now ≤ now') : acc.Sampled now' :=
  ⟨h.spaced, fun last hlast ↦ (h.past last hlast).trans hle⟩

theorem OracleStep.sampled_inv {after : Option OracleAccounts} (h : OracleStep clk s i k after)
    (hinv : ∀ acc ∈ s.oracles.lookup k, acc.Sampled clk.unixTimestamp) :
    ∀ acc ∈ after, acc.Sampled clk.unixTimestamp := by
  intro acc' hafter
  cases hacc : s.oracles.lookup k with
  | none =>
    cases h with
    | birth authority quoteMint args oracle hi hnone hinit =>
      obtain rfl := Option.some.inj hafter
      refine ⟨ObservationRing.spaced_new _, ?_⟩
      intro last hlast
      cases hlast
    | keep hi =>
      rw [hacc] at hafter
      cases hafter
    | sampled _ _ _ _ hsome | priced _ _ _ _ _ hsome | rebound _ _ _ _ _ hsome
    | governed _ _ _ _ _ _ hsome =>
      rw [hacc] at hsome
      cases hsome
  | some acc =>
    obtain ⟨acc₁, rfl, hfixed, hring⟩ := h.ring hacc
    obtain rfl := Option.some.inj hafter
    have hacc := hinv acc hacc
    have hgap := MarketOracle.minInterval_of_fixed hfixed
    rcases hring with hsame | ⟨price, hpush, hdist⟩
    · constructor
      · rw [hsame, hgap]
        exact hacc.spaced
      · rw [hsame]
        exact hacc.past
    · constructor
      · rw [hgap]
        exact hacc.spaced.push hpush hdist
      · -- the newest sample is the one just taken
        have hcount := ObservationRing.count_push hpush
        have hpos : 0 < acc₁.ring.count := by
          rw [hcount]
          exact lt_min (Nat.succ_pos _) (by decide)
        intro last hlast
        rw [ObservationRing.last_eq_nth hpos,
          ObservationRing.nth_push_newest hpush (Nat.sub_add_cancel hpos)] at hlast
        obtain rfl := Option.some.inj hlast
        exact le_rfl

theorem fusion_sampled {G : SystemEvent → SystemWorld → Prop} {w : SystemWorld}
    (h : fusion.Reachable G w) :
    w.system.oracles.All fun acc ↦ acc.Sampled w.clock.unixTimestamp := by
  refine h.all_entries (P := fun w acc ↦ acc.Sampled w.clock.unixTimestamp) fusion_init_oracles ?_
  intro e w w' mint hreach hg hs ih
  obtain ⟨hclk, hrun, hclk'⟩ := hs
  rw [hclk']
  have hnow : (w.clock.unixTimestamp : ℤ) ≤ e.clock.unixTimestamp :=
    Int.ofNat_le.mpr hclk.unixTimestamp
  refine ((SystemInstr.run_cases hrun).oracle_step mint).sampled_inv ?_
  intro acc hacc
  exact (ih acc hacc).mono hnow

theorem OracleAccounts.Sampled.oldest_le {acc : OracleAccounts} {now : ℤ} (h : acc.Sampled now)
    (hfull : acc.ring.count = TWAP_RING_CAPACITY) :
    (acc.ring.nth 0).ts ≤ now - acc.oracle.twapWindowSecs := by
  have hpos : 0 < acc.ring.count := by
    rw [hfull]
    decide
  have hnewest := h.past _ (ObservationRing.last_eq_nth hpos)
  have hspan := h.spaced.oldest_add_le (Nat.sub_lt hpos Nat.one_pos)
  have hwindow : acc.oracle.twapWindowSecs ≤ (acc.ring.count - 1) * acc.oracle.minInterval := by
    rw [hfull]
    unfold MarketOracle.minInterval
    have hgaps : TWAP_RING_CAPACITY - 1 = 63 := rfl
    rw [hgaps]
    omega
  have hwindow' : (acc.oracle.twapWindowSecs : ℤ) ≤
      ((acc.ring.count - 1 : ℕ) : ℤ) * acc.oracle.minInterval := by
    exact_mod_cast hwindow
  linarith

/-- Along a run the oldest observation stays, unless the ring has filled up. -/
theorem fusion_leads_oldest {G : SystemEvent → SystemWorld → Prop} {w w' : SystemWorld}
    (h : fusion.Reachable G w) (hleads : fusion.Leads G w w') {acc : OracleAccounts}
    (hacc : w.system.oracles.lookup k = some acc) (hpos : 0 < acc.ring.count) :
    ∃ acc', w'.system.oracles.lookup k = some acc' ∧ acc'.oracle.fixed = acc.oracle.fixed ∧
      0 < acc'.ring.count ∧
      (acc'.ring.count = TWAP_RING_CAPACITY ∨ acc'.ring.nth 0 = acc.ring.nth 0) := by
  refine hleads.invariant (P := fun w' ↦ ∃ acc', w'.system.oracles.lookup k = some acc' ∧
    acc'.oracle.fixed = acc.oracle.fixed ∧ 0 < acc'.ring.count ∧
      (acc'.ring.count = TWAP_RING_CAPACITY ∨ acc'.ring.nth 0 = acc.ring.nth 0)) h ?_ ?_
  · exact ⟨acc, hacc, rfl, hpos, .inr rfl⟩
  · rintro e t t' - ⟨acc₁, hacc₁, hfixed, hpos₁, holdest⟩ - ⟨-, hrun, -⟩
    obtain ⟨acc₂, hacc₂, hfixed₂, hring⟩ := ((SystemInstr.run_cases hrun).oracle_step k).ring hacc₁
    refine ⟨acc₂, hacc₂, hfixed₂.trans hfixed, ?_⟩
    rcases hring with hsame | ⟨price, hpush, -⟩
    · rw [hsame]
      exact ⟨hpos₁, holdest⟩
    · have hcount := ObservationRing.count_push hpush
      have hle := acc₁.ring.count_le
      refine ⟨by omega, ?_⟩
      rcases Nat.lt_or_ge acc₁.ring.count TWAP_RING_CAPACITY with hfree | hfull
      · refine holdest.imp (fun heq ↦ absurd heq hfree.ne) ?_
        intro heq
        rw [ObservationRing.oldest_push hpush hpos₁ hfree]
        exact heq
      · exact .inl (by omega)

/-- Whoever samples, and however often: retained samples are a window's share apart, and a ring
that covers the window at one moment covers it at every later one. -/
theorem fusion_twap_coverage {w : SystemWorld} (h : fusion.Reach w) {mint : Pubkey}
    {acc : OracleAccounts} (hacc : w.system.oracles.lookup mint = some acc) :
    (∀ j, j + 1 < acc.ring.count →
      (acc.ring.nth j).ts < (acc.ring.nth (j + 1)).ts ∧
      (acc.ring.nth j).ts + (acc.oracle.twapWindowSecs ⌈/⌉ (TWAP_RING_CAPACITY - 1) : ℕ) ≤
        (acc.ring.nth (j + 1)).ts) ∧
    ∀ t t' : ℤ, 0 < acc.ring.count → (acc.ring.nth 0).ts ≤ t - acc.oracle.twapWindowSecs →
      t ≤ t' → ∀ w', fusion.Leads (fun _ _ ↦ True) w w' → w'.clock.unixTimestamp ≤ t' →
      ∃ acc', w'.system.oracles.lookup mint = some acc' ∧
        acc'.oracle.twapWindowSecs = acc.oracle.twapWindowSecs ∧ 0 < acc'.ring.count ∧
        (acc'.ring.nth 0).ts ≤ t' - acc.oracle.twapWindowSecs := by
  constructor
  · intro j hj
    have hgap := (fusion_sampled h mint acc hacc).spaced j hj
    have hwindow := (fusion_oracles_valid h mint acc hacc).window.1
    have hceil : acc.oracle.minInterval =
        acc.oracle.twapWindowSecs ⌈/⌉ (TWAP_RING_CAPACITY - 1) := by
      rw [Nat.ceilDiv_eq_add_pred_div]
      rfl
    have hone : 0 < acc.oracle.minInterval := by
      unfold MarketOracle.minInterval
      have hgaps : TWAP_RING_CAPACITY - 1 = 63 := rfl
      have hleast : MIN_TWAP_WINDOW_SECS = 300 := rfl
      rw [hgaps]
      omega
    rw [← hceil]
    exact ⟨by omega, hgap⟩
  · intro t t' hpos hcovers htt' w' hleads hnow
    obtain ⟨acc', hacc', hfixed, hpos', holdest⟩ := fusion_leads_oldest h hleads hacc hpos
    have hsame := MarketOracle.window_of_fixed hfixed
    refine ⟨acc', hacc', hsame, hpos', ?_⟩
    rcases holdest with hfull | holdest
    · have hspan := (fusion_sampled (h.leads hleads) mint acc' hacc').oldest_le hfull
      rw [hsame] at hspan
      linarith
    · rw [holdest]
      linarith

namespace Sample

/-- The oracle of a market with feeds of its own and one pool to sample. -/
def marketFeedArgs : InitMarketOracleArgs :=
  { oracleArgs with
    pythFeedId := 71
    orcaPool := 73
    lstStakePool := 0
    canonicalPrimary := false
    liquidityHaircutBps := 0 }

/-- A pool in which a token is worth a thousand dollars. -/
def dexPool : FeedAccount PoolSample :=
  ⟨73, ORCA_WHIRLPOOL_PROGRAM_ID, some ⟨2 ^ 64, 7, 8, none⟩⟩

/-- Two samples, five seconds apart. -/
def sampled : List SystemEvent :=
  at_ ⟨1000, 1000, 0⟩
      [initMarket,
        .initMarketOracle 1 7 8 marketFeedArgs, .sampleTwap 7 dexPool] ++
    at_ ⟨1010, 1005, 0⟩ [.sampleTwap 7 dexPool]

/-- A third, when the first is older than the window. -/
def resampled : SystemEvent := ⟨⟨2000, 1310, 0⟩, .sampleTwap 7 dexPool⟩

end Sample

/-- Two samples cover the window at 1300; a sample is taken at 1310, and the ring covers the window
then. -/
theorem fusion_twap_coverage_sample :
    ∃ w w' acc acc', fusion.Reach w ∧ fusion.step Sample.resampled w w' ∧
      w.system.oracles.lookup 7 = some acc ∧ w'.system.oracles.lookup 7 = some acc' ∧
      acc.ring.count = 2 ∧ acc'.ring.count = 3 ∧ (acc.ring.nth 0).ts < (acc.ring.nth 1).ts ∧
      (acc.ring.nth 0).ts ≤ 1300 - acc.oracle.twapWindowSecs ∧
      (acc'.ring.nth 0).ts ≤ 1310 - acc.oracle.twapWindowSecs := by
  obtain ⟨w, w', hw, hstep, htest⟩ := @Sample.of_testLast Sample.sampled Sample.resampled
    (fun w w' ↦ (w.system.oracles.lookup 7).any fun acc : OracleAccounts ↦
      (w'.system.oracles.lookup 7).any fun acc' : OracleAccounts ↦
        decide (acc.ring.count = 2 ∧ acc'.ring.count = 3 ∧
          (acc.ring.nth 0).ts ≤ 1300 - acc.oracle.twapWindowSecs))
    (by decide +kernel)
  simp only [decide_eq_true_eq, Option.any_eq_true] at htest
  obtain ⟨acc, hacc, acc', hacc', hcount, hcount', hcovers⟩ := htest
  obtain ⟨hspaced, hcovered⟩ := fusion_twap_coverage hw hacc
  obtain ⟨later, hlater, -, -, hle⟩ := hcovered 1300 1310 (by omega) hcovers (by decide) w'
    (.step _ .refl trivial hstep) (by rw [hstep.2.2]; decide)
  obtain rfl := Option.some.inj (hacc'.symm.trans hlater)
  exact ⟨w, w', acc, acc', hw, hstep, hacc, hacc', hcount, hcount', (hspaced 0 (by omega)).1,
    hcovers, hle⟩

end Ring

/-! ## Bindings -/

/-- The rules for the bindings of an oracle, as its creation checks them. -/
structure Oracle.MarketOracle.Bound (o : MarketOracle) : Prop where
  canonical : o.canonicalPrimary = true →
    o.pythFeedId = PYTH_SOL_USD_FEED_ID ∧ (o.orcaPool = 0 ∧ o.raydiumPool = 0) ∧
      o.lstStakePool ≠ 0 ∧
      0 < o.liquidityHaircutBps ∧ o.liquidityHaircutBps ≤ MAX_LIQUIDITY_HAIRCUT_BPS
  market : o.canonicalPrimary = false →
    (o.orcaPool ≠ 0 ∨ o.raydiumPool ≠ 0) ∧ o.liquidityHaircutBps = 0
  feeds : o.pythFeedId ≠ 0 ∧ o.switchboardFeed ≠ 0
  distinct : o.orcaPool = 0 ∨ o.raydiumPool = 0 ∨ o.orcaPool ≠ o.raydiumPool

/-- Everything the rules speak of. -/
def Oracle.MarketOracle.bindings (o : MarketOracle) : FeedBindings × Pubkey × Bool × ℕ :=
  (⟨o.pythFeedId, o.switchboardFeed, o.orcaPool, o.raydiumPool⟩, o.lstStakePool,
    o.canonicalPrimary, o.liquidityHaircutBps)

section Bindings

variable {clk : Clock} {s : System} {i : SystemInstr} {k : Pubkey} {o o' : MarketOracle}

theorem Oracle.MarketOracle.Bound.of_bindings (h : o.Bound) (heq : o'.bindings = o.bindings) :
    o'.Bound := by
  simp only [MarketOracle.bindings, Prod.mk.injEq, FeedBindings.mk.injEq] at heq
  obtain ⟨⟨hpyth, hsb, horca, hray⟩, hpool, hmode, hcut⟩ := heq
  constructor
  · rw [hpyth, horca, hray, hpool, hmode, hcut]
    exact h.canonical
  · rw [horca, hray, hmode, hcut]
    exact h.market
  · rw [hpyth, hsb]
    exact h.feeds
  · rw [horca, hray]
    exact h.distinct

theorem initMarketOracle_bound {cfg : Config} {authority mint quoteMint : Pubkey}
    {decimals quoteDecimals : ℕ} {args : InitMarketOracleArgs}
    (h : Oracle.initMarketOracle cfg authority mint decimals quoteMint quoteDecimals args = .ok o) :
    o.Bound := by
  simp only [Oracle.initMarketOracle, bind_eq_ok_iff, require_eq_ok, pure_eq_ok, exists_const] at h
  obtain ⟨-, hpyth, hsb, _, hmode, hdistinct, -, -, -, -, -, -, -, -, -, _, -, -, -, -, rfl⟩ := h
  refine ⟨?_, ?_, ⟨hpyth, hsb⟩, hdistinct⟩
  · intro hcanonical
    change args.canonicalPrimary = true at hcanonical
    simp only [InitMarketOracleArgs.checkMode, hcanonical, if_true, bind_eq_ok_iff, require_eq_ok,
      exists_const] at hmode
    obtain ⟨hfeed, hpool, hunset, hcut⟩ := hmode
    exact ⟨hfeed, hunset, hpool, hcut⟩
  · intro hmarket
    change args.canonicalPrimary = false at hmarket
    simp only [InitMarketOracleArgs.checkMode, hmarket, Bool.false_eq_true, if_false,
      bind_eq_ok_iff, require_eq_ok, exists_const] at hmode
    exact hmode

theorem Oracle.MarketOracle.remember_bindings (o : MarketOracle) (price : Option (ℕ × ℕ))
    (rate : Option ℕ) : (o.remember price rate).bindings = o.bindings := by
  unfold MarketOracle.remember
  split
  · split
    · rfl
    · rfl
  · rfl

theorem applyOracleParam_bindings (o : MarketOracle) (param : OracleParam) (value : ℕ) :
    (applyOracleParam o param value).bindings = o.bindings := by
  cases param <;> rfl

/-- The checks of a rebind are those of the mode without a canonical rate: it keeps the rules of an
oracle in that mode, and breaks them in the other. -/
theorem Oracle.MarketOracle.Bound.rebind_iff {b : FeedBindings} (ho : o.Bound)
    (h : o.rebind b = .ok o') : o'.Bound ↔ o.canonicalPrimary = false := by
  simp only [MarketOracle.rebind, bind_eq_ok_iff, require_eq_ok, pure_eq_ok, exists_const] at h
  obtain ⟨hpyth, hsb, hpools, hdistinct, rfl⟩ := h
  constructor
  · intro hbound
    by_contra hmode
    obtain ⟨-, ⟨horca, hray⟩, -⟩ := hbound.canonical (Bool.not_eq_false _ ▸ hmode)
    rcases hpools with hset | hset
    · exact hset horca
    · exact hset hray
  · intro hmode
    refine ⟨?_, ?_, ⟨hpyth, hsb⟩, hdistinct⟩
    · intro hcanonical
      change o.canonicalPrimary = true at hcanonical
      rw [hmode] at hcanonical
      cases hcanonical
    · intro _
      exact ⟨hpools, (ho.market hmode).2⟩

/-- Feeds are rebound only for oracles that price from feeds of their own. -/
def MarketFeedRebinds (e : SystemEvent) (w : SystemWorld) : Prop :=
  match e.instr with
  | .rebindMarketOracleFeeds _ mint _ =>
    ∀ acc ∈ w.system.oracles.lookup mint, acc.oracle.canonicalPrimary = false
  | _ => True

instance decidableMarketFeedRebinds (e : SystemEvent) (w : SystemWorld) :
    Decidable (MarketFeedRebinds e w) := by
  obtain ⟨_, instr⟩ := e
  unfold MarketFeedRebinds
  cases instr <;> infer_instance

theorem OracleStep.bound {after : Option OracleAccounts} (h : OracleStep clk s i k after)
    (hguard : ∀ authority b, i = .rebindMarketOracleFeeds authority k b →
      ∀ acc ∈ s.oracles.lookup k, acc.oracle.canonicalPrimary = false)
    (hbound : ∀ acc ∈ s.oracles.lookup k, acc.oracle.Bound) : ∀ acc ∈ after, acc.oracle.Bound := by
  cases h with
  | keep hi => exact hbound
  | birth authority quoteMint args oracle hi hnone hinit =>
    rintro _ ⟨⟩
    exact initMarketOracle_bound hinit
  | sampled pool hi acc ring hacc hsample =>
    rintro _ ⟨⟩
    exact hbound acc hacc
  | priced accs hi acc commit oracle hacc hprice =>
    rintro _ ⟨⟩
    cases priceUpdate_cases hprice with
    | withheld hviews => exact hbound acc hacc
    | assessed v price hviews hp =>
      exact (hbound acc hacc).of_bindings (MarketOracle.remember_bindings _ _ _)
  | rebound authority b hi acc oracle hacc hrebind =>
    rintro _ ⟨⟩
    exact ((hbound acc hacc).rebind_iff hrebind).mpr (hguard authority b hi acc hacc)
  | governed nonce withOracle param value hi acc hacc hparam =>
    rintro _ ⟨⟩
    exact (hbound acc hacc).of_bindings (applyOracleParam_bindings _ _ _)

theorem fusion_bound {w : SystemWorld} (h : fusion.Reachable MarketFeedRebinds w) :
    w.system.oracles.All fun acc ↦ acc.oracle.Bound := by
  refine h.all_entries (P := fun _ acc ↦ acc.oracle.Bound) fusion_init_oracles ?_
  intro e w w' mint hreach hg hs ih
  obtain ⟨-, hrun, -⟩ := hs
  refine ((SystemInstr.run_cases hrun).oracle_step mint).bound ?_ ih
  intro authority b hi
  rw [MarketFeedRebinds, hi] at hg
  exact hg

/-- A view composed with a pool rate comes from an update of the bound feed. -/
theorem readViews_feed {ids : OraclePrograms} {accs : PriceAccounts} {v : Views}
    (h : readViews ids clk k accs o = .ok (some v)) :
    (∃ update, accs.pyth.data = some update ∧ update.feedId = o.pythFeedId) ∧
      (v.rate.isSome → o.canonicalPrimary = true) := by
  simp only [readViews, bind_eq_ok_iff] at h
  obtain ⟨pyth, hpyth, sb, -, h⟩ := h
  constructor
  · simp only [parsePyth, bind_eq_ok_iff, okOr_eq_ok, require_eq_ok, exists_const] at hpyth
    obtain ⟨-, update, hupdate, -, hfeed, -⟩ := hpyth
    exact ⟨update, hupdate, hfeed⟩
  · intro hrate
    rcases ite_eq_ok.mp h with ⟨hmode, -⟩ | ⟨-, h⟩
    · exact hmode
    · simp only [bind_eq_ok_iff, pure_eq_ok, Option.some.injEq] at h
      obtain ⟨canonical, -, rfl⟩ := h
      cases hrate

/-- In every run that rebinds only market-feed oracles the rules of birth hold of every oracle, and
only a dollar price of SOL is ever multiplied with a pool rate.  For a rebind that succeeds the
condition is exact. -/
theorem fusion_bindings {w : SystemWorld} (h : fusion.Reachable MarketFeedRebinds w)
    {mint : Pubkey} {acc : OracleAccounts} (hacc : w.system.oracles.lookup mint = some acc) :
    acc.oracle.Bound ∧
    (∀ ids clk accs v, readViews ids clk mint accs acc.oracle = .ok (some v) → v.rate.isSome →
      ∃ update, accs.pyth.data = some update ∧ update.feedId = PYTH_SOL_USD_FEED_ID) ∧
    ∀ b oracle, acc.oracle.rebind b = .ok oracle →
      (oracle.Bound ↔ acc.oracle.canonicalPrimary = false) := by
  have hbound := fusion_bound h mint acc hacc
  refine ⟨hbound, ?_, fun b oracle hrebind ↦ hbound.rebind_iff hrebind⟩
  intro ids clk accs v hviews hrate
  obtain ⟨⟨update, hupdate, hfeed⟩, hmode⟩ := readViews_feed hviews
  exact ⟨update, hupdate, hfeed.trans (hbound.canonical (hmode hrate)).1⟩

namespace Sample

/-- The sampled oracle moves to another pool and another feed. -/
def rebound : List SystemEvent :=
  sampled ++ at_ ⟨1100, 1100, 0⟩ [.rebindMarketOracleFeeds 1 7 ⟨81, 82, 0, 83⟩]

/-- The oracle of the launch prices from the dollar price of SOL; a rebind gives it another feed. -/
def misbound : List SystemEvent :=
  at_ ⟨1000, 1000, 0⟩ (launch ++ [.rebindMarketOracleFeeds 1 7 ⟨81, 72, 83, 0⟩])

/-- The prices of `feeds`, published under another feed. -/
def misboundFeeds (clk : Clock) (cents : ℕ) : PriceAccounts :=
  { feeds clk cents with
    pyth := ⟨90, 501, some ⟨true, 81, cents * 10 ^ 6, 0, -8, clk.unixTimestamp⟩⟩ }

end Sample

theorem fusion_bindings_sample :
    ∃ w acc, fusion.Reachable MarketFeedRebinds w ∧ w.system.oracles.lookup 7 = some acc ∧
      acc.oracle.raydiumPool = 83 ∧ acc.oracle.Bound := by
  obtain ⟨w, hw, htest⟩ := @Sample.of_test MarketFeedRebinds _ Sample.rebound
    (fun w : SystemWorld ↦ (w.system.oracles.lookup 7).any fun acc : OracleAccounts ↦
      decide (acc.oracle.raydiumPool = 83)) (by decide +kernel)
  simp only [Option.any_eq_true, decide_eq_true_eq] at htest
  obtain ⟨acc, hacc, hpool⟩ := htest
  exact ⟨w, acc, hw, hacc, hpool, (fusion_bindings hw hacc).1⟩

/-- After a rebind, a price of another feed is multiplied with the rate of the stake pool and
becomes the price of the market. -/
theorem rebind_escapes_bindings :
    ∃ w w' acc state, fusion.Reach w ∧ w.system.oracles.lookup 7 = some acc ∧
      acc.oracle.canonicalPrimary = true ∧ acc.oracle.pythFeedId ≠ PYTH_SOL_USD_FEED_ID ∧
      acc.oracle.orcaPool ≠ 0 ∧ ¬acc.oracle.Bound ∧
      fusion.step ⟨⟨1100, 1100, 0⟩, .updatePrice 7 (Sample.misboundFeeds ⟨1100, 1100, 0⟩ 5000)⟩
        w w' ∧
      w'.system.protocol.markets.lookup 7 = some state ∧ 0 < state.market.spot := by
  obtain ⟨w, w', hw, hstep, htest⟩ := @Sample.of_testLast Sample.misbound
    ⟨⟨1100, 1100, 0⟩, .updatePrice 7 (Sample.misboundFeeds ⟨1100, 1100, 0⟩ 5000)⟩
    (fun w w' : SystemWorld ↦
      ((w.system.oracles.lookup 7).any fun acc : OracleAccounts ↦
        decide (acc.oracle.canonicalPrimary = true ∧
          acc.oracle.pythFeedId ≠ PYTH_SOL_USD_FEED_ID ∧ acc.oracle.orcaPool ≠ 0)) &&
      (w'.system.protocol.markets.lookup 7).any fun state : MarketState ↦
        decide (0 < state.market.spot)) (by decide +kernel)
  simp only [Bool.and_eq_true, Option.any_eq_true, decide_eq_true_eq] at htest
  obtain ⟨⟨acc, hacc, hmode, hfeed, hpool⟩, state, hstate, hspot⟩ := htest
  refine ⟨w, w', acc, state, hw, hacc, hmode, hfeed, hpool, ?_, hstep, hstate, hspot⟩
  intro hbound
  exact hfeed (hbound.canonical hmode).1

end Bindings

end FusionCore
