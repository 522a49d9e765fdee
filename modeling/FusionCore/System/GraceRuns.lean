import FusionCore.System.Grace

/-!
# Every liquidation has waited

One lemma per kind of entry, one for a step of the whole program, and the run theorem: no step
shortens a pause of a market, and a liquidation never comes before a pause that was armed earlier
has ended.
-/

namespace FusionCore

open Checked Oracle

/-! ## One step -/

section Steps

variable {clk : Clock} {s s' : System} {i : SystemInstr} {k : Pubkey} {log : List GraceEntry}

theorem graceNote_eq_none (hi : i.actsOn k = false)
    (hmcr : s.raisesMcr s' k = false) : graceNote k ⟨clk, i⟩ s s' = none := by
  unfold graceNote
  dsimp only
  split
  next mint accs =>
    rw [if_neg]
    simpa [SystemInstr.actsOn] using hi
  next authority mint b =>
    rw [if_neg]
    simpa [SystemInstr.actsOn] using hi
  next nonce mint withOracle =>
    rw [if_neg]
    rintro ⟨-, hraise⟩
    rw [hmcr] at hraise
    cases hraise
  next mint liquidator owner withBackstop hplain =>
    rw [if_neg]
    simpa [SystemInstr.actsOn] using hi
  next => rfl

theorem MarketStep.of_none {after : Option MarketState} (h : MarketStep clk s i k after)
    (hafter : after = none) : i.actsOn k = false ∧ s.protocol.markets.lookup k = none := by
  cases h with
  | keep hi => exact ⟨hi, hafter⟩
  | birth authority freeze args state hi hbefore hinit => cases hafter
  | plain j hplain hi state a' hstate hrun => cases hafter
  | priced accs acc commit oracle hi hacc hprice state a' hstate hrun => cases hafter
  | rebound authority b hi state a' hstate hrun => cases hafter
  | governed nonce withOracle param value hi state a' hstate hrun => cases hafter

theorem raisesMcr_of_keep (h : s'.protocol.markets.lookup k = s.protocol.markets.lookup k) :
    s.raisesMcr s' k = false := by
  unfold System.raisesMcr
  rw [h]
  cases s.protocol.markets.lookup k <;> simp

theorem graceNote_updatePrice {accs : PriceAccounts} {acc : OracleAccounts}
    {commit : Option PriceCommit} {oracle : MarketOracle} (hacc : s.oracles.lookup k = some acc)
    (hprice : priceUpdate s.programs clk k (s.decimals k) accs acc.oracle acc.ring
      = .ok (commit, oracle)) :
    graceNote k ⟨clk, .updatePrice k accs⟩ s s' = commit.map (priceNote · oracle) := by
  simp only [graceNote, if_true, hacc, Option.bind_eq_bind, Option.bind_some, hprice]
  rfl

theorem liquidate_pausedUntil {liquidator owner : Pubkey} {withBackstop : Bool} {a a' : Accounts}
    (hi : Inv clk.unixTimestamp a)
    (h : liquidate clk liquidator owner withBackstop a = .ok a') :
    a.state.market.pausedUntil ≤ clk.slot := by
  obtain ⟨run, rfl⟩ := liquidate_run h
  obtain ⟨x, ts, hacc⟩ := accrue_spec hi.book.clock run.accrue_eq
  obtain ⟨-, -, hgrace, hdivergence⟩ := liquidationGates_eq_ok.mp run.gates
  rw [hacc.eq] at hgrace hdivergence
  exact max_le hgrace hdivergence

/-- The entry of an update. -/
def priceEntry (slot : ℕ) (c : PriceCommit) (oracle : MarketOracle) : GraceEntry :=
  ⟨slot, priceNote c oracle⟩

/-- An update that commits nothing can only arm the pause of a divergence. -/
theorem GraceInv.assessed {now slot : ℕ} {m : Market} {c : PriceCommit} {frozen : Bool}
    {oracle : MarketOracle} (hinv : GraceInv now m log) (hnow : now ≤ slot)
    (hcommits : c.commits = false) :
    GraceInv slot
      { m with mintFrozen := frozen, liqDivergenceUntil := m.divergenceAfter slot c }
      (priceEntry slot c oracle :: log) := by
  have hentry : (priceEntry slot c oracle).commits = false := hcommits
  refine hinv.cons hnow rfl ?_ ?_ (max_le_max le_rfl Market.le_divergenceAfter) ?_ ?_
  · rintro ⟨f, hf, hfc⟩
    refine hinv.priced ⟨f, (List.mem_cons.mp hf).resolve_left ?_, hfc⟩
    rintro rfl
    rw [hentry] at hfc
    cases hfc
  · intro r hr hresumes
    exact hinv.resumes r (hnow.trans hr) (hresumes.of_cons hentry (by simp [priceEntry, priceNote]))
  · intro d harms
    cases harms with
    | raised h => cases h
    | resumed h => rw [hentry] at h; cases h
    | rateFell new old hnew => simp [priceEntry, priceNote, GraceNote.rate, hcommits] at hnew
    | diverged committed rate h =>
      obtain ⟨hdivergent, -, -⟩ := GraceNote.priced.inj h
      exact (Market.divergenceAfter_armed hdivergent).trans (le_max_right _ _)
  · rintro ⟨⟩

/-- An update that commits a price may arm every pause but the one of a raised ratio. -/
theorem GraceInv.committed {now slot spot debtSpot : ℕ} {m : Market} {c : PriceCommit}
    {frozen : Bool} {o oracle : MarketOracle} (hinv : GraceInv now m log) (hnow : now ≤ slot)
    (hpos : 0 < spot) (hcommits : c.commits = true)
    (hrate : ∀ old, lastRate log = some old → o.lastCanonicalRateRay = old)
    (hcanonical : oracle.canonicalPrimary = o.canonicalPrimary)
    (hfell : (c.commits && o.canonicalPrimary) = true →
      oracle.lastCanonicalRateRay < o.lastCanonicalRateRay → c.rateFell = true) :
    GraceInv slot
      { m with
        mintFrozen := frozen
        liqDivergenceUntil := m.divergenceAfter slot c
        liqGraceUntil := m.graceAfter slot c
        spot
        debtSpot
        spotUpdatedSlot := slot }
      (priceEntry slot c oracle :: log) := by
  refine hinv.cons hnow rfl (fun _ ↦ hpos) ?_
    (max_le_max Market.le_graceAfter Market.le_divergenceAfter) ?_ ?_
  · intro r hr hresumes
    exact ⟨hpos, hresumes.of_commit hcommits⟩
  · intro d harms
    cases harms with
    | raised h => cases h
    | resumed h hresumes =>
      exact (Market.graceAfter_armed (.inl (hinv.resumes slot hnow hresumes))).trans
        (le_max_left _ _)
    | rateFell new old hnew hold hlt =>
      have hstores : (c.commits && o.canonicalPrimary) = true := by
        by_contra hno
        simp [priceEntry, priceNote, GraceNote.rate, hcanonical, hno] at hnew
      have hnew' : oracle.lastCanonicalRateRay = new := by
        simpa [priceEntry, priceNote, GraceNote.rate, hcanonical, hstores] using hnew
      have hdrop := hfell hstores (by rw [hnew', hrate old hold]; exact hlt)
      exact (Market.graceAfter_armed (.inr hdrop)).trans (le_max_left _ _)
    | diverged committed rate h =>
      obtain ⟨hdivergent, -, -⟩ := GraceNote.priced.inj h
      exact (Market.divergenceAfter_armed hdivergent).trans (le_max_right _ _)
  · rintro ⟨⟩

theorem GraceInv.unpriced {now slot : ℕ} {m m' : Market} {note : GraceNote}
    (hinv : GraceInv now m log) (hnow : now ≤ slot) (hspot : m'.spot = m.spot)
    (hslot : m'.spotUpdatedSlot = m.spotUpdatedSlot) (hpaused : m.pausedUntil ≤ m'.pausedUntil)
    (hnote : note = .mcrRaised ∨ note = .liquidated)
    (hraised : note = .mcrRaised →
      saturatingAdd 64 slot MCR_RAISE_GRACE_SLOTS ≤ m'.pausedUntil)
    (hliquidated : note = .liquidated → m.pausedUntil ≤ slot) :
    GraceInv slot m' (⟨slot, note⟩ :: log) := by
  have hcommits : GraceEntry.commits ⟨slot, note⟩ = false := by
    rcases hnote with rfl | rfl <;> rfl
  have hframe := hinv.frame hnow hspot hslot hpaused
  refine hinv.cons hnow rfl ?_ ?_ hpaused ?_ hliquidated
  · rintro ⟨f, hf, hfc⟩
    refine hframe.priced ⟨f, (List.mem_cons.mp hf).resolve_left ?_, hfc⟩
    rintro rfl
    rw [hcommits] at hfc
    cases hfc
  · intro r hr hresumes
    refine hframe.resumes r hr (hresumes.of_cons hcommits ?_)
    rcases hnote with rfl | rfl <;> simp
  · intro d harms
    cases harms with
    | raised h => exact hraised h
    | resumed h hresumes => rw [hcommits] at h; cases h
    | rateFell new old hnew => rcases hnote with rfl | rfl <;> cases hnew
    | diverged committed rate h => rcases hnote with rfl | rfl <;> cases h

/-- A rebind dates the freshness clock back, so that the next commit resumes. -/
theorem GraceInv.rebound {now slot anchor : ℕ} {m : Market} (hinv : GraceInv now m log)
    (hnow : now ≤ slot) (hanchor : anchor = slot - (MAX_PRICE_STALENESS_SLOTS + 1)) :
    GraceInv slot { m with spotUpdatedSlot := anchor } (⟨slot, .rebound⟩ :: log) := by
  have hpriced : (∃ f ∈ ⟨slot, .rebound⟩ :: log, f.commits = true) → 0 < m.spot := by
    rintro ⟨f, hf, hfc⟩
    refine hinv.priced ⟨f, (List.mem_cons.mp hf).resolve_left ?_, hfc⟩
    rintro rfl
    cases hfc
  refine hinv.cons hnow rfl hpriced ?_ le_rfl ?_ ?_
  · intro r hr hresumes
    refine ⟨hpriced hresumes.1, ?_⟩
    dsimp only
    rw [hanchor]
    exact hresumes.of_rebound rfl (fun f hf ↦ (hinv.past f hf).trans hnow) hr
  · intro d harms
    cases harms with
    | raised h => cases h
    | resumed h => cases h
    | rateFell new old hnew => cases hnew
    | diverged committed rate h => cases h
  · rintro ⟨⟩

theorem graceNote_plain {j : MarketInstr} {hplain : (Instr.market k j).plain = true} :
    graceNote k ⟨clk, .core (.market k j) hplain⟩ s s' = none ∨
      ((∃ liquidator owner withBackstop, j = .liquidate liquidator owner withBackstop) ∧
        graceNote k ⟨clk, .core (.market k j) hplain⟩ s s' = some .liquidated) := by
  cases j with
  | liquidate liquidator owner withBackstop =>
    exact .inr ⟨⟨_, _, _, rfl⟩, by simp only [graceNote, if_true]⟩
  | _ => exact .inl rfl

theorem MarketStep.grace {now : ℕ} {after : Option MarketState} (h : MarketStep clk s i k after)
    (hafter : s'.protocol.markets.lookup k = after) (hprotocol : s.protocol.Inv clk.unixTimestamp)
    (hnow : now ≤ clk.slot) (hnone : s.protocol.markets.lookup k = none → log = [])
    (hinv : ∀ state ∈ s.protocol.markets.lookup k, GraceInv now state.market log)
    (hrate : RateKept s k log) :
    ∀ state ∈ after, GraceInv clk.slot state.market
      (addNote clk.slot (graceNote k ⟨clk, i⟩ s s') log) := by
  cases h with
  | keep hi =>
    rw [graceNote_eq_none hi (raisesMcr_of_keep hafter)]
    intro state hstate
    exact (hinv state hstate).frame hnow rfl rfl le_rfl
  | birth authority freeze args state hi hbefore hinit =>
    rw [graceNote_eq_none hi (by simp [System.raisesMcr, hbefore]), hnone hbefore]
    rintro _ ⟨⟩
    exact .nil _ _
  | plain j hplain hi state a' hstate hrun =>
    rintro _ ⟨⟩
    subst hi
    have hmarket := (hprotocol.markets k state hstate).2
    have hterms := (MarketInstr.run_framed hplain hmarket hrun).terms
    have hspot := congrArg Terms.spot hterms
    have hslot := congrArg Terms.spotUpdatedSlot hterms
    have hpaused : state.market.pausedUntil ≤ a'.state.market.pausedUntil :=
      (max_le_max (congrArg Terms.liqGraceUntil hterms).ge
        (congrArg Terms.liqDivergenceUntil hterms).ge)
    rcases @graceNote_plain clk s s' k j hplain with
      hnote | ⟨⟨liquidator, owner, withBackstop, rfl⟩, hnote⟩
    · rw [hnote]
      exact (hinv state hstate).frame hnow hspot hslot hpaused
    · rw [hnote]
      exact (hinv state hstate).unpriced hnow hspot hslot hpaused (.inr rfl) (by simp)
        fun _ ↦ liquidate_pausedUntil hmarket hrun
  | priced accs acc commit oracle hi hacc hprice state a' hstate hrun =>
    rintro _ ⟨⟩
    subst hi
    rw [graceNote_updatePrice hacc hprice]
    obtain ⟨m, hm, rfl⟩ := updatePrice_cases hrun
    have hstored : ∀ old, lastRate log = some old → acc.oracle.lastCanonicalRateRay = old := by
      intro old hold
      obtain ⟨acc', hacc', hlast⟩ := hrate old hold
      rw [hacc] at hacc'
      rw [Option.some.inj hacc']
      exact hlast
    cases hm with
    | withheld => exact (hinv state hstate).frame hnow rfl rfl le_rfl
    | assessed c hzero =>
      refine (hinv state hstate).assessed hnow ?_
      rw [PriceCommit.commits, Option.any_eq_false]
      rintro ⟨spot, debtSpot⟩ hc
      simp [hzero spot debtSpot hc]
    | committed c spot debtSpot hc hpos =>
      obtain ⟨hcanonical, hfell, -⟩ := priceUpdate_rate hprice
      refine (hinv state hstate).committed hnow hpos ?_ hstored hcanonical hfell
      simp [PriceCommit.commits, hc, hpos]
  | rebound authority b hi state a' hstate hrun =>
    rintro _ ⟨⟩
    subst hi
    obtain ⟨anchor, hanchor, rfl⟩ := rebindFeeds_cases hrun
    simp only [graceNote, if_true, addNote]
    exact (hinv state hstate).rebound hnow hanchor
  | governed nonce withOracle param value hi state a' hstate hrun =>
    rintro _ ⟨⟩
    subst hi
    obtain ⟨-, rlAccrued, rfl⟩ := executeParamChange_cases hrun
    have hpaused := max_le_max
      (@Market.le_graceAfterChange state.market clk.slot param value.toNat)
      (le_refl state.market.liqDivergenceUntil)
    simp only [graceNote, true_and]
    split
    next hraises =>
      simp only [System.raisesMcr, hstate, hafter, Option.any_some, decide_eq_true_eq] at hraises
      exact (hinv state hstate).unpriced hnow rfl rfl hpaused (.inl rfl)
        (fun _ ↦ (Market.graceAfterChange_armed hraises).trans (le_max_left _ _)) (by simp)
    next => exact (hinv state hstate).frame hnow rfl rfl hpaused

theorem lastRate_addNote {slot : ℕ} {note : Option GraceNote} :
    lastRate (addNote slot note log) = (note.bind GraceNote.rate).or (lastRate log) := by
  cases note with
  | none => rfl
  | some note =>
    simp only [addNote, lastRate, List.findSome?_cons, Option.bind_some]
    cases note.rate <;> rfl

theorem graceNote_rate (hi : ∀ accs, i ≠ .updatePrice k accs) :
    (graceNote k ⟨clk, i⟩ s s').bind GraceNote.rate = none := by
  unfold graceNote
  dsimp only
  split
  next mint accs =>
    rw [if_neg]
    · rfl
    · rintro rfl
      exact hi accs rfl
  next => split <;> rfl
  next => split <;> rfl
  next => split <;> rfl
  next => rfl

theorem OracleStep.rateKept {after : Option OracleAccounts} (h : OracleStep clk s i k after)
    (hafter : s'.oracles.lookup k = after) (hrate : RateKept s k log) :
    RateKept s' k (addNote clk.slot (graceNote k ⟨clk, i⟩ s s') log) := by
  have hkeep : (∀ accs, i ≠ .updatePrice k accs) →
      (∀ acc, s.oracles.lookup k = some acc → ∃ acc', after = some acc' ∧
        acc'.oracle.lastCanonicalRateRay = acc.oracle.lastCanonicalRateRay) →
      RateKept s' k (addNote clk.slot (graceNote k ⟨clk, i⟩ s s') log) := by
    intro hi hsame old hold
    rw [lastRate_addNote, graceNote_rate hi, Option.none_or] at hold
    obtain ⟨acc, hacc, hlast⟩ := hrate old hold
    obtain ⟨acc', hacc', hsame⟩ := hsame acc hacc
    exact ⟨acc', hafter.trans hacc', hsame.trans hlast⟩
  cases h with
  | keep hi => exact hkeep hi fun acc hacc ↦ ⟨acc, hacc, rfl⟩
  | birth authority quoteMint args oracle hi hnone hinit =>
    refine hkeep (by simp [hi]) fun acc hacc ↦ ?_
    rw [hnone] at hacc
    cases hacc
  | sampled pool hi acc ring hacc hsample =>
    refine hkeep (by simp [hi]) fun acc' hacc' ↦ ⟨_, rfl, ?_⟩
    rw [hacc] at hacc'
    rw [← Option.some.inj hacc']
  | priced accs hi acc commit oracle hacc hprice =>
    subst hi
    intro old hold
    rw [graceNote_updatePrice hacc hprice, lastRate_addNote] at hold
    refine ⟨_, hafter, ?_⟩
    have hstored : lastRate log = some old → acc.oracle.lastCanonicalRateRay = old := by
      intro hlog
      obtain ⟨acc', hacc', hlast⟩ := hrate old hlog
      rw [hacc] at hacc'
      rw [Option.some.inj hacc']
      exact hlast
    cases commit with
    | none =>
      cases priceUpdate_cases hprice with
      | withheld hviews => exact hstored (by simpa using hold)
    | some c =>
      obtain ⟨hcanonical, -, hsame⟩ := priceUpdate_rate hprice
      simp only [Option.map_some, Option.bind_some, priceNote, GraceNote.rate, hcanonical] at hold
      cases hstores : c.commits && acc.oracle.canonicalPrimary with
      | true =>
        rw [hstores, if_pos rfl] at hold
        exact Option.some.inj hold
      | false =>
        simp only [hstores, Bool.false_eq_true, if_false, Option.none_or] at hold
        exact (hsame hstores).trans (hstored hold)
  | rebound authority b hi acc oracle hacc hrebind =>
    refine hkeep (by simp [hi]) fun acc' hacc' ↦ ⟨_, rfl, ?_⟩
    rw [hacc] at hacc'
    rw [← Option.some.inj hacc']
    exact (MarketOracle.rebind_spec hrebind).2.2
  | governed nonce withOracle param value hi acc hacc hvalid =>
    refine hkeep (by simp [hi]) fun acc' hacc' ↦ ⟨_, rfl, ?_⟩
    rw [hacc] at hacc'
    rw [← Option.some.inj hacc']
    cases param <;> rfl

end Steps

/-! ## Runs -/

theorem fusion_graceInv {k : Pubkey} {w : SystemWorld} {log : List GraceEntry}
    (h : (fusion.withGhost [] (recordGrace k)).Reach (w, log)) :
    (w.system.protocol.markets.lookup k = none → log = []) ∧
      (∀ state ∈ w.system.protocol.markets.lookup k, GraceInv w.clock.slot state.market log) ∧
      RateKept w.system k log := by
  generalize hx : (w, log) = x at h
  induction h generalizing w log with
  | init h =>
    subst hx
    obtain ⟨⟨cfg, ids, decimals, hw⟩, hlog⟩ := h
    dsimp only at hw hlog
    subst hlog
    exact ⟨fun _ ↦ rfl, fun _ _ ↦ .nil _ _, fun old hold ↦ by cases hold⟩
  | @step x x' e hreach _ hs ih =>
    subst hx
    obtain ⟨w₀, log₀⟩ := x
    obtain ⟨clk, i⟩ := e
    obtain ⟨⟨hclk, hrun, hclock⟩, hlog⟩ := hs
    dsimp only at hclk hrun hclock hlog
    obtain ⟨hnone, hinv, hrate⟩ := ih rfl
    have hmove := SystemInstr.run_cases hrun
    have hbase : fusion.Reach w₀ := Machine.Reachable.forget (G := fun _ _ ↦ True) hreach
    have hprotocol := (fusion_inv hbase).mono hclk.unixTimestamp
    have hmarket := hmove.market_step k
    rw [hlog]
    refine ⟨?_, ?_, (hmove.oracle_step k).rateKept rfl hrate⟩
    · intro hafter
      obtain ⟨hi, hbefore⟩ := hmarket.of_none hafter
      have hnote : graceNote k ⟨clk, i⟩ w₀.system w.system = none :=
        graceNote_eq_none hi (raisesMcr_of_keep (hafter.trans hbefore.symm))
      rw [recordGrace, hnote]
      exact hnone hbefore
    · intro state hstate
      rw [hclock]
      exact hmarket.grace rfl hprotocol hclk.slot hnone hinv hrate state hstate

theorem MarketStep.pauses_le {clk : Clock} {s : System} {i : SystemInstr} {k : Pubkey}
    {after : Option MarketState} (h : MarketStep clk s i k after)
    (hprotocol : s.protocol.Inv clk.unixTimestamp) {state state' : MarketState}
    (hstate : s.protocol.markets.lookup k = some state) (hstate' : after = some state') :
    state.market.liqGraceUntil ≤ state'.market.liqGraceUntil ∧
      state.market.liqDivergenceUntil ≤ state'.market.liqDivergenceUntil := by
  cases h with
  | keep hi =>
    rw [hstate] at hstate'
    rw [Option.some.inj hstate']
    exact ⟨le_rfl, le_rfl⟩
  | birth authority freeze args born hi hbefore hinit =>
    rw [hstate] at hbefore
    cases hbefore
  | plain j hplain hi before a' hbefore hrun =>
    obtain rfl : before = state := Option.some.inj (hbefore.symm.trans hstate)
    obtain rfl := Option.some.inj hstate'
    have hterms := (MarketInstr.run_framed hplain (hprotocol.markets k before hstate).2 hrun).terms
    exact ⟨(congrArg Terms.liqGraceUntil hterms).ge, (congrArg Terms.liqDivergenceUntil hterms).ge⟩
  | priced accs acc commit oracle hi hacc hprice before a' hbefore hrun =>
    obtain rfl : before = state := Option.some.inj (hbefore.symm.trans hstate)
    obtain rfl := Option.some.inj hstate'
    obtain ⟨m, hm, rfl⟩ := updatePrice_cases hrun
    cases hm with
    | withheld => exact ⟨le_rfl, le_rfl⟩
    | assessed c hzero => exact ⟨le_rfl, Market.le_divergenceAfter⟩
    | committed c spot debtSpot hc hpos => exact ⟨Market.le_graceAfter, Market.le_divergenceAfter⟩
  | rebound authority b hi before a' hbefore hrun =>
    obtain rfl : before = state := Option.some.inj (hbefore.symm.trans hstate)
    obtain rfl := Option.some.inj hstate'
    obtain ⟨anchor, -, rfl⟩ := rebindFeeds_cases hrun
    exact ⟨le_rfl, le_rfl⟩
  | governed nonce withOracle param value hi before a' hbefore hrun =>
    obtain rfl : before = state := Option.some.inj (hbefore.symm.trans hstate)
    obtain rfl := Option.some.inj hstate'
    obtain ⟨-, rlAccrued, rfl⟩ := executeParamChange_cases hrun
    exact ⟨Market.le_graceAfterChange, le_rfl⟩

/-- Along every run: no step shortens one of the two pauses of a market, and every liquidation of
its history has waited out every pause armed before it. -/
theorem fusion_grace {k : Pubkey} {w : SystemWorld} {log : List GraceEntry}
    (h : (fusion.withGhost [] (recordGrace k)).Reach (w, log)) :
    (∀ e w' state state', fusion.step e w w' →
      w.system.protocol.markets.lookup k = some state →
      w'.system.protocol.markets.lookup k = some state' →
      state.market.liqGraceUntil ≤ state'.market.liqGraceUntil ∧
        state.market.liqDivergenceUntil ≤ state'.market.liqDivergenceUntil) ∧
    ∀ e earlier, e :: earlier <:+ log → e.note = .liquidated →
      ∀ f before d, f :: before <:+ earlier → Arms f before d →
        saturatingAdd 64 f.slot d ≤ e.slot := by
  have hreach : fusion.Reach w := Machine.Reachable.forget (G := fun _ _ ↦ True) h
  constructor
  · rintro ⟨clk, i⟩ w' state state' ⟨hclk, hrun, -⟩ hl hl'
    exact ((SystemInstr.run_cases hrun).market_step k).pauses_le
      ((fusion_inv hreach).mono hclk.unixTimestamp) hl hl'
  · intro e earlier hsuffix
    obtain ⟨hnone, hinv, -⟩ := fusion_graceInv h
    cases hl : w.system.protocol.markets.lookup k with
    | none =>
      rw [hnone hl] at hsuffix
      cases List.suffix_nil.mp hsuffix
    | some state => exact (hinv state hl).respected e earlier hsuffix

namespace Sample

/-- The clock at a slot; time and epoch stand still. -/
def clockAt (slot : ℕ) : Clock := ⟨slot, 1000000, 1⟩

/-- The entry of an update that commits, with the pool token worth one SOL. -/
def commitAt (slot : ℕ) : GraceEntry := ⟨slot, .priced false true (some RAY)⟩

/-- The minimum ratio goes up to 120 %. -/
def raiseMcr : List SystemInstr :=
  [.queueParamChange 3 7 false (.market .mcr) 12000, .executeParamChange 0 7 false]

def liquidateOwner : SystemInstr := .core (.market 7 (.liquidate 5 100 false)) rfl

/-- The raise at slot 1000 and the resumed price at slot 11000 are both waited for. -/
def patient : List SystemEvent :=
  at_ (clockAt 1000) (launch ++ drawn (clockAt 1000) 15000 1330000000 ++ raiseMcr) ++
    [11000, 11200, 11400, 11600, 11750].flatMap (fun slot ↦
      at_ (clockAt slot) [.updatePrice 7 (feeds (clockAt slot) 15000)]) ++
    at_ (clockAt 11750) [liquidateOwner]

/-- Everything at slot 100: a rebind there dates the freshness clock back to zero only. -/
def hastyRebind : List SystemEvent :=
  at_ (clockAt 100) (launch ++ drawn (clockAt 100) 15000 1330000000 ++
    [.rebindMarketOracleFeeds 1 7 ⟨PYTH_SOL_USD_FEED_ID, 72, 73, 0⟩,
      .updatePrice 7 (feeds (clockAt 100) 13800), liquidateOwner])

/-- Everything at the last slot: no pause can end later. -/
def hastyRaise : List SystemEvent :=
  at_ (clockAt (2 ^ 64 - 1)) (launch ++ drawn (clockAt (2 ^ 64 - 1)) 15000 1330000000 ++
    raiseMcr ++ [liquidateOwner])

end Sample

theorem fusion_grace_sample : ∃ x earlier before,
    (fusion.withGhost [] (recordGrace 7)).Reach x ∧
      x.2 = ⟨11750, .liquidated⟩ :: earlier ∧
      ⟨1000, .mcrRaised⟩ :: before <:+ earlier ∧
      saturatingAdd 64 1000 MCR_RAISE_GRACE_SLOTS ≤ 11750 := by
  have hrun : (Sample.history (recordGrace 7) [] Sample.patient).map (fun x ↦ decide
      (x.2 = [⟨11750, .liquidated⟩, Sample.commitAt 11750, Sample.commitAt 11600,
        Sample.commitAt 11400, Sample.commitAt 11200, Sample.commitAt 11000,
        ⟨1000, .mcrRaised⟩, Sample.commitAt 1000])) = some true := by
    decide +kernel
  obtain ⟨x, hx, hlog⟩ := Option.map_eq_some_iff.mp hrun
  have hlog := of_decide_eq_true hlog
  have hreach := Sample.history_reach hx
  have hsuffix : [⟨1000, .mcrRaised⟩, Sample.commitAt 1000] <:+
      [Sample.commitAt 11750, Sample.commitAt 11600, Sample.commitAt 11400,
        Sample.commitAt 11200, Sample.commitAt 11000, ⟨1000, .mcrRaised⟩, Sample.commitAt 1000] :=
    ⟨[Sample.commitAt 11750, Sample.commitAt 11600, Sample.commitAt 11400,
      Sample.commitAt 11200, Sample.commitAt 11000], rfl⟩
  refine ⟨x, _, _, hreach, hlog, hsuffix, ?_⟩
  exact (fusion_grace hreach).2 _ _ (by rw [hlog]) rfl _ _ _ hsuffix (.raised rfl)

/-- At a slot below 251 a rebind does not make the next commit resume, so a liquidation follows at
once; and at the last slot a raised ratio holds nothing back. -/
theorem grace_at_extreme_slots :
    (∃ x, (fusion.withGhost [] (recordGrace 7)).Reach x ∧
      x.2 = [⟨100, .liquidated⟩, Sample.commitAt 100, ⟨100, .rebound⟩, Sample.commitAt 100] ∧
      100 < 100 + LIQ_RESUME_GRACE_SLOTS) ∧
    ∃ x, (fusion.withGhost [] (recordGrace 7)).Reach x ∧
      x.2 = [⟨2 ^ 64 - 1, .liquidated⟩, ⟨2 ^ 64 - 1, .mcrRaised⟩, Sample.commitAt (2 ^ 64 - 1)] ∧
      2 ^ 64 - 1 < 2 ^ 64 - 1 + MCR_RAISE_GRACE_SLOTS := by
  have hrebind : (Sample.history (recordGrace 7) [] Sample.hastyRebind).map (fun x ↦ decide
      (x.2 = [⟨100, .liquidated⟩, Sample.commitAt 100, ⟨100, .rebound⟩, Sample.commitAt 100]))
      = some true := by
    decide +kernel
  have hraise : (Sample.history (recordGrace 7) [] Sample.hastyRaise).map (fun x ↦ decide
      (x.2 = [⟨2 ^ 64 - 1, .liquidated⟩, ⟨2 ^ 64 - 1, .mcrRaised⟩,
        Sample.commitAt (2 ^ 64 - 1)])) = some true := by
    decide +kernel
  constructor
  · obtain ⟨x, hx, hlog⟩ := Option.map_eq_some_iff.mp hrebind
    exact ⟨x, Sample.history_reach hx, of_decide_eq_true hlog, by decide⟩
  · obtain ⟨x, hx, hlog⟩ := Option.map_eq_some_iff.mp hraise
    exact ⟨x, Sample.history_reach hx, of_decide_eq_true hlog, by decide⟩

end FusionCore
