import FusionCore.Core.RedemptionFloor
import Mathlib.Algebra.Order.Field.Rat

/-!
# Redemption takes the riskiest first

The validation pass accepts positions of the lowest normal bucket and of the zombie pen and brings
them current; the redemption pass visits them by rising collateral ratio.  It goes on to the next
position only while something remains to be redeemed, so every position before one that is redeemed
has given all its debt, or the whole value of its collateral.
-/

namespace FusionCore

open Checked

/-! ## The order of the visits -/

/-- The collateral ratio that candidates are sorted by, without rounding. -/
def OrderEntry.ratio (e : OrderEntry) : ℚ := e.ink / e.debt

/-- The cross-multiplied comparison is that of the ratios, for candidates with debt. -/
theorem OrderEntry.before_iff {e f : OrderEntry} (he : 0 < e.debt) (hf : 0 < f.debt) :
    e.before f ↔ e.ratio ≤ f.ratio := by
  have he' : (0 : ℚ) < e.debt := by exact_mod_cast he
  have hf' : (0 : ℚ) < f.debt := by exact_mod_cast hf
  unfold OrderEntry.before RateBucket.cmpCollateralRatio OrderEntry.ratio
  rw [div_le_div_iff₀ he' hf', ne_eq, compare_gt_iff_gt, not_lt]
  norm_cast

theorem pairwise_ratio {l : List OrderEntry} (h : ∀ e ∈ l, 0 < e.debt) :
    (l.insertionSort OrderEntry.before).Pairwise fun e f ↦ e.ratio ≤ f.ratio := by
  have hmap := List.map_insertionSort OrderEntry.before (· ≤ ·) OrderEntry.ratio l
    fun e he f hf ↦ OrderEntry.before_iff (h e he) (h f hf)
  rw [← List.pairwise_map, hmap]
  exact List.pairwise_insertionSort _ _

/-! ## What the visits take -/

/-- All the debt of a position was redeemed, or the whole value of its collateral. -/
def Exhausted (mid : ℕ) (p : Position) (taken : ℕ) : Prop :=
  taken = p.recordedDebt ∨ rayMul p.ink mid = some taken

/-- A pass over the entries of `l` that takes `taken` from each owner. -/
structure Takes (mid : ℕ) (r r' : Redemption) (l : List OrderEntry) (taken : Pubkey → ℕ) :
    Prop where
  outside : ∀ o ∉ l.map OrderEntry.owner,
    r'.state.positions.lookup o = r.state.positions.lookup o
  inside : ∀ e ∈ l, ∀ p, r.state.positions.lookup e.owner = some p →
    ∃ q, r'.state.positions.lookup e.owner = some q ∧
      q.recordedDebt + taken e.owner = p.recordedDebt ∧ (taken e.owner = 0 → q = p)
  idle : r.remaining = 0 → ∀ e ∈ l, taken e.owner = 0
  first : l.Pairwise fun e f ↦ 0 < taken f.owner →
    ∀ p, r.state.positions.lookup e.owner = some p → Exhausted mid p (taken e.owner)

section

variable {mid : ℕ} {r r₁ r' : Redemption} {l : List OrderEntry} {e : OrderEntry}
  {taken : Pubkey → ℕ} {p q : Position} {amt : ℕ}

theorem Takes.nil (mid : ℕ) (r : Redemption) : Takes mid r r [] fun _ ↦ 0 :=
  ⟨fun _ _ ↦ rfl, by simp, by simp, .nil⟩

/-- One visit before a pass: if anything remains after it, the position is exhausted. -/
theorem Takes.cons (hnew : e.owner ∉ l.map OrderEntry.owner)
    (hp : r.state.positions.lookup e.owner = some p)
    (hq : r₁.state.positions.lookup e.owner = some q)
    (hother : ∀ o ≠ e.owner, r₁.state.positions.lookup o = r.state.positions.lookup o)
    (hdebt : q.recordedDebt + amt = p.recordedDebt) (hsame : amt = 0 → q = p)
    (hdone : r.remaining = 0 → amt = 0 ∧ r₁.remaining = 0)
    (hexhausted : 0 < r₁.remaining → Exhausted mid p amt)
    (h : Takes mid r₁ r' l taken) :
    Takes mid r r' (e :: l) (Function.update taken e.owner amt) := by
  have hne : ∀ f ∈ l, f.owner ≠ e.owner :=
    fun f hf heq ↦ hnew (heq ▸ List.mem_map_of_mem hf)
  have hupd : ∀ f ∈ l, Function.update taken e.owner amt f.owner = taken f.owner :=
    fun f hf ↦ Function.update_of_ne (hne f hf) _ _
  constructor
  · intro o ho
    rw [List.map_cons, List.mem_cons, not_or] at ho
    rw [h.outside o ho.2, hother o ho.1]
  · intro f hf p' hp'
    rcases List.mem_cons.mp hf with rfl | hf
    · obtain rfl := Option.some.inj (hp.symm.trans hp')
      rw [h.outside _ hnew, Function.update_self]
      exact ⟨q, hq, hdebt, hsame⟩
    · rw [hupd f hf]
      exact h.inside f hf p' ((hother _ (hne f hf)).trans hp')
  · intro hzero f hf
    obtain ⟨hamt, hzero₁⟩ := hdone hzero
    rcases List.mem_cons.mp hf with rfl | hf
    · rw [Function.update_self]
      exact hamt
    · rw [hupd f hf]
      exact h.idle hzero₁ f hf
  · refine List.Pairwise.cons ?_ ?_
    · intro f hf hpos p' hp'
      obtain rfl := Option.some.inj (hp.symm.trans hp')
      rw [hupd f hf] at hpos
      rw [Function.update_self]
      apply hexhausted
      by_contra hzero
      exact hpos.ne' (h.idle (Nat.eq_zero_of_not_pos hzero) f hf)
    · refine List.Pairwise.imp_of_mem ?_ h.first
      intro f g hf hg hfirst hpos p' hp'
      rw [hupd g hg] at hpos
      rw [hupd f hf]
      exact hfirst hpos p' ((hother _ (hne f hf)).trans hp')

theorem exhausted_of_redeemable {remaining : ℕ} (h : redeemable p mid remaining = .ok amt)
    (hlt : amt < remaining) : Exhausted mid p amt := by
  simp only [redeemable, bind_eq_ok_iff, okOr_eq_ok, pure_eq_ok] at h
  obtain ⟨value, hvalue, rfl⟩ := h
  obtain hdebt | hworth : min (min remaining p.recordedDebt) value = p.recordedDebt ∨
      min (min remaining p.recordedDebt) value = value := by omega
  · exact .inl hdebt
  · rw [hworth]
    exact .inr hvalue

theorem exists_takes (hnodup : (l.map OrderEntry.owner).Nodup)
    (hentries : ∀ e ∈ l, ∃ p, r.state.positions.lookup e.owner = some p ∧
      (0 < p.recordedDebt → p.bucket ≤ ZOMBIE_BUCKET))
    (h : l.foldlM (redeemOne mid) r = .ok r') : ∃ taken, Takes mid r r' l taken := by
  induction l generalizing r with
  | nil =>
    rw [List.foldlM_nil, pure_eq_ok] at h
    subst h
    exact ⟨_, .nil mid r⟩
  | cons e l ih =>
    rw [List.foldlM_cons] at h
    obtain ⟨r₁, hr₁, hrest⟩ := bind_eq_ok_iff.mp h
    rw [List.map_cons, List.nodup_cons] at hnodup
    obtain ⟨p, hp, hlabel⟩ := hentries e List.mem_cons_self
    have hlater := fun f hf ↦ hentries f (List.mem_cons_of_mem e hf)
    obtain ⟨hzero, rfl⟩ | ⟨hmore, p', amt, hp', hamt, hcase⟩ := redeemOne_spec hr₁
    · -- nothing remains: the rest of the list is passed over
      obtain ⟨taken, htakes⟩ := ih hnodup.2 hlater hrest
      refine ⟨_, htakes.cons hnodup.1 hp hp (fun _ _ ↦ rfl) (Nat.add_zero _) (fun _ ↦ rfl) ?_ ?_⟩
      · exact fun _ ↦ ⟨rfl, hzero⟩
      · exact fun hpos ↦ absurd hzero hpos.ne'
    · obtain rfl := Option.some.inj (hp.symm.trans hp')
      obtain ⟨rfl, rfl⟩ | ⟨hpos, m, bm, q, units, hdraw, hps, -, hremaining, -⟩ := hcase
      · -- a position that is worth nothing is left as it is
        obtain ⟨taken, htakes⟩ := ih hnodup.2 hlater hrest
        refine ⟨_, htakes.cons hnodup.1 hp hp (fun _ _ ↦ rfl) (Nat.add_zero _) (fun _ ↦ rfl) ?_ ?_⟩
        · exact fun hzero ↦ absurd hzero hmore.ne'
        · exact fun _ ↦ exhausted_of_redeemable hamt hmore
      · obtain ⟨-, hdebt, -, -⟩ := drawDown_result hlabel hdraw
        obtain ⟨hle, hle'⟩ := redeemable_le hamt
        have hother : ∀ o ≠ e.owner,
            r₁.state.positions.lookup o = r.state.positions.lookup o := by
          intro o ho
          rw [hps, AList.lookup_insert_ne ho]
        have hlater₁ : ∀ f ∈ l, ∃ p, r₁.state.positions.lookup f.owner = some p ∧
            (0 < p.recordedDebt → p.bucket ≤ ZOMBIE_BUCKET) := by
          intro f hf
          rw [hother _ fun heq ↦ hnodup.1 (heq ▸ List.mem_map_of_mem hf)]
          exact hlater f hf
        obtain ⟨taken, htakes⟩ := ih hnodup.2 hlater₁ hrest
        have hq : r₁.state.positions.lookup e.owner = some q := by
          rw [hps, AList.lookup_insert]
        refine ⟨Function.update taken e.owner amt,
          htakes.cons hnodup.1 hp hq hother ?_ ?_ ?_ ?_⟩
        · omega
        · exact fun hzero ↦ absurd hzero hpos.ne'
        · exact fun hzero ↦ absurd hzero hmore.ne'
        · intro hleft
          exact exhausted_of_redeemable hamt (by omega)

end

/-! ## A whole redemption -/

/-- The lowest normal bucket that holds a position with debt. -/
def LowestBucket (s : MarketState) (k : ℕ) : Prop :=
  k < NUM_RATE_BUCKETS ∧
  (∃ owner p, s.positions.lookup owner = some p ∧ 0 < p.recordedDebt ∧ p.bucket = k) ∧
  ∀ owner p, s.positions.lookup owner = some p → 0 < p.recordedDebt →
    p.bucket ≠ ZOMBIE_BUCKET → k ≤ p.bucket

theorem Book.lowestBucket {now k : ℕ} {s : MarketState}
    (hb : Book now s.market s.bitmap s.positions s.tally)
    (h : RateBucket.firstSet s.bitmap.words = some k) : LowestBucket s k :=
  ⟨(RateBucket.firstSet_spec h).1, hb.indexReads.firstSet_some k h⟩

/-- The passes of a redemption that succeeds: the validation pass collects `v.order`, and the
redemption pass goes through it in the order of the ratios. -/
structure RedeemPasses (clk : Clock) (amount : ℕ) (candidates : List Candidate)
    (state state' : MarketState) (m : Market) (mid : ℕ) (order : List OrderEntry) : Prop where
  accrued : accrue state.market clk.unixTimestamp = .ok m
  price : midPrice m = .ok mid
  passes : ∃ v r,
    candidates.foldlM (validateCandidate clk.unixTimestamp
      (RateBucket.firstSet state.bitmap.words)) ⟨state.accrued m, [], []⟩ = .ok v ∧
    order = v.order.insertionSort OrderEntry.before ∧
    order.foldlM (redeemOne mid) ⟨v.state, amount, 0⟩ = .ok r ∧
    state'.positions = r.state.positions

/-- The position of an accepted candidate: `p` at the start of the redemption, `p₁` when it has
been brought current and `q` at the end, with `taken` of its debt redeemed. -/
structure Visited (now : ℕ) (state state' : MarketState) (m : Market) (e : OrderEntry) (taken : ℕ)
    (p p₁ q : Position) : Prop where
  start : state.positions.lookup e.owner = some p
  debt : 0 < p.recordedDebt
  bucket : p.bucket = ZOMBIE_BUCKET ∨ LowestBucket state p.bucket
  current : realize m p now = .ok p₁
  ink : e.ink = p₁.ink
  recordedDebt : e.debt = p₁.recordedDebt
  left : state'.positions.lookup e.owner = some q
  redeemed : q.recordedDebt + taken = p₁.recordedDebt
  unreached : taken = 0 → ∃ stake, q = { p₁ with stake }

theorem forall_of_ratio_lt {l : List OrderEntry} {R : OrderEntry → OrderEntry → Prop}
    (hsorted : l.Pairwise fun e f ↦ e.ratio ≤ f.ratio) (hR : l.Pairwise R) {e f : OrderEntry}
    (he : e ∈ l) (hf : f ∈ l) (hlt : e.ratio < f.ratio) : R e f := by
  induction l with
  | nil => cases he
  | cons g l ih =>
    rw [List.pairwise_cons] at hsorted hR
    rcases List.mem_cons.mp he with rfl | he'
    · rcases List.mem_cons.mp hf with rfl | hf'
      · exact absurd hlt (lt_irrefl _)
      · exact hR.1 f hf'
    · rcases List.mem_cons.mp hf with rfl | hf'
      · exact absurd (hsorted.1 e he') (not_le.mpr hlt)
      · exact ih hsorted.2 hR.2 he' hf'

section Handler

variable {clk : Clock} {redeemer : Pubkey} {amount : ℕ} {candidates : List Candidate}
  {a a' : Accounts}

/-- Everything a redemption does to the positions of its market. -/
theorem redeem_order (hi : Inv clk.unixTimestamp a)
    (h : redeem clk redeemer amount candidates a = .ok a') :
    ∃ m mid order, ∃ taken : Pubkey → ℕ,
      RedeemPasses clk amount candidates a.state a'.state m mid order ∧
      (order.map OrderEntry.owner).Nodup ∧
      order.Pairwise (fun e f ↦ e.ratio ≤ f.ratio) ∧
      (∀ e ∈ order, ∃ p p₁ q,
        Visited clk.unixTimestamp a.state a'.state m e (taken e.owner) p p₁ q) ∧
      order.Pairwise (fun e f ↦ 0 < taken f.owner →
        taken e.owner = e.debt ∨ rayMul e.ink mid = some (taken e.owner)) ∧
      ∀ o ∉ order.map OrderEntry.owner,
        a'.state.positions.lookup o = a.state.positions.lookup o := by
  obtain ⟨run, rfl⟩ := redeem_run h
  obtain ⟨x, ts, hacc⟩ := accrue_spec hi.book.clock run.accrue_eq
  have hvalid := run.validationInv hi
  have haccepted := Accepted.of_pass hi.book hacc run.validate_eq
  set order := run.v.order.insertionSort OrderEntry.before with horder
  have hmem : ∀ e, e ∈ order ↔ e ∈ run.v.order := fun e ↦ List.mem_insertionSort _
  have howner : ∀ o, o ∈ order.map OrderEntry.owner ↔ o ∈ run.v.order.map OrderEntry.owner :=
    fun o ↦ ((List.perm_insertionSort _ _).map _).mem_iff
  have hnodup : (order.map OrderEntry.owner).Nodup :=
    ((List.perm_insertionSort _ _).map _).nodup_iff.mpr haccepted.nodup
  -- the accepted position of an entry, as the validation pass has left it
  have hentry : ∀ e ∈ order, ∃ p p₁ stake, a.state.positions.lookup e.owner = some p ∧
      0 < p.recordedDebt ∧
      (p.bucket = ZOMBIE_BUCKET ∨ RateBucket.firstSet a.state.bitmap.words = some p.bucket) ∧
      realize run.m₁ p clk.unixTimestamp = .ok p₁ ∧
      run.v.state.positions.lookup e.owner = some { p₁ with stake } ∧ e.ink = p₁.ink ∧
      e.debt = p₁.recordedDebt := by
    intro e he
    obtain ⟨p, p₁, stake, hp, hd, hb, hp₁, hq⟩ :=
      haccepted.accepted e.owner (List.mem_map_of_mem ((hmem e).mp he))
    obtain ⟨q, hq', hink, hdebt⟩ := haccepted.entries e ((hmem e).mp he)
    obtain rfl := Option.some.inj (hq.symm.trans hq')
    exact ⟨p, p₁, stake, hp, hd, hb, hp₁, hq, hink.symm, hdebt.symm⟩
  have hdebt : ∀ e ∈ run.v.order, 0 < e.debt := by
    intro e he
    obtain ⟨p, p₁, stake, -, hd, -, hp₁, -, -, hdebt⟩ := hentry e ((hmem e).mpr he)
    have hrec := (realize_spec hacc.realizable hp₁).recordedDebt
    omega
  obtain ⟨taken, htakes⟩ : ∃ taken, Takes run.mid ⟨run.v.state, amount, 0⟩ run.r order taken := by
    apply exists_takes hnodup _ run.redeem_eq
    intro e he
    obtain ⟨p, p₁, stake, -, -, -, -, hq, -, -⟩ := hentry e he
    exact ⟨_, hq, hvalid.loop.book.label e.owner _ hq⟩
  refine ⟨run.m₁, run.mid, order, taken, ⟨run.accrue_eq, run.midPrice_eq, run.v, run.r,
    run.validate_eq, horder, run.redeem_eq, rfl⟩, hnodup, pairwise_ratio hdebt, ?_, ?_, ?_⟩
  · intro e he
    obtain ⟨p, p₁, stake, hp, hd, hb, hp₁, hq, hink, hdebt⟩ := hentry e he
    obtain ⟨q, hleft, htaken, hsame⟩ := htakes.inside e he _ hq
    refine ⟨p, p₁, q, hp, hd, ?_, hp₁, hink, hdebt, hleft, htaken, ?_⟩
    · exact hb.imp_right fun hlow ↦ hi.book.lowestBucket hlow
    · exact fun hzero ↦ ⟨stake, hsame hzero⟩
  · refine htakes.first.imp_of_mem ?_
    intro e f he _ hfirst hpos
    obtain ⟨p, p₁, stake, -, -, -, -, hq, hink, hdebt⟩ := hentry e he
    rw [hink, hdebt]
    exact hfirst hpos { p₁ with stake } hq
  · intro o ho
    exact (htakes.outside o ho).trans <| untouched_of_pass run.validate_eq o ((howner o).not.mp ho)

end Handler

/-- A redemption of a reached market takes from positions of the pen or of the lowest normal
bucket with debt, each once, by rising collateral ratio of the values brought current; it goes past
a position only when that has no debt left or has given the whole value of its collateral.  The
accepted positions that it does not reach are brought current, and no other position changes. -/
theorem redeem_lowest_ratio_first {w w' : World} (h : fusdCore.Reach w) {clk : Clock}
    {mint redeemer : Pubkey} {amount : UInt64} {candidates : List Candidate}
    (hstep : fusdCore.step ⟨clk, .market mint (.redeem redeemer amount candidates)⟩ w w') :
    ∃ state state' m mid order, ∃ taken : Pubkey → ℕ,
      w.protocol.markets.lookup mint = some state ∧
      w'.protocol.markets.lookup mint = some state' ∧
      RedeemPasses clk amount.toNat candidates state state' m mid order ∧
      (order.map OrderEntry.owner).Nodup ∧
      order.Pairwise (fun e f ↦ e.ratio ≤ f.ratio) ∧
      (∀ e ∈ order, ∃ p p₁ q,
        Visited clk.unixTimestamp state state' m e (taken e.owner) p p₁ q) ∧
      (∀ e ∈ order, ∀ f ∈ order, e.ratio < f.ratio → 0 < taken f.owner →
        (∃ q, state'.positions.lookup e.owner = some q ∧ q.recordedDebt = 0) ∨
          rayMul e.ink mid = some (taken e.owner)) ∧
      (∀ o ∉ order.map OrderEntry.owner,
        state'.positions.lookup o = state.positions.lookup o) ∧
      ∀ mint' ≠ mint, w'.protocol.markets.lookup mint' = w.protocol.markets.lookup mint' := by
  obtain ⟨hclk, hrun, -⟩ := hstep
  simp only [Instr.run, Protocol.onMarket, bind_eq_ok_iff, okOr_eq_ok, pure_eq_ok] at hrun
  obtain ⟨state, hl, a', hredeem, hw'⟩ := hrun
  obtain ⟨m, mid, order, taken, hpasses, hnodup, hsorted, hvisited, hfirst, hother⟩ :=
    redeem_order (fusdCore_market_inv h hclk hl) hredeem
  refine ⟨state, a'.state, m, mid, order, taken, hl, ?_, hpasses, hnodup, hsorted, hvisited, ?_,
    hother, ?_⟩
  · rw [← hw', AList.lookup_insert]
  · intro e he f hf hlt hpos
    apply (forall_of_ratio_lt hsorted hfirst he hf hlt hpos).imp_left
    intro hall
    obtain ⟨p, p₁, q, hv⟩ := hvisited e he
    have hredeemed := hv.redeemed
    have hdebt := hv.recordedDebt
    exact ⟨q, hv.left, by omega⟩
  · intro mint' hne
    rw [← hw', AList.lookup_insert_ne hne]

namespace Sample

/-- Owners 100 and 200 borrow a thousand dollars each at one rate, owner 100 against ten tokens and
owner 200 against a thousand. -/
def borrowers : List Instr :=
  onboard 0 ++ [.market 7 (.mintCollateral 100 10000000000),
      .market 7 (.mintCollateral 200 1000000000000), quote (15 * 10 ^ 25)] ++
    borrows 100 300 10000000000 ++ borrows 200 300 1000000000000 ++
    [.transferFusd 100 (.wallet 200) 500000000]

/-- Owner 200 redeems 1200 dollars and names its own position first. -/
def redeemBoth : Instr := .market 7 (.redeem 200 1200000000 [.position 200, .position 100])

end Sample

/-- The position of owner 100 is redeemed in full before that of owner 200 is touched. -/
theorem redeem_lowest_ratio_first_sample : ∃ w w' state state' p q,
    fusdCore.Reach w ∧ fusdCore.step ⟨Sample.clock, Sample.redeemBoth⟩ w w' ∧
    w.protocol.markets.lookup 7 = some state ∧ w'.protocol.markets.lookup 7 = some state' ∧
    state'.positions.lookup 100 = some p ∧ p.recordedDebt = 0 ∧
    state'.positions.lookup 200 = some q ∧ 0 < q.recordedDebt ∧
    ∃ m mid order, RedeemPasses Sample.clock 1200000000 [.position 200, .position 100] state state'
      m mid order ∧ order.Pairwise fun e f ↦ e.ratio ≤ f.ratio := by
  have hrun : ((Sample.world Sample.borrowers).bind fun w ↦
      (Sample.redeemBoth.run Sample.clock w.protocol).toOption.bind fun s ↦
      (s.markets.lookup 7).bind fun state' ↦
      (state'.positions.lookup 100).bind fun p ↦
        (state'.positions.lookup 200).map fun q ↦ decide (w.clock.Le Sample.clock ∧
          p.recordedDebt = 0 ∧ 0 < q.recordedDebt)) = some true := by decide +kernel
  simp only [Option.bind_eq_some_iff, Option.map_eq_some_iff, decide_eq_true_eq,
    toOption_eq_some] at hrun
  obtain ⟨w, hw, s, hs, state', hl', p, hp, q, hq, hclk, hpaid, hleft⟩ := hrun
  have hstep : fusdCore.step ⟨Sample.clock, Sample.redeemBoth⟩ w ⟨Sample.clock, s⟩ :=
    ⟨hclk, hs, rfl⟩
  obtain ⟨state, state₂, m, mid, order, taken, hl, hl₂, hpasses, -, hsorted, -⟩ :=
    redeem_lowest_ratio_first (Sample.reach hw) hstep
  obtain rfl := Option.some.inj (hl'.symm.trans hl₂)
  exact ⟨w, _, state, state', p, q, Sample.reach hw, hstep, hl, hl', hp, hpaid, hq, hleft, m, mid,
    order, hpasses, hsorted⟩

end FusionCore
