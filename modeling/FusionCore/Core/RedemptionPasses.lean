import FusionCore.Core.Redemption

/-!
# The two passes of a redemption

What the validation pass accepts and what the redemption pass takes, position by position.
Both loops come with one lemma that says everything a single pass can do.
-/

namespace FusionCore

open Checked

/-! ## What the validation pass accepts -/

theorem realize_of_rest {s t : MarketState} (h : s.rest = t.rest) (p : Position) (now : ℕ) :
    realize s.market p now = realize t.market p now := by
  have hshutdown : s.market.shutdown = t.market.shutdown :=
    congrArg (fun s ↦ s.market.shutdown) h
  have hts : s.market.lastUpdateTs = t.market.lastUpdateTs :=
    congrArg (fun s ↦ s.market.lastUpdateTs) h
  have hcoll : s.market.lColl = t.market.lColl := congrArg (fun s ↦ s.market.lColl) h
  have hart : s.market.lArt = t.market.lArt := congrArg (fun s ↦ s.market.lArt) h
  have hpending : redistPending s.market p = redistPending t.market p := by
    simp only [redistPending, pending, redistState, hcoll, hart]
  simp only [realize, rollSnapshot, hshutdown, hts, hcoll, hart, hpending]

/-- The accepted candidates are positions with debt in the lowest bucket or in the pen, each
once; the pass has brought them current and nothing else. -/
structure Accepted (now : ℕ) (lowest : Option ℕ) (s : MarketState) (v : Validation) : Prop where
  untouched : ∀ o ∉ v.seen, v.state.positions.lookup o = s.positions.lookup o
  seen : ∀ e ∈ v.order, e.owner ∈ v.seen
  nodup : (v.order.map OrderEntry.owner).Nodup
  accepted : ∀ o ∈ v.order.map OrderEntry.owner, ∃ p p₁ stake,
    s.positions.lookup o = some p ∧ 0 < p.recordedDebt ∧
      (p.bucket = ZOMBIE_BUCKET ∨ lowest = some p.bucket) ∧
      realize s.market p now = .ok p₁ ∧
      v.state.positions.lookup o = some { p₁ with stake }
  entries : ∀ e ∈ v.order, ∃ q, v.state.positions.lookup e.owner = some q ∧ q.ink = e.ink ∧
    q.recordedDebt = e.debt

section Validation

variable {now : ℕ} {lowest : Option ℕ} {s : MarketState} {v v' : Validation}

theorem validateCandidate_cases {c : Candidate}
    (h : validateCandidate now lowest v c = .ok v') :
    (loadCandidate v.state c = .ok none ∧ v' = v) ∨
    ∃ owner p, loadCandidate v.state c = .ok (some (owner, p)) ∧ owner ∉ v.seen ∧
      v'.seen = owner :: v.seen ∧
      ((∃ p₁ stake, 0 < p.recordedDebt ∧ (p.bucket = ZOMBIE_BUCKET ∨ lowest = some p.bucket) ∧
          realize v.state.market p now = .ok p₁ ∧
          v'.state.positions = v.state.positions.insert owner { p₁ with stake } ∧
          v'.order = v.order ++ [⟨owner, p₁.ink, p₁.recordedDebt⟩]) ∨
        (¬(0 < p.recordedDebt ∧ (p.bucket = ZOMBIE_BUCKET ∨ lowest = some p.bucket)) ∧
          v'.state = v.state ∧ v'.order = v.order)) := by
  obtain ⟨loaded, hload, h⟩ := bind_eq_ok_iff.mp h
  match loaded with
  | none =>
    cases h
    exact .inl ⟨hload, rfl⟩
  | some (owner, p) =>
    refine .inr ⟨owner, p, hload, ?_⟩
    simp only [bind_eq_ok_iff, require_eq_ok, exists_const, ite_eq_ok] at h
    obtain ⟨hseen, ⟨⟨hd, hb⟩, h⟩ | ⟨hskip, h⟩⟩ := h
    · simp only [weighted_eq_ok, pure_eq_ok, Prod.exists] at h
      obtain ⟨_, -, p₁, hp₁, m₁, -, m₂, p₂, hs, rfl⟩ := h
      obtain ⟨stake, total, -, -, -, -, -, rfl⟩ := setStake_spec hs
      exact ⟨hseen, rfl, .inl ⟨p₁, stake, hd, hb, hp₁, rfl, rfl⟩⟩
    · cases h
      exact ⟨hseen, rfl, .inr ⟨hskip, rfl, rfl⟩⟩

theorem Accepted.step {c : Candidate} (hrest : v.state.rest = s.rest)
    (hv : Accepted now lowest s v) (h : validateCandidate now lowest v c = .ok v') :
    Accepted now lowest s v' := by
  obtain ⟨-, rfl⟩ | ⟨owner, p, hload, hnew, hseen, htaken | ⟨-, hstate, horder⟩⟩ :=
    validateCandidate_cases h
  · exact hv
  · have hp := (loadCandidate_eq_some hload).2
    obtain ⟨p₁, stake, hd, hb, hp₁, hps, horder⟩ := htaken
    have hfresh : owner ∉ v.order.map OrderEntry.owner := by
      intro hmem
      obtain ⟨e, he, rfl⟩ := List.mem_map.mp hmem
      exact hnew (hv.seen e he)
    have horder' : v'.order.map OrderEntry.owner = v.order.map OrderEntry.owner ++ [owner] := by
      rw [horder, List.map_append]
      rfl
    refine ⟨?_, ?_, ?_, ?_, ?_⟩
    · intro o ho
      rw [hseen, List.mem_cons, not_or] at ho
      rw [hps, AList.lookup_insert_ne ho.1]
      exact hv.untouched o ho.2
    · intro e he
      rw [horder, List.mem_append, List.mem_singleton] at he
      rw [hseen]
      rcases he with he | rfl
      · exact List.mem_cons_of_mem owner (hv.seen e he)
      · exact List.mem_cons_self
    · rw [horder', List.nodup_append]
      refine ⟨hv.nodup, List.nodup_singleton owner, ?_⟩
      intro o ho o' ho' heq
      rw [List.mem_singleton] at ho'
      exact hfresh (ho' ▸ heq ▸ ho)
    · intro o ho
      rw [horder', List.mem_append, List.mem_singleton] at ho
      rw [hps]
      rcases ho with ho | rfl
      · have hne : o ≠ owner := fun heq ↦ hfresh (heq ▸ ho)
        rw [AList.lookup_insert_ne hne]
        exact hv.accepted o ho
      · refine ⟨p, p₁, stake, ?_, hd, hb, ?_, AList.lookup_insert _⟩
        · rw [← hv.untouched o hnew]
          exact hp
        · rw [← realize_of_rest hrest]
          exact hp₁
    · intro e he
      rw [horder, List.mem_append, List.mem_singleton] at he
      rw [hps]
      rcases he with he | rfl
      · have hne : e.owner ≠ owner := fun heq ↦ hfresh (heq ▸ List.mem_map_of_mem he)
        rw [AList.lookup_insert_ne hne]
        exact hv.entries e he
      · exact ⟨_, AList.lookup_insert _, rfl, rfl⟩
  · refine ⟨?_, ?_, ?_, ?_, ?_⟩
    · intro o ho
      rw [hseen, List.mem_cons, not_or] at ho
      rw [hstate]
      exact hv.untouched o ho.2
    · intro e he
      rw [hseen]
      exact List.mem_cons_of_mem owner (hv.seen e (horder ▸ he))
    · rw [horder]
      exact hv.nodup
    · rw [horder, hstate]
      exact hv.accepted
    · rw [horder, hstate]
      exact hv.entries

theorem Accepted.of_pass {x ts : ℕ} {m₁ : Market} {candidates : List Candidate}
    (hb : Book now s.market s.bitmap s.positions s.tally) (hacc : Accrued s.market m₁ now x ts)
    (h : candidates.foldlM (validateCandidate now lowest) ⟨s.accrued m₁, [], []⟩ = .ok v) :
    Accepted now lowest (s.accrued m₁) v := by
  have hboth : ValidationInv now (s.accrued m₁) v ∧ Accepted now lowest (s.accrued m₁) v := by
    refine foldlM_invariant (P := fun v ↦
      ValidationInv now (s.accrued m₁) v ∧ Accepted now lowest (s.accrued m₁) v) ?_ ?_ h
    · intro c _ v v' hv hstep
      exact ⟨hv.1.step hacc.realizable hstep, hv.2.step hv.1.loop.rest hstep⟩
    · exact ⟨⟨LoopInv.init hb hacc, by simp [AllCurrent]⟩,
        ⟨fun _ _ ↦ rfl, by simp, by simp, by simp, by simp⟩⟩
  exact hboth.2

theorem untouched_of_pass {candidates : List Candidate}
    (h : candidates.foldlM (validateCandidate now lowest) ⟨s, [], []⟩ = .ok v) :
    ∀ o ∉ v.order.map OrderEntry.owner, v.state.positions.lookup o = s.positions.lookup o := by
  refine foldlM_invariant (P := fun v : Validation ↦ ∀ o ∉ v.order.map OrderEntry.owner,
    v.state.positions.lookup o = s.positions.lookup o) ?_ (fun _ _ ↦ rfl) h
  intro c _ v v' hv hstep o ho
  obtain ⟨-, rfl⟩ | ⟨owner, p, -, -, -, htaken | ⟨-, hstate, horder⟩⟩ :=
    validateCandidate_cases hstep
  · exact hv o ho
  · obtain ⟨p₁, stake, -, -, -, hps, horder⟩ := htaken
    rw [horder, List.map_append, List.mem_append, not_or] at ho
    have hne : o ≠ owner := by simpa using ho.2
    rw [hps, AList.lookup_insert_ne hne]
    exact hv o ho.1
  · rw [hstate]
    exact hv o (horder ▸ ho)

theorem Accepted.mem_order {candidates : List Candidate} {owner : Pubkey} {p : Position}
    (h₀ : s.market.shutdown = true ∨ s.market.lastUpdateTs = now)
    (hinv : ValidationInv now s v) (hv : Accepted now lowest s v)
    (h : candidates.foldlM (validateCandidate now lowest) v = .ok v')
    (hmem : .position owner ∈ candidates) (hp : s.positions.lookup owner = some p)
    (hd : 0 < p.recordedDebt) (hb : p.bucket = ZOMBIE_BUCKET ∨ lowest = some p.bucket) :
    owner ∈ v'.order.map OrderEntry.owner := by
  induction candidates generalizing v with
  | nil => cases hmem
  | cons c candidates ih =>
    rw [List.foldlM_cons] at h
    obtain ⟨w, hw, hrest⟩ := bind_eq_ok_iff.mp h
    by_cases hc : c = .position owner
    · -- the position is still there, and as long as it has not been seen it is the original
      subst hc
      have hw' : owner ∈ w.order.map OrderEntry.owner := by
        obtain ⟨q, hq, -⟩ : ∃ q, v.state.positions.lookup owner = some q ∧ p.Advances q := by
          have hrel := hinv.loop.advance owner
          rw [hp] at hrel
          generalize v.state.positions.lookup owner = found at hrel
          cases hrel with
          | some hadv => exact ⟨_, rfl, hadv⟩
        obtain ⟨hnone, -⟩ | ⟨o, p', hload, hnew, -, hcase⟩ := validateCandidate_cases hw
        · simp [loadCandidate, hq] at hnone
        · obtain ⟨rfl, rfl⟩ : owner = o ∧ q = p' := by
            simpa [loadCandidate, hq] using hload
          obtain rfl : p = q := by
            rw [hv.untouched owner hnew, hp] at hq
            exact Option.some.inj hq
          obtain ⟨p₁, stake, -, -, -, -, horder⟩ | ⟨hskip, -, -⟩ := hcase
          · simp [horder]
          · exact absurd ⟨hd, hb⟩ hskip
      refine foldlM_invariant (P := fun v : Validation ↦ owner ∈ v.order.map OrderEntry.owner)
        ?_ hw' hrest
      intro c _ u u' hu hstep
      obtain ⟨-, rfl⟩ | ⟨o, p', -, -, -, hcase⟩ := validateCandidate_cases hstep
      · exact hu
      · obtain ⟨p₁, stake, -, -, -, -, horder⟩ | ⟨-, -, horder⟩ := hcase
        · rw [horder, List.map_append]
          exact List.mem_append_left _ hu
        · rw [horder]
          exact hu
    · apply ih (hinv.step h₀ hw) (hv.step hinv.loop.rest hw) hrest
      exact (List.mem_cons.mp hmem).resolve_left (Ne.symm hc)

end Validation

/-! ## What the redemption pass takes -/

section Pass

variable {mid : ℕ} {r r' : Redemption} {l : List OrderEntry}

/-- What one pass of the redemption loop does with an entry: nothing once nothing remains, nothing
with a position that is worth nothing, and one draw-down otherwise. -/
theorem redeemOne_spec {e : OrderEntry} (h : redeemOne mid r e = .ok r') :
    (r.remaining = 0 ∧ r' = r) ∨ (0 < r.remaining ∧ ∃ p amt,
      r.state.positions.lookup e.owner = some p ∧ redeemable p mid r.remaining = .ok amt ∧
      ((amt = 0 ∧ r' = r) ∨ (0 < amt ∧ ∃ m bm q units,
        drawDown r.state.market r.state.bitmap p mid amt (weightOf p) p.recordedDebt =
          .ok (m, bm, q, units) ∧
        r'.state.positions = r.state.positions.insert e.owner q ∧ r'.state.market = m ∧
        r'.remaining = r.remaining - amt ∧ r'.drawn = r.drawn + units))) := by
  unfold redeemOne at h
  rcases ite_eq_ok.mp h with ⟨hdone, h⟩ | ⟨hmore, h⟩
  · cases h
    exact .inl ⟨hdone, rfl⟩
  simp only [bind_eq_ok_iff, okOr_eq_ok, ite_eq_ok] at h
  obtain ⟨p, hp, amt, hamt, h⟩ := h
  refine .inr ⟨Nat.pos_of_ne_zero hmore, p, amt, hp, hamt, ?_⟩
  obtain ⟨hzero, h⟩ | ⟨hne, h⟩ := h
  · cases h
    exact .inl ⟨hzero, rfl⟩
  simp only [weighted_eq_ok, checkedAdd_eq_some, pure_eq_ok, Prod.exists] at h
  obtain ⟨_, ⟨-, rfl⟩, m, bm, q, units, hdraw, _, ⟨-, rfl⟩, rfl⟩ := h
  exact .inr ⟨Nat.pos_of_ne_zero hne, m, bm, q, units, hdraw, rfl, rfl, rfl, rfl⟩

theorem redeemOne_cases {e : OrderEntry} (h : redeemOne mid r e = .ok r') :
    r' = r ∨ ∃ p amt m bm q units, r.state.positions.lookup e.owner = some p ∧
      redeemable p mid r.remaining = .ok amt ∧ 0 < amt ∧
      drawDown r.state.market r.state.bitmap p mid amt (weightOf p) p.recordedDebt =
        .ok (m, bm, q, units) ∧
      r'.state.positions = r.state.positions.insert e.owner q ∧ r'.state.market = m := by
  obtain ⟨-, heq⟩ | ⟨-, p, amt, hp, hamt, ⟨-, heq⟩ | ⟨hpos, m, bm, q, units, hdraw, hps, hm, -⟩⟩ :=
    redeemOne_spec h
  · exact .inl heq
  · exact .inl heq
  · exact .inr ⟨p, amt, m, bm, q, units, hp, hamt, hpos, hdraw, hps, hm⟩

/-- A pass that redeems anything meets a position that is worth something; until then nothing
has changed. -/
theorem exists_redeemable_of_pass (h : l.foldlM (redeemOne mid) r = .ok r')
    (hlt : r'.remaining < r.remaining) : ∃ e ∈ l, ∃ p amt,
      r.state.positions.lookup e.owner = some p ∧ redeemable p mid r.remaining = .ok amt ∧
        0 < amt := by
  induction l with
  | nil =>
    rw [List.foldlM_nil, pure_eq_ok] at h
    subst h
    exact absurd hlt (lt_irrefl _)
  | cons e l ih =>
    rw [List.foldlM_cons] at h
    obtain ⟨r₁, hr₁, hrest⟩ := bind_eq_ok_iff.mp h
    obtain rfl | ⟨p, amt, -, -, -, -, hp, hamt, hpos, -⟩ := redeemOne_cases hr₁
    · obtain ⟨e', he', hfound⟩ := ih hrest
      exact ⟨e', List.mem_cons_of_mem e he', hfound⟩
    · exact ⟨e, List.mem_cons_self, p, amt, hp, hamt, hpos⟩

theorem target_eq_zombie_iff {m : Market} {p : Position} {k : ℕ} (h : target m p = some k) :
    k = ZOMBIE_BUCKET ↔ p.ink = 0 ∨ p.recordedDebt < m.minDebt := by
  have hd : p.recordedDebt ≠ 0 := (target_eq_some h).1.ne'
  rw [target, if_neg hd] at h
  split at h
  next hz => simp [hz, ← Option.some.inj h]
  next hz =>
    have hlt : bucketFor m p < ZOMBIE_BUCKET := RateBucket.bucketOf_lt (by decide)
    have hne : k ≠ ZOMBIE_BUCKET := by
      rw [← Option.some.inj h]
      exact hlt.ne
    simp [hz, hne]

theorem drawDown_result {m m' : Market} {bm bm' : RedemptionBitmap} {p q : Position}
    {amt old art units : ℕ} (hlabel : 0 < art → p.bucket ≤ ZOMBIE_BUCKET)
    (h : drawDown m bm p mid amt old art = .ok (m', bm', q, units)) :
    m'.minDebt = m.minDebt ∧ q.recordedDebt = p.recordedDebt - amt ∧
      q.ink = p.ink - min (amt * RAY / mid) p.ink ∧
      (0 < q.recordedDebt →
        (q.bucket = ZOMBIE_BUCKET ↔ q.ink = 0 ∨ q.recordedDebt < m.minDebt)) := by
  simp only [drawDown, bind_eq_ok_iff, okOr_eq_ok, SupplyTransition.redeemStep_eq_some,
    checkedSub_eq_some, mulDivFloor_eq_some, pure_eq_ok, Prod.exists, Prod.mk.injEq] at h
  obtain ⟨bought, ⟨-, -, hbought⟩, _, ⟨-, rfl⟩, _, ⟨-, rfl⟩, m₂, hm₂, m₃, p₂, hs, bm₃, p₃, hrec,
    rfl, rfl, rfl, rfl⟩ := h
  rw [hbought]
  obtain ⟨sum, -, rfl⟩ := reweight_spec hm₂
  obtain ⟨stake, total, -, -, -, -, rfl, rfl⟩ := setStake_spec hs
  obtain ⟨⟨label, rfl, -, htarget⟩, -, -⟩ := reconcile_spec hrec (by simpa using hlabel)
  refine ⟨rfl, by simp, by simp, ?_⟩
  intro hpos
  exact target_eq_zombie_iff (htarget hpos)

/-- The position `q` is `p` with `amt` of debt redeemed for `units` of collateral. -/
structure DrawnDown (mid amt units : ℕ) (p q : Position) : Prop where
  bought : units = min (amt * RAY / mid) p.ink
  recordedDebt : q.recordedDebt = p.recordedDebt - amt
  ink : q.ink = p.ink - units
  userRateBps : q.userRateBps = p.userRateBps
  lastDebtUpdate : q.lastDebtUpdate = p.lastDebtUpdate
  snapshot : snapshotOf q = snapshotOf p

theorem DrawnDown.zero (mid stake label : ℕ) (p : Position) :
    DrawnDown mid 0 0 p { p with stake, bucket := label } := by
  constructor <;> simp [snapshotOf]

theorem drawnDown_of_drawDown {m m' : Market} {bm bm' : RedemptionBitmap} {p q : Position}
    {amt old art units : ℕ} (h : drawDown m bm p mid amt old art = .ok (m', bm', q, units)) :
    DrawnDown mid amt units p q := by
  simp only [drawDown, bind_eq_ok_iff, okOr_eq_ok, mulDivFloor_eq_some, pure_eq_ok, Prod.exists,
    Prod.mk.injEq] at h
  obtain ⟨bought, ⟨-, -, hbought⟩, _, -, _, -, m₂, -, m₃, p₂, hs, bm₃, p₃, hrec, -, -, rfl,
    rfl⟩ := h
  obtain ⟨stake, total, -, -, -, -, -, rfl⟩ := setStake_spec hs
  obtain ⟨label, rfl⟩ := reconcile_position hrec
  exact ⟨by rw [hbought], by simp, by simp, by simp, by simp, by simp [snapshotOf]⟩

/-- What a pass of the redemption loop leaves of the position at one address: the position it
was, or what one draw-down has left of it. -/
inductive Drawn (mid minDebt : ℕ) : Option Position → Option Position → Prop where
  | kept (p : Option Position) : Drawn mid minDebt p p
  | drawn {p q : Position} (amt : ℕ) (hdebt : q.recordedDebt = p.recordedDebt - amt)
      (hink : q.ink = p.ink - min (amt * RAY / mid) p.ink)
      (hbucket : 0 < q.recordedDebt →
        (q.bucket = ZOMBIE_BUCKET ↔ q.ink = 0 ∨ q.recordedDebt < minDebt)) :
      Drawn mid minDebt (some p) (some q)

theorem drawn_of_pass (hnodup : (l.map OrderEntry.owner).Nodup)
    (hlabel : ∀ o ∈ l.map OrderEntry.owner, ∀ p, r.state.positions.lookup o = some p →
      0 < p.recordedDebt → p.bucket ≤ ZOMBIE_BUCKET)
    (h : l.foldlM (redeemOne mid) r = .ok r') (o : Pubkey) :
    (o ∉ l.map OrderEntry.owner →
      r'.state.positions.lookup o = r.state.positions.lookup o) ∧
    Drawn mid r.state.market.minDebt (r.state.positions.lookup o)
      (r'.state.positions.lookup o) := by
  induction l generalizing r with
  | nil =>
    rw [List.foldlM_nil, pure_eq_ok] at h
    subst h
    exact ⟨fun _ ↦ rfl, .kept _⟩
  | cons e l ih =>
    rw [List.foldlM_cons] at h
    obtain ⟨r₁, hr₁, hrest⟩ := bind_eq_ok_iff.mp h
    rw [List.map_cons, List.nodup_cons] at hnodup
    rw [List.map_cons, List.forall_mem_cons] at hlabel
    obtain rfl | ⟨p, amt, m, bm, q, units, hp, -, -, hdraw, hps, rfl⟩ := redeemOne_cases hr₁
    · obtain ⟨hout, hdrawn⟩ := ih hnodup.2 hlabel.2 hrest
      refine ⟨fun ho ↦ hout ?_, hdrawn⟩
      exact fun hmem ↦ ho (List.mem_cons_of_mem _ hmem)
    · obtain ⟨hmin, hdebt, hink, hbucket⟩ := drawDown_result (hlabel.1 p hp) hdraw
      -- the entries that follow belong to other owners, whose positions are as before
      have hother : ∀ o, o ≠ e.owner →
          r₁.state.positions.lookup o = r.state.positions.lookup o := by
        intro o ho
        rw [hps, AList.lookup_insert_ne ho]
      have hlabel₁ : ∀ o ∈ l.map OrderEntry.owner, ∀ p, r₁.state.positions.lookup o = some p →
          0 < p.recordedDebt → p.bucket ≤ ZOMBIE_BUCKET := by
        intro o ho p hp
        have hne : o ≠ e.owner := fun heq ↦ hnodup.1 (heq ▸ ho)
        rw [hother o hne] at hp
        exact hlabel.2 o ho p hp
      obtain ⟨hout, hdrawn⟩ := ih hnodup.2 hlabel₁ hrest
      by_cases ho : o = e.owner
      · subst ho
        refine ⟨fun hnot ↦ absurd List.mem_cons_self hnot, ?_⟩
        rw [hout hnodup.1, hps, AList.lookup_insert, hp]
        exact .drawn amt hdebt hink hbucket
      · rw [hother o ho, hmin] at hdrawn
        rw [hother o ho] at hout
        refine ⟨fun hnot ↦ hout ?_, hdrawn⟩
        exact fun hmem ↦ hnot (List.mem_cons_of_mem _ hmem)

/-- What one pass of the urgent loop does with a candidate: nothing once nothing remains or where
there is no position, and otherwise the position is brought current and drawn down. -/
theorem urgentOne_cases {now : ℕ} {r r' : UrgentRedemption} {c : Candidate}
    (h : urgentOne now mid r c = .ok r') :
    r' = r ∨ ∃ owner p p₁ p' amt units, c = .position owner ∧
      r.state.positions.lookup owner = some p ∧ owner ∉ r.seen ∧ r'.seen = owner :: r.seen ∧
      realize r.state.market p now = .ok p₁ ∧ redeemable p₁ mid r.remaining = .ok amt ∧
      DrawnDown mid amt units p₁ p' ∧
      r'.state.positions = r.state.positions.insert owner p' ∧
      r'.remaining = r.remaining - amt ∧ r'.drawn = r.drawn + units := by
  unfold urgentOne at h
  rcases ite_eq_ok.mp h with ⟨-, h⟩ | ⟨-, h⟩
  · cases h
    exact .inl rfl
  obtain ⟨loaded, hload, h⟩ := bind_eq_ok_iff.mp h
  match loaded with
  | none =>
    cases h
    exact .inl rfl
  | some (owner, p) =>
    obtain ⟨hc, hp⟩ := loadCandidate_eq_some hload
    right
    simp only [bind_eq_ok_iff, require_eq_ok, weighted_eq_ok, exists_const, ite_eq_ok] at h
    obtain ⟨hnew, _, -, p₁, hp₁, amt, hamt, ⟨rfl, h⟩ | ⟨-, h⟩⟩ := h
    · simp only [pure_eq_ok, Prod.exists] at h
      obtain ⟨m₁, -, m₂, p₂, hs, bm, p₃, hrec, rfl⟩ := h
      obtain ⟨stake, total, -, -, -, -, -, rfl⟩ := setStake_spec hs
      obtain ⟨label, rfl⟩ := reconcile_position hrec
      exact ⟨owner, p, p₁, _, 0, 0, hc, hp, hnew, rfl, hp₁, hamt, .zero mid stake label p₁, rfl,
        rfl, rfl⟩
    · simp only [okOr_eq_ok, checkedAdd_eq_some, pure_eq_ok, Prod.exists] at h
      obtain ⟨m', bm', p', units, hdraw, _, ⟨-, rfl⟩, rfl⟩ := h
      exact ⟨owner, p, p₁, p', amt, units, hc, hp, hnew, rfl, hp₁, hamt,
        drawnDown_of_drawDown hdraw, rfl, rfl, rfl⟩

end Pass

end FusionCore
