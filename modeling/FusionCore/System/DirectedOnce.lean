import FusionCore.Controller.ChurnCap
import FusionCore.System.Fusol

/-!
# No share directs stake twice

A preference counts only while the nonce of its position is the one it was written with.  If a
position at an address never falls back behind the nonce of a preference that is left there, then
what a counted preference adds is what its position held when the supply was finalized, and the
positions together held no more than that supply.  A position that is closed and opened again
starts from nonce zero, so it can fall back: the condition below keeps it from doing so.
-/

namespace FusionCore

open Checked StakeController

/-! ## The window of an epoch -/

section Window

variable {prefs : Table Pubkey Preference} {held held' : Pubkey → Option Position}

/-- No position is behind the nonce of its preference. -/
def Synced (prefs : Table Pubkey Preference) (held : Pubkey → Option Position) : Prop :=
  ∀ key pref p, prefs.lookup key = some pref → held key = some p →
    pref.observedInkNonce ≤ p.inkNonce

/-- The positions with a preference were there before, and changed only under a higher nonce. -/
def Follows (prefs : Table Pubkey Preference) (held held' : Pubkey → Option Position) : Prop :=
  ∀ key pref p', prefs.lookup key = some pref → held' key = some p' →
    ∃ p, held key = some p ∧ p.inkNonce ≤ p'.inkNonce ∧
      (p'.inkNonce = p.inkNonce → p'.ink = p.ink)

/-- The open window: `inks` is what the positions held when the supply was finalized, `counted` are
the preferences that were counted since. -/
structure Window (epoch : ℕ) (prefs : Table Pubkey Preference) (held : Pubkey → Option Position)
    (directed supply : ℕ) (inks : Pubkey → ℕ) (counted : Finset Pubkey) : Prop where
  directed : directed = ∑ key ∈ counted, inks key
  bound : ∀ s : Finset Pubkey, ∑ key ∈ s, inks key ≤ supply
  once : ∀ key ∈ counted, ∀ pref, prefs.lookup key = some pref →
    pref.lastCountedEpoch = epoch ∨ epoch < pref.eligibleFromEpoch
  still : ∀ key pref p, prefs.lookup key = some pref → held key = some p →
    pref.eligibleFromEpoch ≤ epoch → p.inkNonce = pref.observedInkNonce → p.ink = inks key

theorem Follows.refl (prefs : Table Pubkey Preference) (held : Pubkey → Option Position) :
    Follows prefs held held :=
  fun _ _ p' _ hp' ↦ ⟨p', hp', le_rfl, fun _ ↦ rfl⟩

theorem Synced.follow (h : Synced prefs held) (hf : Follows prefs held held') :
    Synced prefs held' := by
  intro key pref p' hpref hp'
  obtain ⟨p, hp, hle, -⟩ := hf key pref p' hpref hp'
  exact (h key pref p hpref hp).trans hle

variable {epoch directed supply : ℕ} {inks : Pubkey → ℕ} {counted : Finset Pubkey}

/-- A position that shows the nonce of its preference has not moved since. -/
theorem Window.follow (h : Window epoch prefs held directed supply inks counted)
    (hs : Synced prefs held) (hf : Follows prefs held held') :
    Window epoch prefs held' directed supply inks counted := by
  refine ⟨h.directed, h.bound, h.once, ?_⟩
  intro key pref p' hpref hp' heligible hnonce
  obtain ⟨p, hp, hle, hsame⟩ := hf key pref p' hpref hp'
  have hge := hs key pref p hpref hp
  have heq : p'.inkNonce = p.inkNonce := by omega
  rw [hsame heq]
  exact h.still key pref p hpref hp heligible (heq.symm.trans hnonce)

theorem Window.directed_le (h : Window epoch prefs held directed supply inks counted) :
    directed ≤ supply := by
  rw [h.directed]
  exact h.bound counted

theorem Window.open (epoch : ℕ) (prefs : Table Pubkey Preference)
    (hbound : ∀ s : Finset Pubkey, ∑ key ∈ s, (held key).elim 0 Position.ink ≤ supply) :
    Window epoch prefs held 0 supply (fun key ↦ (held key).elim 0 Position.ink) ∅ where
  directed := rfl
  bound := hbound
  once := fun key hkey ↦ absurd hkey (Finset.notMem_empty key)
  still := by
    intro key pref p _ hp _ _
    rw [hp, Option.elim_some]

end Window

/-! ## Preferences -/

section Preferences

variable {sys : Sysvars} {c c' : Controller} {instr : CrankInstr}
  {held : Pubkey → Option Position}

/-- A fuSOL position that is read is the one that is held. -/
def ReadsHeld (held : Pubkey → Option Position) (fusol : Pubkey) (instr : CrankInstr) : Prop :=
  ∀ key pos, instr.reads = some (key, some pos) → pos.collateralMint = fusol →
    ∃ p, held key = some p ∧ pos.ink = p.ink ∧ pos.inkNonce = p.inkNonce

theorem Synced.move (h : Synced c.preferences held)
    (hread : ReadsHeld held c.config.fusolCollateralMint instr)
    (hmove : PreferenceMove sys c c' instr) : Synced c'.preferences held := by
  intro key pref p hpref hp
  cases hmove with
  | kept _ heq =>
    rw [heq] at hpref
    exact h key pref p hpref hp
  | @synced _ key' pos pref' _ hreads hmint hnonce _ heq =>
    rw [heq, Table.lookup_insert_eq_some_iff] at hpref
    obtain ⟨rfl, rfl⟩ | ⟨-, hpref⟩ := hpref
    · obtain ⟨q, hq, -, hqnonce⟩ := hread key pos hreads hmint
      obtain rfl := Option.some.inj (hq.symm.trans hp)
      exact (hnonce.trans hqnonce).le
    · exact h key pref p hpref hp
  | closed _ key' heq =>
    rw [heq, Table.lookup_erase_eq_some_iff] at hpref
    exact h key pref p hpref.2 hp
  | @counted key' pos pref' record hcounted =>
    rw [hcounted.eq] at hpref
    obtain ⟨rfl, rfl⟩ | ⟨-, hpref⟩ := Table.lookup_insert_eq_some_iff.mp hpref
    · exact h key pref' p hcounted.lookup hp
    · exact h key pref p hpref hp

variable {supply : ℕ} {inks : Pubkey → ℕ} {counted : Finset Pubkey}

/-- A preference that is counted was not counted before, and adds what its position held when the
window opened. -/
theorem Window.count {key : Pubkey} {pos : PositionView} {pref : Preference}
    {record : ValidatorRecord}
    (h : Window c.epochState.controllerEpoch c.preferences held
      (directedAt c.records c.epochState.controllerEpoch) supply inks counted)
    (hread : ReadsHeld held c.config.fusolCollateralMint (.snapshotPreference key (some pos)))
    (hcounted : Counted c c' key pos pref record) :
    Window c.epochState.controllerEpoch c'.preferences held
      (directedAt c'.records c.epochState.controllerEpoch) supply inks (insert key counted) := by
  obtain ⟨hmint, -, hnonce, heligible, hlast⟩ := hcounted.counts
  obtain ⟨p, hp, hink, hpnonce⟩ := hread key pos rfl hmint
  have hstill : p.ink = inks key :=
    h.still key pref p hcounted.lookup hp heligible (hpnonce.symm.trans hnonce)
  have hnew : key ∉ counted := by
    intro hmem
    obtain hcount | hlt := h.once key hmem pref hcounted.lookup
    · exact hlast hcount
    · omega
  have hprefs : c'.preferences = c.preferences.insert key
      { pref with lastCountedEpoch := c.epochState.controllerEpoch } := by rw [hcounted.eq]
  refine ⟨?_, h.bound, ?_, ?_⟩
  · rw [hcounted.directed, Finset.sum_insert hnew, h.directed, hink, hstill, Nat.add_comm]
  · intro key' hkey' pref' hpref'
    rw [hprefs, Table.lookup_insert_eq_some_iff] at hpref'
    obtain ⟨-, rfl⟩ | ⟨hne, hpref'⟩ := hpref'
    · exact .inl rfl
    · exact h.once key' (Finset.mem_of_mem_insert_of_ne hkey' hne) pref' hpref'
  · intro key' pref' p' hpref' hp' heligible' hnonce'
    rw [hprefs, Table.lookup_insert_eq_some_iff] at hpref'
    obtain ⟨rfl, rfl⟩ | ⟨-, hpref'⟩ := hpref'
    · exact h.still key' pref p' hcounted.lookup hp' heligible' hnonce'
    · exact h.still key' pref' p' hpref' hp' heligible' hnonce'

theorem Window.write {epoch directed : ℕ} {prefs : Table Pubkey Preference} {key : Pubkey}
    {pref : Preference} (h : Window epoch prefs held directed supply inks counted)
    (heligible : epoch < pref.eligibleFromEpoch) :
    Window epoch (prefs.insert key pref) held directed supply inks counted := by
  refine ⟨h.directed, h.bound, ?_, ?_⟩
  · intro key' hkey' pref' hpref'
    obtain ⟨-, rfl⟩ | ⟨-, hpref'⟩ := Table.lookup_insert_eq_some_iff.mp hpref'
    · exact .inr heligible
    · exact h.once key' hkey' pref' hpref'
  · intro key' pref' p hpref' hp heligible' hnonce
    obtain ⟨-, rfl⟩ | ⟨-, hpref'⟩ := Table.lookup_insert_eq_some_iff.mp hpref'
    · omega
    · exact h.still key' pref' p hpref' hp heligible' hnonce

theorem Window.erase {epoch directed : ℕ} {prefs : Table Pubkey Preference}
    (h : Window epoch prefs held directed supply inks counted) (key : Pubkey) :
    Window epoch (prefs.erase key) held directed supply inks counted := by
  refine ⟨h.directed, h.bound, ?_, ?_⟩
  · intro key' hkey' pref hpref
    exact h.once key' hkey' pref (Table.lookup_erase_eq_some_iff.mp hpref).2
  · intro key' pref p hpref
    exact h.still key' pref p (Table.lookup_erase_eq_some_iff.mp hpref).2

theorem Window.move
    (h : Window c.epochState.controllerEpoch c.preferences held
      (directedAt c.records c.epochState.controllerEpoch) supply inks counted)
    (hclock : c.epochState.controllerEpoch ≤ sys.clock.epoch)
    (hread : ReadsHeld held c.config.fusolCollateralMint instr)
    (hkept : (∀ key position, instr ≠ .snapshotPreference key position) →
      directedAt c'.records c.epochState.controllerEpoch =
        directedAt c.records c.epochState.controllerEpoch)
    (hmove : PreferenceMove sys c c' instr) :
    ∃ counted', Window c.epochState.controllerEpoch c'.preferences held
      (directedAt c'.records c.epochState.controllerEpoch) supply inks counted' := by
  cases hmove with
  | kept hinstr heq =>
    rw [heq, hkept hinstr]
    exact ⟨counted, h⟩
  | synced hinstr _ _ _ heligible heq =>
    rw [heq, hkept hinstr]
    exact ⟨counted, h.write (hclock.trans_lt heligible)⟩
  | closed hinstr key heq =>
    rw [heq, hkept hinstr]
    exact ⟨counted, h.erase key⟩
  | counted hcounted => exact ⟨_, h.count hread hcounted⟩

end Preferences

/-! ## The condition -/

namespace Deployment

variable (d : Deployment)

/-- The owner of the fuSOL position that an event opens. -/
def opens : FusolEvent → Option Pubkey
  | .core e =>
    match e.instr.coreOn d.fusol with
    | some (.openPosition owner _) => some owner
    | _ => none
  | .stake _ _ => none

/-- A fuSOL position is opened only where no preference is left from an earlier one, and no nonce
has saturated. -/
def OpensFresh (e : FusolEvent) (w : FusolWorld) : Prop :=
  (∀ owner ∈ d.opens e,
    w.stake.controller.preferences.lookup (d.address d.fusol owner) = none) ∧
  ∀ state ∈ w.core.system.protocol.markets.lookup d.fusol,
    state.positions.All fun p ↦ p.inkNonce < 2 ^ 64 - 1

instance (e : FusolEvent) (w : FusolWorld) : Decidable (d.OpensFresh e w) :=
  inferInstanceAs (Decidable (_ ∧ _))

variable {d}

/-- A step of fusd-core moves a position with a preference only under a higher nonce. -/
theorem follows_of_step {prefs : Table Pubkey Preference} {e : SystemEvent} {w w' : SystemWorld}
    (hreach : fusion.Reach w) (hs : fusion.step e w w')
    (hopens : ∀ owner rate, e.instr.coreOn d.fusol = some (.openPosition owner rate) →
      prefs.lookup (d.address d.fusol owner) = none)
    (hnonce : ∀ state ∈ w.system.protocol.markets.lookup d.fusol,
      state.positions.All fun p ↦ p.inkNonce < 2 ^ 64 - 1) :
    Follows prefs (d.held w) (d.held w') := by
  intro key pref p' hpref hp'
  obtain ⟨p, hp, hadvances⟩ | ⟨owner, rate, rfl, hcore⟩ := fusion_held hreach hs hp'
  · obtain ⟨owner, state, -, hstate, hl⟩ := held_eq_some.mp hp
    have hlt := hnonce state hstate owner p hl
    obtain ⟨hle, -, hsame⟩ := hadvances (by omega)
    refine ⟨p, hp, hle, fun heq ↦ ?_⟩
    obtain hink | hsaturated := hsame heq
    · exact hink
    · omega
  · rw [hopens owner rate hcore] at hpref
    cases hpref

/-! ## Runs -/

/-- The supply that each epoch has finalized, kept beside the run. -/
def noteSupply (e : FusolEvent) (_ w' : FusolWorld) (supplies : ℕ → ℕ) : ℕ → ℕ :=
  match e with
  | .stake ⟨_, .finalizePool _ _ _⟩ _ =>
    Function.update supplies w'.stake.epoch w'.stake.controller.epochState.navFusolSupply
  | _ => supplies

/-- The state of a run: no epoch has counted more than the supply it finalized, and the window that
is open now counts each position once. -/
structure CountInv (d : Deployment) (w : FusolWorld) (supplies : ℕ → ℕ) : Prop where
  mint : w.stake.controller.config.fusolCollateralMint = d.fusol
  within : ∀ epoch, directedAt w.stake.controller.records epoch ≤ supplies epoch
  future : ∀ epoch, w.stake.epoch < epoch → directedAt w.stake.controller.records epoch = 0
  early : w.stake.phase = .reconcile ∨ w.stake.phase = .finalize →
    directedAt w.stake.controller.records w.stake.epoch = 0
  supply : w.stake.phase = .preferences ∨ w.stake.phase = .planDirected →
    supplies w.stake.epoch ≤ w.stake.controller.epochState.navFusolSupply
  synced : Synced w.stake.controller.preferences (d.held w.core)
  window : w.stake.phase = .preferences → ∃ inks counted,
    Window w.stake.epoch w.stake.controller.preferences (d.held w.core)
      (directedAt w.stake.controller.records w.stake.epoch) (supplies w.stake.epoch) inks counted

/-- A run may start inside a window: what is written in it counts later, so nothing is counted. -/
theorem CountInv.init {w : FusolWorld} (h : d.Start w) : CountInv d w fun _ ↦ 0 := by
  have hzero : ∀ epoch, directedAt w.stake.controller.records epoch = 0 := by
    intro epoch
    refine Table.total_eq_zero fun v r hr ↦ ?_
    have hshares : r.directedShares = 0 := h.undirected v r hr
    simp only [ValidatorRecord.sharesAt, hshares, ite_self]
  have hnone : ∀ key pref, w.stake.controller.preferences.lookup key ≠ some pref := by
    intro key pref hpref
    rw [h.preferences] at hpref
    cases hpref
  refine ⟨h.mint, fun epoch ↦ (hzero epoch).le, fun epoch _ ↦ hzero epoch, fun _ ↦ hzero _,
    fun _ ↦ Nat.zero_le _, ?_, ?_⟩
  · exact fun key pref p hpref ↦ absurd hpref (hnone key pref)
  · rw [hzero]
    refine fun _ ↦ ⟨fun _ ↦ 0, ∅, rfl, ?_, ?_, ?_⟩
    · exact fun s ↦ (Finset.sum_const_zero).le
    · exact fun key hkey ↦ absurd hkey (Finset.notMem_empty key)
    · exact fun key pref p hpref ↦ absurd hpref (hnone key pref)

theorem CountInv.onCore {w w' : FusolWorld} {supplies : ℕ → ℕ} (h : CountInv d w supplies)
    (hstake : w'.stake = w.stake)
    (hf : Follows w.stake.controller.preferences (d.held w.core) (d.held w'.core)) :
    CountInv d w' supplies := by
  refine ⟨?_, ?_, ?_, ?_, ?_, ?_, ?_⟩
  all_goals rw [hstake]
  · exact h.mint
  · exact h.within
  · exact h.future
  · exact h.early
  · exact h.supply
  · exact h.synced.follow hf
  · intro hphase
    obtain ⟨inks, counted, hwindow⟩ := h.window hphase
    exact ⟨inks, counted, hwindow.follow h.synced hf⟩

section Stake

variable {w : FusolWorld} {stake : CrankWorld} {e : CrankEvent} {holder : Pubkey}
  {supplies : ℕ → ℕ}

theorem readsHeld_of_readsPosition (hmint : w.stake.controller.config.fusolCollateralMint = d.fusol)
    (h : d.ReadsPosition w.core e.instr) :
    ReadsHeld (d.held w.core) w.stake.controller.config.fusolCollateralMint e.instr := by
  intro key pos hreads hpos
  have hview : some pos = d.view w.core key := h (key, some pos) hreads
  exact held_of_view hview.symm (hpos.trans hmint)

/-- A preference that is counted leaves the sums of other epochs at most as they were. -/
theorem directed_le_of_move {sys : Sysvars} {c c' : Controller} {instr : CrankInstr} {epoch : ℕ}
    (hmove : PreferenceMove sys c c' instr) (hne : epoch ≠ c.epochState.controllerEpoch)
    (hkept : (∀ key position, instr ≠ .snapshotPreference key position) →
      directedAt c'.records epoch = directedAt c.records epoch) :
    directedAt c'.records epoch ≤ directedAt c.records epoch := by
  cases hmove with
  | kept hinstr | synced hinstr | closed hinstr => exact (hkept hinstr).le
  | counted hcounted => exact hcounted.directed_le hne

theorem CountInv.onStake (h : CountInv d w supplies) (hcore : fusion.Reach w.core)
    (hreach : crank.Reach w.stake) (hs : crank.step e w.stake stake)
    (hposition : d.ReadsPosition w.core e.instr) (hsupply : d.ReadsSupply w.core e.instr) :
    CountInv d ⟨w.core, stake⟩
      (noteSupply (.stake e holder) w ⟨w.core, stake⟩ supplies) := by
  obtain ⟨hconfig, hmove⟩ := crank_preference_step hs
  have hread := readsHeld_of_readsPosition h.mint hposition
  have hclock : w.stake.epoch ≤ e.sys.clock.epoch :=
    (ChurnInv.of_reach hreach).clock.trans (crank_step_run hs).1.epoch
  have hkept := crank_directed_kept hs
  have hmint := hconfig ▸ h.mint
  have hsynced := h.synced.move hread hmove
  have hphase := crank_phase_step hs
  obtain ⟨sys, instr⟩ := e
  cases hphase with
  | starts hlt _ hphase' =>
    have hsame := hkept (by simp)
    refine ⟨hmint, ?_, ?_, ?_, ?_, hsynced, ?_⟩
    · exact fun epoch ↦ (hsame epoch).trans_le (h.within epoch)
    · exact fun epoch hepoch ↦ (hsame epoch).trans (h.future epoch (hlt.trans hepoch))
    · exact fun _ ↦ (hsame _).trans (h.future _ hlt)
    · intro hlate
      simp [hphase'] at hlate
    · intro hpref
      simp [hphase'] at hpref
  | @opens mintSupply fee crank hphase hphase' hepoch hnav =>
    have hsame := hkept (by simp)
    have hzero : directedAt stake.controller.records w.stake.epoch = 0 :=
      (hsame _).trans (h.early (.inr hphase))
    have hfound : mintSupply = d.supply w.core + fee := hsupply
    simp only [noteSupply, hepoch, hnav]
    refine ⟨hmint, ?_, ?_, ?_, ?_, hsynced, ?_⟩
    · intro epoch
      by_cases hcurrent : epoch = w.stake.epoch
      · rw [hcurrent, hzero]
        exact Nat.zero_le _
      · rw [Function.update_of_ne hcurrent, hsame]
        exact h.within epoch
    · intro epoch hlt
      rw [hepoch] at hlt
      exact (hsame epoch).trans (h.future epoch hlt)
    · intro hearly
      simp [hphase'] at hearly
    · intro _
      rw [hepoch, hnav, Function.update_self]
    · intro _
      rw [hepoch, hzero, Function.update_self]
      refine ⟨_, ∅, Window.open _ _ fun s ↦ ?_⟩
      exact (sum_held_le hcore s).trans (hfound ▸ Nat.le_add_right _ _)
  | onward hinstr honward =>
    have hsupplies : noteSupply (.stake ⟨sys, instr⟩ holder) w ⟨w.core, stake⟩ supplies =
        supplies := by
      cases instr with
      | finalizePool mintSupply fee crank => exact absurd rfl (hinstr mintSupply fee crank)
      | _ => rfl
    -- only in the window is anything counted
    have hcases : (∀ epoch, directedAt stake.controller.records epoch =
        directedAt w.stake.controller.records epoch) ∨ stake.phase = .preferences := by
      cases hmove with
      | kept hne | synced hne | closed hne => exact .inl (hkept hne)
      | counted hcounted =>
        refine .inr ?_
        rw [CrankWorld.phase, hcounted.eq]
        exact hcounted.phase
    have hwindow : stake.phase = .preferences → ∃ inks counted,
        Window w.stake.epoch stake.controller.preferences (d.held w.core)
          (directedAt stake.controller.records w.stake.epoch) (supplies w.stake.epoch) inks
          counted := by
      intro hphase'
      have hphase : w.stake.phase = .preferences :=
        (congrArg EpochState.phase (honward.window hphase')).symm.trans hphase'
      obtain ⟨inks, counted, hw⟩ := h.window hphase
      obtain ⟨counted', hw'⟩ := Window.move hw hclock hread (fun hne ↦ hkept hne _) hmove
      exact ⟨inks, counted', hw'⟩
    have hcurrent : directedAt stake.controller.records w.stake.epoch ≤
        supplies w.stake.epoch := by
      obtain hsame | hphase' := hcases
      · exact (hsame _).trans_le (h.within _)
      · obtain ⟨inks, counted, hw⟩ := hwindow hphase'
        exact hw.directed_le
    rw [hsupplies]
    refine ⟨hmint, ?_, ?_, ?_, ?_, hsynced, ?_⟩
    · intro epoch
      by_cases hne : epoch = w.stake.epoch
      · rw [hne]
        exact hcurrent
      · exact (directed_le_of_move hmove hne fun hi ↦ hkept hi epoch).trans (h.within epoch)
    · intro epoch hlt
      rw [honward.epoch] at hlt
      have hle := directed_le_of_move hmove hlt.ne' fun hi ↦ hkept hi epoch
      rw [h.future epoch hlt] at hle
      exact Nat.le_zero.mp hle
    · intro hearly
      obtain hsame | hphase' := hcases
      · rw [honward.epoch]
        exact (hsame _).trans (h.early (honward.early hearly))
      · simp [hphase'] at hearly
    · intro hlate
      obtain ⟨hbefore, hnav⟩ := honward.counted hlate
      rw [honward.epoch, hnav]
      exact h.supply hbefore
    · rw [honward.epoch]
      exact hwindow

end Stake

theorem opens_core {e : SystemEvent} {owner : Pubkey} {rate : UInt16}
    (h : e.instr.coreOn d.fusol = some (.openPosition owner rate)) :
    d.opens (.core e) = some owner := by
  simp only [opens, h]

theorem CountInv.of_reachable {x : FusolWorld × (ℕ → ℕ)}
    (h : (d.machine.withGhost (fun _ ↦ 0) noteSupply).Reachable
      (fun e x ↦ d.OpensFresh e x.1) x) : CountInv d x.1 x.2 := by
  induction h with
  | init h =>
    rw [h.2]
    exact .init h.1
  | @step x x' e hreach hg hs ih =>
    obtain ⟨hcore, hstake⟩ := machine_reach hreach.forget
    obtain ⟨hopens, hnonce⟩ := hg
    obtain ⟨hs, hghost⟩ := hs
    rw [hghost]
    cases machine_step hs with
    | core hrun hkept =>
      refine ih.onCore hkept (follows_of_step hcore hrun ?_ hnonce)
      intro owner rate hopen
      exact hopens owner (opens_core hopen)
    | @stake e holder hrun hposition hsupply hissue =>
      have hnext : CountInv d ⟨x.1.core, x'.1.stake⟩
          (noteSupply (.stake e holder) x.1 ⟨x.1.core, x'.1.stake⟩ x.2) :=
        ih.onStake hcore hstake hrun hposition hsupply
      refine hnext.onCore rfl ?_
      obtain heq | ⟨e', hrun', hne⟩ := hissue
      · rw [heq]
        exact .refl _ _
      · exact follows_of_step hcore hrun' (fun owner rate hopen ↦ absurd hopen (hne owner rate))
          hnonce

/-- In every run that opens fuSOL positions only at addresses without a preference, and in which no
nonce saturates, the shares directed in an epoch are within the supply that the epoch finalized, and
the directed pass is never refused for exceeding it. -/
theorem directed_within_supply (d : Deployment) {x : FusolWorld × (ℕ → ℕ)}
    (h : (d.machine.withGhost (fun _ ↦ 0) noteSupply).Reachable
      (fun e x ↦ d.OpensFresh e x.1) x) :
    (∀ epoch, directedAt x.1.stake.controller.records epoch ≤ x.2 epoch) ∧
      ∀ sys pairs crank, planDirectedBatch sys pairs crank x.1.stake.controller ≠
        .error .directedSharesExceedSupply := by
  have hi := CountInv.of_reachable h
  obtain ⟨-, hstake⟩ := machine_reach h.forget
  refine ⟨hi.within, fun sys pairs crank ↦ planDirectedBatch_ne_exceed ?_ pairs crank⟩
  intro hphase
  refine ⟨crank_sharesBooked hstake hphase, ?_⟩
  exact (hi.within _).trans (hi.supply (.inr hphase))

end Deployment

/-! ## A run -/

namespace FusolSample

/-- The address of a position is the pair of its mint and its owner. -/
def deployment : Deployment where
  fusol := 7
  address := Nat.pair
  locate key := some (Nat.unpair key)
  locate_eq_some := by
    intro key mint owner
    rw [Option.some.injEq]
    constructor
    · intro h
      rw [← Nat.pair_unpair key, h]
    · rintro rfl
      exact Nat.unpair_pair mint owner

def genesis : FusolWorld := ⟨Sample.genesis, CrankSample.genesis⟩

theorem genesis_start : deployment.Start genesis where
  core := .init Sample.genesis_init
  stake := .init ⟨rfl, rfl, rfl, rfl, le_rfl, rfl⟩
  mint := rfl
  supply := rfl
  preferences := rfl
  undirected := fun _ _ h ↦ by cases h

def onCore (epoch slot : ℕ) (instrs : List SystemInstr) : List FusolEvent :=
  instrs.map fun i ↦ .core ⟨(CrankSample.at_ epoch slot).clock, i⟩

/-- The pool mints to owner 500. -/
def onStake (epoch slot : ℕ) (instrs : List CrankInstr) : List FusolEvent :=
  instrs.map fun i ↦ .stake ⟨CrankSample.at_ epoch slot, i⟩ 500

def key (owner : Pubkey) : Pubkey := Nat.pair 7 owner

def shown (owner sol nonce : ℕ) : Option PositionView :=
  some ⟨owner, 7, sol * LAMPORTS_PER_SOL, nonce⟩

def tokens (sol : ℕ) : UInt64 := UInt64.ofNat (sol * LAMPORTS_PER_SOL)

/-- A hundred thousand SOL are deposited, and owner 500 puts ninety thousand of them behind a
validator. -/
def launch : List FusolEvent :=
  onCore 1 0 [Sample.initMarket] ++
  onStake 1 10
    [.registerValidator 11 (CrankSample.healthy 1 0),
      .depositSol (100000 * LAMPORTS_PER_SOL) (100000 * LAMPORTS_PER_SOL)] ++
  onCore 1 20
    [.core (.market 7 (.openPosition 500 500)) rfl,
      .core (.market 7 (.deposit 500 (tokens 90000))) rfl] ++
  onStake 1 30 [.setPreference 500 (key 500) (shown 500 90000 1) 11]

/-- Owner 501 states a preference over one token, takes the token out and closes the position; the
preference stays. -/
def leave : List FusolEvent :=
  onCore 1 40
    [.core (.market 7 (.transferCollateral 500 (.wallet 501) (tokens 1))) rfl,
      .core (.market 7 (.openPosition 501 500)) rfl,
      .core (.market 7 (.deposit 501 (tokens 1))) rfl] ++
  onStake 1 50 [.setPreference 501 (key 501) (shown 501 1 1) 11] ++
  onCore 1 60
    [.core (.market 7 (.withdraw 501 (tokens 1))) rfl,
      .core (.market 7 (.closePosition 501)) rfl]

/-- The next epoch finalizes the supply and counts the shares of owner 500. -/
def count : List FusolEvent :=
  onStake 2 10
    [.startEpoch, .reconcileBatch [] 100, .finalizePool (100000 * LAMPORTS_PER_SOL) 0 100,
      .snapshotPreference (key 500) (shown 500 90000 1)]

/-- The counted shares move to owner 501, whose new position counts them again. -/
def recount : List FusolEvent :=
  onCore 2 20
    [.core (.market 7 (.withdraw 500 (tokens 90000))) rfl,
      .core (.market 7 (.transferCollateral 500 (.wallet 501) (tokens 90000))) rfl,
      .core (.market 7 (.openPosition 501 500)) rfl,
      .core (.market 7 (.deposit 501 (tokens 90000))) rfl] ++
  onStake 2 30 [.snapshotPreference (key 501) (shown 501 90000 1)] ++
  onStake 2 20000 [.closePreferenceWindow]

/-- The directed pass over the one validator. -/
def planned (c : Controller) : Except ControllerError Controller :=
  planDirectedBatch (CrankSample.at_ 2 20010) [⟨11, 11, CrankSample.healthy 2 20000⟩] 100 c

def run (G : FusolEvent → FusolWorld → Prop) [∀ e w, Decidable (G e w)]
    (events : List FusolEvent) : Option (FusolWorld × (ℕ → ℕ)) :=
  Machine.execute (fun e x ↦ G e x.1) (Machine.ghostNext deployment.next Deployment.noteSupply)
    (genesis, fun _ ↦ 0) events

theorem reachable_run {G : FusolEvent → FusolWorld → Prop} [∀ e w, Decidable (G e w)]
    {events : List FusolEvent} {x : FusolWorld × (ℕ → ℕ)} (h : run G events = some x) :
    (deployment.machine.withGhost (fun _ ↦ 0) Deployment.noteSupply).Reachable
      (fun e x ↦ G e x.1) x := by
  have hinit : (deployment.machine.withGhost (fun _ ↦ 0) Deployment.noteSupply).init
      (genesis, fun _ ↦ 0) := ⟨genesis_start, rfl⟩
  exact (Machine.Reachable.init hinit).execute
    (Machine.withGhost_step fun _ _ _ hs ↦ hs) h

end FusolSample

open FusolSample

theorem Deployment.directed_within_supply_sample : ∃ x,
    (deployment.machine.withGhost (fun _ ↦ 0) noteSupply).Reachable
      (fun e x ↦ deployment.OpensFresh e x.1) x ∧
      0 < directedAt x.1.stake.controller.records 2 ∧
        ∀ epoch, directedAt x.1.stake.controller.records epoch ≤ x.2 epoch := by
  have hrun : (run deployment.OpensFresh (launch ++ leave ++ count)).map (fun x ↦
      decide (0 < directedAt x.1.stake.controller.records 2)) = some true := by decide +kernel
  obtain ⟨x, hx, hcounted⟩ := Option.map_eq_some_iff.mp hrun
  have hreach := reachable_run hx
  exact ⟨x, hreach, of_decide_eq_true hcounted, (directed_within_supply deployment hreach).1⟩

/-- A position that is closed and opened again is back at the nonce of the preference that it left
behind: the shares of another position count a second time through it, and the directed pass is
refused. -/
theorem Deployment.directed_twice : ∃ x,
    (deployment.machine.withGhost (fun _ ↦ 0) noteSupply).Reach x ∧
      x.2 2 < directedAt x.1.stake.controller.records 2 ∧
        planned x.1.stake.controller = .error .directedSharesExceedSupply := by
  have hrun : (run (fun _ _ ↦ True) (launch ++ leave ++ count ++ recount)).map (fun x ↦
      decide (x.2 2 < directedAt x.1.stake.controller.records 2 ∧
        planned x.1.stake.controller = .error .directedSharesExceedSupply)) = some true := by
    decide +kernel
  obtain ⟨x, hx, htwice⟩ := Option.map_eq_some_iff.mp hrun
  exact ⟨x, reachable_run hx, of_decide_eq_true htwice⟩

end FusionCore
