import FusionCore.Controller.VoteState

/-!
# Reading back a vote account

The buffer is a serialized account with any padding behind it, cut off after `k` bytes.  Each part
of the walk starts where its section starts and ends where it ends, unless the buffer is too short
for the account; the last check finds that out, if no earlier one has.
-/

namespace FusionCore
namespace StakeView

open Checked Outcome ByteReader StakeController

section Walk

variable {payload padding rest : Bytes} {k cur : ℕ}

/-! ## Readers -/

theorem tryFit_yields (hk : k < 2 ^ 64) (h : cur ≤ payload.length) :
    Yields (ofOption (tryFit 64 cur) ()) (k < payload.length) (· = cur) := by
  unfold tryFit
  split
  next hfit => exact .ok rfl
  next hbig => exact .err (by omega)

theorem u64At_yields (hk : k < 2 ^ 64) {x : ℕ} (hx : x < 2 ^ 64) {e : VoteStateError}
    (hs : SuffixAt payload cur (leBytes 8 x ++ rest)) :
    Yields ((u64At ((payload ++ padding).take k) cur).okOr e) (k < payload.length) (· = x) := by
  have hlen := hs.length_eq
  apply Yields.okOr
  apply Yields.bind (tryFit_yields hk (by omega))
  rintro _ rfl
  exact uintLe_yields hk (hx.trans_eq (by decide)) hs

theorem u8At_yields (hk : k < 2 ^ 64) {byte : UInt8} {e : VoteStateError}
    (hs : SuffixAt payload cur (byte :: rest)) :
    Yields ((u8At ((payload ++ padding).take k) cur).okOr e) (k < payload.length)
      (· = byte) := by
  have hlen := hs.length_eq
  apply Yields.okOr
  apply Yields.bind (tryFit_yields hk (by omega))
  rintro _ rfl
  exact get_yields hs

theorem ensureWithin_yields {stop : ℕ} (h : stop ≤ payload.length) :
    Yields (ensureWithin ((payload ++ padding).take k) stop) (k < payload.length)
      (fun _ ↦ stop ≤ k) := by
  have hcut : stop ≤ ((payload ++ padding).take k).length ↔ stop ≤ k := le_length_cut_iff h
  apply Yields.ite
  · intro hin
    exact .ok (hcut.mp hin)
  · intro hout
    exact .err (by omega)

/-! ## Sections -/

/-- The start that all walks over a counted collection share: what follows it gets the number of
entries and the offsets before and behind them. -/
theorem countedStart_yields (hk : k < 2 ^ 64) {α β : Type} {encode : α → Bytes} {entryBytes : ℕ}
    (hlen : ∀ x, (encode x).length = entryBytes) {xs : List α} (hxs : xs.length < 2 ^ 64)
    (hs : SuffixAt payload cur (counted encode xs ++ rest))
    {walk : ℕ → ℕ → ℕ → Outcome VoteStateError β} {Q : β → Prop}
    (hwalk : Yields (walk xs.length (cur + 8) (cur + (counted encode xs).length))
      (k < payload.length) Q) :
    Yields (do
      let count ← (u64At ((payload ++ padding).take k) cur).okOr VoteStateError.tooShort
      let start ← ofOption (checkedAdd 64 cur 8) VoteStateError.malformed
      let total ← ofOption (checkedMul 64 count entryBytes) VoteStateError.malformed
      let stop ← ofOption (checkedAdd 64 start total) VoteStateError.malformed
      ensureWithin ((payload ++ padding).take k) stop
      walk count start stop) (k < payload.length) Q := by
  have hend := hs.length_eq
  rw [List.length_append] at hend
  have hbytes := length_counted hlen xs
  rw [counted, List.append_assoc] at hs
  apply Yields.bind (u64At_yields hk hxs hs)
  rintro _ rfl
  apply Yields.bind (checkedAdd_yields hk (by omega))
  rintro _ rfl
  apply Yields.bind (checkedMul_yields hk (by omega))
  rintro _ rfl
  apply Yields.bind (checkedAdd_yields hk (by omega))
  rintro _ rfl
  apply Yields.bind (ensureWithin_yields (by omega))
  intro _ _
  rw [hbytes, ← Nat.add_assoc] at hwalk
  exact hwalk

theorem skipCounted_yields (hk : k < 2 ^ 64) {α : Type} {encode : α → Bytes} {entryBytes : ℕ}
    (hlen : ∀ x, (encode x).length = entryBytes) {xs : List α} (hxs : xs.length < 2 ^ 64)
    (hs : SuffixAt payload cur (counted encode xs ++ rest)) :
    Yields (skipCounted ((payload ++ padding).take k) cur entryBytes) (k < payload.length)
      (· = cur + (counted encode xs).length) := by
  apply countedStart_yields hk hlen hxs hs
  exact .ok rfl

theorem readVersion_yields (hk : k < 2 ^ 64) (tower : Tower)
    (hs : SuffixAt payload 0 (leBytes 4 tower.tag ++ rest)) :
    Yields (readVersion ((payload ++ padding).take k)) (k < payload.length)
      (· = tower.hasLatency) := by
  have htag : tower.tag < 256 ^ 4 := by
    cases tower with
    | v1_14_11 votes => exact (by decide : VERSION_TAG_V1_14_11 < 256 ^ 4)
    | v3 votes => exact (by decide : VERSION_TAG_V3 < 256 ^ 4)
  apply Yields.bind (uintLe_yields hk htag hs).okOr
  rintro _ rfl
  cases tower with
  | v1_14_11 votes => exact .ok rfl
  | v3 votes => exact .ok rfl

/-- The slot of a vote stands behind its latency, if it has one. -/
structure VoteEncoding {α : Type} (hasLatency : Bool) (encode : α → Bytes) (slot : α → UInt64) :
    Prop where
  length : ∀ vote, (encode vote).length = voteEntryBytes hasLatency
  split : ∀ vote, ∃ lead tail, encode vote = lead ++ (u64Bytes (slot vote) ++ tail) ∧
    lead.length = if hasLatency then 1 else 0

theorem lockout_encoding : VoteEncoding false Lockout.serialize Lockout.slot where
  length := length_lockout
  split := fun _ ↦ ⟨[], _, rfl, rfl⟩

theorem landedVote_encoding :
    VoteEncoding true LandedVote.serialize fun v ↦ v.lockout.slot where
  length := length_landedVote
  split := fun v ↦ ⟨[v.latency], _, rfl, rfl⟩

theorem readVotes_yields (hk : k < 2 ^ 64) {α : Type} {hasLatency : Bool} {encode : α → Bytes}
    {slot : α → UInt64} (he : VoteEncoding hasLatency encode slot) {votes : List α}
    (hvotes : votes.length < 2 ^ 64)
    (hs : SuffixAt payload VOTES_COUNT_OFFSET (counted encode votes ++ rest)) :
    Yields (readVotes ((payload ++ padding).take k) hasLatency) (k < payload.length)
      (· = (votes.getLast?.map fun vote ↦ (slot vote).toNat,
        VOTES_COUNT_OFFSET + (counted encode votes).length)) := by
  have hend := hs.length_eq
  rw [List.length_append] at hend
  have hbytes := length_counted he.length votes
  apply countedStart_yields hk he.length hvotes hs
  rw [counted, List.append_assoc] at hs
  have hentries := hs.next
  rw [length_leBytes] at hentries
  obtain rfl | ⟨init, last, rfl⟩ := votes.eq_nil_or_concat'
  · rw [if_neg (show ¬0 < ([] : List α).length from Nat.lt_irrefl 0)]
    exact .ok rfl
  · -- the last entry follows all others, and its slot follows its latency
    obtain ⟨lead, tail, hencode, hlead⟩ := he.split last
    rw [List.flatMap_append, List.flatMap_singleton, List.append_assoc] at hentries
    have hlast := hentries.next
    rw [length_flatMap_const he.length, hencode, List.append_assoc] at hlast
    have hslot := hlast.next
    rw [hlead, List.append_assoc] at hslot
    have hslotEnd := hslot.length_eq
    have hcount : (init ++ [last]).length * voteEntryBytes hasLatency =
        init.length * voteEntryBytes hasLatency + voteEntryBytes hasLatency := by
      rw [List.length_append, List.length_singleton, Nat.add_mul, Nat.one_mul]
    have hsub : checkedSub (VOTES_COUNT_OFFSET + (counted encode (init ++ [last])).length)
        (voteEntryBytes hasLatency) =
          some (VOTES_COUNT_OFFSET + 8 + init.length * voteEntryBytes hasLatency) :=
      checkedSub_eq_some.mpr ⟨by omega, by omega⟩
    rw [if_pos (by simp), hsub, Option.bind_some]
    apply Yields.bind (checkedAdd_yields hk (by omega))
    rintro _ rfl
    apply Yields.bind (u64At_yields hk (UInt64.toNat_lt _) hslot)
    rintro _ rfl
    refine .ok (Prod.ext ?_ rfl)
    rw [List.getLast?_concat]
    rfl

theorem readTower_yields (hk : k < 2 ^ 64) {tower : Tower} (htower : tower.length < 2 ^ 64)
    (hs : SuffixAt payload VOTES_COUNT_OFFSET (tower.serialize ++ rest)) :
    Yields (readVotes ((payload ++ padding).take k) tower.hasLatency) (k < payload.length)
      (· = (tower.lastSlot.map UInt64.toNat, VOTES_COUNT_OFFSET + tower.serialize.length)) := by
  cases tower with
  | v1_14_11 votes =>
    rw [Tower.lastSlot, Option.map_map]
    exact readVotes_yields hk lockout_encoding htower hs
  | v3 votes =>
    rw [Tower.lastSlot, Option.map_map]
    exact readVotes_yields hk landedVote_encoding htower hs

theorem skipRootSlot_yields (hk : k < 2 ^ 64) (rootSlot : Option UInt64)
    (hs : SuffixAt payload cur (rootSlotBytes rootSlot ++ rest)) :
    Yields (skipRootSlot ((payload ++ padding).take k) cur) (k < payload.length)
      (· = cur + (rootSlotBytes rootSlot).length) := by
  have hend := hs.length_eq
  rw [List.length_append] at hend
  cases rootSlot with
  | none =>
    rw [rootSlotBytes, List.length_singleton] at hend
    apply Yields.bind (u8At_yields hk hs)
    rintro _ rfl
    apply Yields.bind (checkedAdd_yields hk (by omega))
    rintro _ rfl
    exact .ok rfl
  | some slot =>
    rw [rootSlotBytes, List.length_cons, length_u64Bytes] at hend
    apply Yields.bind (u8At_yields hk hs)
    rintro _ rfl
    apply Yields.bind (checkedAdd_yields hk (by omega))
    rintro _ rfl
    apply Yields.bind (checkedAdd_yields hk (by omega))
    rintro _ rfl
    apply Yields.bind (ensureWithin_yields (by omega))
    intro _ _
    refine .ok ?_
    rw [rootSlotBytes, List.length_cons, length_u64Bytes]

/-- What one entry adds to what is known about the epoch. -/
def EpochCredits.growth (c : EpochCredits) (priorEpoch : ℕ) (growth : Bool) : Bool :=
  if c.epoch.toNat = priorEpoch then decide (c.prevCredits.toNat < c.credits.toNat) else growth

theorem readGrowth_yields (hk : k < 2 ^ 64) (priorEpoch : ℕ) (c : EpochCredits) (growth : Bool)
    (hs : SuffixAt payload cur (c.serialize ++ rest)) :
    Yields (readGrowth ((payload ++ padding).take k) priorEpoch cur growth) (k < payload.length)
      (· = c.growth priorEpoch growth) := by
  rw [EpochCredits.serialize, List.append_assoc, List.append_assoc] at hs
  have hcredits := hs.next
  rw [length_u64Bytes] at hcredits
  have hprev := hcredits.next
  rw [length_u64Bytes, Nat.add_assoc] at hprev
  have hcreditsEnd := hcredits.length_eq
  have hprevEnd := hprev.length_eq
  apply Yields.bind (u64At_yields hk (UInt64.toNat_lt _) hs)
  rintro _ rfl
  apply Yields.ite
  · intro hepoch
    apply Yields.bind (checkedAdd_yields hk (by omega))
    rintro _ rfl
    apply Yields.bind (u64At_yields hk (UInt64.toNat_lt _) hcredits)
    rintro _ rfl
    apply Yields.bind (checkedAdd_yields hk (by omega))
    rintro _ rfl
    apply Yields.bind (u64At_yields hk (UInt64.toNat_lt _) hprev)
    rintro _ rfl
    refine .ok ?_
    rw [EpochCredits.growth, if_pos hepoch]
  · intro hepoch
    refine .ok ?_
    rw [EpochCredits.growth, if_neg hepoch]

theorem scanCredits_yields (hk : k < 2 ^ 64) (priorEpoch : ℕ) {entries : List EpochCredits}
    (growth : Bool)
    (hs : SuffixAt payload cur (entries.flatMap EpochCredits.serialize ++ rest)) :
    Yields (scanCredits ((payload ++ padding).take k) priorEpoch
      (cur + entries.length * EPOCH_CREDITS_ENTRY_BYTES) entries.length cur growth)
      (k < payload.length) (· = entries.foldl (fun g c ↦ c.growth priorEpoch g) growth) := by
  induction entries generalizing cur growth with
  | nil =>
    rw [List.length_nil, scanCredits, if_neg (by omega)]
    exact .ok rfl
  | cons c entries ih =>
    have hwidth : 0 < EPOCH_CREDITS_ENTRY_BYTES := by decide
    rw [List.flatMap_cons, List.append_assoc] at hs
    have hnext := hs.next
    rw [length_epochCredits] at hnext
    have hnextEnd := hnext.length_eq
    rw [List.length_cons, Nat.add_mul, Nat.one_mul, Nat.add_comm (entries.length * _),
      ← Nat.add_assoc, scanCredits, if_pos (by omega)]
    apply Yields.bind (readGrowth_yields hk priorEpoch c growth hs)
    rintro _ rfl
    apply Yields.bind (checkedAdd_yields hk (by omega))
    rintro _ rfl
    exact ih _ hnext

theorem readCredits_yields (hk : k < 2 ^ 64) (priorEpoch : ℕ) {entries : List EpochCredits}
    (hentries : entries.length < 2 ^ 64)
    (hs : SuffixAt payload cur (counted EpochCredits.serialize entries ++ rest)) :
    Yields (readCredits ((payload ++ padding).take k) priorEpoch cur) (k < payload.length)
      (· = (entries.foldl (fun g c ↦ c.growth priorEpoch g) false,
        cur + (counted EpochCredits.serialize entries).length)) := by
  have hbytes := length_counted length_epochCredits entries
  apply countedStart_yields hk length_epochCredits hentries hs
  rw [counted, List.append_assoc] at hs
  have hscan := hs.next
  rw [length_leBytes] at hscan
  rw [hbytes, ← Nat.add_assoc]
  apply Yields.bind (scanCredits_yields hk priorEpoch false hscan)
  rintro _ rfl
  exact .ok rfl

end Walk

/-! ## The whole account -/

section Account

variable {k : ℕ}

theorem foldl_growth_of_ne {priorEpoch : ℕ} {entries : List EpochCredits} {growth : Bool}
    (h : ∀ c ∈ entries, c.epoch.toNat ≠ priorEpoch) :
    entries.foldl (fun g c ↦ c.growth priorEpoch g) growth = growth := by
  induction entries with
  | nil => rfl
  | cons c entries ih =>
    rw [List.foldl_cons, EpochCredits.growth, if_neg (h c List.mem_cons_self)]
    exact ih fun c' hc' ↦ h c' (List.mem_cons_of_mem c hc')

/-- No two entries are of one epoch, so the last one of the epoch is the only one. -/
theorem foldl_growth (priorEpoch : ℕ) {entries : List EpochCredits}
    (h : (entries.map EpochCredits.epoch).Nodup) :
    entries.foldl (fun g c ↦ c.growth priorEpoch g) false =
      decide (∃ c ∈ entries, c.epoch.toNat = priorEpoch ∧
        c.prevCredits.toNat < c.credits.toNat) := by
  induction entries with
  | nil => rfl
  | cons c entries ih =>
    rw [List.map_cons, List.nodup_cons] at h
    obtain ⟨hnew, hrest⟩ := h
    rw [List.foldl_cons, EpochCredits.growth]
    by_cases hepoch : c.epoch.toNat = priorEpoch
    · have hne : ∀ c' ∈ entries, c'.epoch.toNat ≠ priorEpoch := by
        intro c' hc' heq
        have hsame : c'.epoch = c.epoch := UInt64.toNat_inj.mp (heq.trans hepoch.symm)
        exact hnew (hsame ▸ List.mem_map_of_mem hc')
      rw [if_pos hepoch, foldl_growth_of_ne hne, decide_eq_decide]
      constructor
      · intro hlt
        exact ⟨c, List.mem_cons_self, hepoch, hlt⟩
      · rintro ⟨c', hc', heq, hlt⟩
        obtain rfl | hc' := List.mem_cons.mp hc'
        · exact hlt
        · exact absurd heq (hne c' hc')
    · rw [if_neg hepoch, ih hrest, decide_eq_decide]
      constructor
      · rintro ⟨c', hc', hc⟩
        exact ⟨c', List.mem_cons_of_mem c hc', hc⟩
      · rintro ⟨c', hc', heq, hlt⟩
        obtain rfl | hc' := List.mem_cons.mp hc'
        · exact absurd heq hepoch
        · exact ⟨c', hc', heq, hlt⟩

theorem VoteState.parse_yields (v : VoteState) (padding : Bytes) (hk : k < 2 ^ 64)
    (priorEpoch : ℕ) :
    Yields (parse ((v.serialize ++ padding).take k) priorEpoch) (k < v.serialize.length)
      (fun s ↦ s = v.sample priorEpoch ∧ v.serialize.length ≤ k) := by
  have htag : SuffixAt v.serialize 0 (leBytes 4 v.tower.tag ++ _) := SuffixAt.start _
  have hcommission := htag.next.next.next
  rw [length_leBytes, Vector.length_toList, Vector.length_toList] at hcommission
  change SuffixAt v.serialize COMMISSION_OFFSET ([v.commission] ++ _) at hcommission
  have htower : SuffixAt v.serialize VOTES_COUNT_OFFSET (v.tower.serialize ++ _) :=
    hcommission.next
  have hroot := htower.next
  have hvoters := hroot.next
  have hprior := hvoters.next
  have hcredits := hprior.next
  have htimestamp := hcredits.next
  rw [length_priorVoters] at hcredits htimestamp
  have hcreditsEnd := hcredits.length_eq
  have hend := htimestamp.length_eq
  rw [List.flatten_cons, List.flatten_nil, List.append_nil, length_blockTimestamp] at hend
  apply Yields.bind (readVersion_yields hk v.tower htag)
  rintro _ rfl
  apply Yields.bind (get_yields hcommission).okOr
  rintro _ rfl
  apply Yields.bind (readTower_yields hk v.tower_length htower)
  rintro _ rfl
  apply Yields.bind (skipRootSlot_yields hk v.rootSlot hroot)
  rintro _ rfl
  apply Yields.bind (skipCounted_yields hk length_authorizedVoter v.voters_length hvoters)
  rintro _ rfl
  apply Yields.bind (checkedAdd_yields hk (by omega))
  rintro _ rfl
  apply Yields.bind (ensureWithin_yields (by omega))
  intro _ _
  apply Yields.bind (readCredits_yields hk priorEpoch v.credits_length hcredits)
  rintro _ rfl
  rw [List.flatten_cons, BlockTimestamp.serialize, List.append_assoc] at htimestamp
  apply Yields.bind (u64At_yields hk (UInt64.toNat_lt _) htimestamp)
  rintro _ rfl
  apply Yields.bind (checkedAdd_yields hk hend.le)
  rintro _ rfl
  apply Yields.bind (ensureWithin_yields hend.le)
  intro _ hwithin
  refine .ok ⟨?_, by omega⟩
  rw [foldl_growth priorEpoch v.epochs_nodup, VoteState.sample]
  cases v.tower.lastSlot with
  | none => rw [Option.map_none, Option.elim_none, Nat.zero_max]
  | some slot => rfl

theorem VoteState.parse_whole (v : VoteState) {padding : Bytes}
    (hfit : (v.serialize ++ padding).length < 2 ^ 64) (priorEpoch : ℕ) :
    parse (v.serialize ++ padding) priorEpoch = .ok (v.sample priorEpoch) := by
  have hparse := v.parse_yields padding hfit priorEpoch
  rw [List.take_length] at hparse
  obtain ⟨s, hs, rfl, -⟩ | ⟨hshort, -⟩ := hparse
  · exact hs
  · rw [List.length_append] at hshort
    omega

theorem VoteState.parse_cut (v : VoteState) {data : Bytes} (hcut : data <+: v.serialize)
    (hne : data ≠ v.serialize) (hfit : data.length < 2 ^ 64) (priorEpoch : ℕ) :
    ∃ e, parse data priorEpoch = .err e := by
  have hlt : data.length < v.serialize.length :=
    hcut.length_le.lt_of_ne fun h ↦ hne (hcut.eq_of_length h)
  have hparse := v.parse_yields [] hfit priorEpoch
  rw [List.append_nil, ← List.prefix_iff_eq_take.mp hcut] at hparse
  obtain ⟨s, -, -, hlong⟩ | ⟨-, herr⟩ := hparse
  · omega
  · exact herr

end Account

/-! ## Any bytes -/

section Returns

variable (data : Bytes)

theorem u64At_returns (off : ℕ) (e : VoteStateError) : Returns ((u64At data off).okOr e) := by
  apply Yields.okOr
  apply Yields.bind (ofOption_yields _ _)
  intro _ _
  exact uintLe_returns 8 data _

theorem u8At_returns (off : ℕ) (e : VoteStateError) : Returns ((u8At data off).okOr e) := by
  apply Yields.okOr
  apply Yields.bind (ofOption_yields _ _)
  intro _ _
  exact get_returns data _

theorem ensureWithin_returns (stop : ℕ) : Returns (ensureWithin data stop) :=
  .ite (fun _ ↦ .ok trivial) (fun _ ↦ .err trivial)

theorem countedStart_returns {β : Type} {walk : ℕ → ℕ → ℕ → Outcome VoteStateError β}
    (cur entryBytes : ℕ)
    (hwalk : ∀ count start, Returns (walk count start (start + count * entryBytes))) :
    Returns (do
      let count ← (u64At data cur).okOr VoteStateError.tooShort
      let start ← ofOption (checkedAdd 64 cur 8) VoteStateError.malformed
      let total ← ofOption (checkedMul 64 count entryBytes) VoteStateError.malformed
      let stop ← ofOption (checkedAdd 64 start total) VoteStateError.malformed
      ensureWithin data stop
      walk count start stop) := by
  apply Yields.bind (u64At_returns data cur _)
  intro count _
  apply Yields.bind (ofOption_yields _ _)
  intro start _
  apply Yields.bind (ofOption_yields _ _)
  intro total htotal
  apply Yields.bind (ofOption_yields _ _)
  intro stop hstop
  obtain ⟨-, rfl⟩ := checkedMul_eq_some.mp htotal
  obtain ⟨-, rfl⟩ := checkedAdd_eq_some.mp hstop
  apply Yields.bind (ensureWithin_returns data _)
  intro _ _
  exact hwalk count start

theorem skipCounted_returns (cur entryBytes : ℕ) : Returns (skipCounted data cur entryBytes) := by
  apply countedStart_returns
  intro _ _
  exact .ok trivial

theorem readVersion_returns : Returns (readVersion data) := by
  apply Yields.bind (uintLe_returns 4 data 0).okOr
  intro _ _
  exact .ite (fun _ ↦ .ok trivial) fun _ ↦ .ite (fun _ ↦ .ok trivial) (fun _ ↦ .err trivial)

theorem readVotes_returns (hasLatency : Bool) : Returns (readVotes data hasLatency) := by
  apply countedStart_returns
  intro _ _
  apply Yields.ite
  · intro _
    apply Yields.bind (ofOption_yields _ _)
    intro _ _
    apply Yields.bind (u64At_returns data _ _)
    intro _ _
    exact .ok trivial
  · intro _
    exact .ok trivial

theorem skipRootSlot_returns (cur : ℕ) : Returns (skipRootSlot data cur) := by
  apply Yields.bind (u8At_returns data cur _)
  intro _ _
  apply Yields.bind (ofOption_yields _ _)
  intro _ _
  apply Yields.ite
  · intro _
    exact .ok trivial
  · intro _
    apply Yields.ite
    · intro _
      apply Yields.bind (ofOption_yields _ _)
      intro _ _
      apply Yields.bind (ensureWithin_returns data _)
      intro _ _
      exact .ok trivial
    · intro _
      exact .err trivial

theorem readGrowth_returns (priorEpoch entry : ℕ) (growth : Bool) :
    Returns (readGrowth data priorEpoch entry growth) := by
  apply Yields.bind (u64At_returns data entry _)
  intro _ _
  apply Yields.ite
  · intro _
    apply Yields.bind (ofOption_yields _ _)
    intro _ _
    apply Yields.bind (u64At_returns data _ _)
    intro _ _
    apply Yields.bind (ofOption_yields _ _)
    intro _ _
    apply Yields.bind (u64At_returns data _ _)
    intro _ _
    exact .ok trivial
  · intro _
    exact .ok trivial

/-- Every pass moves on by one entry, so there are as many passes as entries. -/
theorem scanCredits_returns (priorEpoch : ℕ) {creditsEnd rounds entry : ℕ} (growth : Bool)
    (h : creditsEnd ≤ entry + rounds * EPOCH_CREDITS_ENTRY_BYTES) :
    Returns (scanCredits data priorEpoch creditsEnd rounds entry growth) := by
  induction rounds generalizing entry growth with
  | zero =>
    rw [Nat.zero_mul, Nat.add_zero] at h
    rw [scanCredits, if_neg (not_lt.mpr h)]
    exact .ok trivial
  | succ rounds ih =>
    rw [Nat.add_mul, Nat.one_mul] at h
    apply Yields.ite
    · intro _
      apply Yields.bind (readGrowth_returns data priorEpoch entry growth)
      intro growth' _
      apply Yields.bind (ofOption_yields _ _)
      intro next hnext
      obtain ⟨-, rfl⟩ := checkedAdd_eq_some.mp hnext
      exact ih growth' (by omega)
    · intro _
      exact .ok trivial

theorem readCredits_returns (priorEpoch cur : ℕ) : Returns (readCredits data priorEpoch cur) := by
  apply countedStart_returns
  intro count start
  apply Yields.bind (scanCredits_returns data priorEpoch false le_rfl)
  intro _ _
  exact .ok trivial

theorem parse_returns (priorEpoch : ℕ) : Returns (parse data priorEpoch) := by
  apply Yields.bind (readVersion_returns data)
  intro hasLatency _
  apply Yields.bind (get_returns data _).okOr
  intro _ _
  apply Yields.bind (readVotes_returns data hasLatency)
  intro votes _
  apply Yields.bind (skipRootSlot_returns data votes.2)
  intro cur _
  apply Yields.bind (skipCounted_returns data cur _)
  intro _ _
  apply Yields.bind (ofOption_yields _ _)
  intro cur _
  apply Yields.bind (ensureWithin_returns data cur)
  intro _ _
  apply Yields.bind (readCredits_returns data priorEpoch cur)
  intro credits _
  apply Yields.bind (u64At_returns data credits.2 _)
  intro _ _
  apply Yields.bind (ofOption_yields _ _)
  intro stop _
  apply Yields.bind (ensureWithin_returns data stop)
  intro _ _
  exact .ok trivial

end Returns

/-! ## What the controller makes of an account -/

/-- What the controller takes from the bytes of an account: a missing sample stands for every
error. -/
def readSample (data : Bytes) (priorEpoch : ℕ) : Option VoteSample :=
  match parse data priorEpoch with
  | .ok s => some s
  | .err _ => none
  | .abort => none

section Observation

variable (v : VoteState) {cap slot window : ℕ} (priorEpoch : ℕ)

/-- A validator is live exactly if its account has credits for the epoch and a recent vote or
timestamp. -/
theorem observeVote_serialize {padding : Bytes}
    (hfit : (v.serialize ++ padding).length < 2 ^ 64) :
    (observeVote (readSample (v.serialize ++ padding) priorEpoch) cap slot window).livenessOk ↔
      (∃ c ∈ v.epochCredits, c.epoch.toNat = priorEpoch ∧ c.prevCredits.toNat < c.credits.toNat) ∧
        slot - max (v.tower.lastSlot.elim 0 UInt64.toNat) v.lastTimestamp.slot.toNat ≤ window := by
  rw [readSample, v.parse_whole hfit priorEpoch]
  rw [observeVote, VoteState.sample, Bool.and_eq_true, decide_eq_true_iff, decide_eq_true_iff]

/-- An account that is cut off is never live, and its commission is never held against it. -/
theorem observeVote_cut {data : Bytes} (hcut : data <+: v.serialize) (hne : data ≠ v.serialize)
    (hfit : data.length < 2 ^ 64) :
    observeVote (readSample data priorEpoch) cap slot window = ⟨true, false⟩ := by
  obtain ⟨e, he⟩ := v.parse_cut hcut hne hfit priorEpoch
  rw [readSample, he, observeVote]

end Observation

/-! ## Round trip -/

/-- A buffer that holds a whole account, with anything behind it, reads back as what the controller
wants to know of the account; a buffer that ends before the account does is refused; and no bytes
make the walk abort.  A buffer has less than `2 ^ 64` bytes. -/
theorem parse_serialize (v : VoteState) (priorEpoch : ℕ) :
    (∀ padding, (v.serialize ++ padding).length < 2 ^ 64 →
      parse (v.serialize ++ padding) priorEpoch = .ok (v.sample priorEpoch)) ∧
    (∀ data, data <+: v.serialize → data ≠ v.serialize → data.length < 2 ^ 64 →
      ∃ e, parse data priorEpoch = .err e) ∧
    ∀ data, parse data priorEpoch ≠ .abort := by
  refine ⟨?_, ?_, ?_⟩
  · intro padding hfit
    exact v.parse_whole hfit priorEpoch
  · intro data hcut hne hfit
    exact v.parse_cut hcut hne hfit priorEpoch
  · intro data
    exact (parse_returns data priorEpoch).ne_abort

/-- An account of the current version with two votes. -/
def sampleAccount : VoteState where
  nodePubkey := .replicate 32 1
  authorizedWithdrawer := .replicate 32 2
  commission := 5
  tower := .v3 [⟨2, ⟨200, 2⟩⟩, ⟨1, ⟨300, 1⟩⟩]
  rootSlot := some 150
  authorizedVoters := [⟨7, .replicate 32 3⟩]
  priorVoters := ⟨.replicate 32 ⟨.replicate 32 0, 0, 0⟩, 31, true⟩
  epochCredits := [⟨6, 90, 80⟩, ⟨7, 100, 90⟩]
  lastTimestamp := ⟨290, 1700000000⟩
  tower_length := by decide
  voters_length := by decide
  credits_length := by decide
  epochs_nodup := by decide

theorem parse_serialize_sample :
    parse (sampleAccount.serialize ++ [0, 0, 0]) 7 = .ok ⟨5, true, 300⟩ ∧
      ∃ e, parse (sampleAccount.serialize.take 100) 7 = .err e := by
  obtain ⟨hwhole, hcut, -⟩ := parse_serialize sampleAccount 7
  have hfit : (sampleAccount.serialize ++ [0, 0, 0]).length < 2 ^ 64 := by decide +kernel
  have hshort : sampleAccount.serialize.take 100 ≠ sampleAccount.serialize := by decide +kernel
  have hfit' : (sampleAccount.serialize.take 100).length < 2 ^ 64 := by decide +kernel
  refine ⟨(hwhole _ hfit).trans (by decide), ?_⟩
  exact hcut _ (List.take_prefix 100 _) hshort hfit'

end StakeView
end FusionCore
