import FusionCore.Lib.Record
import FusionCore.System.DirectedOnce

/-!
# Accounts of the other programs

The controller reads positions, stake pools and validator lists at fixed offsets, and so does the
oracle of fusd-core with the stake pool.  Each layout is written down as the record that the owning
program stores, and the readers are shown to invert it.
-/

namespace FusionCore
namespace StakeView

open Checked Outcome ByteReader StakeController Oracle

/-! ## Positions -/

def POSITION_DISCRIMINATOR : Bytes := [170, 188, 143, 228, 122, 64, 247, 208]
def POSITION_MIN_LEN : ℕ := 213

inductive PositionError where
  | tooShort
  | badDiscriminator
  deriving DecidableEq, Repr

/-- Behind the discriminator, borsh puts the fields in the order of their declaration. -/
def positionRecord (owner mint bump reserved : ℕ) (p : Position) : Record :=
  [(8, ofLeBytes POSITION_DISCRIMINATOR), (32, owner), (32, mint), (8, p.ink),
    (16, p.recordedDebt), (2, p.userRateBps), (1, bump), (8, p.lastDebtUpdate), (16, p.stake),
    (16, p.redistLCollSnapshot), (16, p.redistLArtSnapshot), (8, p.reserveLamports),
    (2, p.bucket), (8, p.collSurplus), (8, p.lastRateAdjustTs), (8, p.inkNonce), (24, reserved)]

def parsePosition (data : Bytes) : Outcome PositionError PositionView :=
  if data.length < POSITION_MIN_LEN then .err .tooShort
  else if data.take 8 ≠ POSITION_DISCRIMINATOR then .err .badDiscriminator
  else do
    let owner ← (uintLe 32 data 8).okOr .tooShort
    let collateralMint ← (uintLe 32 data 40).okOr .tooShort
    let ink ← (uintLe 8 data 72).okOr .tooShort
    let inkNonce ← (uintLe 8 data 181).okOr .tooShort
    pure ⟨owner, collateralMint, ink, inkNonce⟩

theorem parsePosition_encode {owner mint bump reserved : ℕ} {p : Position} {padding : Bytes}
    (howner : owner < 2 ^ 256) (hmint : mint < 2 ^ 256) (hink : p.ink < 2 ^ 64)
    (hnonce : p.inkNonce < 2 ^ 64)
    (hfit : ((positionRecord owner mint bump reserved p).encode ++ padding).length < 2 ^ 64) :
    parsePosition ((positionRecord owner mint bump reserved p).encode ++ padding) =
      .ok ⟨owner, mint, p.ink, p.inkNonce⟩ := by
  generalize hr : positionRecord owner mint bump reserved p = r at hfit ⊢
  have hread {i w x : ℕ} (off : ℕ) (hi : r[i]? = some (w, x)) (hx : x < 256 ^ w)
      (hoff : Record.width (r.take i) = off) : uintLe w (r.encode ++ padding) off = .ok x :=
    Record.read [] hi hx ((Nat.zero_add _).trans hoff) hfit
  subst hr
  have hlen : ¬((positionRecord owner mint bump reserved p).encode ++ padding).length <
      POSITION_MIN_LEN := by
    simp [positionRecord, Record.width, POSITION_MIN_LEN]
  have hdisc : ((positionRecord owner mint bump reserved p).encode ++ padding).take 8 =
      POSITION_DISCRIMINATOR := by
    rw [Record.encode, positionRecord, List.flatMap_cons, List.append_assoc,
      List.take_left' (length_leBytes 8 _)]
    decide
  rw [parsePosition, if_neg hlen, if_neg (not_not.mpr hdisc),
    hread (i := 1) 8 rfl howner (by simp [positionRecord, Record.width]),
    hread (i := 2) 40 rfl hmint (by simp [positionRecord, Record.width]),
    hread (i := 3) 72 rfl hink (by simp [positionRecord, Record.width]),
    hread (i := 15) 181 rfl hnonce (by simp [positionRecord, Record.width])]
  rfl

/-! ## Stake pools -/

inductive StakePoolError where
  | tooShort
  | notStakePool
  | degenerateRate
  deriving DecidableEq, Repr

/-- The part of a stake pool before the first field of variable width. -/
structure StakePoolView where
  manager : Pubkey
  staker : Pubkey
  stakeDepositAuthority : Pubkey
  stakeWithdrawBumpSeed : ℕ
  validatorList : Pubkey
  reserveStake : Pubkey
  poolMint : Pubkey
  managerFeeAccount : Pubkey
  tokenProgram : Pubkey
  totalLamports : ℕ
  poolTokenSupply : ℕ
  lastUpdateEpoch : ℕ
  lockupUnixTimestamp : ℕ
  lockupEpoch : ℕ
  lockupCustodian : Pubkey
  epochFeeDenominator : ℕ
  epochFeeNumerator : ℕ
  deriving DecidableEq, Repr

def ACCOUNT_TYPE_STAKE_POOL : UInt8 := 1
def STAKE_POOL_FIXED_LEN : ℕ := 346
def STAKE_POOL_MIN_LEN : ℕ := 282

def StakePoolView.record (v : StakePoolView) : Record :=
  [(1, 1), (32, v.manager), (32, v.staker), (32, v.stakeDepositAuthority),
    (1, v.stakeWithdrawBumpSeed), (32, v.validatorList), (32, v.reserveStake), (32, v.poolMint),
    (32, v.managerFeeAccount), (32, v.tokenProgram), (8, v.totalLamports),
    (8, v.poolTokenSupply), (8, v.lastUpdateEpoch), (8, v.lockupUnixTimestamp),
    (8, v.lockupEpoch), (32, v.lockupCustodian), (8, v.epochFeeDenominator),
    (8, v.epochFeeNumerator)]

def stakePoolWidths : List ℕ :=
  [1, 32, 32, 32, 1, 32, 32, 32, 32, 32, 8, 8, 8, 8, 8, 32, 8, 8]

/-- The reader of the controller. -/
def parseStakePool (data : Bytes) : Outcome StakePoolError StakePoolView :=
  if data.length < STAKE_POOL_FIXED_LEN then .err .tooShort
  else if data[0]? ≠ some ACCOUNT_TYPE_STAKE_POOL then .err .notStakePool
  else do
    let read (w off : ℕ) : Outcome StakePoolError ℕ := (uintLe w data off).okOr .tooShort
    pure
      { manager := ← read 32 1
        staker := ← read 32 33
        stakeDepositAuthority := ← read 32 65
        stakeWithdrawBumpSeed := ← read 1 97
        validatorList := ← read 32 98
        reserveStake := ← read 32 130
        poolMint := ← read 32 162
        managerFeeAccount := ← read 32 194
        tokenProgram := ← read 32 226
        totalLamports := ← read 8 258
        poolTokenSupply := ← read 8 266
        lastUpdateEpoch := ← read 8 274
        lockupUnixTimestamp := ← read 8 282
        lockupEpoch := ← read 8 290
        lockupCustodian := ← read 32 298
        epochFeeDenominator := ← read 8 330
        epochFeeNumerator := ← read 8 338 }

/-- The reader of fusd-core; it takes its slices without a check of their own. -/
def parseStakePoolSample (data : Bytes) : Outcome StakePoolError StakePoolSample :=
  if data.length < STAKE_POOL_MIN_LEN then .err .tooShort
  else if data[0]? ≠ some ACCOUNT_TYPE_STAKE_POOL then .err .notStakePool
  else do
    let slice (off w : ℕ) : Outcome StakePoolError Bytes := (readRange data off w).okOr .tooShort
    let poolMint ← slice 162 32
    let totalLamports ← slice 258 8
    let poolTokenSupply ← slice 266 8
    let lastUpdateEpoch ← slice 274 8
    let s : StakePoolSample := ⟨ofLeBytes poolMint, ofLeBytes totalLamports,
      ofLeBytes poolTokenSupply, ofLeBytes lastUpdateEpoch⟩
    if s.poolTokenSupply = 0 ∨ s.totalLamports = 0 then .err .degenerateRate else pure s

/-- Both readers find in a pool account what the pool program has stored, whatever follows; the one
of fusd-core refuses exactly the pools without a rate. -/
theorem parseStakePool_encode (v : StakePoolView) (tail : Bytes) (hv : v.record.Fits)
    (hfit : (v.record.encode ++ tail).length < 2 ^ 64) :
    parseStakePool (v.record.encode ++ tail) = .ok v ∧
      parseStakePoolSample (v.record.encode ++ tail) =
        if v.poolTokenSupply = 0 ∨ v.totalLamports = 0 then .err .degenerateRate
        else .ok ⟨v.poolMint, v.totalLamports, v.poolTokenSupply, v.lastUpdateEpoch⟩ := by
  have hoffset (i : ℕ) : Record.width (v.record.take i) = (stakePoolWidths.take i).sum := by
    rw [Record.width, List.map_take]
    rfl
  have hread {w x : ℕ} (i off : ℕ) (hi : v.record[i]? = some (w, x))
      (hoff : (stakePoolWidths.take i).sum = off) :
      uintLe w (v.record.encode ++ tail) off = .ok x :=
    hv.read [] hfit hi ((Nat.zero_add _).trans ((hoffset i).trans hoff))
  have hlen : STAKE_POOL_FIXED_LEN ≤ (v.record.encode ++ tail).length := by
    rw [List.length_append, Record.length_encode]
    exact Nat.le_add_right_of_le (hoffset 18).ge
  have htype : (v.record.encode ++ tail)[0]? = some ACCOUNT_TYPE_STAKE_POOL := rfl
  constructor
  · rw [parseStakePool, if_neg (not_lt.mpr hlen), if_neg (not_not.mpr htype)]
    simp only [hread 1 1 rfl (by decide), hread 2 33 rfl (by decide), hread 3 65 rfl (by decide),
      hread 4 97 rfl (by decide), hread 5 98 rfl (by decide), hread 6 130 rfl (by decide),
      hread 7 162 rfl (by decide), hread 8 194 rfl (by decide), hread 9 226 rfl (by decide),
      hread 10 258 rfl (by decide), hread 11 266 rfl (by decide), hread 12 274 rfl (by decide),
      hread 13 282 rfl (by decide), hread 14 290 rfl (by decide), hread 15 298 rfl (by decide),
      hread 16 330 rfl (by decide), hread 17 338 rfl (by decide)]
    rfl
  · have hslice {w x : ℕ} (i off : ℕ) (hi : v.record[i]? = some (w, x))
        (hoff : (stakePoolWidths.take i).sum = off)
        (hin : off + w ≤ STAKE_POOL_FIXED_LEN) :
        ∃ bytes, readRange (v.record.encode ++ tail) off w = .ok bytes ∧ ofLeBytes bytes = x := by
      refine ⟨_, readRange_eq (hin.trans hlen), ?_⟩
      have h := hread i off hi hoff
      rw [uintLe_eq, if_pos ⟨(hin.trans hlen).trans_lt hfit, hin.trans hlen⟩] at h
      exact Outcome.ok.inj h
    obtain ⟨b₁, h₁, hmint⟩ := hslice 7 162 rfl (by decide) (by decide)
    obtain ⟨b₂, h₂, htotal⟩ := hslice 10 258 rfl (by decide) (by decide)
    obtain ⟨b₃, h₃, hsupply⟩ := hslice 11 266 rfl (by decide) (by decide)
    obtain ⟨b₄, h₄, hepoch⟩ := hslice 12 274 rfl (by decide) (by decide)
    have hmin : STAKE_POOL_MIN_LEN ≤ STAKE_POOL_FIXED_LEN := by decide
    rw [parseStakePoolSample, if_neg (not_lt.mpr (hmin.trans hlen)), if_neg (not_not.mpr htype)]
    simp only [h₁, h₂, h₃, h₄, Outcome.okOr, Outcome.ok_bind, hmint, htotal, hsupply, hepoch]
    rfl

/-- An account with its largest keys and a rate of one. -/
theorem parseStakePool_encode_sample : ∃ v tail, v.record.Fits ∧
    parseStakePool (v.record.encode ++ tail) = .ok v ∧
    parseStakePoolSample (v.record.encode ++ tail) = .ok ⟨2 ^ 256 - 1, 5, 5, 9⟩ := by
  let v : StakePoolView := ⟨1, 2, 3, 255, 4, 5, 2 ^ 256 - 1, 6, 7, 5, 5, 9, 0, 0, 0, 100, 2⟩
  have hv : v.record.Fits := by decide
  obtain ⟨hview, hsample⟩ := parseStakePool_encode v [0, 1] hv (by decide +kernel)
  exact ⟨v, [0, 1], hv, hview, hsample⟩

/-! ## Validator lists -/

def ACCOUNT_TYPE_VALIDATOR_LIST : UInt8 := 2
def ENTRIES_OFFSET : ℕ := 9
def ENTRY_LEN : ℕ := 73

inductive ValidatorListError where
  | tooShort
  | notValidatorList
  | entriesTruncated
  deriving DecidableEq, Repr

structure ValidatorListHeader where
  maxValidators : ℕ
  len : ℕ
  deriving DecidableEq, Repr

structure ValidatorEntry where
  activeStakeLamports : ℕ
  transientStakeLamports : ℕ
  lastUpdateEpoch : ℕ
  transientSeedSuffix : ℕ
  validatorSeedSuffix : ℕ
  status : ℕ
  voteAccountAddress : Pubkey
  deriving DecidableEq, Repr

def headerRecord (h : ValidatorListHeader) : Record := [(1, 2), (4, h.maxValidators), (4, h.len)]

/-- The fifth number of an entry is not used. -/
def ValidatorEntry.record (e : ValidatorEntry) (unused : ℕ) : Record :=
  [(8, e.activeStakeLamports), (8, e.transientStakeLamports), (8, e.lastUpdateEpoch),
    (8, e.transientSeedSuffix), (4, unused), (4, e.validatorSeedSuffix), (1, e.status),
    (32, e.voteAccountAddress)]

def parseHeader (data : Bytes) : Outcome ValidatorListError ValidatorListHeader :=
  if data.length < ENTRIES_OFFSET then .err .tooShort
  else if data[0]? ≠ some ACCOUNT_TYPE_VALIDATOR_LIST then .err .notValidatorList
  else do
    let maxValidators ← (uintLe 4 data 1).okOr .tooShort
    let len ← (uintLe 4 data 5).okOr .tooShort
    let entries ← ofOption (checkedMul 64 len ENTRY_LEN) .entriesTruncated
    let declaredEnd ← ofOption (checkedAdd 64 entries ENTRIES_OFFSET) .entriesTruncated
    if data.length < declaredEnd then .err .entriesTruncated else pure ⟨maxValidators, len⟩

def entryAt (data : Bytes) (i : ℕ) : Outcome Unit ValidatorEntry :=
  match parseHeader data with
  | .ok header =>
    if header.len ≤ i then .err ()
    else do
      let start ← ofOption (checkedMul 64 i ENTRY_LEN) ()
      let base ← ofOption (checkedAdd 64 ENTRIES_OFFSET start) ()
      let read (w rel : ℕ) : Outcome Unit ℕ := do
        let off ← ofOption (checkedAdd 64 base rel) ()
        uintLe w data off
      pure
        { activeStakeLamports := ← uintLe 8 data base
          transientStakeLamports := ← read 8 8
          lastUpdateEpoch := ← read 8 16
          transientSeedSuffix := ← read 8 24
          validatorSeedSuffix := ← read 4 36
          status := ← read 1 40
          voteAccountAddress := ← read 32 41 }
  | _ => .err ()

/-- What the pool program stores of a list; `unused` is the fifth number of the entries. -/
def listData (maxValidators unused : ℕ) (entries : List ValidatorEntry) : Bytes :=
  (headerRecord ⟨maxValidators, entries.length⟩).encode ++
    entries.flatMap fun e ↦ (e.record unused).encode

theorem parseHeader_encode {h : ValidatorListHeader} {rest : Bytes}
    (hmax : h.maxValidators < 2 ^ 32) (hlen : h.len < 2 ^ 32)
    (hfit : ((headerRecord h).encode ++ rest).length < 2 ^ 64) :
    parseHeader ((headerRecord h).encode ++ rest) =
      if rest.length < h.len * ENTRY_LEN then .err .entriesTruncated else .ok h := by
  have htotal : ((headerRecord h).encode ++ rest).length = rest.length + 9 := by
    simp [headerRecord, Record.width, Nat.add_comm]
  have hfour := Record.read [] (i := 1) (r := headerRecord h) rfl hmax rfl hfit
  have hmore := Record.read [] (i := 2) (r := headerRecord h) rfl hlen rfl hfit
  have htype : ((headerRecord h).encode ++ rest)[0]? = some ACCOUNT_TYPE_VALIDATOR_LIST := rfl
  have hmul : checkedMul 64 h.len 73 = some (h.len * 73) := if_pos (by omega)
  have hadd : checkedAdd 64 (h.len * 73) 9 = some (h.len * 73 + 9) := if_pos (by omega)
  rw [List.nil_append] at hfour hmore
  rw [parseHeader, if_neg (by rw [htotal, ENTRIES_OFFSET]; omega), if_neg (not_not.mpr htype)]
  simp only [show uintLe 4 ((headerRecord h).encode ++ rest) 1 = _ from hfour,
    show uintLe 4 ((headerRecord h).encode ++ rest) 5 = _ from hmore, Outcome.okOr, Outcome.ok_bind,
    hmul, hadd, ofOption_some, htotal, Nat.add_lt_add_iff_right, ENTRY_LEN, ENTRIES_OFFSET]
  rfl

theorem length_entries (unused : ℕ) (entries : List ValidatorEntry) :
    (entries.flatMap fun e ↦ (e.record unused).encode).length = entries.length * 73 := by
  simp [List.length_flatMap, ValidatorEntry.record, Record.width]

/-- Each entry stands behind the header and the entries before it. -/
theorem entryAt_encode {h : ValidatorListHeader} {unused i : ℕ} {entries : List ValidatorEntry}
    {tail : Bytes} {e : ValidatorEntry} (hi : entries[i]? = some e) (hfits : (e.record unused).Fits)
    (hfit : ((headerRecord h).encode ++
      ((entries.flatMap fun e ↦ (e.record unused).encode) ++ tail)).length < 2 ^ 64)
    {j w x off : ℕ} (hj : (e.record unused)[j]? = some (w, x))
    (hoff : 9 + i * 73 + Record.width ((e.record unused).take j) = off) :
    uintLe w ((headerRecord h).encode ++
      ((entries.flatMap fun e ↦ (e.record unused).encode) ++ tail)) off = .ok x := by
  have hlt := (List.getElem?_eq_some_iff.mp hi).1
  have hpre : ((headerRecord h).encode ++
      (entries.take i).flatMap fun e ↦ (e.record unused).encode).length = 9 + i * 73 := by
    rw [List.length_append, Record.length_encode, length_entries, List.length_take,
      min_eq_left hlt.le]
    rfl
  rw [flatMap_at hi, List.append_assoc, List.append_assoc, ← List.append_assoc] at hfit ⊢
  exact hfits.read _ hfit hj (by rw [hpre, hoff])

/-- The list account gives back its header and its entries, whatever capacity follows; an account
that ends before its last entry is refused. -/
theorem entryAt_listData {maxValidators unused : ℕ} {entries : List ValidatorEntry} {tail : Bytes}
    (hmax : maxValidators < 2 ^ 32) (hlen : entries.length < 2 ^ 32)
    (hfits : ∀ e ∈ entries, (e.record unused).Fits)
    (hfit : (listData maxValidators unused entries ++ tail).length < 2 ^ 64) :
    parseHeader (listData maxValidators unused entries ++ tail) =
        .ok ⟨maxValidators, entries.length⟩ ∧
      (∀ i, entryAt (listData maxValidators unused entries ++ tail) i = ofOption entries[i]? ()) ∧
      ∀ k < (listData maxValidators unused entries).length, ∃ e,
        parseHeader ((listData maxValidators unused entries ++ tail).take k) = .err e := by
  have hbody := length_entries unused entries
  have hhead : (headerRecord ⟨maxValidators, entries.length⟩).encode.length = 9 := rfl
  unfold listData at hfit ⊢
  rw [List.append_assoc] at hfit ⊢
  have hwhole : entries.length * 73 ≤ (entries.flatMap (fun e ↦ (e.record unused).encode) ++
      tail).length := by
    rw [List.length_append, hbody]
    exact Nat.le_add_right _ _
  have hheader := (parseHeader_encode (h := ⟨maxValidators, entries.length⟩) hmax hlen hfit).trans
    (if_neg (not_lt.mpr hwhole))
  refine ⟨hheader, ?_, ?_⟩
  · intro i
    rw [entryAt, hheader]
    dsimp only
    cases hi : entries[i]? with
    | none =>
      rw [if_pos (List.getElem?_eq_none_iff.mp hi)]
      rfl
    | some e =>
      have hlt := (List.getElem?_eq_some_iff.mp hi).1
      have hread {j w x : ℕ} (off : ℕ) (hj : (e.record unused)[j]? = some (w, x))
          (hoff : Record.width ((e.record unused).take j) = off) :=
        entryAt_encode hi (hfits e (List.mem_of_getElem? hi)) hfit hj
          (congrArg (9 + i * 73 + ·) hoff)
      have hmul : checkedMul 64 i ENTRY_LEN = some (i * 73) := if_pos (by rw [ENTRY_LEN]; omega)
      have hbase : checkedAdd 64 ENTRIES_OFFSET (i * 73) = some (9 + i * 73) :=
        if_pos (by rw [ENTRIES_OFFSET]; omega)
      have hadd (rel : ℕ) (hrel : rel < 73) :
          checkedAdd 64 (9 + i * 73) rel = some (9 + i * 73 + rel) := if_pos (by omega)
      rw [if_neg (not_le.mpr hlt), hmul, ofOption_some, Outcome.ok_bind, hbase, ofOption_some,
        Outcome.ok_bind]
      simp only [hadd 8 (by decide), hadd 16 (by decide), hadd 24 (by decide), hadd 36 (by decide),
        hadd 40 (by decide), hadd 41 (by decide), ofOption_some, Outcome.ok_bind]
      have h₀ := hread (j := 0) 0 rfl rfl
      rw [Nat.add_zero] at h₀
      rw [h₀, hread (j := 1) 8 rfl rfl, hread (j := 2) 16 rfl rfl, hread (j := 3) 24 rfl rfl,
        hread (j := 5) 36 rfl rfl, hread (j := 6) 40 rfl rfl, hread (j := 7) 41 rfl rfl]
      rfl
  · intro k hk
    rw [List.length_append, hbody, hhead] at hk
    by_cases hshort : k < 9
    · refine ⟨.tooShort, if_pos ?_⟩
      exact (List.length_take_le _ _).trans_lt hshort
    · refine ⟨.entriesTruncated, ?_⟩
      rw [List.take_append, hhead, List.take_of_length_le (by rw [hhead]; omega),
        parseHeader_encode hmax hlen, if_pos]
      · exact (List.length_take_le _ _).trans_lt (show k - 9 < entries.length * 73 by omega)
      · rw [List.length_append, hhead]
        have hle := List.length_take_le (k - 9)
          ((entries.flatMap fun e ↦ (e.record unused).encode) ++ tail)
        omega

/-- Two entries, of which the second is read. -/
theorem entryAt_listData_sample : ∃ entries tail, entries.length = 2 ∧
    entryAt (listData 3 0 entries ++ tail) 1 = .ok ⟨8, 0, 1, 0, 0, 4, 12⟩ := by
  refine ⟨[⟨7, 0, 1, 0, 0, 0, 11⟩, ⟨8, 0, 1, 0, 0, 4, 12⟩], [0, 0, 0], rfl, ?_⟩
  exact (entryAt_listData (by decide) (by decide) (by decide) (by decide +kernel)).2.1 1

end StakeView

/-! ## The positions that the controller reads -/

theorem fusion_nonce_lt {G : SystemEvent → SystemWorld → Prop} {w : SystemWorld}
    (h : fusion.Reachable G w) : w.system.protocol.markets.All fun state ↦
      state.positions.All fun p ↦ p.inkNonce < 2 ^ 64 := by
  refine fusion_market_invariant h ?_ ?_
  · intro cfg authority clk mint freeze args state hinit owner p hp
    rw [initMarket_eq hinit] at hp
    cases hp
  · intro cfg clk j a a' hi hrun ih owner p' hp'
    have hmove := (j.run_effect hi hrun).ink owner
    rw [Option.mem_def.mp hp'] at hmove
    generalize hp : a.state.positions.lookup owner = before at hmove
    cases hmove with
    | opened hink hnonce => exact hnonce
    | stay hrel =>
      cases hrel with
      | some hadv => exact (hadv (ih owner _ hp)).2.1

namespace Deployment

open ByteReader StakeView StakeController

variable {d : Deployment}

/-- The data of the account at an address: the position there, as fusd-core stores it. -/
def accountData (d : Deployment) (w : SystemWorld) (bump reserved : ℕ) (key : Pubkey) :
    Option Bytes := do
  let (mint, owner) ← d.locate key
  let state ← w.system.protocol.markets.lookup mint
  let p ← state.positions.lookup owner
  some (positionRecord owner mint bump reserved p).encode

/-- In every reached state, parsing the account at an address gives the view that the controller
works with. -/
theorem view_parsed {w : SystemWorld} (h : fusion.Reach w) {key : Pubkey} {pos : PositionView}
    {bump reserved : ℕ} {padding : Bytes} (hview : d.view w key = some pos)
    (howner : pos.owner < 2 ^ 256) (hmint : pos.collateralMint < 2 ^ 256)
    (hpadding : padding.length < 2 ^ 63) :
    ∃ data, d.accountData w bump reserved key = some data ∧
      parsePosition (data ++ padding) = .ok pos := by
  simp only [view, Option.bind_eq_bind, Option.bind_eq_some_iff, Prod.exists,
    Option.some.injEq] at hview
  obtain ⟨mint, owner, hkey, state, hstate, p, hp, rfl⟩ := hview
  have hi := ((fusion_inv h).markets mint state hstate).2
  have hink : p.ink < 2 ^ 64 := by
    have hsum : p.ink ≤ state.market.totalCollateral :=
      (Table.le_total (f := Position.ink) (fun _ ↦ Nat.zero_le _) hp).trans hi.book.ink_le
    have hvault := hi.vault
    have hfit := state.coll.balance_lt .vault
    simp only [tracked] at hvault
    omega
  refine ⟨(positionRecord owner mint bump reserved p).encode, ?_, ?_⟩
  · simp only [accountData, hkey, hstate, hp, Option.bind_eq_bind, Option.bind_some]
  · have hnonce := fusion_nonce_lt h mint state hstate owner p hp
    refine parsePosition_encode howner hmint hink hnonce ?_
    have hwidth : (positionRecord owner mint bump reserved p).width = 213 := by
      simp [positionRecord, Record.width]
    rw [List.length_append, Record.length_encode, hwidth]
    omega

/-- The account of the sample owner, with ten tokens deposited. -/
theorem view_parsed_sample : ∃ w data, fusion.Reach w ∧
    FusolSample.deployment.accountData w 254 0 (FusolSample.key 100) = some data ∧
    parsePosition (data ++ [1, 2]) = .ok ⟨100, 7, 10000000000, 1⟩ := by
  have hrun : Sample.test (fun _ _ ↦ True) (Sample.at_ ⟨1000, 1000000, 5⟩
      (Sample.launch ++ Sample.drawn ⟨1000, 1000000, 5⟩ 15000 1000000000)) (fun w ↦
        decide (FusolSample.deployment.view w (FusolSample.key 100) =
          some ⟨100, 7, 10000000000, 1⟩)) = some true := by decide +kernel
  obtain ⟨w, hw, hP⟩ := Sample.of_test hrun
  have hdata : ∃ data, FusolSample.deployment.accountData w 254 0 (FusolSample.key 100) =
      some data ∧ parsePosition (data ++ [1, 2]) = .ok ⟨100, 7, 10000000000, 1⟩ :=
    view_parsed hw (of_decide_eq_true hP) (by decide) (by decide) (by decide)
  obtain ⟨data, hdata⟩ := hdata
  exact ⟨w, data, hw, hdata⟩

end Deployment
end FusionCore
