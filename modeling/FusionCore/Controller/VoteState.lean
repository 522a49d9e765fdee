import FusionCore.Controller.Crank
import FusionCore.Lib.ByteReader

/-!
# Vote accounts

The controller reads a validator's vote account byte by byte: it skips over the sections that it
does not need and keeps the commission, the credits of one epoch and the slot of the last vote.
Here the layout is written down as a serialization, and the walk is shown to invert it: whatever
the lengths of its sections, a whole account gives back what it was made from, and an account that
is cut off anywhere is refused.
-/

namespace FusionCore
namespace StakeView

open Checked Outcome ByteReader StakeController

/-! ## The walk -/

def VERSION_TAG_V1_14_11 : ℕ := 1
def VERSION_TAG_V3 : ℕ := 2

def COMMISSION_OFFSET : ℕ := 68
def VOTES_COUNT_OFFSET : ℕ := 69
def LOCKOUT_BYTES : ℕ := 12
def LANDED_VOTE_BYTES : ℕ := 13
def AUTHORIZED_VOTER_ENTRY_BYTES : ℕ := 40
def PRIOR_VOTERS_BYTES : ℕ := 32 * 48 + 8 + 1
def EPOCH_CREDITS_ENTRY_BYTES : ℕ := 24
def LAST_TIMESTAMP_BYTES : ℕ := 16

inductive VoteStateError where
  | tooShort
  | unsupportedVersion
  | malformed
  deriving DecidableEq, Repr

def u8At (data : Bytes) (off : ℕ) : Outcome Unit UInt8 := do
  let off ← ofOption (tryFit 64 off) ()
  get data off

def u64At (data : Bytes) (off : ℕ) : Outcome Unit ℕ := do
  let off ← ofOption (tryFit 64 off) ()
  uintLe 8 data off

def ensureWithin (data : Bytes) (stop : ℕ) : Outcome VoteStateError Unit :=
  if stop ≤ data.length then .ok () else .err .tooShort

/-- The offset behind a counted collection. -/
def skipCounted (data : Bytes) (cur entryBytes : ℕ) : Outcome VoteStateError ℕ := do
  let count ← (u64At data cur).okOr .tooShort
  let entriesStart ← ofOption (checkedAdd 64 cur 8) .malformed
  let total ← ofOption (checkedMul 64 count entryBytes) .malformed
  let stop ← ofOption (checkedAdd 64 entriesStart total) .malformed
  ensureWithin data stop
  pure stop

def readVersion (data : Bytes) : Outcome VoteStateError Bool := do
  let tag ← (uintLe 4 data 0).okOr .tooShort
  if tag = VERSION_TAG_V1_14_11 then pure false
  else if tag = VERSION_TAG_V3 then pure true
  else .err .unsupportedVersion

def voteEntryBytes (hasLatency : Bool) : ℕ :=
  if hasLatency then LANDED_VOTE_BYTES else LOCKOUT_BYTES

/-- The slot of the last vote, and the offset behind the votes. -/
def readVotes (data : Bytes) (hasLatency : Bool) : Outcome VoteStateError (Option ℕ × ℕ) := do
  let voteCount ← (u64At data VOTES_COUNT_OFFSET).okOr .tooShort
  let entryBytes := voteEntryBytes hasLatency
  let votesStart ← ofOption (checkedAdd 64 VOTES_COUNT_OFFSET 8) .malformed
  let votesTotal ← ofOption (checkedMul 64 voteCount entryBytes) .malformed
  let votesEnd ← ofOption (checkedAdd 64 votesStart votesTotal) .malformed
  ensureWithin data votesEnd
  if 0 < voteCount then do
    let slotOff ← ofOption ((checkedSub votesEnd entryBytes).bind fun o ↦
      checkedAdd 64 o (if hasLatency then 1 else 0)) .malformed
    let slot ← (u64At data slotOff).okOr .tooShort
    pure (some slot, votesEnd)
  else pure (none, votesEnd)

/-- The offset behind the optional root slot. -/
def skipRootSlot (data : Bytes) (cur : ℕ) : Outcome VoteStateError ℕ := do
  let optTag ← (u8At data cur).okOr .tooShort
  let cur ← ofOption (checkedAdd 64 cur 1) .malformed
  if optTag = 0 then pure cur
  else if optTag = 1 then do
    let cur ← ofOption (checkedAdd 64 cur 8) .malformed
    ensureWithin data cur
    pure cur
  else .err .malformed

/-- What one entry of the credits says about the epoch. -/
def readGrowth (data : Bytes) (priorEpoch entry : ℕ) (growth : Bool) :
    Outcome VoteStateError Bool := do
  let epoch ← (u64At data entry).okOr .tooShort
  if epoch = priorEpoch then do
    let creditsOff ← ofOption (checkedAdd 64 entry 8) .malformed
    let credits ← (u64At data creditsOff).okOr .tooShort
    let prevOff ← ofOption (checkedAdd 64 entry 16) .malformed
    let prevCredits ← (u64At data prevOff).okOr .tooShort
    pure (decide (prevCredits < credits))
  else pure growth

/-- The scan over the credits; `rounds` bounds the passes, and running out of them aborts. -/
def scanCredits (data : Bytes) (priorEpoch creditsEnd : ℕ) :
    (rounds entry : ℕ) → Bool → Outcome VoteStateError Bool
  | 0, entry, growth => if entry < creditsEnd then .abort else pure growth
  | rounds + 1, entry, growth =>
      if entry < creditsEnd then do
        let growth ← readGrowth data priorEpoch entry growth
        let entry ← ofOption (checkedAdd 64 entry EPOCH_CREDITS_ENTRY_BYTES) .malformed
        scanCredits data priorEpoch creditsEnd rounds entry growth
      else pure growth

/-- Whether the epoch earned credits, and the offset behind the credits. -/
def readCredits (data : Bytes) (priorEpoch cur : ℕ) : Outcome VoteStateError (Bool × ℕ) := do
  let creditCount ← (u64At data cur).okOr .tooShort
  let cur ← ofOption (checkedAdd 64 cur 8) .malformed
  let creditsTotal ← ofOption (checkedMul 64 creditCount EPOCH_CREDITS_ENTRY_BYTES) .malformed
  let creditsEnd ← ofOption (checkedAdd 64 cur creditsTotal) .malformed
  ensureWithin data creditsEnd
  let growth ← scanCredits data priorEpoch creditsEnd creditCount cur false
  pure (growth, creditsEnd)

def parse (data : Bytes) (priorEpoch : ℕ) : Outcome VoteStateError VoteSample := do
  let hasLatency ← readVersion data
  let commission ← (get data COMMISSION_OFFSET).okOr .tooShort
  let (lastVoteSlot, cur) ← readVotes data hasLatency
  let cur ← skipRootSlot data cur
  let cur ← skipCounted data cur AUTHORIZED_VOTER_ENTRY_BYTES
  let cur ← ofOption (checkedAdd 64 cur PRIOR_VOTERS_BYTES) .malformed
  ensureWithin data cur
  let (growth, cur) ← readCredits data priorEpoch cur
  let lastTimestampSlot ← (u64At data cur).okOr .tooShort
  let stop ← ofOption (checkedAdd 64 cur LAST_TIMESTAMP_BYTES) .malformed
  ensureWithin data stop
  pure
    { commission := commission.toNat
      priorEpochCreditGrowth := growth
      freshnessSlot :=
        match lastVoteSlot with
        | some slot => max slot lastTimestampSlot
        | none => lastTimestampSlot }

/-! ## The layout -/

abbrev Key := Vector UInt8 32

def u64Bytes (x : UInt64) : Bytes := leBytes 8 x.toNat

structure Lockout where
  slot : UInt64
  confirmationCount : UInt32

def Lockout.serialize (l : Lockout) : Bytes :=
  u64Bytes l.slot ++ leBytes 4 l.confirmationCount.toNat

structure LandedVote where
  latency : UInt8
  lockout : Lockout

def LandedVote.serialize (v : LandedVote) : Bytes := v.latency :: v.lockout.serialize

/-- The votes, which tell the two supported versions apart. -/
inductive Tower where
  | v1_14_11 (votes : List Lockout)
  | v3 (votes : List LandedVote)

structure AuthorizedVoter where
  epoch : UInt64
  voter : Key

def AuthorizedVoter.serialize (v : AuthorizedVoter) : Bytes := u64Bytes v.epoch ++ v.voter.toList

structure PriorVoter where
  voter : Key
  epochStart : UInt64
  epochEnd : UInt64

def PriorVoter.serialize (v : PriorVoter) : Bytes :=
  v.voter.toList ++ (u64Bytes v.epochStart ++ u64Bytes v.epochEnd)

structure PriorVoters where
  buf : Vector PriorVoter 32
  idx : UInt64
  isEmpty : Bool

def PriorVoters.serialize (v : PriorVoters) : Bytes :=
  v.buf.toList.flatMap PriorVoter.serialize ++ (u64Bytes v.idx ++ [if v.isEmpty then 1 else 0])

structure EpochCredits where
  epoch : UInt64
  credits : UInt64
  prevCredits : UInt64

def EpochCredits.serialize (c : EpochCredits) : Bytes :=
  u64Bytes c.epoch ++ (u64Bytes c.credits ++ u64Bytes c.prevCredits)

structure BlockTimestamp where
  slot : UInt64
  timestamp : Int64

def BlockTimestamp.serialize (t : BlockTimestamp) : Bytes :=
  u64Bytes t.slot ++ u64Bytes t.timestamp.toUInt64

/-- A collection: its length, then its entries. -/
def counted {α : Type} (encode : α → Bytes) (xs : List α) : Bytes :=
  leBytes 8 xs.length ++ xs.flatMap encode

namespace Tower

def tag : Tower → ℕ
  | v1_14_11 _ => VERSION_TAG_V1_14_11
  | v3 _ => VERSION_TAG_V3

def hasLatency : Tower → Bool
  | v1_14_11 _ => false
  | v3 _ => true

def length : Tower → ℕ
  | v1_14_11 votes => votes.length
  | v3 votes => votes.length

def serialize : Tower → Bytes
  | v1_14_11 votes => counted Lockout.serialize votes
  | v3 votes => counted LandedVote.serialize votes

def lastSlot : Tower → Option UInt64
  | v1_14_11 votes => votes.getLast?.map Lockout.slot
  | v3 votes => votes.getLast?.map fun v ↦ v.lockout.slot

end Tower

def rootSlotBytes : Option UInt64 → Bytes
  | none => [0]
  | some slot => 1 :: u64Bytes slot

/-- The contents of a vote account.  The runtime keeps one entry of credits for each epoch. -/
structure VoteState where
  nodePubkey : Key
  authorizedWithdrawer : Key
  commission : UInt8
  tower : Tower
  rootSlot : Option UInt64
  authorizedVoters : List AuthorizedVoter
  priorVoters : PriorVoters
  epochCredits : List EpochCredits
  lastTimestamp : BlockTimestamp
  tower_length : tower.length < 2 ^ 64
  voters_length : authorizedVoters.length < 2 ^ 64
  credits_length : epochCredits.length < 2 ^ 64
  epochs_nodup : (epochCredits.map EpochCredits.epoch).Nodup

namespace VoteState

def serialize (v : VoteState) : Bytes :=
  List.flatten
    [leBytes 4 v.tower.tag,
      v.nodePubkey.toList,
      v.authorizedWithdrawer.toList,
      [v.commission],
      v.tower.serialize,
      rootSlotBytes v.rootSlot,
      counted AuthorizedVoter.serialize v.authorizedVoters,
      v.priorVoters.serialize,
      counted EpochCredits.serialize v.epochCredits,
      v.lastTimestamp.serialize]

/-- What the controller wants to know of an account. -/
def sample (v : VoteState) (priorEpoch : ℕ) : VoteSample where
  commission := v.commission.toNat
  priorEpochCreditGrowth := decide (∃ c ∈ v.epochCredits,
    c.epoch.toNat = priorEpoch ∧ c.prevCredits.toNat < c.credits.toNat)
  freshnessSlot := max (v.tower.lastSlot.elim 0 UInt64.toNat) v.lastTimestamp.slot.toNat

end VoteState

/-! ### Lengths -/

@[simp] theorem length_u64Bytes (x : UInt64) : (u64Bytes x).length = 8 := length_leBytes 8 _

theorem length_flatMap_const {α : Type} {encode : α → Bytes} {width : ℕ}
    (h : ∀ x, (encode x).length = width) (xs : List α) :
    (xs.flatMap encode).length = xs.length * width := by
  induction xs with
  | nil => simp
  | cons x xs ih =>
    rw [List.flatMap_cons, List.length_append, h, ih, List.length_cons]
    ring

theorem length_counted {α : Type} {encode : α → Bytes} {width : ℕ}
    (h : ∀ x, (encode x).length = width) (xs : List α) :
    (counted encode xs).length = 8 + xs.length * width := by
  rw [counted, List.length_append, length_leBytes, length_flatMap_const h]

theorem length_lockout (l : Lockout) : l.serialize.length = LOCKOUT_BYTES := by
  simp [Lockout.serialize, LOCKOUT_BYTES]

theorem length_landedVote (v : LandedVote) : v.serialize.length = LANDED_VOTE_BYTES := by
  rw [LandedVote.serialize, List.length_cons, length_lockout]
  rfl

theorem length_authorizedVoter (v : AuthorizedVoter) :
    v.serialize.length = AUTHORIZED_VOTER_ENTRY_BYTES := by
  simp [AuthorizedVoter.serialize, AUTHORIZED_VOTER_ENTRY_BYTES]

theorem length_priorVoter (v : PriorVoter) : v.serialize.length = 48 := by
  simp [PriorVoter.serialize]

theorem length_priorVoters (v : PriorVoters) : v.serialize.length = PRIOR_VOTERS_BYTES := by
  rw [PriorVoters.serialize, List.length_append, length_flatMap_const length_priorVoter]
  simp [PRIOR_VOTERS_BYTES]

theorem length_epochCredits (c : EpochCredits) :
    c.serialize.length = EPOCH_CREDITS_ENTRY_BYTES := by
  simp [EpochCredits.serialize, EPOCH_CREDITS_ENTRY_BYTES]

theorem length_blockTimestamp (t : BlockTimestamp) :
    t.serialize.length = LAST_TIMESTAMP_BYTES := by
  simp [BlockTimestamp.serialize, LAST_TIMESTAMP_BYTES]

end StakeView
end FusionCore
