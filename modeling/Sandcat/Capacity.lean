import Sandcat.Reads

/-!
# The capacity of a pull of messages

`pull_offline_messages` hands four numbers of its client to `get_msgs`, which reserves room for as
many messages as the two ranges have numbers. The request has a check of its own, of one range, and
the handler does not make it.
-/

namespace Sandcat

open Remote

structure GetDbMessagesRequest where
  userId : UserId
  sendStart : Int64
  sendEnd : Int64
  start : Int64
  last : Int64
  deriving DecidableEq

/-- The result of an operation of `i64`, where it is one. Overflow panics in a debug build and wraps
in a release build. -/
def checked (n : Int) : Option Int64 :=
  if -2 ^ 63 ≤ n ∧ n < 2 ^ 63 then some (Int64.ofInt n) else none

/-- `send_end - send_start + (rec_end - rec_start)`, the same in both boxes. -/
def rangeLen (sendStart sendEnd recStart recEnd : Int64) : Option Int64 := do
  let sent ← checked (sendEnd.toInt - sendStart.toInt)
  let received ← checked (recEnd.toInt - recStart.toInt)
  checked (sent.toInt + received.toInt)

namespace GetDbMessagesRequest

def validate (req : GetDbMessagesRequest) : Except Error Unit :=
  if req.userId.isEmpty then .error (.mk .badRequest (some "user_id is empty"))
  else if req.start < 0 then .error (.mk .badRequest (some "start is invalid"))
  else if req.last < 0 then .error (.mk .badRequest (some "end is invalid"))
  else if req.last < req.start then .error (.mk .badRequest (some "start is greater than end"))
  else .ok ()

/-- The computation stays within `i64`, and what it asks for is neither negative nor too large. -/
def Reserves (req : GetDbMessagesRequest) : Prop :=
  ∃ len, rangeLen req.sendStart req.sendEnd req.start req.last = some len ∧ 0 ≤ len.toInt ∧
    len.toInt * Msg.size ≤ 2 ^ 63 - 1

/-- The numbers of the range of sent messages, counted below zero if it is reversed. -/
def sentRange (req : GetDbMessagesRequest) : Int := req.sendEnd.toInt - req.sendStart.toInt

def receivedRange (req : GetDbMessagesRequest) : Int := req.last.toInt - req.start.toInt

end GetDbMessagesRequest

def pullOfflineMessages (cfg : Config) (req : GetDbMessagesRequest) : M (List Msg) :=
  MsgRecBox.getMsgs cfg req.userId req.sendStart.toInt req.sendEnd.toInt req.start.toInt
    req.last.toInt

theorem checked_eq_some {n : Int} {i : Int64} : checked n = some i ↔ i.toInt = n := by
  constructor
  · intro h
    by_cases hn : -2 ^ 63 ≤ n ∧ n < 2 ^ 63
    · rw [checked, if_pos hn, Option.some.injEq] at h
      rw [← h, Int64.toInt_ofInt_of_le hn.1 hn.2]
    · rw [checked, if_neg hn] at h
      cases h
  · rintro rfl
    rw [checked, if_pos ⟨i.le_toInt, i.toInt_lt⟩, Int64.ofInt_toInt]

/-- What an `i64` holds. -/
theorem exists_toInt {n : Int} : (∃ i : Int64, i.toInt = n) ↔ -2 ^ 63 ≤ n ∧ n < 2 ^ 63 := by
  constructor
  · rintro ⟨i, rfl⟩
    exact ⟨i.le_toInt, i.toInt_lt⟩
  · intro h
    exact ⟨Int64.ofInt n, Int64.toInt_ofInt_of_le h.1 h.2⟩

theorem rangeLen_eq_some {sendStart sendEnd recStart recEnd len : Int64} :
    rangeLen sendStart sendEnd recStart recEnd = some len ↔
      (∃ sent : Int64, sent.toInt = sendEnd.toInt - sendStart.toInt) ∧
        (∃ received : Int64, received.toInt = recEnd.toInt - recStart.toInt) ∧
        len.toInt = sendEnd.toInt - sendStart.toInt + (recEnd.toInt - recStart.toInt) := by
  simp only [rangeLen, Option.bind_eq_bind, Option.bind_eq_some_iff, checked_eq_some]
  constructor
  · rintro ⟨sent, hsent, received, hreceived, hlen⟩
    exact ⟨⟨sent, hsent⟩, ⟨received, hreceived⟩, by omega⟩
  · rintro ⟨⟨sent, hsent⟩, ⟨received, hreceived⟩, hlen⟩
    exact ⟨sent, hsent, received, hreceived, by omega⟩

namespace GetDbMessagesRequest

variable {req : GetDbMessagesRequest}

theorem Reserves.range (h : req.Reserves) :
    0 ≤ req.sentRange + req.receivedRange ∧
      (req.sentRange + req.receivedRange) * Msg.size ≤ 2 ^ 63 - 1 := by
  obtain ⟨len, hlen, hnonneg, hsize⟩ := h
  obtain ⟨-, -, hsum⟩ := rangeLen_eq_some.mp hlen
  rw [hsum] at hnonneg hsize
  exact ⟨hnonneg, hsize⟩

/-- A request that reserves finds its capacity accepted, in a release build too. -/
theorem Reserves.withCapacity (h : req.Reserves) :
    Sandcat.withCapacity (req.sendEnd.toInt - req.sendStart.toInt +
      (req.last.toInt - req.start.toInt)) = pure () := by
  obtain ⟨hnonneg, hsize⟩ := h.range
  simp only [sentRange, receivedRange] at hnonneg hsize
  have hmod := Int.emod_eq_of_lt (b := 2 ^ 64) hnonneg (by simp only [Msg.size] at hsize; omega)
  rw [Sandcat.withCapacity, capacityFits, hmod, if_pos (by simpa using hsize)]

/-- The check of the request covers one of its two ranges. -/
theorem receivedRange_of_validate (h : req.validate = .ok ()) :
    0 ≤ req.receivedRange ∧ req.receivedRange < 2 ^ 63 := by
  simp only [validate] at h
  split at h
  · cases h
  split at h
  · cases h
  rename_i hstart
  split at h
  · cases h
  split at h
  · cases h
  rename_i hle
  rw [Int64.not_lt, Int64.le_iff_toInt_le] at hstart hle
  have hlast := req.last.toInt_lt
  have hzero : (0 : Int64).toInt = 0 := rfl
  simp only [receivedRange]
  omega

end GetDbMessagesRequest

section Pull

variable {cfg : Config} {userShards : Nat} {req : GetDbMessagesRequest}

/-- A request that reserves is answered with what the box finds. -/
theorem pullOfflineMessages_plain (hbox : cfg.box = .plain) (h : req.Reserves) :
    pullOfflineMessages cfg req = (do
      let cursor ← mongoCall fun m => .ok (aggregate (fun start i => start < i) req.userId
        req.sendStart.toInt req.sendEnd.toInt req.start.toInt req.last.toInt
        Mongo.collSingleBox m, m)
      pure (cursor.map fun d => (Msg.tryFrom d).shownTo req.userId)) := by
  simp only [pullOfflineMessages, MsgRecBox.getMsgs, hbox, MsgBox.getMsgs, h.withCapacity]
  rfl

theorem pullOfflineMessages_sharded (hbox : cfg.box = .sharded userShards) (h : req.Reserves) :
    pullOfflineMessages cfg req = (do
      let collections ← HybridShardedMsgBox.readCollections cfg userShards req.userId
      let found ← HybridShardedMsgBox.queryEach (aggregate (fun start i => start ≤ i) req.userId
        req.sendStart.toInt req.sendEnd.toInt req.start.toInt req.last.toInt) collections
      pure ((found.map fun d => (Msg.tryFrom d).shownTo req.userId).insertionSort
        (Msg.notAfter req.userId))) := by
  simp only [pullOfflineMessages, MsgRecBox.getMsgs, hbox, HybridShardedMsgBox.getMsgs,
    h.withCapacity]
  rfl

end Pull

/-- The capacity of a pull is safe if and only if each range has a length within `i64`, and the two
together are neither negative nor more than fits in memory. -/
theorem pull_reserves_iff (req : GetDbMessagesRequest) :
    req.Reserves ↔
      (-2 ^ 63 ≤ req.sentRange ∧ req.sentRange < 2 ^ 63) ∧
        (-2 ^ 63 ≤ req.receivedRange ∧ req.receivedRange < 2 ^ 63) ∧
        0 ≤ req.sentRange + req.receivedRange ∧
        (req.sentRange + req.receivedRange) * Msg.size ≤ 2 ^ 63 - 1 := by
  constructor
  · intro h
    obtain ⟨len, hlen, -⟩ := id h
    obtain ⟨hsent, hreceived, -⟩ := rangeLen_eq_some.mp hlen
    exact ⟨exists_toInt.mp hsent, exists_toInt.mp hreceived, h.range⟩
  · rintro ⟨hsent, hreceived, hnonneg, hsize⟩
    have hfits : -2 ^ 63 ≤ req.sentRange + req.receivedRange ∧
        req.sentRange + req.receivedRange < 2 ^ 63 := by
      simp only [Msg.size] at hsize
      omega
    obtain ⟨len, hlen⟩ := exists_toInt.mpr hfits
    refine ⟨len, ?_, ?_, ?_⟩
    · rw [rangeLen_eq_some]
      exact ⟨exists_toInt.mpr hsent, exists_toInt.mpr hreceived, hlen⟩
    · rw [hlen]
      exact hnonneg
    · rw [hlen]
      exact hsize

/-- A reversed range of sent messages is accepted by the handler, and would pass the check. -/
theorem pull_not_reserves :
    let req : GetDbMessagesRequest := ⟨"u", 1, 0, 0, 0⟩
    req.validate = .ok () ∧ ¬req.Reserves := by
  intro req
  refine ⟨by decide, ?_⟩
  intro h
  exact absurd h.range.1 (by decide)

end Sandcat
