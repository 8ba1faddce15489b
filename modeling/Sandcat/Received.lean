import Sandcat.Views

/-!
# Received messages in the sharded box

A message for a user is filed in the collection of the user's shard and its month.
As long as the months of a user's messages are among the three that are read, the
query for a range of received numbers is exact.
-/

namespace Sandcat

open Remote

@[simp] theorem Msg.shownTo_receiverId (u : UserId) (m : Msg) :
    (m.shownTo u).receiverId = m.receiverId := by
  unfold Msg.shownTo
  split <;> rfl

@[simp] theorem Msg.shownTo_senderId (u : UserId) (m : Msg) :
    (m.shownTo u).senderId = m.senderId := by
  unfold Msg.shownTo
  split <;> rfl

@[simp] theorem Msg.shownTo_serverId (u : UserId) (m : Msg) :
    (m.shownTo u).serverId = m.serverId := by
  unfold Msg.shownTo
  split <;> rfl

@[simp] theorem Msg.shownTo_sendSeq (u : UserId) (m : Msg) : (m.shownTo u).sendSeq = m.sendSeq := by
  unfold Msg.shownTo
  split <;> rfl

theorem Msg.shownTo_of_ne {u : UserId} {m : Msg} (h : m.senderId ≠ u) : m.shownTo u = m :=
  if_neg fun he => h he.symm

/-- The messages that the reader has not sent. -/
def Msg.others (userId : UserId) (messages : List Msg) : List Msg :=
  messages.filter (·.senderId ≠ userId)

/-- A received document of a range of numbers, not sent by the reader. -/
def fromOthers (userId : UserId) (recStart recEnd : Int) (d : Document) : Bool :=
  d.getStr .receiverId = some userId && d.getStr .senderId ≠ some userId &&
    d.holds .seq fun i => recStart ≤ i && i ≤ recEnd

namespace HybridShardedMsgBox

variable {cfg : Config} {n : Nat} {w : World}

/-- The collection is one of a month that is read when the clock is `now`. -/
def Recent (now : Int) (coll : String) : Prop :=
  ∃ ym r, Chrono.IsMonth ym ∧ coll = collectionName ym r ∧ InWindow now ym

theorem mem_filings {saves : List (Int × Save)} {p : String × Document} :
    p ∈ filings cfg n saves ↔ ∃ s ∈ saves, ∃ m ∈ s.2.copies (.sharded n),
      (shelf cfg n s.1 m.receiverId m.sendTime, toDoc m) = p := by
  simp only [filings, placed, List.mem_flatMap, List.mem_map]

/-- Every document is a message in a collection of its receiver. -/
def Shelved (cfg : Config) (userShards : Nat) (m : Mongo) : Prop :=
  ∀ p ∈ m.docs, ∃ (msg : Msg) (now : Int),
    p = (shelf cfg userShards now msg.receiverId msg.sendTime, toDoc msg)

theorem shelved_afterSaves (hbox : cfg.box = .sharded n) (hn : n ≠ 0) (h : w.EmptyInbox)
    (saves : List (Int × Save)) : Shelved cfg n (w.afterSaves cfg saves).mongo := by
  intro p hp
  rw [(docs_afterSaves hbox hn h.sound saves).2, h.docs] at hp
  obtain hp | hp := Unique.mem_enterAll hp
  · cases hp
  · obtain ⟨s, -, m, -, rfl⟩ := mem_filings.mp hp
    exact ⟨m, s.1, rfl⟩

/-- A recent document of the reader is in a collection that is read. -/
theorem mem_readNames_of_recent {now saved : Int} (h : 0 ≤ now) {u : UserId} {ts : Int}
    (hr : Recent now (shelf cfg n saved u ts)) :
    shelf cfg n saved u ts ∈ readNames cfg n now u := by
  obtain ⟨ym, r, hm, he, hw⟩ := hr
  obtain ⟨hym, -⟩ := collectionName_inj (isMonth_writeMonth saved ts) hm he
  exact (shelf_mem_readNames h saved ts).mpr ⟨rfl, hym ▸ hw⟩

/-- The query for received messages is exact and its result is in order. -/
def ReceivedExact (cfg : Config) (userShards : Nat) (w : World) (userId : UserId)
    (sendStart sendEnd recStart recEnd : Int) : Prop :=
  (∃ res, ((getMsgs cfg userShards userId sendStart sendEnd recStart recEnd).exec w).1 = .ok res ∧
    (res.filter fun m => m.receiverId = userId && m.senderId ≠ userId).Perm
      ((w.inbox.filter (fromOthers userId recStart recEnd)).map Msg.tryFrom) ∧
    res.Pairwise (Msg.notAfter userId)) ∧
  (readNames cfg userShards w.now userId).Nodup

/-- Among what is returned, the messages of others are the received ones of the range. -/
theorem others_msgsIn (hnow : 0 ≤ w.now) (hs : Shelved cfg n w.mongo) {u : UserId}
    (hr : ∀ p ∈ w.mongo.docs, p.2.getStr .receiverId = some u → Recent w.now p.1)
    (ss se rs re : Int) :
    (Msg.others u (msgsIn cfg n w u ss se rs re)).Perm
      ((w.inbox.filter (fromOthers u rs re)).map Msg.tryFrom) := by
  refine ((msgsIn_perm hnow u ss se rs re).filter _).trans (.of_eq ?_)
  rw [World.inbox, List.filter_map, List.filter_filter, List.filter_map, List.map_map]
  have hfilter : ∀ p ∈ w.mongo.docs, ((((fun m : Msg => decide (m.senderId ≠ u)) ∘
      fun q : String × Document => (Msg.tryFrom q.2).shownTo u) p) &&
      (p.1 ∈ readNames cfg n w.now u && matchMsgs (fun start i => start ≤ i) u ss se rs re p.2)) =
      (fromOthers u rs re ∘ Prod.snd) p := by
    intro p hp
    have hrp := hr p hp
    obtain ⟨msg, saved, rfl⟩ := hs p hp
    by_cases hv : msg.senderId = u
    · simp [fromOthers, hv, Msg.stored]
    · by_cases hu : msg.receiverId = u
      · subst hu
        have hmem := mem_readNames_of_recent hnow (hrp rfl)
        simp [fromOthers, matchMsgs, hv, hmem, Msg.stored]
      · simp [fromOthers, matchMsgs, hu, hv]
  rw [List.filter_congr hfilter]
  apply List.map_congr_left
  intro p hp
  obtain ⟨hp, hothers⟩ := List.mem_filter.mp hp
  obtain ⟨msg, saved, rfl⟩ := hs p hp
  apply Msg.shownTo_of_ne
  simp only [fromOthers, Function.comp, toDoc_senderId, Bool.and_eq_true, decide_eq_true_eq, ne_eq,
    Option.some.injEq] at hothers
  exact hothers.1.2

/-- All of them are addressed to the reader. -/
theorem filter_msgsIn (hnow : 0 ≤ w.now) (hs : Shelved cfg n w.mongo) {u : UserId}
    (hr : ∀ p ∈ w.mongo.docs, p.2.getStr .receiverId = some u → Recent w.now p.1)
    (ss se rs re : Int) :
    ((msgsIn cfg n w u ss se rs re).filter fun m => m.receiverId = u && m.senderId ≠ u).Perm
      ((w.inbox.filter (fromOthers u rs re)).map Msg.tryFrom) := by
  rw [← List.filter_filter]
  refine ((others_msgsIn hnow hs hr ss se rs re).filter _).trans (.of_eq ?_)
  rw [List.filter_eq_self]
  intro m hm
  obtain ⟨d, hd, rfl⟩ := List.mem_map.mp hm
  have hothers := (List.mem_filter.mp hd).2
  simp only [fromOthers, Bool.and_eq_true, decide_eq_true_eq] at hothers
  simp [Msg.tryFrom, hothers.1.1]

/-- The received messages of a range are exactly what is returned, once the result has room. -/
theorem received_exact_iff (hbox : cfg.box = .sharded n) (hw : w.EmptyInbox)
    (saves : List (Int × Save)) (now : Int) (hnow : 0 ≤ now) (u : UserId) (ss se rs re : Int)
    (hrecent : ∀ p ∈ (w.afterSaves cfg saves).mongo.docs,
      p.2.getStr .receiverId = some u → Recent now p.1) :
    ReceivedExact cfg n ((w.afterSaves cfg saves).atTime now) u ss se rs re ↔
      n ≠ 0 ∧ capacityFits (se - ss + (re - rs)) = true := by
  have hdistinct : (readNames cfg n ((w.afterSaves cfg saves).atTime now).now u).Nodup :=
    nodup_readNames hnow
  by_cases hn : n = 0
  · subst hn
    refine ⟨?_, fun h => absurd rfl h.1⟩
    rintro ⟨⟨res, hres, -⟩, -⟩
    rw [getMsgs_zero] at hres
    cases hres
  have hsound : ((w.afterSaves cfg saves).atTime now).mongo.Sound :=
    (docs_afterSaves hbox hn hw.sound saves).1
  have hresult := getMsgs_result cfg hn hsound u ss se rs re
  constructor
  · rintro ⟨⟨res, hres, -⟩, -⟩
    refine ⟨hn, ?_⟩
    by_contra hcap
    rw [hresult, if_neg hcap] at hres
    cases hres
  · rintro ⟨-, hcap⟩
    rw [if_pos hcap] at hresult
    refine ⟨⟨_, hresult, ?_, msgsIn_sorted u ss se rs re⟩, hdistinct⟩
    exact filter_msgsIn (w := (w.afterSaves cfg saves).atTime now) hnow
      (shelved_afterSaves hbox hn hw saves) hrecent ss se rs re

end HybridShardedMsgBox

/-- One shard, in which every user is, whatever the hash. -/
def Config.oneShard : Config := ⟨1, .sharded 1, fun _ => 0⟩

/-- A numbered message, sent at the start of 1970. -/
def letter : Msg :=
  { senderId := "a", receiverId := "b", serverId := "m1", seq := 1, sendSeq := 1,
    msgType := MsgType.singleMsg.toI32 }

def letterSaved : World := World.empty.afterSaves .oneShard [(0, .single letter)]

theorem World.emptyInbox_empty : World.empty.EmptyInbox := ⟨rfl, by decide, by decide⟩

theorem letterSaved_docs :
    letterSaved.mongo.docs = [(collectionName (1970, 1) 0, toDoc letter)] := by decide

theorem letterSaved_recent (p : String × Document) (hp : p ∈ letterSaved.mongo.docs) :
    HybridShardedMsgBox.Recent 0 p.1 := by
  rw [letterSaved_docs, List.mem_singleton] at hp
  subst hp
  exact ⟨(1970, 1), 0, by decide, rfl, by decide⟩

namespace HybridShardedMsgBox

theorem received_exact_letter :
    ReceivedExact .oneShard 1 (letterSaved.atTime 0) "b" 0 0 1 1 :=
  (received_exact_iff rfl World.emptyInbox_empty [(0, .single letter)] 0 (by decide) "b" 0 0 1 1
    fun p hp _ => letterSaved_recent p hp).mpr ⟨by decide, by decide⟩

/-- A range up to the largest number asks for a vector that cannot be allocated. -/
theorem received_range_panics : (0 : Int) ≤ 2 ^ 63 - 1 ∧
    (∀ p ∈ letterSaved.mongo.docs, p.2.getStr .receiverId = some "b" → Recent 0 p.1) ∧
    ¬ ReceivedExact .oneShard 1 (letterSaved.atTime 0) "b" 0 0 0 (2 ^ 63 - 1) := by
  refine ⟨by decide, fun p hp _ => letterSaved_recent p hp, ?_⟩
  rintro ⟨⟨res, hres, -⟩, -⟩
  have hpanic : ((getMsgs .oneShard 1 "b" 0 0 0 (2 ^ 63 - 1)).exec (letterSaved.atTime 0)).1 =
      .error .panic := rfl
  rw [hpanic] at hres
  cases hres

end HybridShardedMsgBox

end Sandcat
