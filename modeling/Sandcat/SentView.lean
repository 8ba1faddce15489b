import Sandcat.PlainView

/-!
# Sent messages in the sharded box

A sender reads the collections of its own shard. A single message is filed in the
shard of its receiver, and the copies of a group message that lie in the sender's
shard carry the sender's name and the send number 0, which is the start of the
first range. So it depends on the shards of the receivers how often a sent message
is found.
-/

namespace Sandcat

open Remote

namespace Save

/-- The sender of a group message is not among the members. -/
def WithoutSender : Save → Prop
  | single _ => True
  | group m members => m.senderId ∉ members.map (·.memId)

/-- Where the receivers of a message of `u` have to be for `u` to find it once. -/
def ShardsAllow (cfg : Config) (userShards : Nat) (u : UserId) (sendStart sendEnd : Int) :
    Save → Prop
  | single m => sendStart < m.sendSeq → m.sendSeq ≤ sendEnd →
      HybridShardedMsgBox.rangeOf cfg userShards m.receiverId =
        HybridShardedMsgBox.rangeOf cfg userShards u
  | group m members => sendStart = 0 → 0 ≤ sendEnd →
      let near := members.filter fun v => HybridShardedMsgBox.rangeOf cfg userShards v.memId =
        HybridShardedMsgBox.rangeOf cfg userShards u
      if m.seq = 0 ∨ 0 ≤ m.sendSeq ∧ m.sendSeq ≤ sendEnd then near = []
      else ∀ v ∈ near, ∀ v' ∈ near, v.memId = v'.memId

end Save

namespace HybridShardedMsgBox

variable {cfg : Config} {n : Nat} {w : World}

/-- Every message that the user has sent in a range is returned, and none of them twice. -/
def SentOnce (cfg : Config) (userShards : Nat) (saves : List (Int × Save)) (userId : UserId)
    (sendStart sendEnd : Int) (w : World) : Prop :=
  ∃ res, ((getMsgs cfg userShards userId sendStart sendEnd 0 0).exec w).1 = .ok res ∧
    (∀ s ∈ saves, s.2.SentBy userId sendStart sendEnd →
      s.2.message.serverId ∈ res.map Msg.serverId) ∧
    (res.map Msg.serverId).Nodup

/-- The documents of one save that the index lets in. -/
def kept (cfg : Config) (userShards : Nat) (s : Int × Save) : List (String × Document) :=
  Unique.enterAll Mongo.docKey [] (placed cfg userShards s.1 (s.2.copies (.sharded userShards)))

theorem serverId_of_mem_placed {s : Int × Save} {p : String × Document}
    (hp : p ∈ placed cfg n s.1 (s.2.copies (.sharded n))) :
    p.2.getStr .serverId = some s.2.message.serverId := by
  obtain ⟨c, hc, rfl⟩ := List.mem_map.mp hp
  rw [toDoc_serverId, (Save.of_mem_copies hc).1]

theorem docs_eq_kept (hbox : cfg.box = .sharded n) (hn : n ≠ 0) (hw : w.EmptyInbox)
    {saves : List (Int × Save)} (hids : (saves.map fun s => s.2.message.serverId).Nodup) :
    (w.afterSaves cfg saves).mongo.docs = saves.flatMap (kept cfg n) := by
  rw [(docs_afterSaves hbox hn hw.sound saves).2, hw.docs]
  have hinj : (saves.map fun s => some s.2.message.serverId).Nodup := by
    have hmap := hids.map (Option.some_injective String)
    rwa [List.map_map] at hmap
  exact Unique.enterAll_flatMap (g := fun k => k.2.1) hinj fun s _ p hp => serverId_of_mem_placed hp

/-- The query of the sender, in the sender's collections. -/
def foundBy (cfg : Config) (userShards : Nat) (now : Int) (u : UserId) (ss se : Int)
    (p : String × Document) : Bool :=
  p.1 ∈ readNames cfg userShards now u && matchMsgs (fun start i => start ≤ i) u ss se 0 0 p.2

section OneSave

variable {now : Int} {u : UserId} {ss se : Int} {saved : Int}

/-- A copy in the window is found if it is in the reader's shard and the query matches. -/
theorem foundBy_copy (cfg : Config) (n : Nat) (u : UserId) (ss se : Int) (hnow : 0 ≤ now) (c : Msg)
    (hw : InWindow now (writeMonth saved c.sendTime)) :
    foundBy cfg n now u ss se (shelf cfg n saved c.receiverId c.sendTime, toDoc c) = true ↔
      rangeOf cfg n c.receiverId = rangeOf cfg n u ∧
        ((c.receiverId = u ∧ c.seq = 0) ∨ (c.senderId = u ∧ ss ≤ c.sendSeq ∧ c.sendSeq ≤ se)) := by
  rw [foundBy, Bool.and_eq_true, decide_eq_true_iff, shelf_mem_readNames hnow, Save.matchMsgs_toDoc]
  simp only [hw, and_true, decide_eq_true_eq]
  have hzero : 0 ≤ c.seq ∧ c.seq ≤ 0 ↔ c.seq = 0 := by omega
  rw [hzero]

theorem found_single (hnow : 0 ≤ now) {m : Msg} (hw : InWindow now (writeMonth saved m.sendTime)) :
    (kept cfg n (saved, .single m)).filter (foundBy cfg n now u ss se) =
      if rangeOf cfg n m.receiverId = rangeOf cfg n u ∧
        ((m.receiverId = u ∧ m.seq = 0) ∨ (m.senderId = u ∧ ss ≤ m.sendSeq ∧ m.sendSeq ≤ se))
      then [(shelf cfg n saved m.receiverId m.sendTime, toDoc m)] else [] := by
  have hkept : kept cfg n (saved, .single m) =
      [(shelf cfg n saved m.receiverId m.sendTime, toDoc m)] := rfl
  rw [hkept, List.filter_cons, List.filter_nil]
  simp only [foundBy_copy cfg n u ss se hnow m hw]

variable {m : Msg} {members : List GroupMemSeq}

/-- The copy of a member. -/
def memberCopy (m : Msg) (v : GroupMemSeq) : Msg :=
  { m with sendSeq := 0, seq := v.curSeq, receiverId := v.memId }

/-- The sender's copy and the members' copies do not get in each other's way. -/
theorem kept_group (h : m.senderId ∉ members.map (·.memId)) :
    kept cfg n (saved, .group m members) =
      (shelf cfg n saved m.senderId m.sendTime, toDoc { m with receiverId := m.senderId }) ::
        Unique.enterAll Mongo.docKey [] (placed cfg n saved (members.map (memberCopy m))) := by
  have hnew : ∀ p ∈ placed cfg n saved (members.map (memberCopy m)), Mongo.docKey p ∉
      [(shelf cfg n saved m.senderId m.sendTime, toDoc { m with receiverId := m.senderId })].map
        Mongo.docKey := by
    intro p hp hk
    obtain ⟨c, hc, rfl⟩ := List.mem_map.mp hp
    obtain ⟨v, hv, rfl⟩ := List.mem_map.mp hc
    rw [List.map_singleton, List.mem_singleton] at hk
    have hsame : v.memId = m.senderId := Option.some.inj (congrArg (fun k => k.2.2) hk)
    exact h (List.mem_map.mpr ⟨v, hv, hsame⟩)
  exact Unique.enterAll_append_left (z := []) hnew

/-- The members' copies that the sender finds are those in the sender's shard, if the range
starts with 0. -/
theorem found_members (hnow : 0 ≤ now) (hw : InWindow now (writeMonth saved m.sendTime))
    (hu : m.senderId = u) (h : m.senderId ∉ members.map (·.memId)) :
    (Unique.enterAll Mongo.docKey [] (placed cfg n saved (members.map (memberCopy m)))).filter
        (foundBy cfg n now u ss se) =
      Unique.enterAll Mongo.docKey [] (placed cfg n saved ((members.filter fun v =>
        decide (ss ≤ 0 ∧ 0 ≤ se) && rangeOf cfg n v.memId = rangeOf cfg n u).map (memberCopy m))) := by
  have hfound : ∀ v ∈ members, foundBy cfg n now u ss se
      (shelf cfg n saved v.memId m.sendTime, toDoc (memberCopy m v)) =
        (decide (ss ≤ 0 ∧ 0 ≤ se) && rangeOf cfg n v.memId = rangeOf cfg n u) := by
    intro v hv
    have hne : v.memId ≠ u := fun he => h (List.mem_map.mpr ⟨v, hv, he.trans hu.symm⟩)
    rw [Bool.eq_iff_iff]
    refine (foundBy_copy cfg n u ss se hnow (memberCopy m v) hw).trans ?_
    simp [memberCopy, hne, hu, and_comm]
  have hread : ∀ v ∈ members, decide (shelf cfg n saved v.memId m.sendTime ∈ readNames cfg n now u) =
      decide (rangeOf cfg n v.memId = rangeOf cfg n u) := by
    intro v _
    rw [decide_eq_decide, shelf_mem_readNames hnow]
    simp [hw]
  have hkey : ∀ p ∈ Unique.enterAll Mongo.docKey [] (placed cfg n saved (members.map (memberCopy m))),
      foundBy cfg n now u ss se p =
        (decide (ss ≤ 0 ∧ 0 ≤ se) && decide (p.1 ∈ readNames cfg n now u)) := by
    intro p hp
    obtain hp | hp := Unique.mem_enterAll hp
    · cases hp
    · obtain ⟨c, hc, rfl⟩ := List.mem_map.mp hp
      obtain ⟨v, hv, rfl⟩ := List.mem_map.mp hc
      exact (hfound v hv).trans (congrArg _ (hread v hv).symm)
  rw [List.filter_congr hkey]
  refine (Unique.filter_enterAll Mongo.docKey (fun k =>
    decide (ss ≤ 0 ∧ 0 ≤ se) && decide (k.1 ∈ readNames cfg n now u)) fun _ => rfl).trans ?_
  congr 1
  rw [placed, placed, List.map_map, List.map_map, List.filter_map]
  congr 1
  apply List.filter_congr
  intro v hv
  exact congrArg _ (hread v hv)

theorem length_members (vs : List GroupMemSeq) :
    (Unique.enterAll Mongo.docKey [] (placed cfg n saved (vs.map (memberCopy m)))).length ≤ 1 ↔
      ∀ v ∈ vs, ∀ v' ∈ vs, v.memId = v'.memId := by
  have hkey : ∀ v v' : GroupMemSeq,
      Mongo.docKey (shelf cfg n saved v.memId m.sendTime, toDoc (memberCopy m v)) =
        Mongo.docKey (shelf cfg n saved v'.memId m.sendTime, toDoc (memberCopy m v')) ↔
      v.memId = v'.memId := by
    intro v v'
    constructor
    · intro he
      exact Option.some.inj (congrArg (fun k => k.2.2) he)
    · intro he
      simp [Mongo.docKey, Mongo.uniqueKey, memberCopy, he]
  rw [Unique.length_enterAll_le_one]
  simp only [placed, List.map_map, List.forall_mem_map]
  exact forall₂_congr fun v _ => forall₂_congr fun v' _ => hkey v v'

/-- How often the sender finds a group message. -/
theorem found_group (hnow : 0 ≤ now) (hw : InWindow now (writeMonth saved m.sendTime))
    (hu : m.senderId = u) (h : m.senderId ∉ members.map (·.memId)) (hss : 0 ≤ ss) :
    ((kept cfg n (saved, .group m members)).filter (foundBy cfg n now u ss se)).length ≤ 1 ↔
      (Save.group m members).ShardsAllow cfg n u ss se := by
  have hown := foundBy_copy cfg n u ss se hnow { m with receiverId := m.senderId } hw
  simp only [hu, true_and] at hown
  rw [kept_group h, List.filter_cons, found_members hnow hw hu h]
  simp only [hu, hown]
  by_cases hrange : ss ≤ 0 ∧ 0 ≤ se
  · obtain rfl : ss = 0 := by omega
    simp only [hrange.2, le_refl, and_self, decide_true, Bool.true_and, Save.ShardsAllow,
      forall_const]
    by_cases hfound : m.seq = 0 ∨ 0 ≤ m.sendSeq ∧ m.sendSeq ≤ se
    · rw [if_pos hfound, if_pos hfound]
      simp [Unique.enterAll_eq_nil, placed]
    · rw [if_neg hfound, if_neg hfound, length_members]
  · simp only [hrange, decide_false, Bool.false_and, List.filter_false, List.map_nil, placed,
      Unique.enterAll_nil]
    refine iff_of_true ?_ fun hzero hse => absurd ⟨hzero.le, hse⟩ hrange
    split <;> simp

end OneSave

section Found

variable {now : Int} {u : UserId} {ss se : Int} {s : Int × Save}

/-- Of the message of another sender the reader finds at most the copy for itself. -/
theorem found_other (hu : s.2.message.senderId ≠ u) :
    ((kept cfg n s).filter (foundBy cfg n now u ss se)).length ≤ 1 := by
  have hnodup : (((kept cfg n s).filter (foundBy cfg n now u ss se)).map Mongo.docKey).Nodup := by
    have hall : ((kept cfg n s).map Mongo.docKey).Nodup := Unique.nodup_enterAll (by simp)
    exact hall.sublist (List.filter_sublist.map _)
  have hkey : ∀ p ∈ (kept cfg n s).filter (foundBy cfg n now u ss se), Mongo.docKey p =
      (shelf cfg n s.1 u s.2.message.sendTime, some s.2.message.serverId, some u) := by
    intro p hp
    obtain ⟨hp, hfound⟩ := List.mem_filter.mp hp
    obtain hp | hp := Unique.mem_enterAll hp
    · cases hp
    · obtain ⟨c, hc, rfl⟩ := List.mem_map.mp hp
      obtain ⟨hserver, hsender, htime⟩ := Save.of_mem_copies hc
      rw [foundBy, Bool.and_eq_true, Save.matchMsgs_toDoc] at hfound
      have hreceiver : c.receiverId = u := by
        obtain ⟨hreceiver, -⟩ | ⟨hmine, -⟩ := hfound.2
        · exact hreceiver
        · exact absurd (hsender.symm.trans hmine) hu
      simp [Mongo.docKey, Mongo.uniqueKey, hreceiver, htime, hserver]
  rw [Unique.length_le_one_iff hnodup]
  intro a ha b hb
  rw [hkey a ha, hkey b hb]

/-- When the sender finds a message, and finds it once. -/
theorem found_once_iff (cfg : Config) (n : Nat) (u : UserId) (se : Int) (hnow : 0 ≤ now)
    (hw : InWindow now (writeMonth s.1 s.2.message.sendTime))
    (h : s.2.WithoutSender) (hss : 0 ≤ ss) :
    (((kept cfg n s).filter (foundBy cfg n now u ss se)).length ≤ 1 ∧ (s.2.SentBy u ss se →
      ∃ p, p ∈ (kept cfg n s).filter (foundBy cfg n now u ss se))) ↔
      (s.2.message.senderId = u → s.2.ShardsAllow cfg n u ss se) := by
  obtain ⟨saved, s⟩ := s
  by_cases hu : s.message.senderId = u
  · cases s with
    | single m =>
      have hu : m.senderId = u := hu
      have hw : InWindow now (writeMonth saved m.sendTime) := hw
      rw [found_single hnow hw]
      simp only [Save.message, hu, true_and, forall_const, Save.SentBy, Save.ShardsAllow]
      constructor
      · rintro ⟨-, hsent⟩ hlow hhigh
        obtain ⟨p, hp⟩ := hsent ⟨hlow, hhigh⟩
        split at hp
        · rename_i hfound
          exact hfound.1
        · cases hp
      · intro hrange
        refine ⟨by split <;> simp, ?_⟩
        rintro ⟨hlow, hhigh⟩
        rw [if_pos ⟨hrange hlow hhigh, .inr ⟨hlow.le, hhigh⟩⟩]
        exact ⟨_, List.mem_singleton.mpr rfl⟩
    | group m members =>
      have hu : m.senderId = u := hu
      have hw : InWindow now (writeMonth saved m.sendTime) := hw
      rw [found_group hnow hw hu h hss]
      refine ⟨fun hallow _ => hallow.1, fun hallow => ⟨hallow hu, ?_⟩⟩
      rintro ⟨-, hlow, hhigh⟩
      refine ⟨(shelf cfg n saved m.senderId m.sendTime, toDoc { m with receiverId := m.senderId }),
        List.mem_filter.mpr ⟨?_, ?_⟩⟩
      · rw [kept_group h]
        exact List.mem_cons_self
      · rw [foundBy_copy cfg n u ss se hnow { m with receiverId := m.senderId } hw]
        exact ⟨congrArg _ hu, .inr ⟨hu, hlow.le, hhigh⟩⟩
  · exact iff_of_true ⟨found_other hu, fun hsent => absurd hsent.1 hu⟩ fun he => absurd he hu

end Found

/-- Sent messages are found once exactly if the shards of their receivers allow it. -/
theorem sent_once_iff (hbox : cfg.box = .sharded n) (hw : w.EmptyInbox) (saves : List (Int × Save))
    (hids : (saves.map fun s => s.2.message.serverId).Nodup)
    (hmembers : ∀ s ∈ saves, s.2.WithoutSender) (now : Int) (hnow : 0 ≤ now)
    (hwindow : ∀ s ∈ saves, InWindow now (writeMonth s.1 s.2.message.sendTime)) (u : UserId)
    (ss se : Int) (hss : 0 ≤ ss) :
    SentOnce cfg n saves u ss se ((w.afterSaves cfg saves).atTime now) ↔
      n ≠ 0 ∧ capacityFits (se - ss) = true ∧
        ∀ s ∈ saves, s.2.message.senderId = u → s.2.ShardsAllow cfg n u ss se := by
  by_cases hn : n = 0
  · subst hn
    refine ⟨?_, fun h => absurd rfl h.1⟩
    rintro ⟨res, hres, -⟩
    rw [getMsgs_zero] at hres
    cases hres
  have hlen : se - ss + (0 - 0) = se - ss := by omega
  have hsound : ((w.afterSaves cfg saves).atTime now).mongo.Sound :=
    (docs_afterSaves hbox hn hw.sound saves).1
  have hresult := getMsgs_result cfg hn hsound u ss se 0 0
  rw [hlen] at hresult
  have hperm : (msgsIn cfg n ((w.afterSaves cfg saves).atTime now) u ss se 0 0).Perm
      (saves.flatMap fun s => ((kept cfg n s).filter (foundBy cfg n now u ss se)).map
        fun p => (Msg.tryFrom p.2).shownTo u) := by
    refine (msgsIn_perm (w := (w.afterSaves cfg saves).atTime now) hnow u ss se 0 0).trans (.of_eq ?_)
    rw [World.atTime_mongo, docs_eq_kept hbox hn hw hids, List.filter_flatMap, List.map_flatMap]
    rfl
  have hkey : ∀ s ∈ saves, ∀ m ∈ ((kept cfg n s).filter (foundBy cfg n now u ss se)).map
      fun p => (Msg.tryFrom p.2).shownTo u, m.serverId = s.2.message.serverId := by
    intro s _ m hm
    obtain ⟨p, hp, rfl⟩ := List.mem_map.mp hm
    obtain hp | hp := Unique.mem_enterAll (List.mem_filter.mp hp).1
    · cases hp
    · rw [Msg.shownTo_serverId]
      change (p.2.getStr .serverId).getD "" = _
      rw [serverId_of_mem_placed hp]
      rfl
  have hmem := fun k => Unique.mem_flatMap_key (k := k) hkey
  have hnodup := Unique.nodup_flatMap_key hids hkey
  have honce := fun s hs => found_once_iff cfg n u se hnow (hwindow s hs) (hmembers s hs) hss
  constructor
  · rintro ⟨res, hres, hall, hdistinct⟩
    rw [hresult] at hres
    split at hres
    · rename_i hcap
      obtain rfl := Except.ok.inj hres
      refine ⟨hn, hcap, fun s hs => (honce s hs).mp ⟨?_, fun hsent => ?_⟩⟩
      · rw [(hperm.map _).nodup_iff, hnodup] at hdistinct
        have hlength := hdistinct s hs
        rwa [List.length_map] at hlength
      · have hfound := hall s hs hsent
        rw [(hperm.map _).mem_iff, hmem] at hfound
        obtain ⟨t, ht, hid, m, hm⟩ := hfound
        obtain rfl := List.inj_on_of_nodup_map hids ht hs hid
        obtain ⟨p, hp, -⟩ := List.mem_map.mp hm
        exact ⟨p, hp⟩
    · cases hres
  · rintro ⟨-, hcap, hallow⟩
    rw [if_pos hcap] at hresult
    refine ⟨_, hresult, fun s hs hsent => ?_, ?_⟩
    · obtain ⟨p, hp⟩ := ((honce s hs).mpr (hallow s hs)).2 hsent
      rw [(hperm.map _).mem_iff, hmem]
      exact ⟨s, hs, rfl, _, List.mem_map_of_mem hp⟩
    · rw [(hperm.map _).nodup_iff, hnodup]
      intro s hs
      rw [List.length_map]
      exact ((honce s hs).mpr (hallow s hs)).1

/-- The letter and the circular are in the window when they are read at once. -/
theorem circularTo_window : ∀ s ∈ circularTo [⟨"b", 2, 10, false⟩],
    InWindow 0 (writeMonth s.1 s.2.message.sendTime) := by
  decide

theorem circularTo_members : ∀ s ∈ circularTo [⟨"b", 2, 10, false⟩], s.2.WithoutSender := by
  simp [circularTo, Save.WithoutSender, circular]

theorem sent_once_circular :
    SentOnce .oneShard 1 (circularTo [⟨"b", 2, 10, false⟩]) "a" 1 10
      ((World.empty.afterSaves .oneShard (circularTo [⟨"b", 2, 10, false⟩])).atTime 0) :=
  (sent_once_iff rfl World.emptyInbox_empty (circularTo [⟨"b", 2, 10, false⟩]) (by decide)
    circularTo_members 0 (by decide) circularTo_window "a" 1 10 (by decide)).mpr
      ⟨by decide, by decide, by simp [circularTo, Save.ShardsAllow, letter]⟩

/-- From the start, the sender finds the copy of a member in its shard next to its own. -/
theorem sent_twice_in_one_shard :
    ((circularTo [⟨"b", 2, 10, false⟩]).map fun s => s.2.message.serverId).Nodup ∧
    (∀ s ∈ circularTo [⟨"b", 2, 10, false⟩], s.2.WithoutSender) ∧
    (∀ s ∈ circularTo [⟨"b", 2, 10, false⟩], InWindow 0 (writeMonth s.1 s.2.message.sendTime)) ∧
    ¬ SentOnce .oneShard 1 (circularTo [⟨"b", 2, 10, false⟩]) "a" 0 10
      ((World.empty.afterSaves .oneShard (circularTo [⟨"b", 2, 10, false⟩])).atTime 0) := by
  refine ⟨by decide, circularTo_members, circularTo_window, ?_⟩
  rintro ⟨res, hres, -, hdistinct⟩
  have hsound : ((World.empty.afterSaves .oneShard (circularTo [⟨"b", 2, 10, false⟩])).atTime
      0).mongo.Sound := (docs_afterSaves rfl (by decide) World.emptyInbox_empty.sound _).1
  rw [getMsgs_result .oneShard (by decide) hsound, if_pos (by decide)] at hres
  obtain rfl := Except.ok.inj hres
  revert hdistinct
  decide

end HybridShardedMsgBox

end Sandcat
